/-! Classes of characters as closed ranges of code points. A class is a list of
ranges that ascends, so a search can stop at the first range that begins above
the code point; for the ASCII part of a class that is a handful of comparisons. -/
namespace SqlLayout.Text

def inRanges : List (Nat × Nat) → Nat → Bool
  | [], _ => false
  | (low, high) :: rest, code =>
    if code < low then false else decide (code ≤ high) || inRanges rest code

@[simp] theorem inRanges_nil (code : Nat) : inRanges [] code = false := rfl

theorem exists_range_of_inRanges (ranges : List (Nat × Nat)) (code : Nat)
    (found : inRanges ranges code = true) :
    ∃ range ∈ ranges, range.1 ≤ code ∧ code ≤ range.2 := by
  induction ranges with
  | nil => simp at found
  | cons head rest ih =>
    obtain ⟨low, high⟩ := head
    by_cases below : code < low
    · simp [inRanges, below] at found
    · simp only [inRanges, if_neg below, Bool.or_eq_true, decide_eq_true_eq] at found
      rcases found with here | later
      · exact ⟨(low, high), by simp, by omega, here⟩
      · obtain ⟨range, member, bounds⟩ := ih later
        exact ⟨range, List.mem_cons_of_mem _ member, bounds⟩

theorem inRanges_of_mem (ranges : List (Nat × Nat))
    (ascending : ranges.Pairwise fun first second => first.1 ≤ second.1) (range : Nat × Nat)
    (member : range ∈ ranges) (code : Nat) (low : range.1 ≤ code) (high : code ≤ range.2) :
    inRanges ranges code = true := by
  induction ranges with
  | nil => simp at member
  | cons head rest ih =>
    obtain ⟨below, others⟩ := List.pairwise_cons.1 ascending
    rw [inRanges]
    rcases List.mem_cons.1 member with rfl | later
    · simp [Nat.not_lt.2 low, high]
    · have start := below range later
      rw [if_neg (by omega), ih others later, Bool.or_true]

end SqlLayout.Text

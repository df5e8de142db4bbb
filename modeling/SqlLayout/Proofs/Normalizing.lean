import Mathlib.Data.List.Basic
import Mathlib.Data.List.DropRight
import SqlLayout.Proofs.Casing

/-! Texts in upper case without blanks around them. Blanks have no case, and letter case brings
none into a text, so the words of a text and the blanks at its ends are in upper case where they
were before. The tables give no other upper case to what they lead to, which makes upper case
final, and few of them make several characters of one. -/
namespace SqlLayout.Text

structure IsTrimmed (chars : List Char) : Prop where
  start : ∀ c, chars.head? = some c → isBlank c = false
  stop : ∀ c, chars.getLast? = some c → isBlank c = false

theorem isUpperCode_of_run (run : CaseRun) (member : run ∈ upperRuns) (code : Nat)
    (low : run.first ≤ code) (high : code ≤ run.last) (even : (code - run.first) % run.step = 0) :
    isUpperCode (code + run.shift).toNat = true := by
  obtain ⟨unexpanded, unmoved⟩ := upperRuns_final
  have sound := soundTables_upper.runs run member
  have positive : 0 ≤ run.first + run.shift := by
    simp only [CaseRun.isSound, Bool.or_eq_true, Bool.and_eq_true, decide_eq_true_eq] at sound
    omega
  have above : run.low ≤ (code + run.shift).toNat := by
    unfold CaseRun.low
    omega
  have below : (code + run.shift).toNat ≤ run.high := by
    unfold CaseRun.high
    omega
  have place : (code + run.shift).toNat - run.low = code - run.first := by
    unfold CaseRun.low
    omega
  rw [List.all_eq_true] at unexpanded unmoved
  have kept := expansionIn_of_isUnexpanded _ _ _ _ (unexpanded run member) above below
  have stays := shiftIn_of_isUnmoved _ _ _ _ _ (unmoved run member) above below (by rwa [place])
  simp only [isUpperCode, kept, stays, Option.isNone_none, Bool.and_self]

theorem toNat_ofNat_of_letter (code : Nat)
    (letter : isLetterCode (Char.ofNat code).toNat = true) : (Char.ofNat code).toNat = code := by
  by_cases valid : code.isValidChar
  · rw [Char.ofNat, dif_pos valid]
    rfl
  · rw [Char.ofNat, dif_neg valid] at letter
    exact absurd letter (by decide)

theorem upperOf_ne_nil (c : Char) : upperOf c ≠ [] :=
  soundTables_upper.mapCase_ne_nil c

theorem upperOf_of_mem_upperOf (c image : Char) (member : image ∈ upperOf c) :
    upperOf image = [image] := by
  rcases soundTables_upper.mapCase_cases c with same | letters
  · rw [upperOf, same, List.mem_singleton] at member
    rw [member, upperOf, same]
  · have letter := letters image member
    refine upperOf_of_isUpperCode image ?_
    unfold upperOf mapCase at member
    split at member
    · rename_i codes found
      have entry := mem_of_expansionIn upperExpansions c.toNat codes found
      obtain ⟨code, inside, rfl⟩ := List.mem_map.1 member
      rw [toNat_ofNat_of_letter code letter]
      exact List.all_eq_true.1 (List.all_eq_true.1 upperExpansions_final _ entry) code inside
    · rename_i unexpanded
      split at member
      · rename_i shift found
        obtain ⟨run, inside, low, high, even, rfl⟩ := mem_of_shiftIn upperRuns c.toNat shift found
        rw [List.mem_singleton.1 member] at letter ⊢
        rw [toNat_ofNat_of_letter _ letter]
        exact isUpperCode_of_run run inside c.toNat low high even
      · rename_i unmoved
        rw [List.mem_singleton.1 member]
        simp [isUpperCode, unexpanded, unmoved]

theorem upper_upper (text : String) : upper (upper text) = upper text := by
  refine String.toList_inj.1 ?_
  rw [upper_toList, upper_toList, List.flatMap_assoc]
  refine List.flatMap_congr fun c _ => ?_
  have final : (upperOf c).flatMap upperOf = (upperOf c).flatMap fun image => [image] :=
    List.flatMap_congr fun image member => upperOf_of_mem_upperOf c image member
  rw [final, List.flatMap_singleton']

theorem length_mapCase (expansions : List (Nat × List Nat)) (runs : List CaseRun) (c : Char)
    (single : ∀ image, expansionIn expansions c.toNat = some image → image.length = 1) :
    (mapCase expansions runs c).length = 1 := by
  unfold mapCase
  split
  · rename_i image found
    rw [List.length_map, single image found]
  · split <;> rfl

/-- A text is as long as it is in upper case if no part of that is the expansion of a single
character. -/
theorem length_upper (text : String)
    (apart : ∀ entry ∈ upperExpansions,
      entry.2.length = 1 ∨ ¬entry.2.map Char.ofNat <:+: (upper text).toList) :
    (upper text).length = text.length := by
  have each : ∀ c ∈ text.toList, (upperOf c).length = 1 := by
    intro c member
    have inside : upperOf c <:+: (upper text).toList := by
      rw [upper_toList]
      exact List.infix_flatMap_of_mem member upperOf
    refine length_mapCase upperExpansions upperRuns c fun image found => ?_
    have shown : upperOf c = image.map Char.ofNat := by simp only [upperOf, mapCase, found]
    rw [shown] at inside
    exact (apart _ (mem_of_expansionIn _ _ image found)).resolve_right (not_not.2 inside)
  rw [← String.length_toList, ← String.length_toList, upper_toList, List.length_flatMap,
    List.map_congr_left each, List.map_const', List.sum_replicate_nat, Nat.mul_one]

/-- Only one character has a longer lower case. -/
theorem length_lower (text : String) (plain : 'İ' ∉ text.toList) :
    (lower text).length = text.length := by
  rw [← String.length_toList, ← String.length_toList, lower_toList]
  generalize text.toList = chars at plain ⊢
  generalize ([] : List Char) = before
  induction chars generalizing before with
  | nil => rfl
  | cons c rest ih =>
    rw [List.mem_cons, not_or] at plain
    have here : (lowerAt before c rest).length = 1 := by
      unfold lowerAt
      split
      · rfl
      · refine length_mapCase lowerExpansions lowerRuns c fun image found => ?_
        have entry := mem_of_expansionIn _ _ image found
        rw [lowerExpansions, List.mem_singleton, Prod.mk.injEq] at entry
        exact absurd (Char.toNat_inj.1 entry.1).symm plain.1
    rw [lowerChars_cons, List.length_append, here, ih plain.2 _, List.length_cons, Nat.add_comm]

theorem upperOf_of_isBlank (c : Char) (blank : isBlank c = true) : upperOf c = [c] := by
  have final : (blankRanges.all fun range =>
      isUnexpanded range.1 range.2 upperExpansions &&
        isUnmoved range.1 range.2 1 upperRuns) = true := by
    decide +kernel
  obtain ⟨range, member, low, high⟩ := exists_range_of_inRanges _ _ blank
  have clear := List.all_eq_true.1 final range member
  rw [Bool.and_eq_true] at clear
  refine upperOf_of_isUpperCode c ?_
  simp only [isUpperCode, expansionIn_of_isUnexpanded _ _ _ _ clear.1 low high,
    shiftIn_of_isUnmoved _ _ _ _ _ clear.2 low high (Nat.mod_one _), Option.isNone_none,
    Bool.and_self]

theorem visible_of_mem_upperOf (c image : Char) (visible : isBlank c = false)
    (member : image ∈ upperOf c) : isBlank image = false := by
  rcases soundTables_upper.mapCase_cases c with same | letters
  · rw [upperOf, same, List.mem_singleton] at member
    rwa [member]
  · exact isBlank_of_isLetterCode image (letters image member)

theorem blank_upper_iff (text : String) :
    (∀ c ∈ (upper text).toList, isBlank c = true) ↔ ∀ c ∈ text.toList, isBlank c = true := by
  rw [upper_toList]
  constructor
  · intro all c member
    cases blank : isBlank c with
    | true => rfl
    | false =>
      obtain ⟨image, inside⟩ := List.exists_mem_of_ne_nil _ (upperOf_ne_nil c)
      have shown := all image (List.mem_flatMap.2 ⟨c, member, inside⟩)
      rw [visible_of_mem_upperOf c image blank inside] at shown
      exact absurd shown Bool.false_ne_true
  · intro all image member
    obtain ⟨c, inside, held⟩ := List.mem_flatMap.1 member
    rw [upperOf_of_isBlank c (all c inside), List.mem_singleton] at held
    rw [held]
    exact all c inside

theorem fields_eq_nil_iff (text : String) :
    fields text = [] ↔ ∀ c ∈ text.toList, isBlank c = true := by
  have whole := fieldChars_flatten text.toList
  rw [fields, List.map_eq_nil_iff]
  constructor
  · intro none c member
    rw [none, List.flatten_nil, eq_comm, List.filter_eq_nil_iff] at whole
    simpa using whole c member
  · intro all
    rw [List.filter_eq_nil_iff.2 (by simpa using all), List.flatten_eq_nil_iff] at whole
    refine List.eq_nil_iff_forall_not_mem.2 fun field member => ?_
    exact ne_nil_of_mem_fieldChars text.toList field member (whole field member)

theorem isTrimmed_stripChars (chars : List Char) : IsTrimmed (stripChars chars) := by
  change IsTrimmed ((chars.dropWhile isBlank).rdropWhile isBlank)
  have begins := List.rdropWhile_prefix isBlank (chars.dropWhile isBlank)
  constructor
  · intro c head
    obtain ⟨rest, whole⟩ := List.head?_eq_some_iff.1 head
    obtain ⟨more, split⟩ := begins
    rw [whole] at split
    have stays := List.head?_dropWhile_not isBlank chars
    rw [← split] at stays
    simpa using stays
  · intro c last
    obtain ⟨front, whole⟩ := List.getLast?_eq_some_iff.1 last
    have filled : (chars.dropWhile isBlank).rdropWhile isBlank ≠ [] := by simp [whole]
    have stays := List.rdropWhile_last_not isBlank _ filled
    rw [List.getLast?_eq_some_getLast filled, Option.some.injEq] at last
    rw [last] at stays
    simpa using stays

namespace IsTrimmed

variable {chars : List Char} {text : String}

theorem stripChars_eq (trimmed : IsTrimmed chars) : stripChars chars = chars := by
  change (chars.dropWhile isBlank).rdropWhile isBlank = chars
  have front : chars.dropWhile isBlank = chars := by
    cases chars with
    | nil => rfl
    | cons c rest => rw [List.dropWhile_cons_of_neg (by simp [trimmed.start c rfl])]
  rw [front, List.rdropWhile_eq_self_iff]
  intro filled blank
  rw [trimmed.stop _ (List.getLast?_eq_some_getLast filled)] at blank
  exact absurd blank Bool.false_ne_true

theorem strip_eq (trimmed : IsTrimmed text.toList) : strip text = text := by
  rw [strip, trimmed.stripChars_eq, String.ofList_toList]

theorem upper (trimmed : IsTrimmed text.toList) : IsTrimmed (Text.upper text).toList := by
  rw [upper_toList]
  constructor
  · intro image head
    cases chars : text.toList with
    | nil => simp [chars] at head
    | cons c rest =>
      rw [chars, List.flatMap_cons, List.head?_append_of_ne_nil _
        (upperOf_ne_nil c)] at head
      exact visible_of_mem_upperOf c image (trimmed.start c (by rw [chars]; rfl))
        (List.mem_of_head? head)
  · intro image last
    rcases List.eq_nil_or_concat text.toList with none | ⟨front, c, chars⟩
    · simp [none] at last
    · rw [chars, List.concat_eq_append, List.flatMap_append, List.flatMap_singleton,
        List.getLast?_append_of_ne_nil _ (upperOf_ne_nil c)] at last
      exact visible_of_mem_upperOf c image (trimmed.stop c (by simp [chars]))
        (List.mem_of_getLast? last)

end IsTrimmed

theorem isTrimmed_strip (text : String) : IsTrimmed (strip text).toList := by
  rw [strip, String.toList_ofList]
  exact isTrimmed_stripChars text.toList

end SqlLayout.Text

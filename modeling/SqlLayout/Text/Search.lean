/-! Where a sequence of characters occurs in another. -/
namespace SqlLayout.Text

def findSequence (wanted : List Char) : List Char → Option Nat
  | [] => if wanted.isEmpty then some 0 else none
  | c :: rest =>
    if wanted.isPrefixOf (c :: rest) then some 0 else (findSequence wanted rest).map (· + 1)

theorem findSequence_occurs (wanted chars : List Char) (place : Nat)
    (found : findSequence wanted chars = some place) :
    wanted.isPrefixOf (chars.drop place) = true := by
  induction chars generalizing place with
  | nil =>
    simp only [findSequence] at found
    split at found <;> simp_all
  | cons c rest ih =>
    simp only [findSequence] at found
    split at found
    · rename_i here
      simp only [Option.some.injEq] at found
      simpa [← found] using here
    · obtain ⟨before, step, rfl⟩ := Option.map_eq_some_iff.1 found
      simpa using ih before step

end SqlLayout.Text

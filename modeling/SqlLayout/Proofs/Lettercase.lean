import SqlLayout.Proofs.Casing
import SqlLayout.Style.Choice

/-! What letter case does to a text. A character keeps its place or gives way to letters, so a
sign never appears that was not there before, and no text disappears. -/
namespace SqlLayout.Style.WordCase

open Text

/-- A style takes a text character by character: each stays, or becomes one or more letters. -/
theorem apply_induction (choice : WordCase) (motive : List Char → List Char → Prop)
    (nil : motive [] [])
    (cons : ∀ c images rest others, images ≠ [] →
      (images = [c] ∨ ∀ image ∈ images, isLetterCode image.toNat = true) → motive rest others →
      motive (c :: rest) (images ++ others))
    (text : String) : motive text.toList (choice.apply text).toList := by
  cases choice with
  | asIs =>
    simp only [apply]
    induction text.toList with
    | nil => exact nil
    | cons c rest ih => exact cons c [c] rest rest (by simp) (.inl rfl) ih
  | upper =>
    rw [apply, upper_toList]
    induction text.toList with
    | nil => exact nil
    | cons c rest ih =>
      rw [List.flatMap_cons]
      exact cons c _ rest _ (soundTables_upper.mapCase_ne_nil c)
        (soundTables_upper.mapCase_cases c) ih
  | lower =>
    rw [apply, lower_toList]
    generalize ([] : List Char) = before
    induction text.toList generalizing before with
    | nil => exact nil
    | cons c rest ih =>
      rw [lowerChars_cons]
      exact cons c _ rest _ (lowerAt_ne_nil before c rest) (lowerAt_cases before c rest)
        (ih (c :: before))

theorem apply_ne_empty (choice : WordCase) (text : String) (filled : text ≠ "") :
    choice.apply text ≠ "" := by
  have kept := choice.apply_induction (fun source shown => source ≠ [] → shown ≠ [])
    (fun absent => absent)
    (fun c images rest others full _ _ _ => by simp [full]) text
  intro empty
  rw [empty] at kept
  exact kept (fun nothing => filled (String.toList_eq_nil_iff.1 nothing)) rfl

theorem mem_apply (choice : WordCase) (text : String) (image : Char)
    (member : image ∈ (choice.apply text).toList) :
    image ∈ text.toList ∨ isLetterCode image.toNat = true := by
  have kept := choice.apply_induction
    (fun source shown => ∀ image ∈ shown, image ∈ source ∨ isLetterCode image.toNat = true)
    (by simp)
    (by
      intro c images rest others _ stays ih image inside
      rcases List.mem_append.1 inside with here | later
      · rcases stays with same | letters
        · rw [same, List.mem_singleton] at here
          exact .inl (by simp [here])
        · exact .inr (letters image here)
      · rcases ih image later with kept | letter
        · exact .inl (List.mem_cons_of_mem _ kept)
        · exact .inr letter) text
  exact kept image member

theorem count_apply_le (choice : WordCase) (text : String) (sign : Char)
    (noLetter : isLetterCode sign.toNat = false) :
    (choice.apply text).toList.count sign ≤ text.toList.count sign := by
  refine choice.apply_induction (fun source shown => shown.count sign ≤ source.count sign)
    (Nat.le_refl _) ?_ text
  intro c images rest others _ stays ih
  rw [List.count_append, List.count_cons]
  rcases stays with same | letters
  · rw [same, List.count_singleton]
    omega
  · have none : images.count sign = 0 := by
      refine List.count_eq_zero.2 fun member => ?_
      simp [letters sign member] at noLetter
    omega

end SqlLayout.Style.WordCase

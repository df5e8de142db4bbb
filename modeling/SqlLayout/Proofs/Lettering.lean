import Mathlib.Data.List.Basic
import SqlLayout.Proofs.Lettercase
import SqlLayout.Token.Lexer

/-! Letter case within ASCII. There a case changes every character by itself and into one
character of the same class, so that a text keeps its length, its blanks and its words; and
what was put into a case twice has the second one. -/
namespace SqlLayout.Text

def IsAscii (chars : List Char) : Prop :=
  ∀ c ∈ chars, c.toNat < 128

theorem IsAscii.of_sublist {first second : List Char} (ascii : IsAscii second)
    (sub : first.Sublist second) : IsAscii first :=
  fun c member => ascii c (sub.subset member)

theorem forall_ascii (property : Char → Prop)
    (codes : ∀ code < 128, property (Char.ofNat code)) (c : Char) (ascii : c.toNat < 128) :
    property c := by
  rw [← Char.ofNat_toNat c]
  exact codes c.toNat ascii

theorem upperOf_ascii (c : Char) (ascii : c.toNat < 128) : upperOf c = [c.toUpper] :=
  forall_ascii (fun c => upperOf c = [c.toUpper]) (by decide +kernel) c ascii

theorem lowerOf_ascii (c : Char) (ascii : c.toNat < 128) : lowerOf c = [c.toLower] :=
  forall_ascii (fun c => lowerOf c = [c.toLower]) (by decide +kernel) c ascii

theorem upper_toList_ascii (text : String) (ascii : IsAscii text.toList) :
    (upper text).toList = text.toList.map Char.toUpper := by
  rw [upper_toList, List.map_eq_flatMap]
  exact List.flatMap_congr fun c member => upperOf_ascii c (ascii c member)

theorem lowerChars_ascii (before chars : List Char) (ascii : IsAscii chars) :
    lowerChars before chars = chars.map Char.toLower := by
  induction chars generalizing before with
  | nil => rfl
  | cons c rest ih =>
    have small := ascii c (by simp)
    have other : c ≠ 'Σ' := by
      rintro rfl
      exact absurd small (by decide)
    rw [lowerChars, if_neg other, lowerOf_ascii c small,
      ih _ fun d member => ascii d (List.mem_cons_of_mem _ member)]
    rfl

end SqlLayout.Text

namespace SqlLayout.Style.WordCase

open Text

def letter : WordCase → Char → Char
  | .asIs => id
  | .upper => Char.toUpper
  | .lower => Char.toLower

theorem apply_toList_ascii (choice : WordCase) (text : String) (ascii : IsAscii text.toList) :
    (choice.apply text).toList = text.toList.map choice.letter := by
  cases choice with
  | asIs => simp [apply, letter]
  | upper => exact upper_toList_ascii text ascii
  | lower => rw [apply, lower_toList, lowerChars_ascii [] text.toList ascii, letter]

structure SameClass (c d : Char) : Prop where
  ascii : d.toNat < 128
  upper : d.toUpper = c.toUpper
  blank : isBlank d = isBlank c
  wordStart : isWordStart d = isWordStart c
  namePart : Token.isNamePart d = Token.isNamePart c
  specialPart : Token.isSpecialNamePart d = Token.isSpecialNamePart c
  sign : isWordStart c = false → d = c

theorem sameClass_letter (choice : WordCase) (c : Char) (ascii : c.toNat < 128) :
    SameClass c (choice.letter c) := by
  refine forall_ascii (fun c => SameClass c (choice.letter c)) ?_ c ascii
  intro code small
  constructor <;> revert code <;> cases choice <;> decide +kernel

theorem letter_letter (choice : WordCase) (c : Char) (ascii : c.toNat < 128) :
    choice.letter (choice.letter c) = choice.letter c := by
  refine forall_ascii (fun c => choice.letter (choice.letter c) = choice.letter c) ?_ c ascii
  cases choice <;> decide +kernel

end SqlLayout.Style.WordCase

import SqlLayout.Proofs.Capitals
import SqlLayout.Proofs.Ordinary

/-! Tokens that stand in a row and are written again. A word that was given a case has the same
letters as before, and stays as it is when it is given this case once more. So if two texts show
the same marks with the same blanks between them, and the first one is a row in which each token
already has the spelling that it is given again, the second one is this row. That the marks are
all tokens of the row, and not some of them, is seen by counting the characters that are not
blank. -/
namespace SqlLayout

open Keyword Layout SqlLayout.Tree

namespace Text

theorem joinField_map (change : Char → Char) (c : Char) {next again : Option Char}
    (same : again.any (!isBlank ·) = next.any (!isBlank ·)) (fields : List (List Char)) :
    joinField (change c) again (fields.map (List.map change)) =
      (joinField c next fields).map (List.map change) := by
  cases fields with
  | nil => rfl
  | cons field others =>
    simp only [List.map_cons, joinField, same]
    split <;> rfl

theorem fieldChars_map (change : Char → Char) (chars : List Char)
    (blank : ∀ c ∈ chars, isBlank (change c) = isBlank c) :
    fieldChars (chars.map change) = (fieldChars chars).map (List.map change) := by
  induction chars with
  | nil => rfl
  | cons c rest ih =>
    rw [List.forall_mem_cons] at blank
    rw [List.map_cons, fieldChars, fieldChars, blank.1, ih blank.2]
    split
    · rfl
    · refine joinField_map change c ?_ _
      cases rest with
      | nil => rfl
      | cons next others => simp [blank.2 next (by simp)]

theorem map_intercalate (change : Char → Char) (sign : List Char) (texts : List (List Char)) :
    (sign.intercalate texts).map change =
      (sign.map change).intercalate (texts.map (List.map change)) := by
  induction texts with
  | nil => rfl
  | cons text rest ih =>
    cases rest with
    | nil => simp
    | cons second others =>
      rw [List.intercalate_cons_cons, List.map_append, List.map_append, ih]
      simp [List.intercalate_cons_cons]

theorem collapse_apply (choice : Style.WordCase) {text : String} (ascii : IsAscii text.toList) :
    collapse (choice.apply text) = choice.apply (collapse text) := by
  have blank : ∀ c ∈ text.toList, isBlank (choice.letter c) = isBlank c :=
    fun c member => (choice.sameClass_letter c (ascii c member)).blank
  have space : [' '].map choice.letter = [' '] := by cases choice <;> rfl
  refine String.toList_injective ?_
  rw [collapse_toList, choice.apply_toList_ascii _ ascii, fieldChars_map _ _ blank,
    choice.apply_toList_ascii _ ascii.collapse, collapse_toList, map_intercalate, space]

namespace SameLetters

variable {first second : List Char}

theorem refl {chars : List Char} (ascii : IsAscii chars) : SameLetters chars chars :=
  List.forall₂_same.2 fun c member => .refl (ascii c member)

theorem apply {text : String} (same : SameLetters first text.toList) (choice : Style.WordCase) :
    SameLetters first (choice.apply text).toList := by
  rw [choice.apply_toList_ascii text same.asciiTwin, SameLetters, List.forall₂_map_right_iff]
  refine same.imp fun c d letter => ?_
  have settled := choice.sameClass_letter d letter.asciiTwin
  exact ⟨letter.ascii, settled.ascii, settled.upper.trans letter.upper⟩

theorem sameLines (same : SameLetters first second) : SameLines first second := by
  induction same with
  | nil => rfl
  | cons letter _ ih =>
    rw [SameLines, List.map_cons, List.map_cons, ih]
    congr 1
    simpa [beq_eq_decide] using letter.eq_iff (isSign_of_not_isAlpha _ (by decide))

theorem length_ink (same : SameLetters first second) :
    (ink second).length = (ink first).length := by
  induction same with
  | nil => rfl
  | cons letter _ ih =>
    have blank := letter.belongs caseless_isBlank
    simp only [ink, List.filter_cons, blank] at ih ⊢
    split
    · rw [List.length_cons, List.length_cons, ih]
    · exact ih

theorem starts (same : SameLetters first second)
    (start : ∃ c rest, first = c :: rest ∧ isBlank c = false) :
    ∃ c rest, second = c :: rest ∧ isBlank c = false := by
  obtain ⟨c, rest, rfl, visible⟩ := start
  cases same with
  | cons letter _ => exact ⟨_, _, rfl, (letter.belongs caseless_isBlank).trans visible⟩

end SameLetters

end Text

namespace Layout

theorem ink_eq_nil {blanks : List Char} (blank : ∀ c ∈ blanks, c = ' ' ∨ c = '\n') :
    ink blanks = [] := by
  refine List.filter_eq_nil_iff.2 fun c member => ?_
  rcases blank c member with rfl | rfl <;> decide

end Layout

namespace Token

open Style Text

/-- A token of ASCII that is called by its text, and with single spaces between its words. -/
structure IsNeat (token : Token) : Prop where
  ascii : IsAscii token.text.toList
  single : token.kind.isWordLike = true → collapse token.text = token.text
  called : token.kind.isWordLike = true →
    token.contents = token.text ∨ token.contents = upper token.text

section Reading

variable {registry : Registry} {token : Token} {behind : List Char}

theorem ReadFrom.collapse_of_free (read : ReadFrom registry token behind)
    (wordLike : token.kind.isWordLike = true) (free : token.isReserved = false) :
    collapse token.text = token.text := by
  cases read.wordRead wordLike with
  | words words given worded ends named =>
    obtain ⟨word, others, rfl, called⟩ := named
    split at called
    · simp [isReserved, called.2.1] at free
    · obtain ⟨rfl, -⟩ := called
      have whole := worded.eq_of_single
      have plain := worded.plain word (List.mem_singleton_self word)
      obtain ⟨c, rest, start, -⟩ := plain.start
      refine collapse_of_visible _ ?_ fun d member => ?_
      · rintro empty
        simp [empty, start] at whole
      · exact isBlank_of_isNamePart d (plain.parts d (whole ▸ member))
  | special c name whole sign _ parts => exact collapse_of_special whole sign parts

theorem ReadFrom.starts (read : ReadFrom registry token behind) (solid : token.kind ≠ .blank) :
    ∃ c rest, token.text.toList = c :: rest ∧ Text.isBlank c = false := by
  have visible := read.start_visible solid
  obtain ⟨c, rest, lexeme, -, -, text, -⟩ := read
  exact ⟨c, _, text, visible c (by rw [text]; rfl)⟩

theorem ReadFrom.isNeat (read : ReadFrom registry token behind)
    (spells : registry.compounds.spells [] = true) (ascii : IsAscii token.text.toList)
    (spaced : token.isReserved = true → collapse token.text = token.text) : IsNeat token := by
  have single (wordLike : token.kind.isWordLike = true) : collapse token.text = token.text := by
    by_cases reserved : token.isReserved = true
    · exact spaced reserved
    · exact read.collapse_of_free wordLike (by simpa using reserved)
  refine ⟨ascii, single, fun wordLike => ?_⟩
  have called := (read.wordRead wordLike).called spells
  rwa [single wordLike] at called

end Reading

namespace IsNeat

variable {token : Token} {text : String}

/-- The spellings of a neat token are its text in a case, if it was not put into capitals
before. -/
theorem exists_cases (neat : IsNeat token) (spelling : Spelling token text) :
    ∃ last first : WordCase, text = last.apply (first.apply token.text) := by
  unfold Spelling at spelling
  split at spelling
  · rename_i wordLike
    obtain ⟨choice, rfl | rfl | rfl⟩ := spelling
    · exact ⟨choice, .asIs, rfl⟩
    · rw [neat.single wordLike]
      exact ⟨choice, .asIs, rfl⟩
    · rcases neat.called wordLike with same | capitals
      · rw [same]
        exact ⟨choice, .asIs, rfl⟩
      · rw [capitals]
        exact ⟨choice, .upper, rfl⟩
  · exact ⟨.asIs, .asIs, spelling⟩

theorem sameLetters (neat : IsNeat token) (spelling : Spelling token text) :
    SameLetters token.text.toList text.toList := by
  obtain ⟨last, first, rfl⟩ := neat.exists_cases spelling
  exact ((SameLetters.refl neat.ascii).apply first).apply last

theorem collapse_spelling (neat : IsNeat token) (wordLike : token.kind.isWordLike = true)
    (spelling : Spelling token text) : collapse text = text := by
  obtain ⟨last, first, rfl⟩ := neat.exists_cases spelling
  rw [collapse_apply last (neat.ascii.apply first), collapse_apply first neat.ascii,
    neat.single wordLike]

end IsNeat

/-- A neat token in its place, and what is read there. -/
structure Rewritten (registry : Registry) (placement : Placement) (again : Token) : Prop
    extends ReadAs placement again where
  sound : placement.Sound
  neat : IsNeat placement.token
  solid : placement.token.kind ≠ .blank
  read : ∃ behind, ReadFrom registry placement.token behind
  reread : ∃ behind, ReadFrom registry again behind

namespace Rewritten

variable {registry : Registry} {placement : Placement} {again : Token}

theorem letters (rewritten : Rewritten registry placement again) :
    SameLetters placement.token.text.toList again.text.toList := by
  rw [rewritten.text]
  exact rewritten.neat.sameLetters rewritten.sound.spelling

theorem isNeat (rewritten : Rewritten registry placement again)
    (phrases : registry.compounds = commonPhrases) : IsNeat again := by
  obtain ⟨behind, reread⟩ := rewritten.reread
  refine reread.isNeat (Registry.spells_of_common phrases) rewritten.letters.asciiTwin
    fun reserved => ?_
  have kind : placement.token.kind = .reservedWord := by
    rw [← rewritten.kind]
    simpa [isReserved] using reserved
  rw [rewritten.text]
  exact rewritten.neat.collapse_spelling (by rw [kind]; rfl) rewritten.sound.spelling

theorem twin (rewritten : Rewritten registry placement again)
    (reserved : reservedWords ⊆ registry.reserved) : Twin placement.token again := by
  obtain ⟨behind, read⟩ := rewritten.read
  obtain ⟨after, reread⟩ := rewritten.reread
  refine twin_of_letters reserved read reread rewritten.kind rewritten.letters (fun plain => ?_)
    fun reserved => ?_
  · have spelling := rewritten.sound.spelling
    rw [Spelling, if_neg (by simp [plain])] at spelling
    rw [rewritten.text, spelling]
  · rw [rewritten.contents, calledAs, if_pos reserved]

theorem sameLines (rewritten : Rewritten registry placement again)
    (phrases : registry.compounds = commonPhrases) (sheet : Sheet) (option : Option WordCase) :
    SameLines (sheet.spelt option placement.token).toList (sheet.spelt option again).toList := by
  have own := (rewritten.neat.sameLetters (sheet.spelling_spelt option _)).sameLines
  have twin := ((rewritten.isNeat phrases).sameLetters (sheet.spelling_spelt option _)).sameLines
  exact twin.trans (rewritten.letters.sameLines.trans own.symm)

/-- A token that was given a case keeps its text when it is given this case once more. -/
theorem spelt_again (rewritten : Rewritten registry placement again)
    (phrases : registry.compounds = commonPhrases) (sheet : Sheet) (option : Option WordCase)
    (offers : sheet.Offers placement.token option)
    (same : sheet.spelt option placement.token = placement.text) :
    sheet.spelt option again = placement.text := by
  by_cases wordLike : placement.token.kind.isWordLike = true
  · have wordLikeAgain : again.kind.isWordLike = true := rewritten.kind ▸ wordLike
    cases option with
    | some choice =>
      have ascii := rewritten.neat.ascii
      rw [Sheet.spelt_of_wordLike choice wordLike] at same
      rw [Sheet.spelt_of_wordLike choice wordLikeAgain, rewritten.text, ← same]
      refine String.toList_injective ?_
      rw [choice.apply_toList_ascii _ (ascii.apply choice), choice.apply_toList_ascii _ ascii,
        List.map_map]
      exact List.map_congr_left fun c member => choice.letter_letter c (ascii c member)
    | none =>
      have reserved : placement.token.isReserved = true := offers
      rw [Sheet.spelt, if_pos wordLike] at same
      rw [Sheet.spelt, if_pos wordLikeAgain]
      unfold Sheet.keywordText at same ⊢
      split
      · rw [(rewritten.isNeat phrases).single wordLikeAgain, rewritten.text]
      · rw [rewritten.contents, calledAs, if_pos reserved]
        simpa using same
  · rw [Sheet.spelt_of_plain option (by rw [rewritten.kind]; simpa using wordLike),
      rewritten.text]

end Rewritten

def weight (token : Token) : Nat :=
  (ink token.text.toList).length

theorem eq_of_weights {part whole : List Token} (inside : part.Sublist whole)
    (solid : ∀ token ∈ whole, 0 < token.weight)
    (same : (part.map weight).sum = (whole.map weight).sum) : part = whole := by
  induction inside with
  | slnil => rfl
  | @cons part whole token inside _ =>
    have lighter := (inside.map weight).sum_le_sum fun _ _ => Nat.zero_le _
    have heavy := solid token (by simp)
    rw [List.map_cons, List.sum_cons] at same
    omega
  | @cons_cons part whole token _ ih =>
    rw [List.map_cons, List.map_cons, List.sum_cons, List.sum_cons] at same
    rw [ih (fun other member => solid other (List.mem_cons_of_mem _ member)) (by omega)]

end Token

namespace Layout.Recasting

open Token

/-- A token in its place, where it is written again as it stands there. -/
structure Stands (copy : Recasting) (placement : Placement) : Prop where
  sound : placement.Sound
  neat : placement.token.IsNeat
  start : ∃ c rest, placement.token.text.toList = c :: rest ∧ Text.isBlank c = false
  comma : placement.token.kind = .comma → placement.token.text = ","
  again : ∀ option, copy.sheet.Offers placement.token option →
    copy.sheet.spelt option placement.token = placement.text →
      copy.sheet.spelt option (copy.change placement.token) = placement.text

theorem exists_change {related : Placement → Token → Prop} {placements : List Placement}
    {tokens : List Token} (same : List.Forall₂ related placements tokens)
    (once : (placements.map Placement.token).Nodup) :
    ∃ change : Token → Token, (placements.map Placement.token).map change = tokens ∧
      ∀ placement ∈ placements, related placement (change placement.token) := by
  induction same with
  | nil => exact ⟨id, rfl, fun _ none => absurd none List.not_mem_nil⟩
  | @cons placement token rest tokens here later ih =>
    rw [List.map_cons, List.nodup_cons] at once
    obtain ⟨change, same, each⟩ := ih once.2
    have apart : ∀ other ∈ rest.map Placement.token, other ≠ placement.token :=
      fun other member equal => once.1 (equal ▸ member)
    refine ⟨fun other => if other = placement.token then token else change other, ?_, ?_⟩
    · rw [List.map_cons, List.map_cons, if_pos rfl, ← same]
      exact congrArg (token :: ·)
        (List.map_congr_left fun other member => if_neg (apart other member))
    · refine List.forall_mem_cons.2 ⟨by simpa using here, fun other member => ?_⟩
      simpa only [if_neg (apart _ (List.mem_map_of_mem member))] using each other member

/-- The tokens in a row are replaced by what is read there. -/
theorem exists_recasting {registry : Registry} {placements : List Placement}
    {tokens : List Token} (phrases : registry.compounds = commonPhrases)
    (reserved : reservedWords ⊆ registry.reserved) (sheet : Sheet) (starts : List Nat)
    (unnamed : sheet.style.addColumnNameComments = false)
    (same : List.Forall₂ (Rewritten registry) placements tokens)
    (once : (placements.map Placement.token).Nodup) :
    ∃ copy : Recasting, copy.sheet = sheet ∧ copy.starts = starts ∧
      (placements.map Placement.token).map copy.change = tokens ∧
      ∀ placement ∈ placements, copy.Stands placement := by
  obtain ⟨change, again, each⟩ := exists_change same once
  let replace (token : Token) : Token :=
    if token ∈ placements.map Placement.token then change token else token
  have replaced (token : Token) (member : token ∈ placements.map Placement.token) :
      replace token = change token := if_pos member
  have cases (token : Token) : replace token = token ∨
      ∃ placement, placement.token = token ∧ Rewritten registry placement (replace token) := by
    by_cases inside : token ∈ placements.map Placement.token
    · obtain ⟨placement, member, rfl⟩ := List.mem_map.1 inside
      rw [replaced _ inside]
      exact .inr ⟨placement, rfl, each placement member⟩
    · exact .inl (if_neg inside)
  let copy : Recasting :=
    { sheet, starts
      change := replace
      twins := fun token => by
        rcases cases token with same | ⟨placement, rfl, rewritten⟩
        · rw [same]
          exact .refl token
        · exact rewritten.twin reserved
      lines := fun token option _ => by
        rcases cases token with same | ⟨placement, rfl, rewritten⟩
        · rw [same]
          exact .refl _
        · exact rewritten.sameLines phrases sheet option
      named := fun named => by simp [unnamed] at named }
  refine ⟨copy, rfl, rfl, ?_, fun placement member => ?_⟩
  · rw [← again]
    exact List.map_congr_left replaced
  · have rewritten := each placement member
    have called : copy.change placement.token = change placement.token :=
      replaced _ (List.mem_map_of_mem member)
    obtain ⟨behind, read⟩ := rewritten.read
    refine ⟨rewritten.sound, rewritten.neat, read.starts rewritten.solid, read.comma,
      fun option offers here => ?_⟩
    rw [called]
    exact rewritten.spelt_again phrases copy.sheet option offers here

structure Holds (copy : Recasting) (placement : Placement) (token : Token) : Prop where
  stands : copy.Stands placement
  face : token.face = placement.token.face
  comma : token.kind = .comma → token.text = ","

variable {copy : Recasting} {placement : Placement} {token : Token} {placements : List Placement}
  {marks : List Mark} {written : List Token} {text twin : String} {first second behind : List Char}

theorem Holds.withGap (holds : copy.Holds placement token) (gap : List Char)
    (blank : ∀ c ∈ gap, c = ' ' ∨ c = '\n') : copy.Holds { placement with gap := gap } token where
  stands :=
    { sound := ⟨blank, holds.stands.sound.spelling, holds.stands.sound.filled⟩
      neat := holds.stands.neat
      start := holds.stands.start
      comma := holds.stands.comma
      again := holds.stands.again }
  face := holds.face
  comma := holds.comma

theorem Stands.letters (stands : copy.Stands placement) :
    Text.SameLetters placement.token.text.toList placement.text.toList :=
  stands.neat.sameLetters stands.sound.spelling

/-- What is written for a token has the letters of the token in its place. If it is the text that
stands there, it is written again. -/
theorem Holds.writes (holds : copy.Holds placement token) (writes : copy.Writes token text twin) :
    Text.SameLetters placement.token.text.toList text.toList ∧
      (text = placement.text → twin = text) := by
  have plain (isComma : placement.token.kind = .comma) : Spelling placement.token "," := by
    rw [Spelling, if_neg (by rw [isComma]; decide), holds.stands.comma isComma]
  rcases writes with ⟨comma, rfl, rfl⟩ | ⟨option, offers, rfl, twin⟩
  · have other : placement.token.kind = .comma := by
      rw [← kind_face, ← holds.face, kind_face, comma]
    exact ⟨holds.stands.neat.sameLetters (plain other), fun _ => rfl⟩
  rcases eq_or_comma_of_face holds.face with rfl | ⟨comma, other⟩
  · refine ⟨holds.stands.neat.sameLetters (copy.sheet.spelling_spelt option _), fun here => ?_⟩
    rcases twin with rfl | rfl
    · rw [holds.stands.again option offers here, here]
    · rfl
  · have free : token.kind.isWordLike = false := by
      rw [comma]
      rfl
    have freeTwin : (copy.change token).kind.isWordLike = false := by
      rw [(copy.twins token).kind, free]
    rw [Sheet.spelt_of_plain option freeTwin, (copy.twins token).text free] at twin
    rw [Sheet.spelt_of_plain option free] at twin ⊢
    rw [holds.comma comma] at twin ⊢
    exact ⟨holds.stands.neat.sameLetters (plain other), fun _ => twin.elim id id⟩

theorem Stands.visible (stands : copy.Stands placement)
    (letters : Text.SameLetters placement.token.text.toList first) (c : Char)
    (blank : c = ' ' ∨ c = '\n') : (first ++ behind).head? ≠ some c := by
  obtain ⟨d, rest, rfl, visible⟩ := letters.starts stands.start
  intro starts
  obtain rfl : d = c := by simpa using starts
  rcases blank with rfl | rfl <;> exact absurd visible (by decide)

theorem exists_row_behind (holds : List.Forall₂ copy.Holds placements written)
    (blanks : List Char) (blank : ∀ c ∈ blanks, c = ' ' ∨ c = '\n')
    (split : blanks ++ behind = Placement.row placements) :
    ∃ left, List.Forall₂ copy.Holds left written ∧ behind = Placement.row left := by
  cases holds with
  | nil =>
    rw [Placement.row_nil, List.append_eq_nil_iff] at split
    exact ⟨[], .nil, split.2⟩
  | @cons placement token placements written here later =>
    rw [Placement.row_cons] at split
    rcases List.append_eq_append_iff.1 split with ⟨gap, whole, rfl⟩ | ⟨gap, rfl, onward⟩
    · have fewer : ∀ c ∈ gap, c = ' ' ∨ c = '\n' := fun c member =>
        here.stands.sound.blank c (whole ▸ List.mem_append_right _ member)
      exact ⟨_, .cons (here.withGap gap fewer) later, by rw [Placement.row_cons]⟩
    · cases gap with
      | nil =>
        refine ⟨_, .cons (here.withGap [] (by simp)) later, ?_⟩
        rw [Placement.row_cons]
        exact onward.symm
      | cons c gap =>
        exact absurd (congrArg List.head? onward)
          (here.stands.visible here.stands.letters c (blank c (by simp)))

theorem Shows.unchanged (shows : copy.Shows marks first second)
    (unnamed : copy.sheet.style.addColumnNameComments = false) (others : List Token)
    (holds : List.Forall₂ copy.Holds placements (marks.map Mark.token ++ others))
    (split : first ++ behind = Placement.row placements) :
    second = first ∧
      ∃ left, List.Forall₂ copy.Holds left others ∧ behind = Placement.row left := by
  induction shows generalizing placements others behind with
  | nil => exact ⟨rfl, placements, holds, split⟩
  | append before later ih onward =>
    rw [List.map_append, List.append_assoc] at holds
    rw [List.append_assoc] at split
    obtain ⟨same, left, holds, split⟩ := ih _ holds split
    obtain ⟨sameLater, left, holds, split⟩ := onward others holds split
    exact ⟨by rw [same, sameLater], left, holds, split⟩
  | gap blanks blank => exact ⟨rfl, exists_row_behind holds blanks blank split⟩
  | mark mark text twin writes =>
    cases holds with
    | @cons placement _ placements _ here later =>
      obtain ⟨letters, again⟩ := here.writes writes
      rw [Placement.row_cons] at split
      cases gap : placement.gap with
      | nil =>
        rw [gap, List.nil_append] at split
        have length := letters.length.trans here.stands.letters.length.symm
        obtain ⟨same, split⟩ := List.append_inj split length
        exact ⟨congrArg String.toList (again (String.toList_injective same)), _, later, split⟩
      | cons c rest =>
        rw [gap] at split
        exact absurd (congrArg List.head? split)
          (here.stands.visible letters c (here.stands.sound.blank c (by simp [gap])))
  | noted note asks => simp [unnamed] at asks

theorem Holds.weight_eq (holds : copy.Holds placement token) :
    token.weight = placement.token.weight := by
  rcases eq_or_comma_of_face holds.face with same | ⟨comma, other⟩
  · rw [same]
  · rw [weight, weight, holds.comma comma, holds.stands.comma other]

theorem Holds.weight_pos (holds : copy.Holds placement token) : 0 < token.weight := by
  obtain ⟨c, rest, start, visible⟩ := holds.stands.start
  rw [holds.weight_eq, weight, start, ink, List.filter_cons_of_pos (by simp [visible])]
  exact Nat.succ_pos _

theorem Shows.length_ink (shows : copy.Shows marks first second)
    (unnamed : copy.sheet.style.addColumnNameComments = false)
    (holds : ∀ mark ∈ marks, ∃ placement, copy.Holds placement mark.token) :
    (ink first).length = ((marks.map Mark.token).map weight).sum := by
  induction shows with
  | nil => rfl
  | append before later ih onward =>
    rw [ink_append, List.length_append, List.map_append, List.map_append, List.sum_append,
      ih fun mark member => holds mark (List.mem_append_left _ member),
      onward fun mark member => holds mark (List.mem_append_right _ member)]
  | gap blanks blank =>
    rw [ink_eq_nil blank]
    rfl
  | mark mark text twin writes =>
    obtain ⟨placement, holds⟩ := holds mark (by simp)
    rw [(holds.writes writes).1.length_ink, List.map_singleton, List.map_singleton,
      List.sum_singleton, holds.weight_eq]
    rfl
  | noted note asks => simp [unnamed] at asks

theorem length_ink_row (holds : List.Forall₂ copy.Holds placements written) :
    (ink (Placement.row placements)).length = (written.map weight).sum := by
  induction holds with
  | nil => rfl
  | cons here later ih =>
    rw [Placement.row_cons, ink_append, ink_append, ink_eq_nil here.stands.sound.blank,
      List.nil_append, List.length_append, ih, here.stands.letters.length_ink, List.map_cons,
      List.sum_cons, here.weight_eq]
    rfl

/-- A row that shows some of its tokens only shows them all, and is written again. -/
theorem Shows.unchanged_row (shows : copy.Shows marks (Placement.row placements) second)
    (unnamed : copy.sheet.style.addColumnNameComments = false)
    (inside : (marks.map Mark.token).Sublist written)
    (holds : List.Forall₂ copy.Holds placements written) :
    second = Placement.row placements := by
  have placed {token : Token} (member : token ∈ written) :
      ∃ placement, copy.Holds placement token := by
    obtain ⟨number, bound, rfl⟩ := List.getElem_of_mem member
    exact ⟨_, (List.forall₂_iff_get.1 holds).2 number (holds.length_eq ▸ bound) bound⟩
  have all : marks.map Mark.token = written := by
    refine eq_of_weights inside (fun token member => ?_) ?_
    · obtain ⟨placement, here⟩ := placed member
      exact here.weight_pos
    · rw [← length_ink_row holds, shows.length_ink unnamed fun mark member =>
        placed (inside.subset (List.mem_map_of_mem member))]
  refine (shows.unchanged unnamed [] ?_ (List.append_nil (Placement.row placements))).1
  rwa [List.append_nil, all]

theorem holds_of_faces (stands : ∀ placement ∈ placements, copy.Stands placement)
    (same : written.map Token.face = (placements.map Placement.token).map Token.face)
    (commas : ∀ token ∈ written, token.kind = .comma → token.text = ",") :
    List.Forall₂ copy.Holds placements written := by
  induction placements generalizing written with
  | nil =>
    rw [List.map_eq_nil_iff.1 same]
    exact .nil
  | cons placement rest ih =>
    obtain ⟨token, others, rfl, here, later⟩ := List.map_eq_cons_iff.1 same
    rw [List.forall_mem_cons] at stands commas
    exact .cons ⟨stands.1, here, commas.1⟩ (ih stands.2 later commas.2)

theorem exists_shows_intercalate (parts : List (List Token)) (shown : List Token → List Token)
    (texts twins : List Token → String)
    (each : ∀ part ∈ parts, ∃ marks, (marks.map Mark.token).Sublist (shown part) ∧
      copy.Shows marks (texts part).toList (twins part).toList) :
    ∃ marks, (marks.map Mark.token).Sublist (parts.flatMap shown) ∧
      copy.Shows marks ("\n\n".intercalate (parts.map texts)).toList
        ("\n\n".intercalate (parts.map twins)).toList := by
  simp only [String.toList_intercalate, List.map_map]
  induction parts with
  | nil => exact ⟨[], .refl [], .nil⟩
  | cons part rest ih =>
    rw [List.forall_mem_cons] at each
    obtain ⟨⟨marks, inside, shows⟩, each⟩ := each
    cases rest with
    | nil => exact ⟨marks, by simpa using inside, by simpa using shows⟩
    | cons next others =>
      obtain ⟨later, insideLater, showsLater⟩ := ih each
      refine ⟨marks ++ later, ?_, ?_⟩
      · rw [List.map_append]
        exact inside.append insideLater
      · have gap : copy.Shows [] "\n\n".toList "\n\n".toList := .gap _ (by simp)
        simp only [List.map_cons, List.intercalate_cons_cons, List.append_assoc] at showsLater ⊢
        exact shows.append (gap.append showsLater)

end Layout.Recasting

end SqlLayout

import Mathlib.Algebra.GroupWithZero.Nat
import SqlLayout.Proofs.Enclosing
import SqlLayout.Proofs.Lettering

/-! What words are called. Only a reserved word has contents that differ from its text, and
these are its words in upper case with one space between them. Whether a word starts a phrase
depends on the words ahead of it, as far as blanks alone stand between them, and on nothing
else: neither on how wide these blanks are nor on the case of the letters. -/
namespace SqlLayout.Token

open Keyword

theorem contents_of_dollar? (rest : List Char) (lexeme : Lexeme)
    (found : dollar? rest = some lexeme) : lexeme.contents = none := by
  revert found
  unfold dollar? enclosedPlaceholder? tagged?
  grind

theorem contents_of_wordLexeme_free (registry : Registry) (c : Char) (rest : List Char)
    (length : Nat) (free : (wordLexeme registry c rest length).kind ≠ .reservedWord) :
    (wordLexeme registry c rest length).contents = none := by
  revert free
  unfold wordLexeme
  simp only
  split
  · simp
  · split <;> simp

theorem ReadFrom.contents_eq_text {registry : Registry} {token : Token} {behind : List Char}
    (read : ReadFrom registry token behind) (free : token.isReserved = false) :
    token.contents = token.text := by
  obtain ⟨c, rest, lexeme, scans, kind, -, contents, -⟩ := read
  rw [contents]
  suffices lexeme.contents = none by rw [this]; rfl
  simp only [isReserved, kind, decide_eq_false_iff_not] at free
  cases scans with
  | quoted lexeme found _ =>
    obtain ⟨lead, quote, body, kind, -, -, -, -, rfl⟩ := quoted?_eq_some c rest _ found
    unfold quotedRun
    split <;> rfl
  | block _ _ _ =>
    unfold blockComment
    split <;> rfl
  | bracket _ _ =>
    unfold bracketed
    simp only
    split <;> rfl
  | dollar _ lexeme found _ => exact contents_of_dollar? rest _ found
  | word _ _ _ => exact contents_of_wordLexeme_free registry c rest _ free
  | operator _ _ _ =>
    unfold operatorLexeme
    split <;> rfl
  | _ => rfl

def NameEnds (suffix : List Char) : Prop :=
  ∀ c, suffix.head? = some c → isNamePart c = false

structure IsPlainWord (word : List Char) : Prop where
  start : ∃ c rest, word = c :: rest ∧ Text.isWordStart c = true
  parts : ∀ c ∈ word, isNamePart c = true

theorem isNamePart_of_isWordStart (c : Char) (starts : Text.isWordStart c = true) :
    isNamePart c = true := by
  simp only [Text.isWordStart, Bool.and_eq_true] at starts
  simp [isNamePart, starts.1]

theorem isBlank_of_isNamePart (c : Char) (part : isNamePart c = true) :
    Text.isBlank c = false := by
  have none : Text.blankRanges.all (fun range =>
      (List.range' range.1 (range.2 + 1 - range.1)).all fun code =>
        !isNamePart (Char.ofNat code)) = true := by
    decide +kernel
  by_contra blank
  simp only [Bool.not_eq_false, Text.isBlank] at blank
  obtain ⟨range, member, low, high⟩ := Text.exists_range_of_inRanges _ _ blank
  have checked := List.all_eq_true.1 (List.all_eq_true.1 none range member) c.toNat
    (List.mem_range'_1.2 ⟨low, by omega⟩)
  rw [Char.ofNat_toNat, part] at checked
  simp at checked

theorem isBlank_of_isWordStart (c : Char) (starts : Text.isWordStart c = true) :
    Text.isBlank c = false :=
  isBlank_of_isNamePart c (isNamePart_of_isWordStart c starts)

theorem isBlank_of_isDigitSign (c : Char) (sign : Text.isDigitSign c = true) :
    Text.isBlank c = false := by
  have apart : Text.blankRanges.all (fun range => (List.range' range.1 (range.2 + 1 - range.1)).all
      fun code => !Text.inRanges Text.digitSignRanges code) = true := by
    decide +kernel
  by_contra blank
  rw [Bool.not_eq_false] at blank
  obtain ⟨range, member, low, high⟩ := Text.exists_range_of_inRanges _ _ blank
  have here := List.all_eq_true.1 (List.all_eq_true.1 apart range member) c.toNat
    (List.mem_range'_1.2 ⟨low, by omega⟩)
  simp only [Bool.not_eq_eq_eq_not, Bool.not_true] at here
  exact absurd sign (by rw [Text.isDigitSign, here]; decide)

theorem IsPlainWord.length_pos {word : List Char} (plain : IsPlainWord word) : 0 < word.length := by
  obtain ⟨first, others, rfl, -⟩ := plain.start
  simp

theorem IsPlainWord.wordLength? {word : List Char} (plain : IsPlainWord word)
    (suffix : List Char) (ends : NameEnds suffix) :
    Token.wordLength? (word ++ suffix) = some word.length := by
  obtain ⟨c, rest, rfl, starts⟩ := plain.start
  rw [List.cons_append, Token.wordLength?, if_pos starts,
    spanLength_front isNamePart rest suffix
      (fun d member => plain.parts d (List.mem_cons_of_mem _ member)) ends,
    List.length_cons, Nat.add_comm]

theorem exists_plainWord (chars : List Char) (length : Nat)
    (found : wordLength? chars = some length) :
    IsPlainWord (chars.take length) ∧ NameEnds (chars.drop length) := by
  cases chars with
  | nil => simp [wordLength?] at found
  | cons c rest =>
    simp only [wordLength?] at found
    split at found
    · rename_i starts
      obtain rfl := Option.some.inj found
      rw [Nat.add_comm, List.take_succ_cons, List.drop_succ_cons, drop_spanLength]
      refine ⟨⟨⟨c, _, rfl, starts⟩, ?_⟩, ?_⟩
      · intro d member
        rcases List.mem_cons.1 member with rfl | later
        · exact isNamePart_of_isWordStart _ starts
        · exact belongs_of_mem_span isNamePart rest d later
      · intro d head
        have stops := List.head?_dropWhile_not isNamePart rest
        rw [head] at stops
        simpa using stops
    · simp at found

theorem exists_word_of_isWordStart (c : Char) (rest : List Char)
    (starts : Text.isWordStart c = true) :
    ∃ word behind, c :: rest = word ++ behind ∧ IsPlainWord word ∧ NameEnds behind := by
  have found : wordLength? (c :: rest) = some (1 + spanLength isNamePart rest) := by
    rw [wordLength?, if_pos starts]
  obtain ⟨plain, ends⟩ := exists_plainWord _ _ found
  exact ⟨_, _, (List.take_append_drop _ _).symm, plain, ends⟩

/-- The words ahead, each with the number of characters that lead to its end. -/
def ahead (chars : List Char) : List (Nat × List Char) :=
  let gap := spanLength Text.isBlank chars
  if gap = 0 then []
  else
    match _found : wordLength? (chars.drop gap) with
    | none => []
    | some length =>
      (gap + length, (chars.drop gap).take length) :: ahead (chars.drop (gap + length))
termination_by chars.length
decreasing_by
  have positive := wordLength?_pos _ _ _found
  have bounded := wordLength?_le _ _ _found
  simp only [List.length_drop] at *
  omega

/-- How many of the words ahead belong to the longest phrase, and that phrase. -/
def depth : Phrases → List (List Char) → Option (Nat × String)
  | _, [] => none
  | phrases, word :: rest =>
    match phrases.step (String.ofList word) with
    | none => none
    | some child =>
      match depth child rest with
      | some (count, phrase) => some (count + 1, phrase)
      | none => child.phrase.map (1, ·)

def reach (count : Nat) (chars : List Char) : Nat :=
  (((ahead chars).take count).map Prod.fst).sum

theorem ahead_of_tight (chars : List Char) (tight : spanLength Text.isBlank chars = 0) :
    ahead chars = [] := by
  rw [ahead]
  simp only [if_pos tight]

theorem ahead_of_none (chars : List Char)
    (none : wordLength? (chars.drop (spanLength Text.isBlank chars)) = none) :
    ahead chars = [] := by
  by_cases tight : spanLength Text.isBlank chars = 0
  · exact ahead_of_tight chars tight
  · rw [ahead]
    simp only [if_neg tight]
    split
    · rfl
    · rename_i found
      simp [none] at found

theorem ahead_of_some (chars : List Char) (length : Nat)
    (apart : spanLength Text.isBlank chars ≠ 0)
    (found : wordLength? (chars.drop (spanLength Text.isBlank chars)) = some length) :
    ahead chars =
      (spanLength Text.isBlank chars + length,
        (chars.drop (spanLength Text.isBlank chars)).take length) ::
      ahead (chars.drop (spanLength Text.isBlank chars + length)) := by
  rw [ahead]
  simp only [if_neg apart]
  split
  · rename_i none
    simp [found] at none
  · rename_i other same
    rw [Option.some.inj (same.symm.trans found)]

theorem phraseOnward_eq (phrases : Phrases) (chars : List Char) :
    phraseOnward phrases chars = (depth phrases ((ahead chars).map Prod.snd)).map
      fun found => (reach found.1 chars, found.2) := by
  fun_induction phraseOnward phrases chars with
  | case1 phrases chars gap none =>
    rw [ahead_of_tight chars none]
    rfl
  | case2 phrases chars gap apart none =>
    rw [ahead_of_none chars none]
    rfl
  | case3 phrases chars gap apart length word stuck =>
    rw [ahead_of_some chars length apart word, List.map_cons, depth, stuck]
    rfl
  | case4 phrases chars gap apart length word child step taken further contents onward ih =>
    rw [ih] at onward
    obtain ⟨⟨count, phrase⟩, deeper, same⟩ := Option.map_eq_some_iff.1 onward
    simp only [Prod.mk.injEq] at same
    rw [ahead_of_some chars length apart word, List.map_cons, depth, step]
    simp only
    rw [deeper]
    simp only [Option.map_some, Option.some.injEq, Prod.mk.injEq]
    refine ⟨?_, same.2.symm⟩
    rw [reach, ahead_of_some chars length apart word, List.take_succ_cons, List.map_cons,
      List.sum_cons, ← same.1]
    rfl
  | case5 phrases chars gap apart length word child step taken onward ih =>
    rw [ih, Option.map_eq_none_iff] at onward
    rw [ahead_of_some chars length apart word, List.map_cons, depth, step]
    simp only
    rw [onward]
    cases child.phrase with
    | none => rfl
    | some phrase =>
      simp only [Option.map_some, Option.some.injEq, Prod.mk.injEq, and_true]
      rw [reach, ahead_of_some chars length apart word]
      simp [taken, gap]

theorem NameEnds.of_blank {gap : List Char} (blank : ∀ c ∈ gap, Text.isBlank c = true)
    (apart : gap ≠ []) (suffix : List Char) : NameEnds (gap ++ suffix) := by
  intro c head
  obtain ⟨first, rest, rfl⟩ := List.exists_cons_of_ne_nil apart
  obtain rfl : first = c := by simpa using head
  by_contra part
  have both := isBlank_of_isNamePart first (by simpa using part)
  rw [blank first (by simp)] at both
  simp at both

theorem ahead_gap_word {gap word : List Char} (apart : gap ≠ [])
    (blank : ∀ c ∈ gap, Text.isBlank c = true) (plain : IsPlainWord word) (suffix : List Char)
    (ends : NameEnds suffix) :
    ahead (gap ++ (word ++ suffix)) = (gap.length + word.length, word) :: ahead suffix := by
  have span : spanLength Text.isBlank (gap ++ (word ++ suffix)) = gap.length := by
    refine spanLength_front _ gap _ blank fun c head => ?_
    obtain ⟨first, rest, rfl, starts⟩ := plain.start
    obtain rfl : first = c := by simpa using head
    exact isBlank_of_isWordStart first starts
  have found : wordLength? ((gap ++ (word ++ suffix)).drop
      (spanLength Text.isBlank (gap ++ (word ++ suffix)))) = some word.length := by
    rw [span, List.drop_left]
    exact plain.wordLength? suffix ends
  rw [ahead_of_some _ word.length ?_ found, span, List.drop_left, List.take_left,
    ← List.drop_drop, List.drop_left, List.drop_left]
  rw [span]
  simpa using apart

inductive Worded : List (List Char) → List Char → Prop
  | single {word : List Char} (plain : IsPlainWord word) : Worded [word] word
  | cons {word gap rest : List Char} {words : List (List Char)} (plain : IsPlainWord word)
      (apart : gap ≠ []) (blank : ∀ c ∈ gap, Text.isBlank c = true) (more : Worded words rest) :
      Worded (word :: words) (word ++ (gap ++ rest))

namespace Worded

theorem ahead {words : List (List Char)} {chars : List Char} (worded : Worded words chars)
    (suffix : List Char) (ends : NameEnds suffix) :
    ∃ word behind others steps, words = word :: others ∧ IsPlainWord word ∧
      chars = word ++ behind ∧ NameEnds (behind ++ suffix) ∧
      Token.ahead (behind ++ suffix) = steps ++ Token.ahead suffix ∧
      steps.map Prod.snd = others ∧ (steps.map Prod.fst).sum = behind.length := by
  induction worded with
  | @single word plain => exact ⟨word, [], [], [], rfl, plain, by simp, ends, rfl, rfl, rfl⟩
  | @cons word gap rest words plain apart blank more ih =>
    obtain ⟨next, behind, others, steps, rfl, nextPlain, rfl, nextEnds, onward, names, sum⟩ := ih
    refine ⟨word, gap ++ (next ++ behind), next :: others,
      (gap.length + next.length, next) :: steps, rfl, plain, rfl, ?_, ?_, ?_, ?_⟩
    · rw [List.append_assoc]
      exact .of_blank blank apart _
    · rw [List.append_assoc, List.append_assoc,
        ahead_gap_word apart blank nextPlain _ nextEnds, onward]
      rfl
    · rw [List.map_cons, names]
    · rw [List.map_cons, List.sum_cons, sum, List.length_append, List.length_append]
      omega

end Worded

theorem exists_worded (word chars : List Char) (plain : IsPlainWord word) (ends : NameEnds chars)
    (count : Nat) (bound : count ≤ (ahead chars).length) :
    ∃ words, Worded (word :: words) (word ++ chars.take (reach count chars)) ∧
      words.length = count ∧
      (ahead chars).map Prod.snd = words ++ (ahead (chars.drop (reach count chars))).map Prod.snd ∧
      NameEnds (chars.drop (reach count chars)) := by
  induction count generalizing word chars with
  | zero =>
    refine ⟨[], ?_, rfl, ?_, ?_⟩
    · simpa [reach] using Worded.single plain
    · simp [reach]
    · simpa [reach] using ends
  | succ count ih =>
    by_cases tight : spanLength Text.isBlank chars = 0
    · simp [ahead_of_tight chars tight] at bound
    cases found : wordLength? (chars.drop (spanLength Text.isBlank chars)) with
    | none => simp [ahead_of_none chars found] at bound
    | some length =>
      have steps := ahead_of_some chars length tight found
      obtain ⟨nextPlain, nextEnds⟩ := exists_plainWord _ length found
      rw [List.drop_drop] at nextEnds
      have fewer : count ≤
          (ahead (chars.drop (spanLength Text.isBlank chars + length))).length := by
        rw [steps, List.length_cons] at bound
        omega
      obtain ⟨words, worded, many, names, endsThere⟩ := ih _ _ nextPlain nextEnds fewer
      have far : reach (count + 1) chars = spanLength Text.isBlank chars + length +
          reach count (chars.drop (spanLength Text.isBlank chars + length)) := by
        rw [reach, steps, List.take_succ_cons, List.map_cons, List.sum_cons]
        rfl
      rw [List.drop_drop, ← far] at names endsThere
      refine ⟨(chars.drop (spanLength Text.isBlank chars)).take length :: words, ?_, ?_, ?_,
        endsThere⟩
      · rw [far, List.take_add, List.take_add, List.append_assoc]
        refine .cons plain ?_ ?_ worded
        · rw [take_spanLength]
          intro nothing
          rw [spanLength, nothing] at tight
          exact tight rfl
        · exact belongs_of_mem_span Text.isBlank chars
      · rw [List.length_cons, many]
      · rw [steps, List.map_cons, names]
        rfl

def upperWord (word : List Char) : String :=
  Text.upper (String.ofList word)

theorem depth_bound (phrases : Phrases) (words : List (List Char)) (count : Nat) (phrase : String)
    (found : depth phrases words = some (count, phrase)) : count ≤ words.length := by
  induction words generalizing phrases count phrase with
  | nil => simp [depth] at found
  | cons word rest ih =>
    simp only [depth] at found
    split at found
    · simp at found
    rename_i child step
    split at found
    · rename_i more own deeper
      have bound := ih child more own deeper
      obtain ⟨rfl, -⟩ : more + 1 = count ∧ _ := by simpa using found
      simpa using bound
    · obtain ⟨own, -, same⟩ := Option.map_eq_some_iff.1 found
      obtain ⟨rfl, -⟩ : 1 = count ∧ _ := by simpa using same
      simp

theorem depth_congr (phrases : Phrases) (first second : List (List Char))
    (same : first.map upperWord = second.map upperWord) :
    depth phrases first = depth phrases second := by
  induction first generalizing phrases second with
  | nil =>
    have nothing : second = [] := by simpa using same.symm
    rw [nothing]
  | cons word rest ih =>
    obtain ⟨other, others, rfl, here, later⟩ := List.map_eq_cons_iff.1 same.symm
    have step : phrases.step (String.ofList word) = phrases.step (String.ofList other) :=
      congrArg (phrases.children.lookup ·) here.symm
    simp only [depth, step]
    cases phrases.step (String.ofList other) with
    | none => rfl
    | some child => simp only [ih child others later.symm]

end SqlLayout.Token

namespace SqlLayout.Keyword

mutual

/-- Every phrase is kept where its own words lead, in upper case and with single spaces. -/
def Phrases.spells (front : List String) : Phrases → Bool
  | .node phrase children =>
    phrase.all (· = " ".intercalate front) && childrenSpell front children

def childrenSpell (front : List String) : List (String × Phrases) → Bool
  | [] => true
  | (word, child) :: rest => child.spells (front ++ [word]) && childrenSpell front rest

end

theorem commonPhrases_spells : commonPhrases.spells [] = true := by
  decide

theorem Registry.spells_of_common {registry : Registry}
    (phrases : registry.compounds = commonPhrases) : registry.compounds.spells [] = true :=
  phrases ▸ commonPhrases_spells

theorem Phrases.spells_of_step (front : List String) (phrases child : Phrases) (word : String)
    (spells : phrases.spells front = true) (found : phrases.step word = some child) :
    child.spells (front ++ [Text.upper word]) = true := by
  obtain ⟨phrase, children⟩ := phrases
  simp only [Phrases.spells, Bool.and_eq_true] at spells
  replace found : children.lookup (Text.upper word) = some child := found
  replace spells := spells.2
  induction children with
  | nil => simp at found
  | cons entry rest ih =>
    obtain ⟨key, first⟩ := entry
    simp only [childrenSpell, Bool.and_eq_true] at spells
    rw [List.lookup_cons] at found
    split at found
    · rename_i here
      rw [← Option.some.inj found, eq_of_beq here]
      exact spells.1
    · exact ih found spells.2

end SqlLayout.Keyword

namespace SqlLayout.Token

open Keyword

theorem depth_spells (front : List String) (phrases : Phrases) (words : List (List Char))
    (count : Nat) (phrase : String) (spells : phrases.spells front = true)
    (found : depth phrases words = some (count, phrase)) :
    phrase = " ".intercalate (front ++ (words.take count).map upperWord) := by
  induction words generalizing front phrases count phrase with
  | nil => simp [depth] at found
  | cons word rest ih =>
    simp only [depth] at found
    split at found
    · simp at found
    rename_i child step
    have onward := Phrases.spells_of_step front phrases child _ spells step
    split at found
    · rename_i more phrase deeper
      simp only [Option.some.injEq, Prod.mk.injEq] at found
      obtain ⟨rfl, rfl⟩ := found
      rw [ih _ child more phrase onward deeper, List.append_assoc]
      rfl
    · obtain ⟨own, ends, same⟩ := Option.map_eq_some_iff.1 found
      simp only [Prod.mk.injEq] at same
      obtain ⟨rfl, rfl⟩ := same
      obtain ⟨kept, children⟩ := child
      obtain rfl : kept = some own := ends
      simp only [Phrases.spells, Option.all_some, Bool.and_eq_true, decide_eq_true_eq] at onward
      exact onward.1

end SqlLayout.Token

namespace SqlLayout.Text

theorem upper_append (first second : String) :
    upper (first ++ second) = upper first ++ upper second :=
  String.toList_injective (by simp)

theorem upper_intercalate (texts : List String) :
    upper (" ".intercalate texts) = " ".intercalate (texts.map upper) := by
  have space : upper " " = " " := by decide
  cases texts with
  | nil => decide
  | cons text rest =>
    induction rest generalizing text with
    | nil => simp
    | cons second others ih =>
      rw [String.intercalate_cons_cons, upper_append, upper_append, ih, space, List.map_cons,
        List.map_cons, List.map_cons, String.intercalate_cons_cons]

theorem fieldChars_word (word rest : List Char) (filled : word ≠ [])
    (visible : ∀ c ∈ word, isBlank c = false)
    (ends : ∀ c, rest.head? = some c → isBlank c = true) :
    fieldChars (word ++ rest) = word :: fieldChars rest := by
  obtain ⟨c, others, rfl⟩ := List.exists_cons_of_ne_nil filled
  induction others generalizing c with
  | nil =>
    have notBlank : ¬isBlank c = true := by simp [visible c (by simp)]
    rw [List.singleton_append, fieldChars, if_neg notBlank]
    cases rest with
    | nil => rfl
    | cons next others =>
      have blank := ends next rfl
      cases fieldChars (next :: others) with
      | nil => rfl
      | cons field fields => simp [joinField, blank]
  | cons next others ih =>
    have notBlank : ¬isBlank c = true := by simp [visible c (by simp)]
    have onward := ih next (by simp) fun d member => visible d (List.mem_cons_of_mem _ member)
    rw [List.cons_append, fieldChars, if_neg notBlank, onward]
    have nextVisible := visible next (by simp)
    simp [joinField, nextVisible]

theorem fieldChars_gap (gap rest : List Char) (blank : ∀ c ∈ gap, isBlank c = true) :
    fieldChars (gap ++ rest) = fieldChars rest := by
  induction gap with
  | nil => rfl
  | cons c others ih =>
    rw [List.cons_append, fieldChars_blank c _ (blank c (by simp))]
    exact ih fun d member => blank d (List.mem_cons_of_mem _ member)

end SqlLayout.Text

namespace SqlLayout.Token

open Keyword

namespace Worded

theorem fieldChars {words : List (List Char)} {chars : List Char} (worded : Worded words chars) :
    Text.fieldChars chars = words := by
  have visible (word : List Char) (plain : IsPlainWord word) (c : Char) (member : c ∈ word) :
      Text.isBlank c = false :=
    isBlank_of_isNamePart c (plain.parts c member)
  have filled (word : List Char) (plain : IsPlainWord word) : word ≠ [] := by
    obtain ⟨c, rest, rfl, -⟩ := plain.start
    simp
  induction worded with
  | @single word plain =>
    have alone := Text.fieldChars_word word [] (filled word plain) (visible word plain) (by simp)
    simpa using alone
  | @cons word gap rest words plain apart blank more ih =>
    rw [Text.fieldChars_word word _ (filled word plain) (visible word plain),
      Text.fieldChars_gap gap rest blank, ih]
    intro c head
    obtain ⟨first, others, rfl⟩ := List.exists_cons_of_ne_nil apart
    obtain rfl : first = c := by simpa using head
    exact blank first (by simp)

theorem intercalate {words : List (List Char)} {chars : List Char} (worded : Worded words chars) :
    Worded words ([' '].intercalate words) := by
  have space : ∀ c ∈ [' '], Text.isBlank c = true := by
    simp only [List.mem_singleton, forall_eq]
    decide
  induction worded with
  | single plain => simpa using Worded.single plain
  | @cons word gap rest words plain apart blank more ih =>
    obtain ⟨next, others, rfl⟩ : ∃ next others, words = next :: others := by
      cases more <;> exact ⟨_, _, rfl⟩
    rw [List.intercalate_cons_cons, List.append_assoc]
    exact .cons plain (by simp) space ih

theorem map {words : List (List Char)} {chars : List Char} (worded : Worded words chars)
    (letter : Char → Char)
    (blank : ∀ c ∈ chars, Text.isBlank (letter c) = Text.isBlank c)
    (start : ∀ c ∈ chars, Text.isWordStart (letter c) = Text.isWordStart c)
    (part : ∀ c ∈ chars, isNamePart (letter c) = isNamePart c) :
    Worded (words.map (List.map letter)) (chars.map letter) := by
  have kept (word : List Char) (plain : IsPlainWord word)
      (start : ∀ c ∈ word, Text.isWordStart (letter c) = Text.isWordStart c)
      (part : ∀ c ∈ word, isNamePart (letter c) = isNamePart c) :
      IsPlainWord (word.map letter) := by
    refine ⟨?_, ?_⟩
    · obtain ⟨c, rest, rfl, starts⟩ := plain.start
      exact ⟨letter c, rest.map letter, rfl, (start c (by simp)).trans starts⟩
    · intro d member
      obtain ⟨c, inside, rfl⟩ := List.mem_map.1 member
      exact (part c inside).trans (plain.parts c inside)
  induction worded with
  | @single word plain => exact .single (kept word plain start part)
  | @cons word gap rest words plain apart gapBlank more ih =>
    simp only [List.mem_append, or_imp, forall_and] at blank start part
    rw [List.map_append, List.map_append]
    refine .cons (kept word plain start.1 part.1) (by simpa using apart) ?_
      (ih blank.2.2 start.2.2 part.2.2)
    intro d member
    obtain ⟨c, inside, rfl⟩ := List.mem_map.1 member
    exact (blank.2.1 c inside).trans (gapBlank c inside)

theorem collapse {words : List (List Char)} {text : String} (worded : Worded words text.toList) :
    (Text.collapse text).toList = [' '].intercalate words := by
  rw [Text.collapse_toList, worded.fieldChars]

theorem upper_collapse {words : List (List Char)} {text : String}
    (worded : Worded words text.toList) :
    Text.upper (Text.collapse text) = " ".intercalate (words.map upperWord) := by
  rw [Text.collapse, Text.upper_intercalate, Text.fields, worded.fieldChars, List.map_map]
  rfl

end Worded

def phraseOf (registry : Registry) (word : List Char) (others : List (List Char)) :
    Option (Nat × String) :=
  (registry.compounds.step (String.ofList word)).bind fun node => depth node others

/-- What a text of words is when some words come next: a phrase that ends with it, or one word
that starts no phrase. -/
def Named (registry : Registry) (words next : List (List Char)) (kind : Kind)
    (contents : Option String) : Prop :=
  ∃ word others, words = word :: others ∧
    match phraseOf registry word (others ++ next) with
    | some (count, phrase) =>
      count = others.length ∧ kind = .reservedWord ∧ contents = some phrase
    | none => others = [] ∧
      if registry.isReserved (String.ofList word) then
        kind = .reservedWord ∧ contents = some (upperWord word)
      else kind = .identifier ∧ contents = none

theorem Named.congr {registry : Registry} {words next words' next' : List (List Char)}
    {kind : Kind} {contents : Option String} (named : Named registry words next kind contents)
    (same : words'.map upperWord = words.map upperWord)
    (sameNext : next'.map upperWord = next.map upperWord) :
    Named registry words' next' kind contents := by
  obtain ⟨word, others, rfl, called⟩ := named
  obtain ⟨word', others', rfl, here, later⟩ := List.map_eq_cons_iff.1 same
  refine ⟨word', others', rfl, ?_⟩
  have step : registry.compounds.step (String.ofList word') =
      registry.compounds.step (String.ofList word) :=
    congrArg (registry.compounds.children.lookup ·) here
  have phrase : phraseOf registry word' (others' ++ next') =
      phraseOf registry word (others ++ next) := by
    rw [phraseOf, phraseOf, step]
    refine congrArg _ (funext fun node => depth_congr node _ _ ?_)
    rw [List.map_append, List.map_append, later, sameNext]
  have reserved : registry.isReserved (String.ofList word') =
      registry.isReserved (String.ofList word) :=
    congrArg (registry.reserved.contains ·) here
  have many : others'.length = others.length := by
    rw [← List.length_map upperWord, later, List.length_map]
  rw [phrase, reserved, here, many]
  cases found : phraseOf registry word (others ++ next) with
  | some pair =>
    rw [found] at called
    exact called
  | none =>
    rw [found] at called
    refine ⟨?_, called.2⟩
    have nothing := called.1
    subst nothing
    simpa using many

theorem Named.contents {registry : Registry} {words next : List (List Char)} {kind : Kind}
    {contents : Option String} (spells : registry.compounds.spells [] = true)
    (named : Named registry words next kind contents) (reserved : kind = .reservedWord) :
    contents = some (" ".intercalate (words.map upperWord)) := by
  obtain ⟨word, others, rfl, called⟩ := named
  cases found : phraseOf registry word (others ++ next) with
  | some pair =>
    obtain ⟨count, phrase⟩ := pair
    rw [found] at called
    obtain ⟨rfl, -, rfl⟩ := called
    obtain ⟨node, step, deeper⟩ := Option.bind_eq_some_iff.1 found
    rw [depth_spells _ node _ _ phrase
      (Phrases.spells_of_step [] _ node _ spells step) deeper, List.take_left]
    rfl
  | none =>
    rw [found] at called
    obtain ⟨rfl, called⟩ := called
    split at called
    · rw [called.2]
      simp
    · simp [reserved] at called

theorem wordLexeme_eq (registry : Registry) (c : Char) (rest word behind : List Char)
    (whole : c :: rest = word ++ behind) (plain : IsPlainWord word) (ends : NameEnds behind) :
    wordLexeme registry c rest (1 + spanLength isNamePart rest) =
      match phraseOf registry word ((ahead behind).map Prod.snd) with
      | some (count, phrase) =>
        { kind := .reservedWord, more := word.length - 1 + reach count behind
          contents := some phrase }
      | none =>
        if registry.isReserved (String.ofList word) then
          { kind := .reservedWord, more := word.length - 1, contents := some (upperWord word) }
        else { kind := .identifier, more := word.length - 1 } := by
  have length : 1 + spanLength isNamePart rest = word.length := by
    have found := plain.wordLength? behind ends
    obtain ⟨first, others, rfl, starts⟩ := plain.start
    obtain rfl : c = first := (List.cons.inj whole).1
    rw [← whole, Token.wordLength?, if_pos starts] at found
    exact Option.some.inj found
  have alone : Text.collapse (String.ofList word) = String.ofList word := by
    have worded : Worded [word] (String.ofList word).toList := by
      simpa using Worded.single plain
    refine String.toList_injective ?_
    rw [worded.collapse]
    simp
  have phrases : ((registry.compounds.step (String.ofList word)).bind fun node =>
      phraseOnward node behind) = (phraseOf registry word ((ahead behind).map Prod.snd)).map
        fun found => (reach found.1 behind, found.2) := by
    rw [phraseOf, Option.map_bind]
    exact congrArg _ (funext fun node => phraseOnward_eq node behind)
  rw [length]
  unfold wordLexeme
  simp only [whole, List.take_left, List.drop_left, phrases, alone]
  cases phraseOf registry word ((ahead behind).map Prod.snd) <;> rfl

/-- What the scanner reads at a word is a text of words, called by them and by those ahead. -/
theorem named_of_wordLexeme (registry : Registry) (c : Char) (rest : List Char)
    (starts : Text.isWordStart c = true) (lexeme : Lexeme)
    (scanned : lexeme = wordLexeme registry c rest (1 + spanLength isNamePart rest)) :
    ∃ words, Worded words (c :: rest.take lexeme.more) ∧ NameEnds (rest.drop lexeme.more) ∧
      Named registry words ((ahead (rest.drop lexeme.more)).map Prod.snd) lexeme.kind
        lexeme.contents := by
  obtain ⟨word, behind, whole, plain, ends⟩ := exists_word_of_isWordStart c rest starts
  have positive := plain.length_pos
  -- The text goes on for some characters behind the word.
  have cut (further : Nat) (more : lexeme.more = word.length - 1 + further) :
      c :: rest.take lexeme.more = word ++ behind.take further ∧
        rest.drop lexeme.more = behind.drop further := by
    have total : lexeme.more + 1 = word.length + further := by omega
    constructor
    · rw [← List.take_succ_cons, total, whole, List.take_append, List.take_of_length_le (by omega)]
      simp
    · have shifted : rest.drop lexeme.more = (c :: rest).drop (lexeme.more + 1) := rfl
      rw [shifted, total, whole, List.drop_append]
      simp
  rw [wordLexeme_eq registry c rest word behind whole plain ends] at scanned
  cases phrase : phraseOf registry word ((ahead behind).map Prod.snd) with
  | some pair =>
    obtain ⟨count, contents⟩ := pair
    rw [phrase] at scanned
    obtain ⟨node, step, deeper⟩ := Option.bind_eq_some_iff.1 phrase
    have bound := depth_bound node _ count contents deeper
    rw [List.length_map] at bound
    obtain ⟨words, worded, many, names, endsThere⟩ :=
      exists_worded word behind plain ends count bound
    obtain ⟨text, left⟩ := cut (reach count behind) (by rw [scanned])
    rw [text, left]
    refine ⟨word :: words, worded, endsThere, word, words, rfl, ?_⟩
    rw [← names, phrase, scanned]
    exact ⟨many.symm, rfl, rfl⟩
  | none =>
    rw [phrase] at scanned
    obtain ⟨text, left⟩ := cut 0 (by rw [scanned]; simp only; split <;> rfl)
    rw [text, left, List.take_zero, List.append_nil, List.drop_zero]
    refine ⟨[word], .single plain, ends, word, [], rfl, ?_⟩
    rw [List.nil_append, phrase, scanned]
    refine ⟨rfl, ?_⟩
    simp only
    split <;> exact ⟨rfl, rfl⟩

theorem wordLexeme_of_named (registry : Registry) (words : List (List Char)) (c : Char)
    (rest suffix : List Char) (worded : Worded words (c :: rest)) (ends : NameEnds suffix)
    (kind : Kind) (contents : Option String)
    (named : Named registry words ((ahead suffix).map Prod.snd) kind contents) :
    wordLexeme registry c (rest ++ suffix) (1 + spanLength isNamePart (rest ++ suffix)) =
      { kind, more := rest.length, contents } := by
  obtain ⟨word, behind, others, steps, rfl, plain, text, behindEnds, onward, names, sum⟩ :=
    worded.ahead suffix ends
  have whole : c :: (rest ++ suffix) = word ++ (behind ++ suffix) := by
    rw [← List.cons_append, text, List.append_assoc]
  obtain ⟨first, called, same, named⟩ := named
  obtain ⟨rfl, rfl⟩ := List.cons.inj same
  have positive := plain.length_pos
  have length : rest.length + 1 = word.length + behind.length := by
    rw [← List.length_append, ← text]
    rfl
  rw [wordLexeme_eq registry c (rest ++ suffix) word (behind ++ suffix) whole plain behindEnds,
    onward, List.map_append, names]
  cases phrase : phraseOf registry word (others ++ (ahead suffix).map Prod.snd) with
  | some pair =>
    obtain ⟨count, contents⟩ := pair
    rw [phrase] at named
    obtain ⟨rfl, rfl, rfl⟩ := named
    have far : reach others.length (behind ++ suffix) = behind.length := by
      rw [reach, onward, ← names, List.length_map, List.take_left, sum]
    have more : word.length - 1 + behind.length = rest.length := by omega
    simp only [far, more]
  | none =>
    rw [phrase] at named
    obtain ⟨rfl, named⟩ := named
    have nothing : behind.length = 0 := by
      rw [← sum, List.map_eq_nil_iff.1 names]
      rfl
    have more : word.length - 1 = rest.length := by omega
    simp only [more]
    split at named
    · obtain ⟨rfl, rfl⟩ := named
      rename_i reserved
      rw [if_pos reserved]
    · obtain ⟨rfl, rfl⟩ := named
      rename_i free
      rw [if_neg free]

end SqlLayout.Token

import Mathlib.Data.List.Forall2
import SqlLayout.Proofs.Lettering
import SqlLayout.Proofs.Respelling
import SqlLayout.Proofs.Severing

/-! A source in other letters. What the scanner asks of a character, it asks of both cases
alike, with one exception: the tag that closes a string has to be spelt like the one that
opens it. So a text of ASCII in which letters of words have been put into the other case is
cut into the same tokens, and each word is called what it was called. -/
namespace SqlLayout.Text

structure SameLetter (c d : Char) : Prop where
  ascii : c.toNat < 128
  asciiTwin : d.toNat < 128
  upper : d.toUpper = c.toUpper

/-- A class of characters that has a letter of ASCII in both cases or in none. -/
def Caseless (belongs : Char → Bool) : Prop :=
  ∀ code < 128, belongs (Char.ofNat code).toUpper = belongs (Char.ofNat code)

instance (belongs : Char → Bool) : Decidable (Caseless belongs) :=
  inferInstanceAs (Decidable (∀ code < 128, _ = _))

theorem Caseless.upper {belongs : Char → Bool} (caseless : Caseless belongs) (c : Char)
    (ascii : c.toNat < 128) : belongs c.toUpper = belongs c :=
  forall_ascii (fun c => belongs c.toUpper = belongs c) caseless c ascii

theorem SameLetter.belongs {c d : Char} (same : SameLetter c d) {belongs : Char → Bool}
    (caseless : Caseless belongs) : belongs d = belongs c := by
  rw [← caseless.upper d same.asciiTwin, same.upper, caseless.upper c same.ascii]

theorem SameLetter.refl {c : Char} (ascii : c.toNat < 128) : SameLetter c c :=
  ⟨ascii, ascii, rfl⟩

theorem SameLetter.lower {c d : Char} (same : SameLetter c d) : d.toLower = c.toLower := by
  have through (c : Char) (ascii : c.toNat < 128) : c.toUpper.toLower = c.toLower :=
    forall_ascii (fun c => c.toUpper.toLower = c.toLower) (by decide +kernel) c ascii
  rw [← through d same.asciiTwin, same.upper, through c same.ascii]

/-- The classes of characters that the scanner tells apart by more than one sign. -/
def scannerClasses : List (Char → Bool) :=
  [isBlank, isWord, isWordStart, isDecimal, isDigitSign, Token.isNamePart, Token.isStringMark,
    Token.isSpecialNamePart, (fun c => c = 'U' ∨ c = 'u'), (fun c => c = 'e' ∨ c = 'E')]

theorem caseless_of_mem : ∀ belongs ∈ scannerClasses, Caseless belongs := by
  decide +kernel

theorem caseless_isBlank : Caseless isBlank :=
  caseless_of_mem _ (by simp [scannerClasses])

theorem caseless_isWord : Caseless isWord :=
  caseless_of_mem _ (by simp [scannerClasses])

theorem caseless_isWordStart : Caseless isWordStart :=
  caseless_of_mem _ (by simp [scannerClasses])

theorem caseless_isDecimal : Caseless isDecimal :=
  caseless_of_mem _ (by simp [scannerClasses])

theorem caseless_isDigitSign : Caseless isDigitSign :=
  caseless_of_mem _ (by simp [scannerClasses])

def SameLetters : List Char → List Char → Prop := List.Forall₂ SameLetter

namespace SameLetters

variable {first second : List Char}

theorem length (same : SameLetters first second) : second.length = first.length :=
  (List.Forall₂.length_eq same).symm

theorem take (same : SameLetters first second) (count : Nat) :
    SameLetters (first.take count) (second.take count) :=
  List.forall₂_take count same

theorem drop (same : SameLetters first second) (count : Nat) :
    SameLetters (first.drop count) (second.drop count) :=
  List.forall₂_drop count same

theorem ascii (same : SameLetters first second) : IsAscii first := by
  induction same with
  | nil => exact fun c member => absurd member List.not_mem_nil
  | cons head _ ih => exact List.forall_mem_cons.2 ⟨head.ascii, ih⟩

theorem asciiTwin (same : SameLetters first second) : IsAscii second := by
  induction same with
  | nil => exact fun c member => absurd member List.not_mem_nil
  | cons head _ ih => exact List.forall_mem_cons.2 ⟨head.asciiTwin, ih⟩

theorem map_toUpper (same : SameLetters first second) :
    second.map Char.toUpper = first.map Char.toUpper := by
  induction same with
  | nil => rfl
  | cons head _ ih => rw [List.map_cons, List.map_cons, head.upper, ih]

theorem map_toLower (same : SameLetters first second) :
    second.map Char.toLower = first.map Char.toLower := by
  induction same with
  | nil => rfl
  | cons head _ ih => rw [List.map_cons, List.map_cons, head.lower, ih]

theorem upper (same : SameLetters first second) :
    Text.upper (String.ofList second) = Text.upper (String.ofList first) := by
  refine String.toList_injective ?_
  rw [upper_toList_ascii _ (by simpa using same.asciiTwin),
    upper_toList_ascii _ (by simpa using same.ascii), String.toList_ofList, String.toList_ofList,
    same.map_toUpper]

theorem head?_any (same : SameLetters first second) {belongs : Char → Bool}
    (caseless : Caseless belongs) : second.head?.any belongs = first.head?.any belongs := by
  cases same with
  | nil => rfl
  | cons head _ => exact head.belongs caseless

theorem any (same : SameLetters first second) {belongs : Char → Bool}
    (caseless : Caseless belongs) : second.any belongs = first.any belongs := by
  induction same with
  | nil => rfl
  | cons head _ ih => rw [List.any_cons, List.any_cons, head.belongs caseless, ih]

theorem spanLength (same : SameLetters first second) {belongs : Char → Bool}
    (caseless : Caseless belongs) :
    Token.spanLength belongs second = Token.spanLength belongs first := by
  induction same with
  | nil => rfl
  | cons head _ ih =>
    simp only [Token.spanLength, List.takeWhile_cons, head.belongs caseless] at ih ⊢
    split
    · rw [List.length_cons, List.length_cons, ih]
    · rfl

end SameLetters

def IsSign (sign : Char) : Prop :=
  Caseless (· = sign)

theorem isSign_of_not_isAlpha (sign : Char) (other : sign.isAlpha = false) : IsSign sign := by
  have letters : ∀ code < 128, (Char.ofNat code).toUpper = Char.ofNat code ∨
      (Char.ofNat code).toUpper.isAlpha = true ∧ (Char.ofNat code).isAlpha = true := by
    decide +kernel
  have apart {c : Char} (letter : c.isAlpha = true) : c ≠ sign := by
    rintro rfl
    simp [other] at letter
  intro code bound
  obtain same | ⟨upper, letter⟩ := letters code bound
  · rw [same]
  · exact (decide_eq_false (apart upper)).trans (decide_eq_false (apart letter)).symm

theorem areSigns (signs : List Char) (others : signs.all (!·.isAlpha) = true) :
    ∀ sign ∈ signs, IsSign sign :=
  fun sign member => isSign_of_not_isAlpha sign (by simpa using List.all_eq_true.1 others sign member)

theorem IsSign.unlike {sign : Char} (isSign : IsSign sign) : Caseless (· ≠ sign) := by
  intro code bound
  simpa using isSign code bound

theorem SameLetter.eq_iff {c d sign : Char} (same : SameLetter c d) (isSign : IsSign sign) :
    d = sign ↔ c = sign := by
  simpa using same.belongs isSign

namespace SameLetters

variable {first second : List Char} (same : SameLetters first second)

include same

theorem head?_eq_iff {sign : Char} (isSign : IsSign sign) :
    second.head? = some sign ↔ first.head? = some sign := by
  cases same with
  | nil => rfl
  | cons head _ => simpa using head.eq_iff isSign

theorem contains {sign : Char} (isSign : IsSign sign) :
    second.contains sign = first.contains sign := by
  rw [List.contains_eq_any_beq, List.contains_eq_any_beq]
  refine same.any ?_
  simpa [IsSign, Caseless, eq_comm] using isSign

theorem isPrefixOf {wanted : List Char} (signs : ∀ sign ∈ wanted, IsSign sign) :
    wanted.isPrefixOf second = wanted.isPrefixOf first := by
  induction wanted generalizing first second with
  | nil => cases same <;> rfl
  | cons sign rest ih =>
    cases same with
    | nil => rfl
    | @cons c d _ _ head tail =>
      have heads : (sign == d) = (sign == c) := by
        rw [Bool.eq_iff_iff, beq_iff_eq, beq_iff_eq, eq_comm, eq_comm (a := sign)]
        exact head.eq_iff (signs sign (by simp))
      rw [List.isPrefixOf, List.isPrefixOf, heads,
        ih tail fun other member => signs other (List.mem_cons_of_mem sign member)]

theorem findSequence {wanted : List Char} (signs : ∀ sign ∈ wanted, IsSign sign) :
    Text.findSequence wanted second = Text.findSequence wanted first := by
  induction same with
  | nil => rfl
  | cons head tail ih =>
    rw [Text.findSequence, Text.findSequence, ih,
      isPrefixOf (List.Forall₂.cons head tail) signs]

end SameLetters

end SqlLayout.Text

namespace SqlLayout.Token

open Keyword Text

theorem closeQuote_reletter {first second : List Char} (same : SameLetters first second)
    {quote : Char} (isSign : IsSign quote) :
    closeQuote quote second = closeQuote quote first := by
  match same with
  | .nil => rfl
  | .cons head .nil => simp only [closeQuote, head.eq_iff isSign]
  | .cons head (.cons next tail) =>
    simp only [closeQuote, head.eq_iff isSign, next.eq_iff isSign,
      closeQuote_reletter tail isSign, closeQuote_reletter (.cons next tail) isSign]

theorem caseless_isNamePart : Caseless isNamePart :=
  caseless_of_mem _ (by simp [scannerClasses])

theorem punctuation?_reletter {c d : Char} (head : SameLetter c d) :
    punctuation? d = punctuation? c := by
  simp only [punctuation?, head.eq_iff (isSign_of_not_isAlpha '(' rfl),
    head.eq_iff (isSign_of_not_isAlpha ')' rfl), head.eq_iff (isSign_of_not_isAlpha ',' rfl),
    head.eq_iff (isSign_of_not_isAlpha ';' rfl)]

section Ahead

variable {first second : List Char} (same : SameLetters first second)

include same

theorem quotedRun_reletter (kind : Kind) {quote : Char} (isSign : IsSign quote) (offset : Nat) :
    quotedRun kind quote offset second = quotedRun kind quote offset first := by
  rw [quotedRun, quotedRun, closeQuote_reletter same isSign, same.length]

theorem lineComment_reletter : lineComment second = lineComment first := by
  rw [lineComment, lineComment, same.spanLength (isSign_of_not_isAlpha _ rfl).unlike]

theorem blockComment_reletter : blockComment second = blockComment first := by
  rw [blockComment, blockComment, same.findSequence (areSigns _ rfl), same.length]

theorem quoted?_reletter {c d : Char} (head : SameLetter c d) :
    quoted? d second = quoted? c first := by
  have mark : isStringMark d = isStringMark c := head.belongs (caseless_of_mem _ (by simp [scannerClasses]))
  have unicode : (d = 'U' ∨ d = 'u') ↔ (c = 'U' ∨ c = 'u') := by
    rw [← decide_eq_decide]
    exact head.belongs (caseless_of_mem (fun c => c = 'U' ∨ c = 'u') (by simp [scannerClasses]))
  have single : IsSign '\'' := isSign_of_not_isAlpha _ rfl
  have double : IsSign '"' := isSign_of_not_isAlpha _ rfl
  have back : IsSign '`' := isSign_of_not_isAlpha _ rfl
  simp only [quoted?, mark, unicode, head.eq_iff single, head.eq_iff double, head.eq_iff back,
    same.head?_eq_iff single, same.isPrefixOf (areSigns ['&', '\''] rfl),
    quotedRun_reletter same _ single, quotedRun_reletter same _ double,
    quotedRun_reletter same _ back, quotedRun_reletter (same.drop _) _ single]

theorem bracketed_reletter : bracketed second = bracketed first := by
  have line : IsSign '\n' := isSign_of_not_isAlpha _ rfl
  have bracket : IsSign '[' := isSign_of_not_isAlpha _ rfl
  have close : IsSign ']' := isSign_of_not_isAlpha _ rfl
  simp only [bracketed, same.spanLength close.unlike, same.length,
    (same.take _).contains line, (same.take _).contains bracket]

theorem enclosedPlaceholder?_reletter (close : Char) (isSign : Caseless (· ≠ close)) :
    enclosedPlaceholder? close second = enclosedPlaceholder? close first := by
  simp only [enclosedPlaceholder?, same.spanLength isSign, same.length,
    (same.take _).any caseless_isBlank]

theorem tagged?_reletter
    (kept : ∀ lexeme ∈ tagged? first, second.take lexeme.more = first.take lexeme.more) :
    tagged? second = tagged? first := by
  cases found : tagged? first with
  | some lexeme =>
    have again := (tagged?_take first (second.drop lexeme.more) lexeme found ?_).1
    · rwa [← kept lexeme found, List.take_append_drop] at again
    · intro nothing
      rw [List.drop_eq_nil_iff] at nothing ⊢
      rwa [same.length]
  | none =>
    have dollar : IsSign '$' := isSign_of_not_isAlpha _ rfl
    simp only [tagged?, same.head?_any caseless_isWordStart, same.spanLength caseless_isWord,
      (same.drop _).head?_eq_iff dollar] at found ⊢
    generalize (if first.head?.any isWordStart then Token.spanLength isWord first else 0) = length
      at found ⊢
    split at found
    · split at found <;> simp at found
    · rename_i bare
      rw [if_neg bare]

theorem dollar?_reletter
    (kept : ∀ lexeme ∈ dollar? first, second.take lexeme.more = first.take lexeme.more) :
    dollar? second = dollar? first := by
  cases same with
  | nil => rfl
  | @cons c d _ _ head tail =>
    have square := head.eq_iff (isSign_of_not_isAlpha '[' rfl)
    have curly := head.eq_iff (isSign_of_not_isAlpha '\x7b' rfl)
    have digits := SameLetters.spanLength (.cons head tail) caseless_isDecimal
    by_cases isSquare : c = '['
    · rw [square.2 isSquare, isSquare]
      exact enclosedPlaceholder?_reletter tail ']' (isSign_of_not_isAlpha _ rfl).unlike
    by_cases isCurly : c = '\x7b'
    · rw [curly.2 isCurly, isCurly]
      exact enclosedPlaceholder?_reletter tail '\x7d' (isSign_of_not_isAlpha _ rfl).unlike
    rw [dollar?_of_other c _ isSquare isCurly] at kept ⊢
    rw [dollar?_of_other d _ (mt square.1 isSquare) (mt curly.1 isCurly), digits]
    split
    · rename_i none
      rw [none] at kept
      exact tagged?_reletter (.cons head tail) kept
    · rfl

theorem bound?_reletter : bound? second = bound? first := by
  rw [bound?, bound?, same.head?_any caseless_isWordStart, same.spanLength caseless_isWord]

theorem specialName?_reletter : specialName? second = specialName? first := by
  rw [specialName?, specialName?, same.spanLength (caseless_of_mem _ (by simp [scannerClasses]))]

theorem marked?_reletter {c d : Char} (head : SameLetter c d)
    (kept : c = '$' → ∀ lexeme ∈ dollar? first, second.take lexeme.more = first.take lexeme.more) :
    marked? d second = marked? c first := by
  have dollar (other : Option Lexeme) : (if c = '$' then dollar? second else other) =
      if c = '$' then dollar? first else other := by
    split
    · rename_i isDollar
      rw [dollar?_reletter same (kept isDollar)]
    · rfl
  simp only [marked?, head.belongs caseless_isBlank, same.spanLength caseless_isBlank,
    head.eq_iff (isSign_of_not_isAlpha '-' rfl), head.eq_iff (isSign_of_not_isAlpha '/' rfl),
    head.eq_iff (isSign_of_not_isAlpha '[' rfl), head.eq_iff (isSign_of_not_isAlpha '$' rfl),
    head.eq_iff (isSign_of_not_isAlpha '?' rfl), head.eq_iff (isSign_of_not_isAlpha ':' rfl),
    head.eq_iff (isSign_of_not_isAlpha '@' rfl), head.eq_iff (isSign_of_not_isAlpha '#' rfl),
    same.head?_eq_iff (isSign_of_not_isAlpha '-' rfl),
    same.head?_eq_iff (isSign_of_not_isAlpha '*' rfl), lineComment_reletter same,
    blockComment_reletter (same.drop 1), quoted?_reletter same head, bracketed_reletter same,
    dollar, bound?_reletter same, specialName?_reletter same, punctuation?_reletter head]

theorem exponentLength_reletter : exponentLength second = exponentLength first := by
  cases same with
  | nil => rfl
  | @cons c d rest others head tail =>
    have tail : SameLetters rest others := tail
    have mark : (d = 'e' ∨ d = 'E') ↔ (c = 'e' ∨ c = 'E') := by
      rw [← decide_eq_decide]
      exact head.belongs (caseless_of_mem (fun c => c = 'e' ∨ c = 'E') (by simp [scannerClasses]))
    simp only [exponentLength, mark, tail.head?_eq_iff (isSign_of_not_isAlpha '+' rfl),
      tail.head?_eq_iff (isSign_of_not_isAlpha '-' rfl),
      (tail.drop _).spanLength caseless_isDecimal]

theorem mantissaLength?_reletter : mantissaLength? second = mantissaLength? first := by
  have point : IsSign '.' := isSign_of_not_isAlpha _ rfl
  unfold mantissaLength?
  rw [same.spanLength caseless_isDecimal]
  split
  · cases same with
    | nil => rfl
    | @cons c d rest others head tail =>
      have tail : SameLetters rest others := tail
      by_cases isPoint : c = '.'
      · simp only [isPoint, (head.eq_iff point).2 isPoint, tail.spanLength caseless_isDecimal]
      · simp [isPoint, mt (head.eq_iff point).1 isPoint]
  · have behind := same.drop (Token.spanLength isDecimal first)
    generalize first.drop (Token.spanLength isDecimal first) = before at behind ⊢
    generalize second.drop (Token.spanLength isDecimal first) = after at behind ⊢
    cases behind with
    | nil => rfl
    | @cons c d rest others head tail =>
      have tail : SameLetters rest others := tail
      by_cases isPoint : c = '.'
      · simp only [isPoint, (head.eq_iff point).2 isPoint, tail.spanLength caseless_isDecimal]
      · simp [isPoint, mt (head.eq_iff point).1 isPoint]

theorem numberLength?_reletter : numberLength? second = numberLength? first := by
  rw [numberLength?, numberLength?, mantissaLength?_reletter same]
  refine congrArg (Option.map · _) (funext fun length => ?_)
  rw [exponentLength_reletter (same.drop length)]

theorem startsNumber_reletter {c d : Char} (head : SameLetter c d) :
    startsNumber d second = startsNumber c first := by
  simp only [startsNumber, head.belongs caseless_isDigitSign,
    same.head?_any caseless_isDigitSign, head.eq_iff (isSign_of_not_isAlpha '.' rfl)]

theorem signed?_reletter {c d : Char} (head : SameLetter c d) (last other : Option Token)
    (operand : other.any isOperand = last.any isOperand) :
    signed? other d second = signed? last c first := by
  simp only [signed?, operand, numberLength?_reletter same,
    head.eq_iff (isSign_of_not_isAlpha '+' rfl), head.eq_iff (isSign_of_not_isAlpha '-' rfl)]

theorem wordLength?_reletter : wordLength? second = wordLength? first := by
  cases same with
  | nil => rfl
  | @cons c d rest others head tail =>
    have tail : SameLetters rest others := tail
    rw [wordLength?, wordLength?, head.belongs caseless_isWordStart,
      tail.spanLength caseless_isNamePart]

theorem step_reletter (phrases : Phrases) :
    phrases.step (String.ofList second) = phrases.step (String.ofList first) := by
  rw [Phrases.step, Phrases.step, same.upper]

theorem operatorLexeme_reletter {c d : Char} (head : SameLetter c d) :
    operatorLexeme d second = operatorLexeme c first := by
  have signs : ∀ operator ∈ longOperators, ∀ sign ∈ operator, IsSign sign :=
    fun operator member => areSigns operator
      (List.all_eq_true.1 (rfl : longOperators.all (·.all (!·.isAlpha)) = true) operator member)
  have whole : SameLetters (c :: first) (d :: second) := .cons head same
  have found : longOperators.find? (·.isPrefixOf (d :: second)) =
      longOperators.find? (·.isPrefixOf (c :: first)) := by
    generalize longOperators = operators at signs
    induction operators with
    | nil => rfl
    | cons operator rest ih =>
      rw [List.find?_cons, List.find?_cons, whole.isPrefixOf (signs operator (by simp)),
        ih fun other member => signs other (List.mem_cons_of_mem operator member)]
  rw [operatorLexeme, operatorLexeme, found]

end Ahead

theorem ahead_reletter {first second : List Char} (same : SameLetters first second) :
    List.Forall₂ (fun step twin => twin.1 = step.1 ∧ SameLetters step.2 twin.2)
      (ahead first) (ahead second) := by
  have gap := same.spanLength caseless_isBlank
  have far := same.drop (spanLength Text.isBlank first)
  have again := wordLength?_reletter far
  rw [← gap] at again
  by_cases tight : spanLength Text.isBlank first = 0
  · rw [ahead_of_tight first tight, ahead_of_tight second (gap.trans tight)]
    exact .nil
  cases found : wordLength? (first.drop (spanLength Text.isBlank first)) with
  | none =>
    rw [gap] at again
    rw [ahead_of_none first found, ahead_of_none second (by rw [gap, again, found])]
    exact .nil
  | some length =>
    rw [gap] at again
    rw [ahead_of_some first length tight found,
      ahead_of_some second length (by rwa [gap]) (by rw [gap, again, found]), gap]
    have positive := wordLength?_pos _ _ found
    have bounded := wordLength?_le _ _ found
    rw [List.length_drop] at bounded
    exact .cons ⟨rfl, far.take length⟩
      (ahead_reletter (same.drop (spanLength Text.isBlank first + length)))
termination_by first.length
decreasing_by
  simp only [List.length_drop] at *
  omega

theorem phraseOnward_reletter (phrases : Phrases) {first second : List Char}
    (same : SameLetters first second) :
    phraseOnward phrases second = phraseOnward phrases first := by
  have steps := ahead_reletter same
  rw [phraseOnward_eq, phraseOnward_eq]
  simp only [reach]
  generalize ahead first = before at steps ⊢
  generalize ahead second = after at steps ⊢
  have equal : (after.map Prod.snd).map upperWord = (before.map Prod.snd).map upperWord ∧
      after.map Prod.fst = before.map Prod.fst := by
    induction steps with
    | nil => exact ⟨rfl, rfl⟩
    | cons head _ ih => simp only [List.map_cons, upperWord, head.2.upper, head.1, ih, and_self]
  rw [depth_congr phrases _ _ equal.1]
  simp only [List.map_take, equal.2]

theorem wordLexeme_reletter (registry : Registry) {first second : List Char}
    (same : SameLetters first second) {c d : Char} (head : SameLetter c d)
    (length : Nat) (found : wordLength? (c :: first) = some length) :
    wordLexeme registry d second length = wordLexeme registry c first length := by
  have whole : SameLetters (c :: first) (d :: second) := .cons head same
  have again := (wordLength?_reletter whole).trans found
  have named (c : Char) (rest : List Char) (found : wordLength? (c :: rest) = some length) :
      Text.collapse (String.ofList ((c :: rest).take length)) =
        String.ofList ((c :: rest).take length) := by
    obtain ⟨plain, -⟩ := exists_plainWord _ _ found
    obtain ⟨first, others, word, -⟩ := plain.start
    refine Text.collapse_of_visible _ ?_ fun letter member => ?_
    · simp [word]
    · exact isBlank_of_isNamePart letter (plain.parts letter (by simpa using member))
  simp only [wordLexeme, step_reletter (whole.take length), Registry.isReserved,
    (whole.take length).upper, phraseOnward_reletter _ (whole.drop length),
    named c first found, named d second again]

theorem wordOrOperator_reletter (registry : Registry) {first second : List Char}
    (same : SameLetters first second) {c d : Char} (head : SameLetter c d) :
    wordOrOperator registry d second = wordOrOperator registry c first := by
  have whole : SameLetters (c :: first) (d :: second) := .cons head same
  rw [wordOrOperator, wordOrOperator, wordLength?_reletter whole]
  cases found : wordLength? (c :: first) with
  | none => exact operatorLexeme_reletter same head
  | some length => exact wordLexeme_reletter registry same head length found

/-- In other letters the same lexeme comes next, unless the tag of a string is spelt
otherwise. -/
theorem scan?_reletter (registry : Registry) (last other : Option Token)
    (operand : other.any isOperand = last.any isOperand) {first second : List Char}
    (same : SameLetters first second) {c d : Char} (head : SameLetter c d)
    (kept : c = '$' → ∀ lexeme ∈ dollar? first, second.take lexeme.more = first.take lexeme.more) :
    scan? registry other d second = scan? registry last c first := by
  have whole : SameLetters (c :: first) (d :: second) := .cons head same
  rw [scan?, scan?, marked?_reletter same head kept, startsNumber_reletter same head,
    numberLength?_reletter whole, signed?_reletter same head last other operand,
    wordOrOperator_reletter registry same head]

def respelled (source : String) (token : Token) : Token :=
  if token.kind.isWordLike then
    let text := String.ofList ((source.toList.drop token.start).take token.text.length)
    ⟨token.kind, text, token.start, if token.isReserved then token.contents else text⟩
  else token

theorem kind_respelled (source : String) (token : Token) :
    (respelled source token).kind = token.kind := by
  unfold respelled
  split <;> rfl

theorem start_respelled (source : String) (token : Token) :
    (respelled source token).start = token.start := by
  unfold respelled
  split <;> rfl

theorem isOperand_respelled (source : String) (token : Token) :
    (respelled source token).isOperand = token.isOperand := by
  unfold respelled
  split
  · by_cases reserved : token.kind = .reservedWord <;>
      simp [isOperand, isKeyword, isReserved, reserved]
  · rfl

theorem contents_of_wordLike (registry : Registry) (last : Option Token) (c : Char)
    (rest : List Char) (lexeme : Lexeme) (found : scan? registry last c rest = some lexeme)
    (wordLike : lexeme.kind.isWordLike = true) :
    lexeme.contents.isSome = decide (lexeme.kind = .reservedWord) := by
  have scans := scans_of_scan? registry last c rest lexeme found
  cases scans with
  | word =>
    unfold wordLexeme
    simp only
    split <;> split <;> rfl
  | special => rfl
  | _ => grind [Kind.isWordLike, lineComment]

namespace Cursor

theorem Passes.position_le {registry : Registry} {cursor stop : Cursor} {tokens : List Token}
    (passes : Passes registry cursor tokens stop) :
    ∀ token ∈ tokens, cursor.position ≤ token.start := by
  induction passes with
  | done => simp
  | token step _ ih =>
    have advances := advances_of_read registry _ _ _ _ step
    have further := advances.position_lt.1
    refine List.forall_mem_cons.2 ⟨advances.start.ge, fun other member => ?_⟩
    have bound := ih other member
    omega

/-- Two texts differ only where words stand, of which the tokens are given. -/
def DifferInWords (tokens : List Token) (position : Nat) (first second : List Char) : Prop :=
  ∀ (place : Nat) (c d : Char), first[place]? = some c → second[place]? = some d → c ≠ d →
    ∃ token ∈ tokens, token.kind.isWordLike = true ∧ token.start ≤ position + place ∧
      position + place < token.stop

theorem DifferInWords.take_eq {token : Token} {others : List Token} {position : Nat}
    {first second : List Char} (differ : DifferInWords (token :: others) position first second)
    (length : second.length = first.length) (plain : token.kind.isWordLike = false)
    (later : ∀ other ∈ others, token.stop ≤ other.start) (count : Nat)
    (inside : position + count ≤ token.stop) : second.take count = first.take count := by
  refine List.ext_getElem (by simp [length]) fun place left right => ?_
  rw [List.getElem_take, List.getElem_take]
  by_contra apart
  rw [List.length_take] at left right
  obtain ⟨owner, member, wordLike, starts, stops⟩ := differ place _ _
    (List.getElem?_eq_getElem (by omega)) (List.getElem?_eq_getElem (by omega)) (Ne.symm apart)
  rcases List.mem_cons.1 member with rfl | among
  · simp [wordLike] at plain
  · have bound := later owner among
    omega

theorem DifferInWords.drop {token : Token} {others : List Token} {position : Nat}
    {first second : List Char} (differ : DifferInWords (token :: others) position first second)
    (count : Nat) (whole : token.stop = position + count) :
    DifferInWords others token.stop (first.drop count) (second.drop count) := by
  intro place c d inFirst inSecond apart
  rw [List.getElem?_drop] at inFirst inSecond
  obtain ⟨owner, member, wordLike, starts, stops⟩ := differ _ c d inFirst inSecond apart
  rcases List.mem_cons.1 member with rfl | among
  · omega
  · exact ⟨owner, among, wordLike, by omega, by omega⟩

theorem Passes.reletter {registry : Registry} {cursor stop : Cursor} {tokens : List Token}
    (passes : Passes registry cursor tokens stop) (source : String) (rest : List Char)
    (placed : source.toList.drop cursor.position = rest) (same : SameLetters cursor.rest rest)
    (differ : DifferInWords tokens cursor.position cursor.rest rest) (last : Option Token)
    (operand : last.any isOperand = cursor.last.any isOperand) :
    ∃ after, Passes registry ⟨cursor.position, rest, last⟩ (tokens.map (respelled source)) after ∧
      SameLetters stop.rest after.rest := by
  induction passes generalizing rest last with
  | done => exact ⟨_, .done _, same⟩
  | @token cursor next stop token notices others step onward ih =>
    have later := onward.position_le
    obtain ⟨c, first, lexeme, ahead, found, whole, rfl⟩ := exists_of_read registry _ _ _ _ step
    rw [ahead] at same differ
    match rest, same with
    | d :: second, .cons head tail =>
    have tail : SameLetters first second := tail
    have fits : lexeme.more ≤ first.length := scan?_more_le registry _ c first lexeme found
    have size : token.text.length = lexeme.more + 1 := by
      rw [whole, tokenOf, String.length_ofList, List.length_cons, List.length_take,
        Nat.min_eq_left fits]
    have start : token.start = cursor.position := by rw [whole]; rfl
    have kind : token.kind = lexeme.kind := by rw [whole]; rfl
    have stop : token.stop = cursor.position + (lexeme.more + 1) := by
      rw [Token.stop, size, start]
    have kept (plain : token.kind.isWordLike = false) :
        d = c ∧ second.take lexeme.more = first.take lexeme.more := by
      have equal := differ.take_eq (by simp [tail.length]) plain later (lexeme.more + 1) stop.ge
      simpa using equal
    have found' : scan? registry last d second = some lexeme := by
      rw [scan?_reletter registry cursor.last last operand tail head ?_, found]
      rintro rfl other dollar
      have marked := scan?_of_marked registry cursor.last '$' first other
        (by rw [marked?_dollar]; exact dollar)
      obtain rfl : lexeme = other := Option.some.inj (found.symm.trans marked)
      refine (kept ?_).2
      rcases kind_of_dollar? first lexeme dollar with same | same <;> rw [kind, same] <;> rfl
    obtain ⟨again, reread⟩ := read_of_scan? registry cursor.position last d second lexeme found'
    have spelt : String.ofList (d :: second.take lexeme.more) =
        String.ofList ((source.toList.drop token.start).take token.text.length) := by
      rw [start, placed, size, List.take_succ_cons]
    have twin : tokenOf cursor.position d second lexeme = respelled source token := by
      unfold respelled
      by_cases wordLike : token.kind.isWordLike = true
      · have own := contents_of_wordLike registry cursor.last c first lexeme found (kind ▸ wordLike)
        rw [if_pos wordLike, ← spelt]
        cases given : lexeme.contents with
        | some contents => simp_all [tokenOf, isReserved]
        | none => simp_all [tokenOf, isReserved]
      · obtain ⟨rfl, equal⟩ := kept (by simpa using wordLike)
        rw [if_neg wordLike, whole, tokenOf, tokenOf, equal]
    have stops : (respelled source token).stop = token.stop := by
      rw [← twin, stop, tokenOf, Token.stop, String.length_ofList, List.length_cons,
        List.length_take, tail.length, Nat.min_eq_left fits]
    rw [twin, stops] at reread
    obtain ⟨after, passed, left⟩ := ih (second.drop lexeme.more)
      (by rw [stop, ← List.drop_drop, placed, List.drop_succ_cons]) (tail.drop _)
      (differ.drop (lexeme.more + 1) stop)
      (if (respelled source token).isSolid then some (respelled source token) else last) (by
        have solid : (respelled source token).isSolid = token.isSolid := by
          simp only [isSolid, isBlank, isComment, kind_respelled]
        rw [solid]
        split
        · exact isOperand_respelled source token
        · exact operand)
    exact ⟨after, .token reread passed, left⟩

end Cursor

structure DifferInCase (tokens : List Token) (first second : String) : Prop where
  ascii : IsAscii first.toList
  asciiTwin : IsAscii second.toList
  length : second.length = first.length
  letters : ∀ place < first.length, second.toList[place]? ≠ first.toList[place]? →
    second.toList[place]?.map Char.toUpper = first.toList[place]?.map Char.toUpper ∧
      ∃ token ∈ tokens, token.kind.isWordLike = true ∧ token.start ≤ place ∧ place < token.stop

theorem DifferInCase.sameLetters {tokens : List Token} {first second : String}
    (differ : DifferInCase tokens first second) :
    SameLetters first.toList second.toList := by
  refine List.forall₂_iff_get.2 ⟨differ.length.symm, fun place left right => ?_⟩
  have inFirst := List.getElem?_eq_getElem left
  have inSecond := List.getElem?_eq_getElem right
  refine ⟨differ.ascii _ (List.get_mem _ _), differ.asciiTwin _ (List.get_mem _ _), ?_⟩
  by_cases equal : second.toList[place]? = first.toList[place]?
  · rw [inFirst, inSecond, Option.some.injEq] at equal
    exact congrArg Char.toUpper equal
  · have upper := (differ.letters place left equal).1
    rwa [inFirst, inSecond, Option.map_some, Option.map_some, Option.some.injEq] at upper

/-- A source in other letters is read as the same tokens in other letters. -/
theorem tokens?_reletter (registry : Registry) (first second : String) (tokens : List Token)
    (lexed : tokens? registry first = .ok tokens) (differ : DifferInCase tokens first second) :
    tokens? registry second = .ok (tokens.map (respelled second)) := by
  obtain ⟨finished, rfl⟩ := (tokens?_eq_ok_iff registry first tokens).1 lexed
  have passes := Cursor.Passes.of_readAll registry (Cursor.ofSource first)
  obtain ⟨after, passed, left⟩ := passes.reletter second second.toList rfl differ.sameLetters
    (by
      intro place c d inFirst inSecond apart
      rw [Cursor.ofSource, Nat.zero_add]
      obtain ⟨inside, -⟩ := List.getElem?_eq_some_iff.1 inFirst
      refine (differ.letters place inside fun equal => apart ?_).2
      exact Option.some.inj (inFirst.symm.trans (equal.symm.trans inSecond)))
    none rfl
  have nothing : after.rest = [] := by
    rw [← List.length_eq_zero_iff, left.length]
    exact congrArg List.length finished
  obtain ⟨own, stop⟩ := passed.readAll nothing
  exact (tokens?_eq_ok_iff registry second _).2 ⟨(congrArg Cursor.rest stop).trans nothing, own⟩

theorem numberLength?_ascii (c : Char) (rest : List Char) (ascii : IsAscii (c :: rest))
    (starts : startsNumber c rest = true) : (numberLength? (c :: rest)).isSome = true := by
  have decimal (d : Char) (member : d ∈ c :: rest) (sign : isDigitSign d = true) :
      isDecimal d = true :=
    forall_ascii (fun d => isDigitSign d = true → isDecimal d = true) (by decide +kernel) d
      (ascii d member) sign
  rw [numberLength?, Option.isSome_map]
  unfold mantissaLength?
  simp only [startsNumber, Bool.or_eq_true, Bool.and_eq_true, decide_eq_true_eq] at starts
  rcases starts with sign | ⟨rfl, sign⟩
  · have digits : spanLength isDecimal (c :: rest) ≠ 0 := by
      simp [spanLength, decimal c (by simp) sign]
    split
    · exact absurd ‹_› digits
    · split <;> rfl
  · have pointed : spanLength isDecimal ('.' :: rest) = 0 := by
      have point : isDecimal '.' = false := by decide
      simp [spanLength, point]
    cases rest with
    | nil => simp at sign
    | cons d others =>
      have digits : spanLength isDecimal (d :: others) ≠ 0 := by
        simp [spanLength, decimal d (by simp) (by simpa using sign)]
      rw [pointed]
      simp

theorem scan?_ascii (registry : Registry) (last : Option Token) (c : Char) (rest : List Char)
    (ascii : IsAscii (c :: rest)) : ∃ lexeme, scan? registry last c rest = some lexeme := by
  rw [scan?]
  split
  · exact ⟨_, rfl⟩
  · split
    · rename_i starts
      obtain ⟨length, found⟩ := Option.isSome_iff_exists.1 (numberLength?_ascii c rest ascii starts)
      exact ⟨_, by rw [found, Option.map_some]⟩
    · exact ⟨_, rfl⟩

theorem Cursor.readAll_ascii (registry : Registry) (cursor : Cursor)
    (ascii : IsAscii cursor.rest) : (cursor.readAll registry).stop.rest = [] := by
  match cursor with
  | ⟨_, [], _⟩ => rw [readAll_of_atEnd registry _ ((read_eq_atEnd_iff registry _).2 rfl)]
  | ⟨position, c :: rest, last⟩ =>
    obtain ⟨lexeme, found⟩ := scan?_ascii registry last c rest ascii
    obtain ⟨notices, step⟩ := read_of_scan? registry position last c rest lexeme found
    rw [readAll_of_token registry _ _ _ _ step]
    refine readAll_ascii registry _ (ascii.of_sublist ?_)
    exact (List.drop_sublist _ rest).trans (List.sublist_cons_self c rest)
termination_by cursor.rest.length
decreasing_by
  simp only [List.length_drop, List.length_cons]
  omega

theorem tokens?_ascii (registry : Registry) (source : String) (ascii : IsAscii source.toList) :
    ∃ tokens, tokens? registry source = .ok tokens :=
  ⟨_, (tokens?_eq_ok_iff registry source _).2
    ⟨Cursor.readAll_ascii registry (Cursor.ofSource source) ascii, rfl⟩⟩

end SqlLayout.Token

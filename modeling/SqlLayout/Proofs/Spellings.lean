import SqlLayout.Proofs.Clearance
import SqlLayout.Proofs.Drawing

/-! How words and numbers are read again, with something else behind them than before. They
are made of characters that a reader passes one by one, in whatever case they are written.
A dollar sign in a word may start something if the word has another one; what is needed to
rule that out is put into hypotheses. -/
namespace SqlLayout.Token

open Keyword Layout

def jointChars : List Char :=
  [' ', '\n', '(', ')', ',', ';', '.', ':', ']', '}', '[']

def isJoint (c : Char) : Bool :=
  jointChars.contains c

def JointAhead (suffix : List Char) : Prop :=
  ∀ c, suffix.head? = some c → isJoint c = true

theorem JointAhead.head_ne {suffix : List Char} (joint : JointAhead suffix) (c : Char)
    (other : isJoint c = false) : suffix.head? ≠ some c := by
  intro head
  simp [joint c head] at other

theorem JointAhead.outside {suffix : List Char} (joint : JointAhead suffix)
    (belongs : Char → Bool) (apart : jointChars.all (!belongs ·) = true) (c : Char)
    (head : suffix.head? = some c) : belongs c = false := by
  have member : c ∈ jointChars := by simpa [isJoint] using joint c head
  simpa using List.all_eq_true.1 apart c member

/-- Behind a bracket, the text is clear again after the next closing bracket. -/
def LandsBehind (ends : List Char → Prop) (body : List Char) : Prop :=
  spanLength (· ≠ ']') body < body.length →
    Clear ends false (body.drop (spanLength (· ≠ ']') body + 1))

namespace Clear

variable {ends : List Char → Prop} {suffix : List Char}

def isInert (c : Char) : Bool :=
  isFree c && c ≠ '-' && c ≠ '/'

theorem of_inert (run : List Char) (inert : ∀ c ∈ run, isInert c = true)
    (clear : ∀ tight, Clear ends tight suffix) (tight : Bool) :
    Clear ends tight (run ++ suffix) := by
  induction run generalizing tight with
  | nil => exact clear tight
  | cons c rest ih =>
    have head := inert c (by simp)
    simp only [isInert, Bool.and_eq_true, decide_eq_true_eq] at head
    exact .free head.1.1 (fun isHyphen => absurd isHyphen head.1.2)
      (fun isSlash => absurd isSlash head.2)
      (ih (fun d member => inert d (List.mem_cons_of_mem _ member)) _)

theorem isInert_of_class (belongs : Char → Bool)
    (apart : ['\'', '"', '`', '[', '$', '-', '/'].all (!belongs ·) = true) (c : Char)
    (here : belongs c = true) : isInert c = true := by
  have other : c ∉ ['\'', '"', '`', '[', '$', '-', '/'] := by
    intro member
    have outside := List.all_eq_true.1 apart c member
    simp [here] at outside
  simp only [List.mem_cons, List.not_mem_nil, or_false, not_or] at other
  simp [isInert, isFree, other]

theorem of_joint (clear : Clear ends false suffix) (joint : JointAhead suffix) (tight : Bool) :
    Clear ends tight suffix :=
  clear.tighten (joint.head_ne '$' (by decide))

end Clear

/-- Characters of words, in whatever case: parts of names, blanks in phrases, and what a
letter may become. -/
def isWordish (c : Char) : Bool :=
  isSpecialNamePart c || Text.isBlank c || Text.isLetterCode c.toNat

theorem isInert_of_isWordish (c : Char) (wordish : isWordish c = true) (other : c ≠ '$') :
    Clear.isInert c = true := by
  refine Clear.isInert_of_class (fun c => isWordish c && c ≠ '$') (by decide) c ?_
  simp [wordish, other]

theorem JointAhead.dropWhile {suffix : List Char} (joint : JointAhead suffix) :
    suffix.dropWhile Text.isWord = suffix := by
  cases suffix with
  | nil => rfl
  | cons c rest =>
    have outside := joint.outside Text.isWord (by decide) c rfl
    exact List.dropWhile_cons_of_neg (by simp [outside])

theorem tagged?_eq_none (rest suffix : List Char) (single : '$' ∉ rest)
    (joint : JointAhead suffix) : tagged? (rest ++ suffix) = none := by
  have apart (front : List Char) (inside : ∀ c ∈ front, c ∈ rest) :
      (front ++ suffix).head? ≠ some '$' := by
    cases front with
    | nil => exact joint.head_ne '$' (by decide)
    | cons c others =>
      rw [List.cons_append, List.head?_cons]
      intro isDollar
      rw [Option.some.inj isDollar] at inside
      exact single (inside '$' (by simp))
  unfold tagged?
  simp only
  rw [if_neg]
  split
  · rw [drop_spanLength, List.dropWhile_append]
    split
    · rw [joint.dropWhile]
      exact apart [] (by simp)
    · exact apart _ fun c member => (List.dropWhile_sublist _).subset member
  · exact apart rest fun _ member => member

/-- A dollar sign in a word without another one starts a number at most, or goes on in a
bracket behind the word. -/
theorem dollar?_lands {ends : List Char → Prop} (well : EndsWell ends) (rest suffix : List Char)
    (wordish : ∀ c ∈ rest, isWordish c = true) (single : '$' ∉ rest)
    (joint : JointAhead suffix)
    (lands : ∀ body, rest = [] → suffix = '[' :: body → LandsBehind ends body)
    (clear : Clear ends true (rest ++ suffix)) (lexeme : Lexeme)
    (found : dollar? (rest ++ suffix) = some lexeme) :
    Clear ends false ((rest ++ suffix).drop lexeme.more) := by
  have atSuffix (sign : Char) (body : List Char) (noWord : isWordish sign = false)
      (starts : rest ++ suffix = sign :: body) : rest = [] ∧ suffix = sign :: body := by
    cases rest with
    | nil => exact ⟨rfl, starts⟩
    | cons c others =>
      simp only [List.cons_append, List.cons.injEq] at starts
      have inWord := wordish c (by simp)
      rw [starts.1] at inWord
      simp [inWord] at noWord
  unfold dollar? at found
  split at found
  · rename_i body starts
    obtain ⟨nothing, opens⟩ := atSuffix '[' body (by decide) starts
    unfold enclosedPlaceholder? at found
    simp only at found
    split at found
    · rename_i closed
      obtain rfl := Option.some.inj found
      rw [starts]
      exact lands body nothing opens closed.1
    · simp at found
  · rename_i body starts
    obtain ⟨nothing, opens⟩ := atSuffix '{' body (by decide) starts
    exact absurd (by rw [opens]; rfl) (joint.head_ne '{' (by decide))
  · split at found
    · rw [tagged?_eq_none rest suffix single joint] at found
      simp at found
    · obtain rfl := Option.some.inj found
      exact Clear.passDigits well clear

namespace Clear

variable {ends : List Char → Prop} {suffix : List Char}

theorem of_word (well : EndsWell ends) (word : List Char)
    (wordish : ∀ c ∈ word, isWordish c = true) (single : word.count '$' ≤ 1)
    (clear : Clear ends false suffix) (joint : JointAhead suffix)
    (lands : ∀ body, suffix = '[' :: body → LandsBehind ends body) (tight : Bool) :
    Clear ends tight (word ++ suffix) := by
  induction word generalizing tight with
  | nil => exact clear.of_joint joint tight
  | cons c rest ih =>
    have inWord : ∀ d ∈ rest, isWordish d = true := fun d member =>
      wordish d (List.mem_cons_of_mem _ member)
    rw [List.count_cons] at single
    have onward := ih inWord (by omega)
    by_cases isDollar : c = '$'
    · subst isDollar
      have last : '$' ∉ rest := by
        rw [← List.count_eq_zero]
        simp only [BEq.rfl, if_true] at single
        omega
      exact .dollar (onward true) fun lexeme found => dollar?_lands well rest suffix inWord last
        joint (fun body _ opens => lands body opens) (onward true) lexeme found
    · have inert := isInert_of_isWordish c (wordish c (by simp)) isDollar
      simp only [isInert, Bool.and_eq_true, decide_eq_true_eq] at inert
      exact .free inert.1.1 (fun isHyphen => absurd isHyphen inert.1.2)
        (fun isSlash => absurd isSlash inert.2) (onward _)

end Clear

theorem isWordish_of_isNamePart (c : Char) (part : isNamePart c = true) : isWordish c = true := by
  simp [isWordish, isSpecialNamePart, part]

theorem isWordish_of_isBlank (c : Char) (blank : Text.isBlank c = true) : isWordish c = true := by
  simp [isWordish, blank]

theorem wordish_of_wordLength? (chars : List Char) (length : Nat)
    (found : wordLength? chars = some length) (c : Char) (member : c ∈ chars.take length) :
    isWordish c = true := by
  cases chars with
  | nil => simp at member
  | cons first rest =>
    simp only [wordLength?] at found
    split at found
    · rename_i starts
      obtain rfl := Option.some.inj found
      rw [Nat.add_comm, List.take_succ_cons] at member
      simp only [Text.isWordStart, Bool.and_eq_true] at starts
      refine isWordish_of_isNamePart c ?_
      rcases List.mem_cons.1 member with rfl | later
      · simp [isNamePart, starts.1]
      · exact belongs_of_mem_span isNamePart rest c later
    · simp at found

theorem wordish_of_phraseOnward (phrases : Phrases) (chars : List Char) (length : Nat)
    (phrase : String) (found : phraseOnward phrases chars = some (length, phrase)) (c : Char)
    (member : c ∈ chars.take length) : isWordish c = true := by
  -- A blank, or a character of the word behind the blanks.
  have front (chars : List Char) (wordLength : Nat)
      (word : wordLength? (chars.drop (spanLength Text.isBlank chars)) = some wordLength)
      (inside : c ∈ chars.take (spanLength Text.isBlank chars + wordLength)) :
      isWordish c = true := by
    rw [List.take_add] at inside
    rcases List.mem_append.1 inside with inGap | inWord
    · exact isWordish_of_isBlank c (belongs_of_mem_span Text.isBlank chars c inGap)
    · exact wordish_of_wordLength? _ wordLength word c inWord
  fun_induction phraseOnward phrases chars generalizing length phrase with
  | case1 => simp at found
  | case2 => simp at found
  | case3 => simp at found
  | case4 phrases chars gap apart wordLength word child step taken further contents onward ih =>
    simp only [Option.some.injEq, Prod.mk.injEq] at found
    rw [← found.1, List.take_add] at member
    rcases List.mem_append.1 member with here | later
    · exact front chars wordLength word here
    · exact ih further contents onward later
  | case5 phrases chars gap apart wordLength word child step taken onward ih =>
    obtain ⟨own, -, equal⟩ := Option.map_eq_some_iff.1 found
    simp only [Prod.mk.injEq] at equal
    rw [← equal.1] at member
    exact front chars wordLength word member

theorem wordLexeme_shape (registry : Registry) (c : Char) (rest : List Char)
    (starts : Text.isWordStart c = true) :
    spanLength isNamePart rest ≤
      (wordLexeme registry c rest (1 + spanLength isNamePart rest)).more ∧
    ∀ d ∈ c :: rest.take (wordLexeme registry c rest (1 + spanLength isNamePart rest)).more,
      isWordish d = true := by
  have found : wordLength? (c :: rest) = some (1 + spanLength isNamePart rest) := by
    rw [wordLength?, if_pos starts]
  have longer (more : Nat) : c :: rest.take (1 + spanLength isNamePart rest - 1 + more) =
      (c :: rest).take (1 + spanLength isNamePart rest + more) := by
    rw [show 1 + spanLength isNamePart rest + more =
      (1 + spanLength isNamePart rest - 1 + more) + 1 by omega, List.take_succ_cons]
  have alone : ∀ d ∈ c :: rest.take (1 + spanLength isNamePart rest - 1), isWordish d = true := by
    intro d member
    have same := longer 0
    rw [Nat.add_zero, Nat.add_zero] at same
    rw [same] at member
    exact wordish_of_wordLength? _ _ found d member
  unfold wordLexeme
  simp only
  split
  · rename_i further phrase both
    obtain ⟨node, step, onward⟩ := Option.bind_eq_some_iff.1 both
    refine ⟨by simp only; omega, ?_⟩
    intro d member
    rw [longer, List.take_add] at member
    rcases List.mem_append.1 member with here | later
    · exact wordish_of_wordLength? _ _ found d here
    · exact wordish_of_phraseOnward node _ further phrase onward d later
  · split
    · exact ⟨by simp only; omega, alone⟩
    · exact ⟨by simp only; omega, alone⟩

theorem wordish_apply (choice : Style.WordCase) (text : String)
    (wordish : ∀ c ∈ text.toList, isWordish c = true) :
    (∀ c ∈ (choice.apply text).toList, isWordish c = true) ∧
      (choice.apply text).toList.count '$' ≤ text.toList.count '$' := by
  refine ⟨?_, choice.count_apply_le text '$' (by decide)⟩
  intro c member
  rcases choice.mem_apply text c member with kept | letter
  · exact wordish c kept
  · simp [isWordish, letter]

theorem wordish_collapse (text : String) (wordish : ∀ c ∈ text.toList, isWordish c = true) :
    (∀ c ∈ (Text.collapse text).toList, isWordish c = true) ∧
      (Text.collapse text).toList.count '$' ≤ text.toList.count '$' := by
  refine ⟨?_, Text.count_collapse_le text '$' (by decide)⟩
  intro c member
  rcases Text.mem_collapse text c member with rfl | kept
  · decide
  · exact wordish c kept

theorem wordish_plainPhrase (phrase : String) (plain : isPlainPhrase phrase = true) :
    (∀ c ∈ phrase.toList, isWordish c = true) ∧ phrase.toList.count '$' = 0 := by
  simp only [isPlainPhrase, Bool.and_eq_true] at plain
  have letters := List.all_eq_true.1 plain.2
  refine ⟨?_, List.count_eq_zero.2 fun member => absurd (letters '$' member) (by decide)⟩
  intro c member
  have letter := letters c member
  simp only [Bool.or_eq_true, decide_eq_true_eq] at letter
  rcases letter with upper | rfl
  · have bounds : 'A'.val ≤ c.val ∧ c.val ≤ 'Z'.val := of_decide_eq_true upper
    have low : 65 ≤ c.toNat := bounds.1
    have high : c.toNat ≤ 90 := bounds.2
    by_cases blank : Text.inRanges Text.blankRanges c.toNat = true
    · simp [isWordish, Text.isBlank, blank]
    · simp [isWordish, Text.isLetterCode, low, high, blank]
  · decide

theorem wordish_upper (part : List Char) (text : String) (sub : part.Sublist text.toList)
    (wordish : ∀ c ∈ text.toList, isWordish c = true) :
    (∀ c ∈ (Text.upper (Text.collapse (String.ofList part))).toList, isWordish c = true) ∧
      (Text.upper (Text.collapse (String.ofList part))).toList.count '$' ≤
        text.toList.count '$' := by
  have inPart : ∀ c ∈ (String.ofList part).toList, isWordish c = true := by
    intro c member
    rw [String.toList_ofList] at member
    exact wordish c (sub.subset member)
  obtain ⟨collapsed, less⟩ := wordish_collapse (String.ofList part) inPart
  obtain ⟨applied, lesser⟩ := wordish_apply .upper _ collapsed
  rw [String.toList_ofList] at less
  exact ⟨applied, lesser.trans (less.trans (sub.count_le '$'))⟩

theorem ReadFrom.wordish {registry : Registry} {token : Token} {behind : List Char}
    (phrases : registry.compounds.all isPlainPhrase = true)
    (read : ReadFrom registry token behind) (wordLike : token.kind.isWordLike = true) :
    (∀ c ∈ token.text.toList, isWordish c = true) ∧
      (∀ c ∈ token.contents.toList, isWordish c = true) ∧
      token.contents.toList.count '$' ≤ token.text.toList.count '$' := by
  obtain ⟨c, rest, lexeme, scans, kind, text, contents, -⟩ := read
  rw [kind] at wordLike
  cases scans with
  | special first follows =>
    have wordish : ∀ d ∈ token.text.toList, isWordish d = true := by
      intro d member
      rw [text] at member
      rcases List.mem_cons.1 member with rfl | later
      · rcases first with rfl | rfl <;> decide
      · have part := belongs_of_mem_span isSpecialNamePart rest d later
        simp [isWordish, part]
    have same : token.contents = token.text := contents
    rw [same]
    exact ⟨wordish, wordish, Nat.le_refl _⟩
  | word unmarked first _ =>
    obtain ⟨bound, wordish⟩ := wordLexeme_shape registry c rest first
    rw [← text] at wordish
    refine ⟨wordish, ?_⟩
    cases given : (wordLexeme registry c rest (1 + spanLength isNamePart rest)).contents with
    | none =>
      rw [given] at contents
      have same : token.contents = token.text := contents
      rw [same]
      exact ⟨wordish, Nat.le_refl _⟩
    | some called =>
      rw [given] at contents
      have same : token.contents = called := contents
      rw [same]
      have visible := isBlank_of_unmarked c rest unmarked
      rcases contents_of_wordLexeme registry c rest visible phrases _ (by omega) called given with
        plain | ⟨-, upper⟩
      · obtain ⟨letters, none⟩ := wordish_plainPhrase called plain
        exact ⟨letters, by omega⟩
      · -- The word alone is the beginning of the text.
        have front : ((c :: rest).take (1 + spanLength isNamePart rest)).Sublist
            token.text.toList := by
          have start : (c :: rest).take (1 + spanLength isNamePart rest) =
              c :: rest.take (spanLength isNamePart rest) := by
            rw [Nat.add_comm, List.take_succ_cons]
          rw [text, start]
          exact (List.take_sublist_take_left bound).cons_cons c
        rw [upper]
        exact wordish_upper _ token.text front wordish
  | _ => grind [Kind.isPunctuation, Kind.isWordLike, lineComment]

theorem ReadFrom.spelling_wordish {registry : Registry} {token : Token} {behind : List Char}
    (phrases : registry.compounds.all isPlainPhrase = true)
    (read : ReadFrom registry token behind) (wordLike : token.kind.isWordLike = true)
    (text : String) (spelling : Spelling token text) :
    (∀ c ∈ text.toList, isWordish c = true) ∧
      text.toList.count '$' ≤ token.text.toList.count '$' := by
  obtain ⟨inText, inContents, fewer⟩ := read.wordish phrases wordLike
  rw [Spelling, if_pos wordLike] at spelling
  obtain ⟨choice, rfl | rfl | rfl⟩ := spelling
  · exact wordish_apply choice token.text inText
  · obtain ⟨collapsed, less⟩ := wordish_collapse token.text inText
    obtain ⟨applied, lesser⟩ := wordish_apply choice _ collapsed
    exact ⟨applied, lesser.trans less⟩
  · obtain ⟨applied, less⟩ := wordish_apply choice token.contents inContents
    exact ⟨applied, less.trans fewer⟩

def isNumeral (c : Char) : Bool :=
  Text.isDecimal c || c = '.'

theorem mantissa_numeral (chars : List Char) (length : Nat)
    (found : mantissaLength? chars = some length) (c : Char) (member : c ∈ chars.take length) :
    isNumeral c = true := by
  have digits (chars : List Char) (inside : c ∈ chars.take (spanLength Text.isDecimal chars)) :
      isNumeral c = true := by
    simp [isNumeral, belongs_of_mem_span Text.isDecimal chars c inside]
  unfold mantissaLength? at found
  split at found
  · split at found
    · split at found
      · simp at found
      · obtain rfl := Option.some.inj found
        rw [Nat.add_comm, List.take_succ_cons] at member
        rcases List.mem_cons.1 member with rfl | later
        · decide
        · exact digits _ later
    · simp at found
  · split at found
    · rename_i rest point
      obtain rfl := Option.some.inj found
      rw [Nat.add_assoc, List.take_add] at member
      rcases List.mem_append.1 member with here | later
      · exact digits _ here
      · rw [point, Nat.add_comm, List.take_succ_cons] at later
        rcases List.mem_cons.1 later with rfl | behind
        · decide
        · exact digits _ behind
    · obtain rfl := Option.some.inj found
      exact digits _ member

inductive IsExponent : List Char → Prop
  | none : IsExponent []
  | digits {mark : Char} {rest : List Char} (isMark : mark = 'e' ∨ mark = 'E')
      (all : ∀ c ∈ rest, Text.isDecimal c = true) : IsExponent (mark :: rest)
  | signed {mark sign first : Char} {rest : List Char} (isMark : mark = 'e' ∨ mark = 'E')
      (isSign : sign = '+' ∨ sign = '-') (all : ∀ c ∈ first :: rest, Text.isDecimal c = true) :
      IsExponent (mark :: sign :: first :: rest)

theorem isExponent_take (chars : List Char) :
    IsExponent (chars.take (exponentLength chars)) := by
  cases chars with
  | nil => exact .none
  | cons mark rest =>
    simp only [exponentLength]
    split
    · rename_i isMark
      split
      · exact .none
      · rename_i found
        rw [Nat.add_assoc, Nat.add_comm 1, List.take_succ_cons, List.take_add]
        by_cases signed : rest.head? = some '+' ∨ rest.head? = some '-'
        · simp only [if_pos signed] at found ⊢
          have sign : ∃ sign tail, rest = sign :: tail ∧ (sign = '+' ∨ sign = '-') := by
            rcases signed with plus | minus
            · obtain ⟨tail, rfl⟩ := List.head?_eq_some_iff.1 plus
              exact ⟨'+', tail, rfl, .inl rfl⟩
            · obtain ⟨tail, rfl⟩ := List.head?_eq_some_iff.1 minus
              exact ⟨'-', tail, rfl, .inr rfl⟩
          obtain ⟨sign, tail, rfl, isSign⟩ := sign
          simp only [List.drop_succ_cons, List.drop_zero] at found ⊢
          have all := fun c => belongs_of_mem_span Text.isDecimal tail c
          cases digits : tail.take (spanLength Text.isDecimal tail) with
          | nil =>
            rw [take_spanLength] at digits
            simp [spanLength, digits] at found
          | cons first others =>
            rw [digits] at all
            exact .signed isMark isSign all
        · simp only [if_neg signed, List.take_zero, List.drop_zero, List.nil_append]
          exact .digits isMark fun c => belongs_of_mem_span Text.isDecimal rest c
    · exact .none

namespace Clear

variable {ends : List Char → Prop} {suffix : List Char}

theorem of_exponent (exponent : List Char) (shape : IsExponent exponent)
    (clear : ∀ tight, Clear ends tight suffix) (tight : Bool) :
    Clear ends tight (exponent ++ suffix) := by
  have digit : ∀ c, Text.isDecimal c = true → isInert c = true :=
    isInert_of_class Text.isDecimal (by decide)
  have marked (mark : Char) (isMark : mark = 'e' ∨ mark = 'E') : isInert mark = true := by
    rcases isMark with rfl | rfl <;> decide
  cases shape with
  | none => exact clear tight
  | digits isMark all =>
    refine of_inert _ ?_ clear tight
    intro c member
    rcases List.mem_cons.1 member with rfl | later
    · exact marked c isMark
    · exact digit c (all c later)
  | @signed mark sign first rest isMark isSign all =>
    have behind (tight : Bool) : Clear ends tight (first :: rest ++ suffix) :=
      of_inert (first :: rest) (fun c member => digit c (all c member)) clear tight
    have atSign (tight : Bool) : Clear ends tight (sign :: (first :: rest ++ suffix)) := by
      refine .free ?_ ?_ ?_ (behind _)
      · rcases isSign with rfl | rfl <;> decide
      · intro _ hyphen
        have isDigit := all first (by simp)
        rw [List.cons_append, List.head?_cons] at hyphen
        rw [Option.some.inj hyphen] at isDigit
        exact absurd isDigit (by decide)
      · intro isSlash
        simp [isSlash] at isSign
    exact of_inert [mark] (by simpa using marked mark isMark) atSign tight

theorem of_number (chars : List Char) (length : Nat) (found : numberLength? chars = some length)
    (clear : ∀ tight, Clear ends tight suffix) (tight : Bool) :
    Clear ends tight (chars.take length ++ suffix) := by
  obtain ⟨mantissa, step, rfl⟩ := Option.map_eq_some_iff.1 found
  rw [List.take_add, List.append_assoc]
  refine of_inert _ ?_ (of_exponent _ (isExponent_take _) clear) tight
  intro c member
  exact isInert_of_class isNumeral (by decide) c (mantissa_numeral chars mantissa step c member)

end Clear

end SqlLayout.Token

import SqlLayout.Proofs.Enclosing

/-! Tokens with other tokens glued to them. A few tokens let anything follow right behind
them; behind all others stands a blank or one of the characters that join. `Follows` is what
must hold of the text behind a token, and then the token and that text are read again
without meeting a comment. -/
namespace SqlLayout.Token

open Keyword Layout

def glueTexts : List String :=
  ["-", "+", "~", ".", "::", "[", "\x7b"]

def isGlue (token : Token) : Bool :=
  token.kind = .parenOpen || token.kind = .comma ||
    (token.kind = .operator && glueTexts.contains token.text)

/-- A text that may stand behind a token that had the text `behind` after it when it was
read. -/
structure Follows (ends : List Char → Prop) (token : Token) (behind suffix : List Char) : Prop
    where
  clear : Clear ends false suffix
  joint : token.isGlue = false → JointAhead suffix
  opens : token.isGlue = false → ∀ body, suffix = '[' :: body → LandsBehind ends body
  hyphen : token.text = "-" → suffix.head? ≠ some '-'
  bracket : token.text = "[" → LandsBehind ends suffix
  closed : behind = [] → suffix = []

namespace Clear

variable {ends : List Char → Prop} {suffix : List Char}

theorem of_signs (run : List Char)
    (signs : ∀ c ∈ run, isInert c = true ∧ isSpecialNamePart c = false)
    (clear : Clear ends false suffix) : Clear ends false (run ++ suffix) := by
  induction run with
  | nil => exact clear
  | cons c rest ih =>
    obtain ⟨inert, outside⟩ := signs c (by simp)
    simp only [isInert, Bool.and_eq_true, decide_eq_true_eq] at inert
    refine .free inert.1.1 (fun isHyphen => absurd isHyphen inert.1.2)
      (fun isSlash => absurd isSlash inert.2) ?_
    rw [outside]
    exact ih fun d member => signs d (List.mem_cons_of_mem _ member)

theorem of_glue (text : String) (member : text ∈ glueTexts) (clear : Clear ends false suffix)
    (hyphen : text = "-" → suffix.head? ≠ some '-')
    (bracket : text = "[" → LandsBehind ends suffix) :
    Clear ends false (text.toList ++ suffix) := by
  by_cases isHyphen : text = "-"
  · rw [isHyphen]
    have start : Clear ends false ('-' :: suffix) :=
      .free (by decide) (fun _ => hyphen isHyphen) (fun isSlash => absurd isSlash (by decide)) clear
    exact start
  · by_cases isBracket : text = "["
    · rw [isBracket]
      exact of_bracket [] clear (fun _ => bracket isBracket) false
    · have signs : (glueTexts.filter fun text => text ≠ "-" && text ≠ "[").all (fun text =>
          text.toList.all fun c => isInert c && !isSpecialNamePart c) = true := by decide
      have kept : text ∈ glueTexts.filter fun text => text ≠ "-" && text ≠ "[" := by
        simp [member, isHyphen, isBracket]
      refine of_signs text.toList ?_ clear
      intro c inside
      simpa using List.all_eq_true.1 (List.all_eq_true.1 signs text kept) c inside

theorem of_longOperator (operator : List Char) (member : operator ∈ longOperators)
    (clear : Clear ends false suffix) : Clear ends false (operator ++ suffix) := by
  have heads : longOperators.all (fun operator => operator.head?.all fun c =>
      isFree c && c ≠ '/' && !isSpecialNamePart c) = true := by decide
  have tails : longOperators.all (fun operator => operator.tail ≠ [] &&
      operator.tail.all fun c => isInert c && !isSpecialNamePart c) = true := by decide
  have inHead := List.all_eq_true.1 heads operator member
  have inTail := List.all_eq_true.1 tails operator member
  cases operator with
  | nil => exact clear
  | cons first others =>
    simp only [List.head?_cons, Option.all_some, List.tail_cons, Bool.and_eq_true,
      decide_eq_true_eq, Bool.not_eq_true'] at inHead inTail
    have signs : ∀ c ∈ others, isInert c = true ∧ isSpecialNamePart c = false := by
      intro c inside
      simpa using List.all_eq_true.1 inTail.2 c inside
    refine .free inHead.1.1 ?_ (fun isSlash => absurd isSlash inHead.1.2) ?_
    · intro _ hyphen
      obtain ⟨second, rest, rfl⟩ := List.exists_cons_of_ne_nil (of_decide_eq_true inTail.1)
      have inert := (signs second (by simp)).1
      rw [Option.some.inj hyphen] at inert
      exact absurd inert (by decide)
    · rw [inHead.2]
      exact of_signs others signs clear

theorem of_single (well : EndsWell ends) (c : Char) (isFree : isFree c = true ∨ c = '$')
    (clear : Clear ends false suffix) (joint : JointAhead suffix)
    (opens : ∀ body, suffix = '[' :: body → LandsBehind ends body) :
    Clear ends false (c :: suffix) := by
  rcases isFree with free | rfl
  · exact .free free (fun _ => joint.head_ne '-' (by decide))
      (fun _ => joint.head_ne '*' (by decide)) (clear.of_joint joint _)
  · exact of_word well ['$'] (List.forall_mem_singleton.2 (by decide)) (by decide) clear joint opens
      false

end Clear

theorem operatorLexeme_cases (c : Char) (rest : List Char) :
    c :: rest.take (operatorLexeme c rest).more ∈ longOperators ∨
      (operatorLexeme c rest).more = 0 := by
  unfold operatorLexeme
  split
  · rename_i operator found
    left
    have member := List.mem_of_find?_eq_some found
    obtain ⟨first, others, rfl, -⟩ := Clear.head_of_longOperators operator member
    have here : (first :: others).isPrefixOf (c :: rest) = true := by
      simpa using List.find?_some found
    obtain ⟨after, whole⟩ := List.isPrefixOf_iff_prefix.1 here
    simp only [List.cons_append, List.cons.injEq] at whole
    obtain ⟨rfl, rfl⟩ := whole
    simpa using member
  · exact .inr rfl

theorem numeral_of_numberLength? (chars : List Char) (length : Nat)
    (found : numberLength? chars = some length) : ∃ c, chars.head? = some c ∧ isNumeral c = true := by
  obtain ⟨mantissa, step, -⟩ := Option.map_eq_some_iff.1 found
  unfold mantissaLength? at step
  split at step
  · split at step
    · exact ⟨'.', rfl, by decide⟩
    · simp at step
  · rename_i digits
    cases chars with
    | nil => exact absurd rfl digits
    | cons c rest =>
      refine ⟨c, rfl, ?_⟩
      by_cases isDigit : Text.isDecimal c = true
      · simp [isNumeral, isDigit]
      · simp [spanLength, isDigit] at digits

theorem isGlue_of_operator (token : Token) (isOperator : token.kind = .operator)
    (member : token.text ∈ glueTexts) : token.isGlue = true := by
  simp [isGlue, isOperator, member]

theorem ReadFrom.clear_of_glue {registry : Registry} {token : Token} {behind : List Char}
    {ends : List Char → Prop} {suffix : List Char} (read : ReadFrom registry token behind)
    (glue : token.isGlue = true) (follows : Follows ends token behind suffix) :
    Clear ends false (token.text.toList ++ suffix) := by
  simp only [isGlue, Bool.or_eq_true, Bool.and_eq_true, decide_eq_true_eq] at glue
  rcases glue with mark | ⟨-, member⟩
  · have isPunctuation : token.kind.isPunctuation = true := by
      rcases mark with kind | kind <;> rw [kind] <;> rfl
    obtain ⟨c, text, sign⟩ := read.punctuation isPunctuation
    rw [text]
    refine Clear.of_signs [c] (List.forall_mem_singleton.2 ?_) follows.clear
    rcases sign with same | same | same | same <;> rw [same.1] <;> decide
  · exact Clear.of_glue token.text (by simpa using member) follows.clear follows.hyphen
      follows.bracket

theorem ReadFrom.clear_of_joint {registry : Registry} {token : Token} {behind : List Char}
    {ends : List Char → Prop} {suffix : List Char} (well : EndsWell ends)
    (read : ReadFrom registry token behind) (visible : token.kind ≠ .blank)
    (code : token.kind ≠ .comment) (solid : token.kind.isWordLike = false)
    (loose : token.isGlue = false) (follows : Follows ends token behind suffix) :
    Clear ends false (token.text.toList ++ suffix) := by
  have joint := follows.joint loose
  have clear := follows.clear
  have anywhere := clear.of_joint joint
  obtain ⟨c, rest, lexeme, scans, kind, text, -, behind⟩ := read
  have closed := follows.closed
  rw [behind] at closed
  rw [kind] at visible code solid
  rw [text]
  cases scans with
  | blank => exact absurd rfl visible
  | line => exact absurd rfl code
  | block _ _ isComment => exact absurd isComment code
  | quoted lexeme found _ => exact Clear.of_quoted c rest lexeme found clear closed joint false
  | bracket first _ =>
    subst first
    refine Clear.of_bracket rest clear ?_ false
    intro alone
    rw [alone] at text
    exact follows.bracket (String.toList_injective text)
  | dollar first lexeme found _ =>
    subst first
    exact Clear.of_dollar rest lexeme found clear closed joint
  | question first =>
    subst first
    exact Clear.of_inert ['?'] (List.forall_mem_singleton.2 (by decide)) anywhere false
  | bound first _ =>
    subst first
    refine Clear.of_inert [':'] (List.forall_mem_singleton.2 (by decide)) ?_ false
    refine Clear.of_inert _ ?_ anywhere
    intro d member
    exact Clear.isInert_of_class Text.isWord (by decide) d
      (belongs_of_mem_span Text.isWord rest d member)
  | special => simp [Kind.isWordLike] at solid
  | punctuation mark first =>
    refine Clear.of_inert [c] (List.forall_mem_singleton.2 ?_) anywhere false
    rcases first with same | same | same | same <;> rw [same.1] <;> decide
  | number _ length found =>
    have positive := Clear.numberLength?_pos (c :: rest) length found
    have whole := Clear.of_number (c :: rest) length found anywhere false
    rwa [show length = length - 1 + 1 by omega, List.take_succ_cons] at whole
  | signed _ first length found =>
    have onward := Clear.of_number rest length found anywhere
    obtain ⟨digit, head, numeral⟩ := numeral_of_numberLength? rest length found
    have positive := Clear.numberLength?_pos rest length found
    refine .free ?_ ?_ ?_ (onward _)
    · rcases first with rfl | rfl <;> decide
    · intro _ hyphen
      obtain ⟨others, rfl⟩ := List.head?_eq_some_iff.1 head
      rw [show length = length - 1 + 1 by omega, List.take_succ_cons] at hyphen
      rw [Option.some.inj hyphen] at numeral
      exact absurd numeral (by decide)
    · intro isSlash
      simp [isSlash] at first
  | word _ _ given =>
    rcases given with given | given <;> simp [given, Kind.isWordLike] at solid
  | operator unmarked _ _ =>
    rcases operatorLexeme_cases c rest with long | short
    · exact Clear.of_longOperator _ long clear
    · rw [short]
      exact Clear.of_single well c (Clear.isFree_of_unmarked unmarked |>.imp_right And.left) clear
        joint (follows.opens loose)

/-- A token that is no comment is read again as it was, with whatever may follow it. -/
theorem ReadFrom.clear {registry : Registry} {token : Token} {behind : List Char}
    {ends : List Char → Prop} {suffix : List Char} (well : EndsWell ends)
    (phrases : registry.compounds.all isPlainPhrase = true)
    (read : ReadFrom registry token behind) (visible : token.kind ≠ .blank)
    (code : token.kind ≠ .comment)
    (single : token.kind.isWordLike = true → token.text.toList.count '$' ≤ 1)
    (text : String) (spelling : Spelling token text)
    (follows : Follows ends token behind suffix) : Clear ends false (text.toList ++ suffix) := by
  by_cases wordLike : token.kind.isWordLike = true
  · obtain ⟨wordish, fewer⟩ := read.spelling_wordish phrases wordLike text spelling
    have loose : token.isGlue = false := by
      cases kind : token.kind <;> simp [kind, Kind.isWordLike] at wordLike <;> simp [isGlue, kind]
    exact Clear.of_word well text.toList wordish (fewer.trans (single wordLike)) follows.clear
      (follows.joint loose) (follows.opens loose) false
  · rw [Spelling, if_neg wordLike] at spelling
    rw [spelling]
    by_cases glue : token.isGlue = true
    · exact read.clear_of_glue glue follows
    · exact read.clear_of_joint well visible code (by simpa using wordLike) (by simpa using glue)
        follows

end SqlLayout.Token

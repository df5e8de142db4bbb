import SqlLayout.Proofs.Scanning

/-! Texts that can be read without meeting a comment. `Clear` follows a text character by
character, and says where a reader may go on: behind a character that stands for itself,
behind a quoted run, behind a bracket, behind what a dollar sign starts. It does not say
how the text falls into tokens, since a reader may stop and go on inside a word; but
wherever it stops, the rest is clear again. -/
namespace SqlLayout.Token

open Keyword

def isFree (c : Char) : Bool :=
  c ≠ '\'' && c ≠ '"' && c ≠ '`' && c ≠ '[' && c ≠ '$'

/-- A text without a comment, up to a place with a property that ends it. `tight` says that
the character before the text belongs to names, so that a dollar sign may belong to the
name before it. -/
inductive Clear (ends : List Char → Prop) : Bool → List Char → Prop
  | ends {tight : Bool} {rest : List Char} (final : ends rest) : Clear ends tight rest
  | free {tight : Bool} {c : Char} {rest : List Char} (isFree : isFree c = true)
      (noLine : c = '-' → rest.head? ≠ some '-') (noBlock : c = '/' → rest.head? ≠ some '*')
      (next : Clear ends (isSpecialNamePart c) rest) : Clear ends tight (c :: rest)
  | quote {tight : Bool} {quote : Char} {rest : List Char}
      (isQuote : quote = '\'' ∨ quote = '"' ∨ quote = '`')
      (next : Clear ends false (rest.drop (quotedRun .stringLiteral quote 0 rest).more)) :
      Clear ends tight (quote :: rest)
  | bracket {tight : Bool} {rest : List Char}
      (next : Clear ends false (rest.drop (bracketed rest).more)) : Clear ends tight ('[' :: rest)
  | dollar {tight : Bool} {rest : List Char} (next : Clear ends true rest)
      (lands : ∀ lexeme, dollar? rest = some lexeme → Clear ends false (rest.drop lexeme.more)) :
      Clear ends tight ('$' :: rest)
  | literal {rest : List Char} (lexeme : Lexeme) (found : dollar? rest = some lexeme)
      (next : Clear ends false (rest.drop lexeme.more)) : Clear ends false ('$' :: rest)

/-- A text ends where nothing is left, or in front of two hyphens. -/
def EndsWell (ends : List Char → Prop) : Prop :=
  ∀ chars, ends chars → chars = [] ∨ ∃ rest, chars = '-' :: '-' :: rest

namespace Clear

variable {ends : List Char → Prop} {tight : Bool} {c : Char} {rest chars : List Char}

theorem loosen (clear : Clear ends tight chars) : Clear ends false chars := by
  cases clear with
  | ends final => exact .ends final
  | free isFree noLine noBlock next => exact .free isFree noLine noBlock next
  | quote isQuote next => exact .quote isQuote next
  | bracket next => exact .bracket next
  | dollar next lands => exact .dollar next lands
  | literal lexeme found next => exact .literal lexeme found next

theorem tighten (clear : Clear ends false chars) (other : chars.head? ≠ some '$') :
    Clear ends tight chars := by
  cases clear with
  | ends final => exact .ends final
  | free isFree noLine noBlock next => exact .free isFree noLine noBlock next
  | quote isQuote next => exact .quote isQuote next
  | bracket next => exact .bracket next
  | dollar next lands => simp at other
  | literal lexeme found next => simp at other

theorem pass (clear : Clear ends tight (c :: rest)) (going : ¬ends (c :: rest))
    (free : isFree c = true) : Clear ends (isSpecialNamePart c) rest := by
  cases clear with
  | ends final => exact absurd final going
  | free _ _ _ next => exact next
  | quote isQuote next => rcases isQuote with rfl | rfl | rfl <;> simp [isFree] at free
  | bracket next => simp [isFree] at free
  | dollar next lands => simp [isFree] at free
  | literal lexeme found next => simp [isFree] at free

variable (well : EndsWell ends)

include well in
theorem going_of_ne_hyphen (other : c ≠ '-') : ¬ends (c :: rest) := by
  intro final
  rcases well _ final with nothing | ⟨tail, hyphens⟩
  · simp at nothing
  · simp [other] at hyphens

include well in
theorem passWhile (belongs : Char → Bool)
    (free : ∀ c, belongs c = true → isFree c = true ∧ c ≠ '-') (clear : Clear ends tight chars) :
    Clear ends false (chars.dropWhile belongs) := by
  induction chars generalizing tight with
  | nil => exact clear.loosen
  | cons c rest ih =>
    by_cases here : belongs c = true
    · rw [List.dropWhile_cons_of_pos here]
      obtain ⟨isFree, other⟩ := free c here
      exact ih (clear.pass (going_of_ne_hyphen well other) isFree)
    · rw [List.dropWhile_cons_of_neg here]
      exact clear.loosen

include well in
theorem passName (belongs : Char → Bool)
    (inName : ∀ c, belongs c = true → isSpecialNamePart c = true) (clear : Clear ends true chars) :
    Clear ends true (chars.dropWhile belongs) := by
  induction chars with
  | nil => exact clear
  | cons c rest ih =>
    by_cases here : belongs c = true
    · rw [List.dropWhile_cons_of_pos here]
      have special := inName c here
      refine ih ?_
      by_cases isDollar : c = '$'
      · subst isDollar
        cases clear with
        | ends final => exact absurd final (going_of_ne_hyphen well (by decide))
        | free isFree _ _ next => simp [Token.isFree] at isFree
        | quote isQuote next => simp at isQuote
        | dollar next lands => exact next
      · have other : c ≠ '-' := by
          rintro rfl
          exact absurd special (by decide)
        have isFree : isFree c = true := by
          simp only [Token.isFree, Bool.and_eq_true, decide_eq_true_eq]
          refine ⟨⟨⟨⟨?_, ?_⟩, ?_⟩, ?_⟩, isDollar⟩ <;> rintro rfl <;> exact absurd special (by decide)
        have next := clear.pass (going_of_ne_hyphen well other) isFree
        rwa [special] at next
    · rwa [List.dropWhile_cons_of_neg here]

theorem isFree_of_class (belongs : Char → Bool)
    (apart : ['\'', '"', '`', '[', '$', '-'].all (!belongs ·) = true) (c : Char)
    (here : belongs c = true) : isFree c = true ∧ c ≠ '-' := by
  have other : c ∉ ['\'', '"', '`', '[', '$', '-'] := by
    intro member
    have outside := List.all_eq_true.1 apart c member
    simp [here] at outside
  simp only [List.mem_cons, List.not_mem_nil, or_false, not_or] at other
  simp [isFree, other]

include well in
theorem passDigits (clear : Clear ends tight chars) :
    Clear ends false (chars.drop (spanLength Text.isDecimal chars)) := by
  rw [drop_spanLength]
  exact passWhile well Text.isDecimal (isFree_of_class Text.isDecimal (by decide)) clear

include well in
theorem passMantissa (length : Nat) (found : mantissaLength? chars = some length)
    (clear : Clear ends tight chars) : Clear ends false (chars.drop length) := by
  have whole := passDigits well clear
  unfold mantissaLength? at found
  split at found
  · split at found
    · rename_i none rest
      split at found
      · simp at found
      · rename_i digits other
        obtain rfl := Option.some.inj found
        have behind := clear.pass (going_of_ne_hyphen well (by decide)) (by decide)
        rw [Nat.add_comm, List.drop_succ_cons]
        exact passDigits well behind
    · simp at found
  · split at found
    · rename_i digits other point rest split
      obtain rfl := Option.some.inj found
      rw [split] at whole
      have behind := whole.pass (going_of_ne_hyphen well (by decide)) (by decide)
      rw [Nat.add_assoc, ← List.drop_drop, split, Nat.add_comm 1, List.drop_succ_cons]
      exact passDigits well behind
    · obtain rfl := Option.some.inj found
      exact whole

include well in
theorem passSign (clear : Clear ends tight chars) (sign : Char)
    (head : chars.head? = some sign) (isSign : sign = '+' ∨ sign = '-')
    (digits : spanLength Text.isDecimal (chars.drop 1) ≠ 0) :
    Clear ends false (chars.drop 1) := by
  obtain ⟨rest, rfl⟩ := List.head?_eq_some_iff.1 head
  rw [List.drop_one, List.tail_cons] at digits ⊢
  have going : ¬ends (sign :: rest) := by
    intro final
    rcases well _ final with nothing | ⟨tail, hyphens⟩
    · simp at nothing
    · simp only [List.cons.injEq] at hyphens
      rw [hyphens.2] at digits
      exact digits rfl
  refine (clear.pass going ?_).loosen
  rcases isSign with rfl | rfl <;> decide

include well in
theorem passExponent (clear : Clear ends tight chars) :
    Clear ends false (chars.drop (exponentLength chars)) := by
  cases chars with
  | nil => exact clear.loosen
  | cons mark rest =>
    simp only [exponentLength]
    split
    · rename_i isMark
      have behind : Clear ends false rest := by
        refine (clear.pass (going_of_ne_hyphen well ?_) ?_).loosen
        · rcases isMark with rfl | rfl <;> decide
        · rcases isMark with rfl | rfl <;> decide
      by_cases signed : rest.head? = some '+' ∨ rest.head? = some '-'
      · simp only [if_pos signed]
        split
        · exact clear.loosen
        · rename_i digits
          have sign : ∃ sign, rest.head? = some sign ∧ (sign = '+' ∨ sign = '-') := by
            rcases signed with plus | minus
            · exact ⟨'+', plus, .inl rfl⟩
            · exact ⟨'-', minus, .inr rfl⟩
          obtain ⟨sign, head, isSign⟩ := sign
          have afterSign := passSign well behind sign head isSign digits
          rw [Nat.add_assoc, Nat.add_comm 1, List.drop_succ_cons, ← List.drop_drop]
          exact passDigits well afterSign
      · simp only [if_neg signed, List.drop_zero]
        split
        · exact clear.loosen
        · rw [Nat.add_zero, Nat.add_comm 1, List.drop_succ_cons]
          exact passDigits well behind
    · exact clear.loosen

include well in
theorem passNumber (length : Nat) (found : numberLength? chars = some length)
    (clear : Clear ends tight chars) : Clear ends false (chars.drop length) := by
  obtain ⟨mantissa, step, rfl⟩ := Option.map_eq_some_iff.1 found
  rw [← List.drop_drop]
  exact passExponent well (passMantissa well mantissa step clear)

include well in
theorem passWord (length : Nat) (found : wordLength? chars = some length)
    (clear : Clear ends tight chars) : Clear ends false (chars.drop length) := by
  cases chars with
  | nil => simp [wordLength?] at found
  | cons c rest =>
    simp only [wordLength?] at found
    split at found
    · rename_i starts
      obtain rfl := Option.some.inj found
      simp only [Text.isWordStart, Bool.and_eq_true] at starts
      have special : isSpecialNamePart c = true := by
        simp [isSpecialNamePart, isNamePart, starts.1]
      obtain ⟨isFree, other⟩ := isFree_of_class Text.isWord (by decide) c starts.1
      have behind := clear.pass (going_of_ne_hyphen well other) isFree
      rw [special] at behind
      rw [Nat.add_comm, List.drop_succ_cons, drop_spanLength]
      refine (passName well isNamePart ?_ behind).loosen
      intro part inName
      simp [isSpecialNamePart, inName]
    · simp at found

include well in
theorem passPhrase (phrases : Phrases) (length : Nat) (phrase : String)
    (found : phraseOnward phrases chars = some (length, phrase)) (clear : Clear ends false chars) :
    Clear ends false (chars.drop length) := by
  have blanks (chars : List Char) (clear : Clear ends false chars) :
      Clear ends false (chars.drop (spanLength Text.isBlank chars)) := by
    rw [drop_spanLength]
    exact passWhile well Text.isBlank (isFree_of_class Text.isBlank (by decide)) clear
  fun_induction phraseOnward phrases chars generalizing length phrase with
  | case1 => simp at found
  | case2 => simp at found
  | case3 => simp at found
  | case4 phrases chars gap apart wordLength word child step taken further contents onward ih =>
    have behind := passWord well wordLength word (blanks chars clear)
    rw [List.drop_drop] at behind
    simp only [Option.some.injEq, Prod.mk.injEq] at found
    rw [← found.1, ← List.drop_drop]
    exact ih further contents onward behind
  | case5 phrases chars gap apart wordLength word child step taken onward ih =>
    have behind := passWord well wordLength word (blanks chars clear)
    obtain ⟨own, -, equal⟩ := Option.map_eq_some_iff.1 found
    simp only [Prod.mk.injEq] at equal
    rw [← equal.1, ← List.drop_drop]
    exact behind

include well in
theorem passWordLexeme (registry : Registry) (clear : Clear ends tight (c :: rest))
    (starts : Text.isWordStart c = true) :
    Clear ends false
      (rest.drop (wordLexeme registry c rest (1 + spanLength isNamePart rest)).more) := by
  have found : wordLength? (c :: rest) = some (1 + spanLength isNamePart rest) := by
    rw [wordLength?, if_pos starts]
  have behind := passWord well _ found clear
  have shifted (more : Nat) : rest.drop (1 + spanLength isNamePart rest - 1 + more) =
      ((c :: rest).drop (1 + spanLength isNamePart rest)).drop more := by
    rw [List.drop_drop, show 1 + spanLength isNamePart rest + more =
      (1 + spanLength isNamePart rest - 1 + more) + 1 by omega, List.drop_succ_cons]
  unfold wordLexeme
  simp only
  split
  · rename_i further contents phrase
    obtain ⟨node, -, onward⟩ := Option.bind_eq_some_iff.1 phrase
    rw [shifted]
    exact passPhrase well node further contents onward behind
  · have whole := shifted 0
    rw [Nat.add_zero, List.drop_zero] at whole
    split
    · rw [whole]
      exact behind
    · rw [whole]
      exact behind

include well in
theorem passAll (front : List Char) (free : ∀ c ∈ front, isFree c = true ∧ c ≠ '-')
    (clear : Clear ends tight (front ++ rest)) : ∃ flag, Clear ends flag rest := by
  induction front generalizing tight with
  | nil => exact ⟨tight, clear⟩
  | cons c others ih =>
    obtain ⟨isFree, other⟩ := free c (by simp)
    exact ih (fun d member => free d (List.mem_cons_of_mem _ member))
      (clear.pass (going_of_ne_hyphen well other) isFree)

theorem more_of_quotedRun (kind : Kind) (quote : Char) (offset : Nat) (rest : List Char) :
    (quotedRun kind quote offset rest).more =
      offset + (quotedRun .stringLiteral quote 0 rest).more := by
  unfold quotedRun
  split <;> simp

include well in
theorem passQuoted (lexeme : Lexeme) (found : quoted? c rest = some lexeme)
    (clear : Clear ends tight (c :: rest)) : Clear ends false (rest.drop lexeme.more) := by
  obtain ⟨lead, quote, body, kind, whole, letters, isQuote, -, rfl⟩ :=
    quoted?_eq_some c rest lexeme found
  rw [whole] at clear
  obtain ⟨flag, atQuote⟩ := passAll well lead
    (fun letter member => isFree_of_class isQuoteLead (by decide) letter (letters letter member))
    clear
  have behind : Clear ends false
      (body.drop (quotedRun .stringLiteral quote 0 body).more) := by
    cases atQuote with
    | ends final =>
      refine absurd final (going_of_ne_hyphen well ?_)
      rcases isQuote with rfl | rfl | rfl <;> decide
    | free isFree _ _ next =>
      rcases isQuote with rfl | rfl | rfl <;> simp [Token.isFree] at isFree
    | quote _ next => exact next
    | bracket next => simp at isQuote
    | dollar next lands => simp at isQuote
    | literal lexeme found next => simp at isQuote
  have shifted (more : Nat) : rest.drop (lead.length + more) = body.drop more := by
    have front : (c :: rest).drop (lead.length + more + 1) = rest.drop (lead.length + more) := rfl
    rw [← front, whole, Nat.add_assoc, ← List.drop_drop, List.drop_left, List.drop_succ_cons]
  rw [more_of_quotedRun, shifted]
  exact behind

theorem head_of_longOperators (operator : List Char) (member : operator ∈ longOperators) :
    ∃ first others, operator = first :: others ∧ ∀ c ∈ others, isFree c = true ∧ c ≠ '-' := by
  have shape : longOperators.all (fun operator =>
      operator ≠ [] && operator.tail.all fun c => isFree c && c ≠ '-') = true := by decide
  have this := List.all_eq_true.1 shape operator member
  cases operator with
  | nil => simp at this
  | cons first others =>
    refine ⟨first, others, rfl, fun c inside => ?_⟩
    simp only [Bool.and_eq_true, List.tail_cons] at this
    simpa using List.all_eq_true.1 this.2 c inside

/-- What no other branch of the scanner takes is free, or a dollar sign that starts nothing. -/
theorem isFree_of_unmarked (unmarked : marked? c rest = none) :
    isFree c = true ∨ c = '$' ∧ dollar? rest = none := by
  unfold marked? at unmarked
  split at unmarked
  · simp at unmarked
  split at unmarked
  · simp at unmarked
  split at unmarked
  · simp at unmarked
  obtain ⟨unquoted, other⟩ := Option.or_eq_none_iff.1 unmarked
  unfold quoted? at unquoted
  split at other
  · simp at other
  split at other
  · rename_i isDollar
    exact .inr ⟨isDollar, other⟩
  · grind [isFree]

include well in
theorem passOperator (going : ¬ends (c :: rest)) (unmarked : marked? c rest = none)
    (clear : Clear ends tight (c :: rest)) :
    Clear ends false (rest.drop (operatorLexeme c rest).more) := by
  have behind : ∃ flag, Clear ends flag rest := by
    rcases isFree_of_unmarked unmarked with free | ⟨rfl, nothing⟩
    · exact ⟨_, clear.pass going free⟩
    · cases clear with
      | ends final => exact absurd final going
      | free isFree _ _ next => simp [Token.isFree] at isFree
      | quote isQuote next => simp at isQuote
      | dollar next lands => exact ⟨_, next⟩
      | literal lexeme found next => simp [found] at nothing
  obtain ⟨flag, clear⟩ := behind
  unfold operatorLexeme
  split
  · rename_i operator found
    obtain ⟨first, others, rfl, free⟩ := head_of_longOperators operator
      (List.mem_of_find?_eq_some found)
    have here : (first :: others).isPrefixOf (c :: rest) = true := by
      simpa using List.find?_some found
    obtain ⟨after, whole⟩ := List.isPrefixOf_iff_prefix.1 here
    simp only [List.cons_append, List.cons.injEq] at whole
    obtain ⟨-, rfl⟩ := whole
    obtain ⟨last, clear⟩ := passAll well others free clear
    simpa using clear.loosen
  · exact clear.loosen

theorem numberLength?_pos (chars : List Char) (length : Nat)
    (found : numberLength? chars = some length) : 0 < length := by
  obtain ⟨mantissa, step, rfl⟩ := Option.map_eq_some_iff.1 found
  unfold mantissaLength? at step
  split at step
  · split at step
    · split at step
      · simp at step
      · obtain rfl := Option.some.inj step
        omega
    · simp at step
  · split at step
    · obtain rfl := Option.some.inj step
      omega
    · rename_i digits _ _
      obtain rfl := Option.some.inj step
      exact Nat.add_pos_left (Nat.pos_of_ne_zero digits) _

include well in
/-- Whatever is read next is no comment, and the rest is clear again. -/
theorem step (registry : Registry) (lexeme : Lexeme) (clear : Clear ends tight (c :: rest))
    (going : ¬ends (c :: rest)) (scans : Scans registry c rest lexeme) :
    lexeme.kind ≠ .comment ∧ Clear ends false (rest.drop lexeme.more) := by
  have single (isFree : isFree c = true) : Clear ends false (rest.drop 0) :=
    (clear.pass going isFree).loosen
  cases scans with
  | blank isBlank =>
    obtain ⟨isFree, -⟩ := isFree_of_class Text.isBlank (by decide) c isBlank
    refine ⟨by simp, ?_⟩
    rw [drop_spanLength]
    exact passWhile well Text.isBlank (isFree_of_class Text.isBlank (by decide))
      (clear.pass going isFree)
  | line first second =>
    subst first
    cases clear with
    | ends final => exact absurd final going
    | free _ noLine _ _ => exact absurd second (noLine rfl)
    | quote isQuote _ => simp at isQuote
  | block first second _ =>
    subst first
    cases clear with
    | ends final => exact absurd final going
    | free _ _ noBlock _ => exact absurd second (noBlock rfl)
    | quote isQuote _ => simp at isQuote
  | quoted lexeme found kind =>
    refine ⟨?_, passQuoted well lexeme found clear⟩
    rcases kind with kind | kind <;> simp [kind]
  | bracket first kind =>
    subst first
    refine ⟨by rcases kind with kind | kind <;> simp [kind], ?_⟩
    cases clear with
    | ends final => exact absurd final going
    | free isFree _ _ _ => simp [Token.isFree] at isFree
    | quote isQuote _ => simp at isQuote
    | bracket next => exact next
  | dollar first lexeme found kind =>
    subst first
    refine ⟨by rcases kind with kind | kind <;> simp [kind], ?_⟩
    cases clear with
    | ends final => exact absurd final going
    | free isFree _ _ _ => simp [Token.isFree] at isFree
    | quote isQuote _ => simp at isQuote
    | dollar _ lands => exact lands lexeme found
    | literal other same next =>
      rw [found] at same
      rw [Option.some.inj same]
      exact next
  | question first =>
    subst first
    exact ⟨by simp, single (by decide)⟩
  | bound first follows =>
    subst first
    refine ⟨by simp, ?_⟩
    rw [drop_spanLength]
    exact passWhile well Text.isWord (isFree_of_class Text.isWord (by decide))
      (clear.pass going (by decide))
  | special first follows =>
    refine ⟨by simp, ?_⟩
    have behind := clear.pass going (by rcases first with rfl | rfl <;> decide)
    rw [show isSpecialNamePart c = true by rcases first with rfl | rfl <;> decide] at behind
    rw [drop_spanLength]
    exact (passName well isSpecialNamePart (fun _ inName => inName) behind).loosen
  | punctuation mark first =>
    refine ⟨?_, single ?_⟩
    · rcases first with same | same | same | same <;> simp [same.2]
    · rcases first with same | same | same | same <;> rw [same.1] <;> decide
  | number unmarked length found =>
    refine ⟨by simp, ?_⟩
    have behind := passNumber well length found clear
    have positive := numberLength?_pos (c :: rest) length found
    rwa [show length = length - 1 + 1 by omega, List.drop_succ_cons] at behind
  | signed unmarked first length found =>
    refine ⟨by simp, ?_⟩
    exact passNumber well length found
      (clear.pass going (by rcases first with rfl | rfl <;> decide))
  | word unmarked first kind =>
    refine ⟨?_, passWordLexeme well registry clear first⟩
    rcases kind with kind | kind <;> simp [kind]
  | operator unmarked first kind =>
    refine ⟨by simp [kind], passOperator well going unmarked clear⟩

end Clear

namespace Cursor

theorem no_comment_of_clear (registry : Registry) (cursor : Cursor)
    (clear : Clear (· = []) false cursor.rest) (token : Token)
    (member : token ∈ (cursor.readAll registry).tokens) : token.isComment = false := by
  have well : EndsWell (· = []) := fun _ nothing => .inl nothing
  cases step : cursor.read registry with
  | atEnd =>
    rw [readAll_of_atEnd registry cursor step] at member
    simp at member
  | stray =>
    rw [readAll_of_stray registry cursor step] at member
    simp at member
  | token first notices after =>
    have shorter := rest_lt_of_read registry cursor after first notices step
    obtain ⟨c, rest, lexeme, ahead, scans, kind, -, -, behind⟩ :=
      exists_scans_of_read registry cursor after first notices step
    rw [ahead] at clear
    obtain ⟨noComment, onward⟩ := clear.step well registry lexeme (by simp) scans
    rw [readAll_of_token registry cursor after first notices step] at member
    rcases List.mem_cons.1 member with rfl | later
    · simpa [isComment, kind] using noComment
    · exact no_comment_of_clear registry after (by rwa [behind]) token later
termination_by cursor.rest.length

def AtHyphens (chars : List Char) : Prop :=
  ∃ rest, chars = '-' :: '-' :: rest

theorem kind_of_hyphens (registry : Registry) (c : Char) (rest : List Char) (lexeme : Lexeme)
    (here : AtHyphens (c :: rest)) (scans : Scans registry c rest lexeme) :
    lexeme.kind = .comment := by
  obtain ⟨tail, same⟩ := here
  simp only [List.cons.injEq] at same
  obtain ⟨rfl, rfl⟩ := same
  have marked : marked? '-' ('-' :: tail) = some (lineComment ('-' :: tail)) := by
    simp [marked?, show Text.isBlank '-' = false by decide]
  cases scans with
  | blank isBlank => exact absurd isBlank (by decide)
  | line => rfl
  | block first => simp at first
  | quoted lexeme found => simp [quoted?, isStringMark] at found
  | bracket first => simp at first
  | dollar first => simp at first
  | question first => simp at first
  | bound first => simp at first
  | special first => simp at first
  | punctuation mark first => simp at first
  | number unmarked => simp [marked] at unmarked
  | signed unmarked => simp [marked] at unmarked
  | word unmarked => simp [marked] at unmarked
  | operator unmarked => simp [marked] at unmarked

theorem comment_of_clear (registry : Registry) (cursor : Cursor)
    (clear : Clear AtHyphens false cursor.rest)
    (complete : (cursor.readAll registry).stop.rest = []) :
    ∃ token ∈ (cursor.readAll registry).tokens, token.isComment = true := by
  have well : EndsWell AtHyphens := fun _ hyphens => .inr hyphens
  cases step : cursor.read registry with
  | atEnd =>
    rw [(read_eq_atEnd_iff registry cursor).1 step] at clear
    cases clear with
    | ends final => exact absurd final (by simp [AtHyphens])
  | stray =>
    rw [readAll_of_stray registry cursor step] at complete
    rw [(read_eq_atEnd_iff registry cursor).2 complete] at step
    simp at step
  | token first notices after =>
    have shorter := rest_lt_of_read registry cursor after first notices step
    obtain ⟨c, rest, lexeme, ahead, scans, kind, -, -, behind⟩ :=
      exists_scans_of_read registry cursor after first notices step
    rw [readAll_of_token registry cursor after first notices step] at complete ⊢
    rw [ahead] at clear
    by_cases here : AtHyphens (c :: rest)
    · refine ⟨first, by simp, ?_⟩
      rw [isComment, kind, kind_of_hyphens registry c rest lexeme here scans]
      rfl
    · obtain ⟨-, onward⟩ := clear.step well registry lexeme here scans
      obtain ⟨token, member, isComment⟩ := comment_of_clear registry after (by rwa [behind]) complete
      exact ⟨token, List.mem_cons_of_mem _ member, isComment⟩
termination_by cursor.rest.length

end Cursor

end SqlLayout.Token

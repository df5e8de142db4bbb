import Mathlib.Data.List.Find
import SqlLayout.Proofs.Parting
import SqlLayout.Proofs.Scanning

/-! A text that is cut behind a semicolon. No token goes on past a semicolon that is a token of
its own, so what stands behind it can only matter to tokens before it that look for their other
end and have to find it there. Words, numbers and operators do not look past a semicolon at all;
where a bracket, a quote or a tag finds its partner before the semicolon, it still does, and
where it does not, there is none once the text ends with it. -/
namespace SqlLayout.Token

open Keyword

section Ending

variable (front behind : List Char)

theorem spanLength_ended (belongs : Char → Bool) (stops : belongs ';' = false) :
    spanLength belongs (front ++ ';' :: behind) = spanLength belongs front := by
  induction front with
  | nil => simp [spanLength, stops]
  | cons c rest ih =>
    by_cases inside : belongs c = true
    · simpa [spanLength, inside] using ih
    · simp [spanLength, inside]

theorem head?_ended (belongs : Char → Bool) (stops : belongs ';' = false) :
    (front ++ ';' :: behind).head?.any belongs = front.head?.any belongs := by
  cases front with
  | nil => simp [stops]
  | cons c rest => rfl

theorem isPrefixOf_ended (wanted : List Char) (plain : ';' ∉ wanted) :
    wanted.isPrefixOf (front ++ ';' :: behind) = wanted.isPrefixOf front := by
  induction wanted generalizing front with
  | nil => simp
  | cons c others ih =>
    rw [List.mem_cons, not_or] at plain
    cases front with
    | nil => simp [List.isPrefixOf, Ne.symm plain.1]
    | cons d rest => rw [List.cons_append, List.isPrefixOf, List.isPrefixOf, ih rest plain.2]

theorem mantissaLength?_ended :
    mantissaLength? (front ++ ';' :: behind) = mantissaLength? front := by
  have stops : Text.isDecimal ';' = false := by decide
  have span := spanLength_ended front behind Text.isDecimal stops
  have inside : spanLength Text.isDecimal front ≤ front.length := spanLength_le _ front
  unfold mantissaLength?
  rw [span]
  split
  · cases front with
    | nil => rfl
    | cons c rest =>
      by_cases point : c = '.'
      · subst point
        simp only [List.cons_append, spanLength_ended rest behind Text.isDecimal stops]
      · simp [point]
  · rw [List.drop_append_of_le_length inside]
    cases front.drop (spanLength Text.isDecimal front) with
    | nil => rfl
    | cons c rest =>
      by_cases point : c = '.'
      · subst point
        simp only [List.cons_append, spanLength_ended rest behind Text.isDecimal stops]
      · simp [point]

theorem exponentLength_ended :
    exponentLength (front ++ ';' :: behind) = exponentLength front := by
  have stops : Text.isDecimal ';' = false := by decide
  match front with
  | [] => simp [exponentLength]
  | [mark] => simp [exponentLength, spanLength, stops]
  | mark :: sign :: rest =>
    have none : spanLength Text.isDecimal (sign :: (rest ++ ';' :: behind)) =
        spanLength Text.isDecimal (sign :: rest) :=
      spanLength_ended (sign :: rest) behind Text.isDecimal stops
    by_cases signed : sign = '+' ∨ sign = '-'
    · simp [exponentLength, signed, spanLength_ended rest behind Text.isDecimal stops]
    · simp [exponentLength, signed, none]

theorem numberLength?_ended :
    numberLength? (front ++ ';' :: behind) = numberLength? front := by
  rw [numberLength?, numberLength?, mantissaLength?_ended]
  cases found : mantissaLength? front with
  | none => rfl
  | some length =>
    rw [Option.map_some, Option.map_some,
      List.drop_append_of_le_length (mantissaLength?_le front length found), exponentLength_ended]

theorem wordLength?_ended : wordLength? (front ++ ';' :: behind) = wordLength? front := by
  have notStart : Text.isWordStart ';' = false := by decide
  have stops : isNamePart ';' = false := by decide
  cases front with
  | nil => simp [wordLength?, notStart]
  | cons c rest => simp [wordLength?, spanLength_ended rest behind isNamePart stops]

theorem phraseOnward_ended (phrases : Phrases) (front behind : List Char) :
    phraseOnward phrases (front ++ ';' :: behind) = phraseOnward phrases front := by
  have stops : Text.isBlank ';' = false := by decide
  have gap := spanLength_ended front behind Text.isBlank stops
  have bound : spanLength Text.isBlank front ≤ front.length := spanLength_le _ front
  rw [phraseOnward, phraseOnward, gap]
  split
  · rfl
  rename_i apart
  rw [List.drop_append_of_le_length bound, wordLength?_ended]
  split
  · rfl
  rename_i length word
  have inside := wordLength?_le _ length word
  rw [List.take_append_of_le_length inside]
  split
  · rfl
  rename_i child _
  have taken : spanLength Text.isBlank front + length ≤ front.length := by
    rw [List.length_drop] at inside
    omega
  have onward := phraseOnward_ended child (front.drop (spanLength Text.isBlank front + length)) behind
  simp only [List.drop_append_of_le_length taken, onward]
termination_by front.length
decreasing_by
  have filled := wordLength?_pos _ _ ‹_›
  simp only [List.length_drop] at *
  omega

theorem wordLexeme_ended (registry : Registry) (c : Char) (length : Nat)
    (word : wordLength? (c :: front) = some length) :
    wordLexeme registry c (front ++ ';' :: behind) length = wordLexeme registry c front length := by
  have inside := wordLength?_le (c :: front) length word
  rw [wordLexeme, wordLexeme, ← List.cons_append, List.take_append_of_le_length inside,
    List.drop_append_of_le_length inside]
  simp only [phraseOnward_ended]

theorem operatorLexeme_ended (c : Char) :
    operatorLexeme c (front ++ ';' :: behind) = operatorLexeme c front := by
  have plain : ∀ operator ∈ longOperators, ';' ∉ operator := by decide
  have found : longOperators.find? (·.isPrefixOf (c :: front ++ ';' :: behind)) =
      longOperators.find? (·.isPrefixOf (c :: front)) :=
    List.find?_congr fun operator member =>
      isPrefixOf_ended (c :: front) behind operator (plain operator member)
  rw [operatorLexeme, operatorLexeme, ← List.cons_append, found]

theorem wordOrOperator_ended (registry : Registry) (c : Char) :
    wordOrOperator registry c (front ++ ';' :: behind) = wordOrOperator registry c front := by
  rw [wordOrOperator, wordOrOperator, ← List.cons_append, wordLength?_ended]
  split
  · rename_i length word
    exact wordLexeme_ended front behind registry c length word
  · exact operatorLexeme_ended front behind c

theorem bound?_ended : bound? (front ++ ';' :: behind) = bound? front := by
  rw [bound?, bound?, head?_ended front behind Text.isWordStart (by decide),
    spanLength_ended front behind Text.isWord (by decide)]

theorem specialName?_ended : specialName? (front ++ ';' :: behind) = specialName? front := by
  rw [specialName?, specialName?, spanLength_ended front behind isSpecialNamePart (by decide)]

theorem startsNumber_ended (c : Char) :
    startsNumber c (front ++ ';' :: behind) = startsNumber c front := by
  rw [startsNumber, startsNumber, head?_ended front behind Text.isDigitSign (by decide)]

theorem signed?_ended (last : Option Token) (c : Char) :
    signed? last c (front ++ ';' :: behind) = signed? last c front := by
  rw [signed?, signed?, numberLength?_ended]

end Ending

section Closing

variable {front behind : List Char}

theorem spanLength_cut (belongs : Char → Bool)
    (inside : spanLength belongs (front ++ ';' :: behind) ≤ front.length) :
    spanLength belongs (front ++ [';']) = spanLength belongs (front ++ ';' :: behind) := by
  induction front with
  | nil =>
    by_cases goes : belongs ';' = true
    · simp [spanLength, goes] at inside
    · simp [spanLength, goes]
  | cons c rest ih =>
    by_cases goes : belongs c = true
    · simp only [spanLength, List.cons_append, List.takeWhile_cons_of_pos goes,
        List.length_cons] at ih inside ⊢
      rw [ih (by omega)]
    · simp [spanLength, goes]

theorem spanLength_cut_of_lt (belongs : Char → Bool)
    (past : front.length < spanLength belongs (front ++ ';' :: behind)) :
    spanLength belongs (front ++ [';']) = (front ++ [';']).length := by
  induction front with
  | nil =>
    by_cases goes : belongs ';' = true
    · simp [spanLength, goes]
    · simp [spanLength, goes] at past
  | cons c rest ih =>
    by_cases goes : belongs c = true
    · simp only [spanLength, List.cons_append, List.takeWhile_cons_of_pos goes,
        List.length_cons] at ih past ⊢
      rw [ih (by omega)]
    · simp [spanLength, goes] at past

theorem closeQuote_pos (quote : Char) (chars : List Char) (length : Nat)
    (found : closeQuote quote chars = some length) : 0 < length := by
  fun_induction closeQuote quote chars generalizing length <;> grind [Option.map_eq_some_iff]

theorem closeQuote_cut {front behind : List Char} (quote : Char) (other : quote ≠ ';')
    (length : Nat) (found : closeQuote quote (front ++ ';' :: behind) = some length)
    (inside : length ≤ front.length) : closeQuote quote (front ++ [';']) = some length := by
  match front with
  | [] =>
    obtain rfl : length = 0 := by simpa using inside
    have positive := closeQuote_pos quote _ 0 found
    omega
  | [c] =>
    by_cases here : c = quote
    · simpa [closeQuote, here, Ne.symm other] using found
    · simp [closeQuote, here] at found
      obtain ⟨later, step, rfl⟩ := found
      have positive := closeQuote_pos quote _ later step
      simp at inside
      omega
  | c :: next :: rest =>
    by_cases here : c = quote
    · by_cases doubled : next = quote
      · simp only [List.cons_append, closeQuote, here, doubled, if_true, Option.map_eq_some_iff]
          at found ⊢
        obtain ⟨later, step, rfl⟩ := found
        exact ⟨later, closeQuote_cut quote other later step (by simp at inside; omega), rfl⟩
      · simpa [closeQuote, here, doubled] using found
    · simp only [List.cons_append, closeQuote, here, if_false, Option.map_eq_some_iff] at found ⊢
      obtain ⟨later, step, rfl⟩ := found
      rw [← List.cons_append] at step ⊢
      exact ⟨later, closeQuote_cut quote other later step (by simp at inside ⊢; omega), rfl⟩

theorem findSequence_cut (wanted : List Char) (plain : ';' ∉ wanted) (place : Nat)
    (found : Text.findSequence wanted (front ++ ';' :: behind) = some place)
    (inside : place + wanted.length ≤ front.length) :
    Text.findSequence wanted (front ++ [';']) = some place := by
  induction front generalizing place with
  | nil =>
    obtain ⟨-, rfl⟩ : place = 0 ∧ wanted = [] := by simpa using inside
    simpa [Text.findSequence] using found
  | cons c rest ih =>
    rw [List.cons_append, Text.findSequence, ← List.cons_append, isPrefixOf_ended _ _ _ plain]
      at found
    rw [List.cons_append, Text.findSequence, ← List.cons_append, isPrefixOf_ended _ _ _ plain]
    split at found
    · rename_i here
      rw [if_pos here, found]
    · rename_i here
      obtain ⟨before, step, rfl⟩ := Option.map_eq_some_iff.1 found
      rw [List.length_cons] at inside
      rw [if_neg here, ih before step (by omega), Option.map_some]

theorem quotedRun_cut (kind : Kind) (quote : Char) (other : quote ≠ ';') (offset : Nat)
    (inside : (quotedRun kind quote offset (front ++ ';' :: behind)).more ≤
      offset + front.length) :
    quotedRun kind quote offset (front ++ [';']) =
      quotedRun kind quote offset (front ++ ';' :: behind) := by
  rw [quotedRun, quotedRun]
  cases found : closeQuote quote (front ++ ';' :: behind) with
  | none =>
    simp only [quotedRun, found, List.length_append, List.length_cons] at inside
    omega
  | some length =>
    have bound : length ≤ front.length := by simpa [quotedRun, found] using inside
    rw [closeQuote_cut quote other length found bound]

theorem quoted?_cut (c : Char)
    (inside : ∀ lexeme ∈ quoted? c (front ++ ';' :: behind), lexeme.more ≤ front.length) :
    quoted? c (front ++ [';']) = quoted? c (front ++ ';' :: behind) := by
  have run (kind : Kind) (quote : Char) (other : quote ≠ ';') (offset : Nat) (rest : List Char)
      (split : front.length = offset + rest.length)
      (bound : (quotedRun kind quote offset (rest ++ ';' :: behind)).more ≤ front.length) :
      some (quotedRun kind quote offset (rest ++ [';'])) =
        some (quotedRun kind quote offset (rest ++ ';' :: behind)) :=
    congrArg some (quotedRun_cut kind quote other offset (split ▸ bound))
  unfold quoted? at inside ⊢
  by_cases single : c = '\''
  · simp only [if_pos single, Option.mem_some_iff, forall_eq'] at inside ⊢
    exact run _ _ (by decide) 0 front (by simp) inside
  simp only [if_neg single] at inside ⊢
  by_cases marked : isStringMark c = true ∧ front.head? = some '\''
  · obtain ⟨rest, rfl⟩ := List.head?_eq_some_iff.1 marked.2
    simp only [List.cons_append, List.head?_cons, marked.1, and_self, if_true,
      Option.mem_some_iff, forall_eq', List.drop_succ_cons, List.drop_zero] at inside ⊢
    exact run _ _ (by decide) 1 rest (by simp [Nat.add_comm]) inside
  have unmarked (after : List Char) :
      ¬(isStringMark c = true ∧ (front ++ ';' :: after).head? = some '\'') := by
    cases front with
    | nil => simp
    | cons d rest => exact marked
  simp only [if_neg (unmarked _)] at inside ⊢
  by_cases unicode : (c = 'U' ∨ c = 'u') ∧ ['&', '\''].isPrefixOf front = true
  · obtain ⟨rest, rfl⟩ := List.isPrefixOf_iff_prefix.1 unicode.2
    simp only [unicode.1, isPrefixOf_ended _ _ ['&', '\''] (by decide), unicode.2, and_self,
      if_true, Option.mem_some_iff, forall_eq'] at inside ⊢
    exact run _ _ (by decide) 2 rest (by simp; omega) inside
  simp only [isPrefixOf_ended _ _ ['&', '\''] (by decide), if_neg unicode] at inside ⊢
  by_cases double : c = '"'
  · simp only [if_pos double, Option.mem_some_iff, forall_eq'] at inside ⊢
    exact run _ _ (by decide) 0 front (by simp) inside
  simp only [if_neg double] at inside ⊢
  by_cases back : c = '`'
  · simp only [if_pos back, Option.mem_some_iff, forall_eq'] at inside ⊢
    exact run _ _ (by decide) 0 front (by simp) inside
  · simp only [if_neg back]

theorem blockComment_cut
    (inside : (blockComment (front ++ ';' :: behind)).more ≤ front.length + 1) :
    blockComment (front ++ [';']) = blockComment (front ++ ';' :: behind) := by
  rw [blockComment, blockComment]
  cases found : Text.findSequence ['*', '/'] (front ++ ';' :: behind) with
  | none =>
    simp only [blockComment, found, List.length_append, List.length_cons] at inside
    omega
  | some place =>
    have bound : place + ['*', '/'].length ≤ front.length := by
      simpa [blockComment, found] using inside
    rw [findSequence_cut ['*', '/'] (by decide) place found bound]

theorem bracketed_cut (inside : (bracketed (front ++ ';' :: behind)).more ≤ front.length) :
    bracketed (front ++ [';']) = bracketed (front ++ ';' :: behind) := by
  unfold bracketed at inside ⊢
  by_cases here : spanLength (· ≠ ']') (front ++ ';' :: behind) ≤ front.length
  · have length := spanLength_cut _ here
    have closed (after : List Char) :
        spanLength (· ≠ ']') (front ++ ';' :: behind) < (front ++ ';' :: after).length := by
      rw [List.length_append, List.length_cons]
      omega
    simp only [length, List.take_append_of_le_length here, closed, true_and]
  · have past := spanLength_cut_of_lt (· ≠ ']') (Nat.lt_of_not_le here)
    simp only at inside ⊢
    split at inside
    · exact absurd inside (by simp only; omega)
    · rename_i unnamed
      rw [past, if_neg (fun named => Nat.lt_irrefl _ named.1), if_neg unnamed]

theorem enclosedPlaceholder?_cut (close : Char)
    (inside : ∀ lexeme ∈ enclosedPlaceholder? close (front ++ ';' :: behind),
      lexeme.more ≤ front.length + 1) :
    enclosedPlaceholder? close (front ++ [';']) =
      enclosedPlaceholder? close (front ++ ';' :: behind) := by
  unfold enclosedPlaceholder? at inside ⊢
  by_cases here : spanLength (· ≠ close) (front ++ ';' :: behind) ≤ front.length
  · have length := spanLength_cut _ here
    have closed (after : List Char) :
        spanLength (· ≠ close) (front ++ ';' :: behind) < (front ++ ';' :: after).length := by
      rw [List.length_append, List.length_cons]
      omega
    simp only [length, List.take_append_of_le_length here, closed, true_and]
  · have past := spanLength_cut_of_lt (· ≠ close) (Nat.lt_of_not_le here)
    simp only at inside ⊢
    split at inside
    · simp only [Option.mem_some_iff, forall_eq'] at inside
      omega
    · rename_i unclosed
      rw [past, if_neg (fun named => Nat.lt_irrefl _ named.1), if_neg unclosed]

theorem tagged?_cut
    (inside : ∀ lexeme ∈ tagged? (front ++ ';' :: behind), lexeme.more ≤ front.length) :
    tagged? (front ++ [';']) = tagged? (front ++ ';' :: behind) := by
  unfold tagged? at inside ⊢
  simp only [head?_ended front _ Text.isWordStart (by decide),
    spanLength_ended front _ Text.isWord (by decide)] at inside ⊢
  generalize named : (if front.head?.any Text.isWordStart then spanLength Text.isWord front else 0) =
    length at inside ⊢
  have bound : length ≤ front.length := by
    have span := spanLength_le Text.isWord front
    split at named <;> omega
  simp only [List.drop_append_of_le_length bound] at inside ⊢
  cases ahead : front.drop length with
  | nil => simp
  | cons c rest =>
    have more : length + 1 ≤ front.length := by
      have size := congrArg List.length ahead
      simp only [List.length_drop, List.length_cons] at size
      omega
    have tail : front.drop (length + 1) = rest := by
      rw [← List.drop_drop, ahead]
      rfl
    by_cases dollar : c = '$'
    · have plain : ';' ∉ '$' :: front.take (length + 1) := by
        have name : ∀ d ∈ front.take length, Text.isWord d = true := by
          intro d member
          split at named
          · rw [← named] at member
            exact belongs_of_mem_span Text.isWord front d member
          · simp [← named] at member
        rw [List.take_add, ahead, dollar]
        have other : Text.isWord ';' = false := by decide
        intro member
        simp only [List.mem_cons, List.mem_append, List.take_succ_cons, List.take_zero,
          List.not_mem_nil, or_false, Char.reduceEq, false_or] at member
        simp [name ';' member] at other
      simp only [ahead, List.cons_append, List.head?_cons, dollar, if_true,
        List.take_append_of_le_length more, List.drop_append_of_le_length more, tail] at inside ⊢
      cases found : Text.findSequence ('$' :: front.take (length + 1)) (rest ++ ';' :: behind) with
      | none =>
        simp only [found, Option.mem_some_iff, forall_eq', List.length_append,
          List.length_cons] at inside
        omega
      | some place =>
        simp only [found, Option.mem_some_iff, forall_eq'] at inside
        have fits : place + ('$' :: front.take (length + 1)).length ≤ rest.length := by
          have size := congrArg List.length ahead
          simp only [List.length_drop, List.length_cons] at size
          omega
        rw [findSequence_cut _ plain place found fits]
    · simp [dollar]

theorem dollar?_cut
    (inside : ∀ lexeme ∈ dollar? (front ++ ';' :: behind), lexeme.more ≤ front.length) :
    dollar? (front ++ [';']) = dollar? (front ++ ';' :: behind) := by
  have decimal : Text.isDecimal ';' = false := by decide
  match front with
  | [] =>
    have name : Text.isWordStart ';' = false := by decide
    simp [dollar?, spanLength, decimal, tagged?, name]
  | c :: rest =>
    by_cases square : c = '['
    · subst square
      exact enclosedPlaceholder?_cut ']' inside
    by_cases curly : c = '\x7b'
    · subst curly
      exact enclosedPlaceholder?_cut '\x7d' inside
    have bare (after : List Char) : dollar? (c :: rest ++ ';' :: after) =
        if spanLength Text.isDecimal (c :: rest) = 0 then tagged? (c :: rest ++ ';' :: after)
        else some { kind := .placeholder, more := spanLength Text.isDecimal (c :: rest) } := by
      rw [← spanLength_ended (c :: rest) after Text.isDecimal decimal, List.cons_append, dollar?]
      · cases spanLength Text.isDecimal (c :: (rest ++ ';' :: after)) <;> rfl
      · exact fun body same => square (List.cons.inj same).1
      · exact fun body same => curly (List.cons.inj same).1
    rw [bare] at inside ⊢
    rw [bare]
    by_cases none : spanLength Text.isDecimal (c :: rest) = 0
    · rw [if_pos none] at inside ⊢
      rw [if_pos none, tagged?_cut inside]
    · rw [if_neg none, if_neg none]

theorem marked?_cut (c : Char)
    (inside : ∀ lexeme ∈ marked? c (front ++ ';' :: behind), lexeme.more ≤ front.length) :
    marked? c (front ++ [';']) = marked? c (front ++ ';' :: behind) := by
  have head (sign : Char) (other : sign ≠ ';') (after : List Char) :
      (front ++ ';' :: after).head? = some sign ↔ front.head? = some sign := by
    cases front with
    | nil => simp [Ne.symm other]
    | cons d rest => rfl
  unfold marked? at inside ⊢
  by_cases blank : Text.isBlank c = true
  · simp only [if_pos blank, spanLength_ended _ _ Text.isBlank (by decide : Text.isBlank ';' = false)]
  simp only [if_neg blank] at inside ⊢
  simp only [head '-' (by decide), head '*' (by decide)] at inside ⊢
  by_cases line : c = '-' ∧ front.head? = some '-'
  · simp only [if_pos line, Option.mem_some_iff, forall_eq'] at inside ⊢
    rw [lineComment, lineComment, spanLength_cut _ inside]
  simp only [if_neg line] at inside ⊢
  by_cases block : c = '/' ∧ front.head? = some '*'
  · obtain ⟨rest, rfl⟩ := List.head?_eq_some_iff.1 block.2
    simp only [if_pos block, Option.mem_some_iff, forall_eq', List.cons_append,
      List.drop_succ_cons, List.drop_zero] at inside ⊢
    rw [blockComment_cut (by simpa using inside)]
  simp only [if_neg block] at inside ⊢
  have quoted : quoted? c (front ++ [';']) = quoted? c (front ++ ';' :: behind) :=
    quoted?_cut c fun lexeme found => inside lexeme (by simp [Option.mem_def.1 found])
  rw [quoted]
  cases found : quoted? c (front ++ ';' :: behind) with
  | some lexeme => rfl
  | none =>
    simp only [found, Option.none_or] at inside ⊢
    by_cases bracket : c = '['
    · simp only [if_pos bracket, Option.mem_some_iff, forall_eq'] at inside ⊢
      rw [bracketed_cut inside]
    simp only [if_neg bracket] at inside ⊢
    by_cases dollar : c = '$'
    · simp only [if_pos dollar] at inside ⊢
      exact dollar?_cut inside
    simp only [if_neg dollar, bound?_ended, specialName?_ended]

/-- A token that ends before a semicolon is there without what is behind the semicolon. -/
theorem scan?_cut (registry : Registry) (last : Option Token) (c : Char) (lexeme : Lexeme)
    (found : scan? registry last c (front ++ ';' :: behind) = some lexeme)
    (inside : lexeme.more ≤ front.length) :
    scan? registry last c (front ++ [';']) = some lexeme := by
  have marked : marked? c (front ++ [';']) = marked? c (front ++ ';' :: behind) := by
    refine marked?_cut c fun other here => ?_
    rw [scan?, Option.mem_def.1 here, Option.some.injEq] at found
    rw [found]
    exact inside
  rw [← found, scan?, scan?, marked, startsNumber_ended, startsNumber_ended, signed?_ended,
    signed?_ended, wordOrOperator_ended, wordOrOperator_ended, ← List.cons_append,
    numberLength?_ended, ← List.cons_append, numberLength?_ended]

end Closing

/-- Of the last token only this matters, that it is an operand or not. -/
theorem scan?_last (registry : Registry) (first second : Option Token)
    (same : second.any isOperand = first.any isOperand) (c : Char) (rest : List Char) :
    scan? registry second c rest = scan? registry first c rest := by
  rw [scan?, scan?, signed?, signed?, same]

theorem scan?_semicolon (registry : Registry) (last : Option Token) (rest : List Char) :
    scan? registry last ';' rest = some { kind := .semicolon, more := 0 } := by
  have visible : Text.isBlank ';' = false := by decide
  have unmarked : isStringMark ';' = false := by decide
  have marked : marked? ';' rest = some { kind := .semicolon, more := 0 } := by
    simp [marked?, visible, quoted?, unmarked, punctuation?]
  rw [scan?, marked]

namespace Cursor

def tokenOf (position : Nat) (c : Char) (rest : List Char) (lexeme : Lexeme) : Token :=
  let text := String.ofList (c :: rest.take lexeme.more)
  ⟨lexeme.kind, text, position, lexeme.contents.getD text⟩

theorem exists_of_read (registry : Registry) (cursor after : Cursor) (token : Token)
    (notices : List Notice) (step : cursor.read registry = .token token notices after) :
    ∃ c rest lexeme, cursor.rest = c :: rest ∧ scan? registry cursor.last c rest = some lexeme ∧
      token = tokenOf cursor.position c rest lexeme ∧
      after = ⟨token.stop, rest.drop lexeme.more,
        if token.isSolid then some token else cursor.last⟩ := by
  unfold read at step
  split at step
  · simp at step
  · rename_i c rest ahead
    split at step
    · simp at step
    · rename_i lexeme found
      simp only [Reading.token.injEq] at step
      obtain ⟨rfl, -, rfl⟩ := step
      exact ⟨c, rest, lexeme, ahead, found, rfl, rfl⟩

theorem read_of_scan? (registry : Registry) (position : Nat) (last : Option Token) (c : Char)
    (rest : List Char) (lexeme : Lexeme) (found : scan? registry last c rest = some lexeme) :
    ∃ notices, (⟨position, c :: rest, last⟩ : Cursor).read registry =
      .token (tokenOf position c rest lexeme) notices
        ⟨(tokenOf position c rest lexeme).stop, rest.drop lexeme.more,
          if (tokenOf position c rest lexeme).isSolid then some (tokenOf position c rest lexeme)
          else last⟩ := by
  simp only [read, found]
  exact ⟨_, rfl⟩

inductive Passes (registry : Registry) : Cursor → List Token → Cursor → Prop where
  | done (cursor : Cursor) : Passes registry cursor [] cursor
  | token {cursor next stop : Cursor} {token : Token} {notices : List Notice}
      {others : List Token} (step : cursor.read registry = .token token notices next)
      (onward : Passes registry next others stop) : Passes registry cursor (token :: others) stop

namespace Passes

variable {registry : Registry} {cursor stop : Cursor}

theorem of_readAll (registry : Registry) (cursor : Cursor) :
    Passes registry cursor (cursor.readAll registry).tokens (cursor.readAll registry).stop := by
  cases step : cursor.read registry with
  | atEnd =>
    rw [readAll_of_atEnd registry cursor step]
    exact .done cursor
  | stray =>
    rw [readAll_of_stray registry cursor step]
    exact .done cursor
  | token token notices after =>
    have shorter := rest_lt_of_read registry cursor after token notices step
    rw [readAll_of_token registry cursor after token notices step]
    exact .token step (of_readAll registry after)
termination_by cursor.rest.length

theorem readAll {tokens : List Token} (passes : Passes registry cursor tokens stop)
    (finished : stop.rest = []) :
    (cursor.readAll registry).tokens = tokens ∧ (cursor.readAll registry).stop = stop := by
  induction passes with
  | done cursor =>
    rw [readAll_of_atEnd registry cursor ((read_eq_atEnd_iff registry cursor).2 finished)]
    exact ⟨rfl, rfl⟩
  | token step _ ih =>
    obtain ⟨tokens, ends⟩ := ih finished
    rw [readAll_of_token registry _ _ _ _ step, tokens, ends]
    exact ⟨rfl, rfl⟩

theorem split {front back : List Token} (passes : Passes registry cursor (front ++ back) stop) :
    ∃ between, Passes registry cursor front between ∧ Passes registry between back stop := by
  induction front generalizing cursor with
  | nil => exact ⟨cursor, .done cursor, passes⟩
  | cons token others ih =>
    cases passes with
    | token step onward =>
      obtain ⟨between, before, after⟩ := ih onward
      exact ⟨between, .token step before, after⟩

theorem ahead {tokens : List Token} (passes : Passes registry cursor tokens stop) :
    cursor.rest = tokens.flatMap (·.text.toList) ++ stop.rest := by
  induction passes with
  | done => rfl
  | token step _ ih =>
    rw [(advances_of_read registry _ _ _ _ step).ahead, ih, List.flatMap_cons, List.append_assoc]

theorem last {front : List Token} {token : Token}
    (passes : Passes registry cursor (front ++ [token]) stop) (solid : token.isSolid = true) :
    stop.last = some token := by
  obtain ⟨between, -, final⟩ := passes.split
  cases final with
  | token step onward =>
    cases onward with
    | done =>
      obtain ⟨c, rest, lexeme, -, -, -, rfl⟩ := exists_of_read registry _ _ _ _ step
      exact if_pos solid

/-- The same tokens are read at another place, and behind another token that is an operand
like the one before. -/
theorem moved {tokens : List Token} (passes : Passes registry cursor tokens stop) (last : Option Token)
    (same : last.any isOperand = cursor.last.any isOperand) (position offset : Nat)
    (place : cursor.position = position + offset) :
    ∃ own after, Passes registry ⟨position, cursor.rest, last⟩ own after ∧
      tokens = own.map (Token.moved (· + offset)) ∧ after.rest = stop.rest := by
  induction passes generalizing last position with
  | done cursor => exact ⟨[], _, .done _, rfl, rfl⟩
  | @token cursor next stop token notices others step _ ih =>
    obtain ⟨c, rest, lexeme, ahead, found, rfl, rfl⟩ := exists_of_read registry _ _ _ _ step
    rw [← scan?_last registry cursor.last last same] at found
    obtain ⟨again, reread⟩ := read_of_scan? registry position last c rest lexeme found
    have whole : tokenOf cursor.position c rest lexeme =
        (tokenOf position c rest lexeme).moved (· + offset) := by
      rw [place]
      rfl
    let own := tokenOf position c rest lexeme
    have placeNext : (tokenOf cursor.position c rest lexeme).stop = own.stop + offset := by
      rw [whole]
      exact Nat.add_right_comm position offset own.text.length
    have sameNext : Option.any isOperand (if own.isSolid then some own else last) =
        Option.any isOperand (if (own.moved (· + offset)).isSolid then
          some (own.moved (· + offset)) else cursor.last) := by
      have solid : (own.moved (· + offset)).isSolid = own.isSolid := rfl
      rw [solid]
      split
      · rfl
      · exact same
    obtain ⟨others, after, onward, tokens, left⟩ := ih _ (whole ▸ sameNext) own.stop placeNext
    refine ⟨own :: others, after, ?_, ?_, left⟩
    · rw [ahead]
      exact .token reread onward
    · rw [List.map_cons, ← tokens, whole]

theorem semicolon {body : List Token} {semicolon : Token} (ends : semicolon.kind = .semicolon)
    (passes : Passes registry cursor (body ++ [semicolon]) stop) :
    semicolon.text.toList = [';'] := by
  obtain ⟨between, -, final⟩ := passes.split
  cases final with
  | token step _ =>
    obtain ⟨c, text, sign⟩ :=
      (readFrom_of_read registry _ _ _ _ step).punctuation (by rw [ends]; rfl)
    simp only [ends, reduceCtorEq, and_false, false_or, and_true] at sign
    rw [text, sign]

theorem cut {body : List Token} {semicolon : Token} (ends : semicolon.kind = .semicolon)
    (passes : Passes registry cursor (body ++ [semicolon]) stop) :
    Passes registry ⟨cursor.position, (body ++ [semicolon]).flatMap (·.text.toList), cursor.last⟩
      (body ++ [semicolon]) ⟨stop.position, [], stop.last⟩ := by
  have sign := passes.semicolon ends
  induction body generalizing cursor with
  | nil =>
    cases passes with
    | token step onward =>
      cases onward with
      | done =>
        obtain ⟨c, rest, lexeme, ahead, found, rfl, rfl⟩ := exists_of_read registry _ _ _ _ step
        obtain ⟨rfl, -⟩ : c = ';' ∧ _ := by
          simpa only [tokenOf, String.toList_ofList, List.cons.injEq] using sign
        rw [scan?_semicolon, Option.some.injEq] at found
        obtain ⟨again, reread⟩ := read_of_scan? registry cursor.position cursor.last ';' []
          lexeme (by rw [scan?_semicolon, found])
        subst found
        simp only [List.nil_append, List.flatMap_cons, List.flatMap_nil, sign, List.append_nil]
        exact .token reread (.done _)
  | cons token body ih =>
    have whole := passes.ahead
    cases passes with
    | token step onward =>
      have tail := ih onward
      obtain ⟨c, rest, lexeme, ahead, found, rfl, rfl⟩ := exists_of_read registry _ _ _ _ step
      have more := scan?_more_le registry _ c rest lexeme found
      have text : (tokenOf cursor.position c rest lexeme).text.toList =
          c :: rest.take lexeme.more := String.toList_ofList
      generalize front : rest.take lexeme.more ++ body.flatMap (·.text.toList) = others
      have split : rest = others ++ ';' :: stop.rest := by
        simpa [ahead, text, sign, ← front] using whole
      have inside : lexeme.more ≤ others.length := by
        rw [← front, List.length_append, List.length_take]
        omega
      rw [split] at found
      obtain ⟨again, reread⟩ := read_of_scan? registry cursor.position cursor.last c
        (others ++ [';']) lexeme (scan?_cut registry _ c lexeme found inside)
      have same : tokenOf cursor.position c (others ++ [';']) lexeme =
          tokenOf cursor.position c rest lexeme := by
        rw [tokenOf, tokenOf, split, List.take_append_of_le_length inside,
          List.take_append_of_le_length inside]
      have left : (others ++ [';']).drop lexeme.more =
          (body ++ [semicolon]).flatMap (·.text.toList) := by
        have size : (rest.take lexeme.more).length = lexeme.more := by
          rw [List.length_take]
          omega
        rw [← front, List.append_assoc, List.drop_left' size]
        simp [sign]
      rw [same, left] at reread
      have chars : (tokenOf cursor.position c rest lexeme :: body ++ [semicolon]).flatMap
          (·.text.toList) = c :: (others ++ [';']) := by
        simp [text, sign, ← front]
      rw [chars]
      exact .token reread tail

end Passes

end Cursor

theorem tokens?_statement (registry : Registry) (source : String) (tokens statement : List Token)
    (lexed : tokens? registry source = .ok tokens) (member : statement ∈ splitStatements tokens) :
    ∃ own offset, tokens? registry (Stream.text ⟨statement⟩) = .ok own ∧
      statement = own.map (moved (· + offset)) := by
  obtain ⟨finished, whole⟩ := (tokens?_eq_ok_iff registry source tokens).1 lexed
  obtain ⟨front, back, rfl, before, after⟩ := exists_around tokens statement member
  have passes := Cursor.Passes.of_readAll registry (.ofSource source)
  rw [show (Cursor.readAll registry (.ofSource source)).tokens = _ from whole,
    List.append_assoc] at passes
  obtain ⟨start, ahead, passes⟩ := passes.split
  obtain ⟨stop, inside, behind⟩ := passes.split
  -- No sign is an operand's sign at the start of a statement.
  have fresh : (none : Option Token).any isOperand = start.last.any isOperand := by
    rcases List.eq_nil_or_concat front with rfl | ⟨others, last, rfl⟩
    · cases ahead
      rfl
    · rw [List.concat_eq_append] at ahead before
      have kind := before last (by simp)
      rw [ahead.last (by simp [isSolid, isBlank, isComment, kind]), Option.any_some,
        isOperand_of_semicolon last kind, Option.any_none]
  have alone : ∃ last, Cursor.Passes registry
      ⟨start.position, statement.flatMap (·.text.toList), start.last⟩ statement last ∧
      last.rest = [] := by
    rcases after with rfl | ⟨semicolon, final, ends⟩
    · cases behind
      have text := inside.ahead
      rw [show (Cursor.readAll registry (.ofSource source)).stop.rest = [] from finished,
        List.append_nil] at text
      rw [← text]
      exact ⟨_, inside, finished⟩
    · obtain ⟨body, rfl⟩ := List.getLast?_eq_some_iff.1 final
      exact ⟨_, inside.cut ends, rfl⟩
  obtain ⟨last, alone, done⟩ := alone
  obtain ⟨own, final, read, same, left⟩ :=
    alone.moved none fresh 0 start.position (Nat.zero_add _).symm
  refine ⟨own, start.position, ?_, same⟩
  have text : (Stream.text ⟨statement⟩).toList = statement.flatMap (·.text.toList) := by
    rw [Stream.text, String.toList_join, List.flatMap_map]
  obtain ⟨tokens, stops⟩ := read.readAll (left.trans done)
  refine (tokens?_eq_ok_iff registry _ own).2 ?_
  rw [lex, Cursor.ofSource, text]
  exact ⟨stops ▸ left.trans done, tokens⟩

theorem tokens?_statement_head (registry : Registry) (source : String)
    (tokens statement : List Token) (lexed : tokens? registry source = .ok tokens)
    (member : statement ∈ splitStatements tokens) :
    ∃ first own, statement.head? = some first ∧
      tokens? registry (Stream.text ⟨statement⟩) = .ok own ∧
      statement = own.map (moved (· + first.start)) := by
  obtain ⟨own, offset, read, same⟩ := tokens?_statement registry source tokens statement lexed member
  have filled := ne_nil_of_mem_splitStatements tokens statement member
  obtain ⟨first, others, whole⟩ : ∃ first others, own = first :: others := by
    refine List.exists_cons_of_ne_nil ?_
    rintro rfl
    exact filled same
  have start := (tiles_of_tokens? registry _ own read).partitions.first first (by rw [whole]; rfl)
  have place : (moved (· + offset) first).start = offset := by
    rw [moved, start, Nat.zero_add]
  refine ⟨moved (· + offset) first, own, ?_, read, ?_⟩
  · rw [same, whole]
    rfl
  · rw [place]
    exact same

/-- A text that can be read falls into statements, in order, none of them without tokens; a
semicolon can only end one, and ends each but perhaps the last. Each statement that is read
without the others has the same tokens, from where the text now starts. -/
theorem statements_read_alone (registry : Registry) (source : String) (tokens : List Token)
    (lexed : tokens? registry source = .ok tokens) :
    ((Stream.mk tokens).statements.map Stream.tokens).flatten = tokens ∧
      (∀ statement ∈ (Stream.mk tokens).statements,
        statement.tokens ≠ [] ∧
        (∀ token ∈ statement.tokens.dropLast, token.kind ≠ .semicolon) ∧
        ∃ first own, statement.tokens.head? = some first ∧
          tokens? registry statement.text = .ok own ∧
          statement.tokens = own.map (moved (· + first.start))) ∧
      ∀ statement ∈ (Stream.mk tokens).statements.dropLast,
        ∃ last, statement.tokens.getLast? = some last ∧ last.kind = .semicolon := by
  refine ⟨?_, ?_, ?_⟩
  · rw [Stream.statements, List.map_map]
    exact (congrArg List.flatten (List.map_id _)).trans (flatten_splitStatements tokens)
  · intro statement inside
    obtain ⟨run, member, rfl⟩ := List.mem_map.1 inside
    refine ⟨ne_nil_of_mem_splitStatements tokens run member, ?_,
      tokens?_statement_head registry source tokens run lexed member⟩
    obtain ⟨body, plain, rfl | ⟨last, -, rfl⟩⟩ := splitStatements_cases tokens run member
    · exact fun token early => plain token (List.dropLast_subset _ early)
    · simpa using plain
  · intro statement inside
    rw [Stream.statements, ← List.map_dropLast] at inside
    obtain ⟨run, member, rfl⟩ := List.mem_map.1 inside
    exact ends_of_mem_dropLast tokens run member

theorem statements_read_alone_bracket :
    tokens? (Registry.common {}) "a[;-1 '" = .ok
        [.plain .identifier "a" 0, .plain .operator "[" 1, .plain .semicolon ";" 2,
          .plain .numberLiteral "-1" 3, .plain .blank " " 5, .plain .stringLiteral "'" 6] ∧
      ∃ own, tokens? (Registry.common {}) "-1 '" = .ok own ∧
        [.plain .numberLiteral "-1" 3, .plain .blank " " 5, .plain .stringLiteral "'" 6] =
          own.map (moved (· + 3)) := by
  have lexed := (tokens?_eq_ok_iff (Registry.common {}) "a[;-1 '"
    [.plain .identifier "a" 0, .plain .operator "[" 1, .plain .semicolon ";" 2,
      .plain .numberLiteral "-1" 3, .plain .blank " " 5, .plain .stringLiteral "'" 6]).2
      (by decide +kernel)
  obtain ⟨-, statements, -⟩ := statements_read_alone _ _ _ lexed
  obtain ⟨-, -, first, own, head, read, same⟩ := statements
    ⟨[.plain .numberLiteral "-1" 3, .plain .blank " " 5, .plain .stringLiteral "'" 6]⟩ (by decide)
  obtain rfl := Option.some.inj head
  exact ⟨lexed, own, read, same⟩

end SqlLayout.Token

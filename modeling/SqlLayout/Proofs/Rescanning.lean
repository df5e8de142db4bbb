import Mathlib.Data.List.Find
import SqlLayout.Proofs.Gluing
import SqlLayout.Proofs.Wording

/-! The same token again. Where a token was scanned once, it is scanned again with something
else behind it, as long as that begins with nothing that would go on with the token. Every
kind of token has its own condition; words are the only ones that look further ahead. -/
namespace SqlLayout.Token

open Keyword

theorem quotedRun_take (kind : Kind) (quote : Char) (offset : Nat) (body suffix : List Char)
    (apart : suffix.head? ≠ some quote)
    (closed : body.drop (quotedRun .stringLiteral quote 0 body).more = [] → suffix = []) :
    quotedRun kind quote offset
        (body.take (quotedRun .stringLiteral quote 0 body).more ++ suffix) =
      quotedRun kind quote offset body := by
  cases ended : closeQuote quote body with
  | none =>
    have more : (quotedRun .stringLiteral quote 0 body).more = body.length := by
      simp [quotedRun, ended]
    rw [more, List.drop_length] at closed
    rw [more, closed rfl, List.append_nil, List.take_length]
  | some length =>
    have more : (quotedRun .stringLiteral quote 0 body).more = length := by
      simp [quotedRun, ended]
    rw [more, quotedRun, closeQuote_take quote body suffix length ended apart, quotedRun, ended]

theorem quoted?_take (c : Char) (rest suffix : List Char) (lexeme : Lexeme)
    (found : quoted? c rest = some lexeme) (closed : rest.drop lexeme.more = [] → suffix = [])
    (joint : JointAhead suffix) : quoted? c (rest.take lexeme.more ++ suffix) = some lexeme := by
  have apart (quote : Char) (isQuote : quote = '\'' ∨ quote = '"' ∨ quote = '`') :
      suffix.head? ≠ some quote := by
    refine joint.head_ne quote ?_
    rcases isQuote with rfl | rfl | rfl <;> decide
  unfold quoted? at found ⊢
  split at found
  · rename_i first
    obtain rfl := Option.some.inj found
    rw [if_pos first]
    rw [Clear.more_of_quotedRun, Nat.zero_add] at closed ⊢
    rw [quotedRun_take _ _ _ _ _ (apart _ (.inl rfl)) closed]
  rename_i notQuote
  rw [if_neg notQuote]
  split at found
  · rename_i marked
    obtain ⟨body, rfl⟩ := List.head?_eq_some_iff.1 marked.2
    obtain rfl := Option.some.inj found
    rw [Clear.more_of_quotedRun, Nat.add_comm, List.drop_succ_cons] at closed
    rw [Clear.more_of_quotedRun, Nat.add_comm, List.take_succ_cons, List.cons_append]
    rw [if_pos ⟨marked.1, rfl⟩]
    simp only [List.drop_succ_cons, List.drop_zero] at closed ⊢
    rw [quotedRun_take _ _ _ _ _ (apart _ (.inl rfl)) closed]
  rename_i unmarked
  split at found
  · rename_i marked
    obtain ⟨body, rfl⟩ := List.isPrefixOf_iff_prefix.1 marked.2
    obtain rfl := Option.some.inj found
    have other : ¬isStringMark c = true := by
      rcases marked.1 with rfl | rfl <;> decide
    simp only [List.cons_append, List.nil_append, List.drop_succ_cons, List.drop_zero]
      at closed ⊢
    rw [Clear.more_of_quotedRun, Nat.add_comm, List.drop_succ_cons, List.drop_succ_cons] at closed
    rw [if_neg (by simp [other]), Clear.more_of_quotedRun, Nat.add_comm, List.take_succ_cons,
      List.take_succ_cons, List.cons_append, List.cons_append, if_pos ⟨marked.1, by simp⟩]
    simp only [List.drop_succ_cons, List.drop_zero]
    rw [quotedRun_take _ _ _ _ _ (apart _ (.inl rfl)) closed]
  split at found
  · rename_i first
    obtain rfl := Option.some.inj found
    rw [Clear.more_of_quotedRun, Nat.zero_add] at closed ⊢
    rw [if_neg (by simp [first, isStringMark]), if_neg (by simp [first]), if_pos first,
      quotedRun_take _ _ _ _ _ (apart _ (.inr (.inl rfl))) closed]
  rename_i notDouble
  split at found
  · rename_i first
    obtain rfl := Option.some.inj found
    rw [Clear.more_of_quotedRun, Nat.zero_add] at closed ⊢
    rw [if_neg (by simp [first, isStringMark]), if_neg (by simp [first]), if_neg notDouble,
      if_pos first, quotedRun_take _ _ _ _ _ (apart _ (.inr (.inr rfl))) closed]
  · simp at found

theorem bracketed_take (rest suffix : List Char) (named : (bracketed rest).kind ≠ .operator) :
    bracketed (rest.take (bracketed rest).more ++ suffix) = bracketed rest := by
  have conditions : spanLength (· ≠ ']') rest < rest.length ∧ 0 < spanLength (· ≠ ']') rest ∧
      !(rest.take (spanLength (· ≠ ']') rest)).contains '\n' ∧
      !(rest.take (spanLength (· ≠ ']') rest)).contains '[' := by
    by_contra not
    rw [bracketed, if_neg not] at named
    exact named rfl
  obtain ⟨name, tail, rfl, inside, length⟩ := exists_closed ']' rest conditions.1
  have same : bracketed (name ++ ']' :: tail) =
      { kind := .quotedIdentifier, more := name.length + 1 } := by
    rw [bracketed, if_pos conditions, length]
  rw [length, List.take_left] at conditions
  have text : (name ++ ']' :: tail).take (name.length + 1) ++ suffix = name ++ ']' :: suffix := by
    rw [List.take_append, List.take_of_length_le (by omega)]
    simp
  rw [same, text, bracketed, spanLength_closed ']' name suffix inside, List.take_left, if_pos]
  exact ⟨by simp, conditions.2⟩

theorem enclosedPlaceholder?_take (close : Char) (body suffix : List Char) (lexeme : Lexeme)
    (found : enclosedPlaceholder? close body = some lexeme) :
    ∃ more, lexeme.more = more + 1 ∧
      enclosedPlaceholder? close (body.take more ++ suffix) = some lexeme := by
  unfold enclosedPlaceholder? at found ⊢
  simp only at found ⊢
  split at found
  · rename_i fits
    obtain rfl := Option.some.inj found
    obtain ⟨name, tail, rfl, inside, length⟩ := exists_closed close body fits.1
    rw [length, List.take_left] at fits
    rw [length]
    refine ⟨name.length + 1, rfl, ?_⟩
    have text : (name ++ close :: tail).take (name.length + 1) ++ suffix =
        name ++ close :: suffix := by
      rw [List.take_append, List.take_of_length_le (by omega)]
      simp
    rw [text, spanLength_closed close name suffix inside, List.take_left, if_pos]
    exact ⟨by simp, fits.2⟩
  · simp at found

theorem dollar?_take (rest suffix : List Char) (lexeme : Lexeme)
    (found : dollar? rest = some lexeme) (closed : rest.drop lexeme.more = [] → suffix = [])
    (joint : JointAhead suffix) : dollar? (rest.take lexeme.more ++ suffix) = some lexeme := by
  unfold dollar? at found
  split at found
  · rename_i body
    obtain ⟨more, same, again⟩ := enclosedPlaceholder?_take ']' body suffix lexeme found
    rw [same, List.take_succ_cons]
    exact again
  · rename_i body
    obtain ⟨more, same, again⟩ := enclosedPlaceholder?_take '}' body suffix lexeme found
    rw [same, List.take_succ_cons]
    exact again
  · rename_i square curly
    split at found
    · rename_i noDigit
      obtain ⟨again, -, head⟩ := tagged?_take rest suffix lexeme found closed
      cases rest with
      | nil => simp [tagged?] at found
      | cons first others =>
        obtain ⟨tail, start⟩ := List.head?_eq_some_iff.1 head
        rw [start] at again ⊢
        rw [dollar?_of_other first tail (by rintro rfl; exact square others rfl)
          (by rintro rfl; exact curly others rfl)]
        have stillNone : spanLength Text.isDecimal (first :: tail) = 0 := by
          by_cases isDigit : Text.isDecimal first = true
          · simp [spanLength, isDigit] at noDigit
          · simp [spanLength, isDigit]
        rw [stillNone]
        exact again
    · rename_i some
      obtain rfl := Option.some.inj found
      have all := belongs_of_mem_span Text.isDecimal rest
      have span := spanLength_front Text.isDecimal _ suffix all
        (joint.outside Text.isDecimal (by decide))
      have size : (rest.take (spanLength Text.isDecimal rest)).length =
          spanLength Text.isDecimal rest := by
        rw [take_spanLength]
        rfl
      rw [size] at span
      cases front : rest.take (spanLength Text.isDecimal rest) with
      | nil =>
        rw [front] at size
        exact absurd size.symm some
      | cons first others =>
        simp only [front] at all span ⊢
        rw [List.cons_append, dollar?_of_other first _ ?_ ?_, ← List.cons_append, span]
        · split
          · rename_i none
            exact absurd none some
          · rfl
        · rintro rfl
          exact absurd (all '[' (by simp)) (by decide)
        · rintro rfl
          exact absurd (all '{' (by simp)) (by decide)

theorem marked?_eq_none (c : Char) (rest : List Char) (visible : Text.isBlank c = false)
    (hyphen : ¬(c = '-' ∧ rest.head? = some '-')) (slash : ¬(c = '/' ∧ rest.head? = some '*'))
    (unquoted : quoted? c rest = none)
    (others : ['[', '$', '?', ':', '@', '#', '(', ')', ',', ';'].contains c = false) :
    marked? c rest = none := by
  simp only [List.contains_cons, List.contains_nil, Bool.or_false, Bool.or_eq_false_iff,
    beq_eq_false_iff_ne] at others
  obtain ⟨a1, a2, a3, a4, a5, a6, a7, a8, a9, a10⟩ := others
  simp [marked?, visible, hyphen, slash, unquoted, punctuation?, a1, a2, a3, a4, a5, a6, a7, a8,
    a9, a10]

theorem lead_of_quoted? (c : Char) (rest : List Char) (lexeme : Lexeme)
    (found : quoted? c rest = some lexeme) :
    c ∈ ['\'', 'N', 'n', 'E', 'e', 'X', 'x', 'B', 'b', 'U', 'u', '"', '`'] := by
  unfold quoted? at found
  split at found
  · rename_i first
    simp [first]
  split at found
  · rename_i marked
    have member : c ∈ ['N', 'n', 'E', 'e', 'X', 'x', 'B', 'b'] := by
      simpa [isStringMark] using marked.1
    revert member
    simp only [List.mem_cons, List.not_mem_nil, or_false]
    tauto
  split at found
  · rename_i marked
    rcases marked.1 with rfl | rfl <;> decide
  split at found
  · rename_i first
    simp [first]
  split at found
  · rename_i first
    simp [first]
  · simp at found

theorem ReadFrom.start_visible {registry : Registry} {token : Token} {behind : List Char}
    (read : ReadFrom registry token behind) (solid : token.kind ≠ .blank) (c : Char)
    (head : token.text.toList.head? = some c) : Text.isBlank c = false := by
  obtain ⟨first, rest, lexeme, scans, kind, whole, -, -⟩ := read
  obtain rfl : first = c := by simpa [whole] using head
  rw [kind] at solid
  cases scans with
  | blank => exact absurd rfl solid
  | line first | block first | bracket first | dollar first | question first | bound first =>
    rw [first]
    decide
  | quoted lexeme found _ =>
    have leads : ['\'', 'N', 'n', 'E', 'e', 'X', 'x', 'B', 'b', 'U', 'u', '"', '`'].all
        (!Text.isBlank ·) = true := by decide
    simpa using List.all_eq_true.1 leads first (lead_of_quoted? first rest lexeme found)
  | special sign _ => rcases sign with rfl | rfl <;> decide
  | punctuation _ sign => rcases sign with same | same | same | same <;> rw [same.1] <;> decide
  | number unmarked | signed unmarked | word unmarked | operator unmarked =>
    exact isBlank_of_unmarked first rest unmarked

theorem marked?_of_quoted (c : Char) (rest : List Char) (lexeme : Lexeme)
    (found : quoted? c rest = some lexeme) : marked? c rest = some lexeme := by
  have plain : ['\'', 'N', 'n', 'E', 'e', 'X', 'x', 'B', 'b', 'U', 'u', '"', '`'].all
      (fun c => !Text.isBlank c && c ≠ '-' && c ≠ '/') = true := by decide
  have this := List.all_eq_true.1 plain c (lead_of_quoted? c rest lexeme found)
  simp only [Bool.and_eq_true, Bool.not_eq_true', decide_eq_true_eq] at this
  simp [marked?, this, found]

theorem marked?_special (c : Char) (rest : List Char) (sign : c = '@' ∨ c = '#') :
    marked? c rest = specialName? rest := by
  have blank : Text.isBlank c = false := by rcases sign with rfl | rfl <;> decide
  rcases sign with rfl | rfl <;> simp [marked?, blank, quoted?, isStringMark]

theorem marked?_name (c : Char) (name suffix : List Char) (sign : c = '@' ∨ c = '#')
    (filled : name ≠ []) (parts : ∀ d ∈ name, isSpecialNamePart d = true)
    (joint : JointAhead suffix) :
    marked? c (name ++ suffix) = some { kind := .identifier, more := name.length } := by
  have span := spanLength_front isSpecialNamePart name suffix parts
    (joint.outside isSpecialNamePart (by decide))
  rw [marked?_special c _ sign, specialName?, span]
  split
  · rename_i none
    exact absurd (List.length_eq_zero_iff.1 none) filled
  · rfl

theorem marked?_bracket (rest : List Char) : marked? '[' rest = some (bracketed rest) := by
  have blank : Text.isBlank '[' = false := by decide
  simp [marked?, blank, quoted?, isStringMark]

theorem marked?_dollar (rest : List Char) : marked? '$' rest = dollar? rest := by
  have blank : Text.isBlank '$' = false := by decide
  simp [marked?, blank, quoted?, isStringMark]

theorem marked?_question (rest : List Char) :
    marked? '?' rest = some { kind := .placeholder, more := 0 } := by
  have blank : Text.isBlank '?' = false := by decide
  simp [marked?, blank, quoted?, isStringMark]

theorem marked?_colon (rest : List Char) : marked? ':' rest = bound? rest := by
  have blank : Text.isBlank ':' = false := by decide
  simp [marked?, blank, quoted?, isStringMark]

theorem marked?_punctuation (c : Char) (kind : Kind) (rest : List Char)
    (sign : punctuation? c = some kind) : marked? c rest = some { kind, more := 0 } := by
  rcases punctuation?_eq_some c kind sign with same | same | same | same <;>
    obtain ⟨rfl, rfl⟩ := same <;>
    simp [marked?, quoted?, isStringMark, punctuation?, Text.isBlank, Text.blankRanges,
      Text.inRanges]

theorem bound?_take (rest suffix : List Char) (lexeme : Lexeme) (found : bound? rest = some lexeme)
    (joint : JointAhead suffix) : bound? (rest.take lexeme.more ++ suffix) = some lexeme := by
  unfold bound? at found
  split at found
  · rename_i starts
    obtain rfl := Option.some.inj found
    have all := belongs_of_mem_span Text.isWord rest
    have span := spanLength_front Text.isWord _ suffix all
      (joint.outside Text.isWord (by decide))
    cases rest with
    | nil => simp at starts
    | cons first others =>
      have isStart : Text.isWordStart first = true := by simpa using starts
      have isWord : Text.isWord first = true := by
        simp only [Text.isWordStart, Bool.and_eq_true] at isStart
        exact isStart.1
      have size : ((first :: others).take (spanLength Text.isWord (first :: others))).length =
          spanLength Text.isWord (first :: others) := by
        rw [take_spanLength]
        rfl
      rw [size] at span
      have head : (first :: others).take (spanLength Text.isWord (first :: others)) =
          first :: others.takeWhile Text.isWord := by
        rw [take_spanLength, List.takeWhile_cons_of_pos isWord]
      simp only [head, List.cons_append] at span ⊢
      rw [bound?, List.head?_cons, Option.any_some, if_pos isStart, span]
  · simp at found

/-- A token that its first characters decide is decided again. -/
theorem marked?_take (c : Char) (rest suffix : List Char) (lexeme : Lexeme)
    (found : marked? c rest = some lexeme) (visible : lexeme.kind ≠ .blank)
    (code : lexeme.kind ≠ .comment) (closes : lexeme.kind ≠ .operator)
    (closed : rest.drop lexeme.more = [] → suffix = [])
    (joint : lexeme.kind.isPunctuation = false → JointAhead suffix) :
    marked? c (rest.take lexeme.more ++ suffix) = some lexeme := by
  unfold marked? at found
  split at found
  · exact absurd (by rw [← Option.some.inj found]) visible
  rename_i notBlank
  split at found
  · exact absurd (by rw [← Option.some.inj found]; rfl) code
  rename_i notLine
  split at found
  · exact absurd (by rw [← Option.some.inj found]; exact kind_of_blockComment _) code
  rename_i notBlock
  rcases Option.or_eq_some_iff.1 found with quoted | ⟨unquoted, other⟩
  · refine marked?_of_quoted _ _ _ (quoted?_take c rest suffix lexeme quoted closed (joint ?_))
    rcases kind_of_quoted? c rest lexeme quoted with kind | kind <;> rw [kind] <;> rfl
  split at other
  · rename_i first
    obtain rfl := Option.some.inj other
    rw [first, marked?_bracket, bracketed_take rest suffix closes]
  split at other
  · rename_i first
    rw [first, marked?_dollar]
    refine dollar?_take rest suffix lexeme other closed (joint ?_)
    rcases kind_of_dollar? rest lexeme other with kind | kind <;> rw [kind] <;> rfl
  split at other
  · rename_i first
    obtain rfl := Option.some.inj other
    rw [first, marked?_question]
  split at other
  · rename_i first
    rw [first, marked?_colon]
    refine bound?_take rest suffix lexeme other (joint ?_)
    unfold bound? at other
    split at other
    · rw [← Option.some.inj other]
      rfl
    · simp at other
  split at other
  · rename_i sign
    unfold specialName? at other
    split at other
    · simp at other
    · rename_i some
      obtain rfl := Option.some.inj other
      have length := take_spanLength isSpecialNamePart rest
      rw [marked?_name c _ suffix sign ?_ (belongs_of_mem_span isSpecialNamePart rest) (joint rfl),
        length]
      · rfl
      · intro nothing
        rw [length] at nothing
        exact some (by rw [spanLength, nothing]; rfl)
  · obtain ⟨kind, sign, rfl⟩ := Option.map_eq_some_iff.1 other
    exact marked?_punctuation c kind _ sign

structure NumberEnds (suffix : List Char) : Prop where
  digit : ∀ c, suffix.head? = some c → Text.isDecimal c = false
  point : suffix.head? ≠ some '.'
  exponent : ∀ c, suffix.head? = some c → ¬(c = 'e' ∨ c = 'E')

theorem length_take_span (belongs : Char → Bool) (chars : List Char) :
    (chars.take (spanLength belongs chars)).length = spanLength belongs chars := by
  rw [take_spanLength]
  rfl

theorem mantissaLength?_digits (whole rest : List Char) (filled : whole ≠ [])
    (all : ∀ c ∈ whole, Text.isDecimal c = true) :
    (∀ c, rest.head? = some c → Text.isDecimal c = false) →
    mantissaLength? (whole ++ rest) =
      match rest with
      | '.' :: rest => some (whole.length + 1 + spanLength Text.isDecimal rest)
      | _ => some whole.length := by
  intro stops
  unfold mantissaLength?
  rw [spanLength_front Text.isDecimal whole rest all stops]
  split
  · rename_i none
    exact absurd (List.length_eq_zero_iff.1 none) filled
  · generalize dropped : (whole ++ rest).drop whole.length = tail
    obtain rfl : tail = rest := dropped.symm.trans List.drop_left
    rfl

theorem mantissaLength?_take (chars suffix : List Char) (length : Nat)
    (found : mantissaLength? chars = some length)
    (stops : ∀ c, suffix.head? = some c → Text.isDecimal c = false)
    (noPoint : suffix.head? ≠ some '.') :
    mantissaLength? (chars.take length ++ suffix) = some length := by
  have span (chars : List Char) :
      spanLength Text.isDecimal (chars.take (spanLength Text.isDecimal chars) ++ suffix) =
        spanLength Text.isDecimal chars := by
    rw [spanLength_front Text.isDecimal _ suffix (belongs_of_mem_span Text.isDecimal chars) stops,
      length_take_span]
  unfold mantissaLength? at found
  split at found
  · split at found
    · rename_i rest noDigit
      split at found
      · simp at found
      · rename_i some
        obtain rfl := Option.some.inj found
        have start : spanLength Text.isDecimal ('.' :: (rest.take (spanLength Text.isDecimal rest)
            ++ suffix)) = 0 := by
          have other : Text.isDecimal '.' = false := by decide
          simp [spanLength, other]
        rw [Nat.add_comm, List.take_succ_cons, List.cons_append, mantissaLength?, start]
        simp only [span]
        rw [Nat.add_comm]
    · simp at found
  · rename_i some
    have all := belongs_of_mem_span Text.isDecimal chars
    have filled : chars.take (spanLength Text.isDecimal chars) ≠ [] := by
      intro nothing
      have length := length_take_span Text.isDecimal chars
      rw [nothing] at length
      exact some length.symm
    split at found
    · rename_i rest point
      obtain rfl := Option.some.inj found
      rw [Nat.add_assoc, List.take_add, point, Nat.add_comm 1, List.take_succ_cons,
        List.append_assoc, List.cons_append, mantissaLength?_digits _ _ filled all]
      · simp only [span, length_take_span, Option.some.injEq]
        omega
      · intro c head
        obtain rfl : '.' = c := by simpa using head
        decide
    · obtain rfl := Option.some.inj found
      rw [mantissaLength?_digits _ _ filled all stops, length_take_span]
      split
      · rename_i rest
        exact absurd rfl noPoint
      · rfl

theorem exponentLength_signed (mark sign : Char) (rest : List Char)
    (isMark : mark = 'e' ∨ mark = 'E') (isSign : sign = '+' ∨ sign = '-')
    (some : spanLength Text.isDecimal rest ≠ 0) :
    exponentLength (mark :: sign :: rest) = spanLength Text.isDecimal rest + 2 := by
  have signed : (sign :: rest).head? = Option.some '+' ∨ (sign :: rest).head? = Option.some '-' := by
    simpa using isSign
  simp only [exponentLength, if_pos isMark, if_pos signed, List.drop_succ_cons, List.drop_zero]
  omega

theorem exponentLength_unsigned (mark : Char) (rest : List Char)
    (isMark : mark = 'e' ∨ mark = 'E')
    (unsigned : ¬(rest.head? = some '+' ∨ rest.head? = some '-'))
    (digits : spanLength Text.isDecimal rest ≠ 0) :
    exponentLength (mark :: rest) = spanLength Text.isDecimal rest + 1 := by
  simp only [exponentLength, if_pos isMark, if_neg unsigned, List.drop_zero]
  omega

theorem exponentLength_take (chars suffix : List Char) (ends : NumberEnds suffix) :
    exponentLength (chars.take (exponentLength chars) ++ suffix) = exponentLength chars := by
  by_cases nothing : exponentLength chars = 0
  · have none : exponentLength suffix = 0 := by
      cases suffix with
      | nil => rfl
      | cons c rest => rw [exponentLength, if_neg (ends.exponent c rfl)]
    rw [nothing, List.take_zero, List.nil_append, none]
  have span (chars : List Char) :
      spanLength Text.isDecimal (chars.take (spanLength Text.isDecimal chars) ++ suffix) =
        spanLength Text.isDecimal chars := by
    rw [spanLength_front Text.isDecimal _ suffix (belongs_of_mem_span Text.isDecimal chars)
      ends.digit, length_take_span]
  cases chars with
  | nil => exact absurd rfl nothing
  | cons mark rest =>
    by_cases isMark : mark = 'e' ∨ mark = 'E'
    · by_cases signed : rest.head? = some '+' ∨ rest.head? = some '-'
      · obtain ⟨sign, tail, rfl, isSign⟩ :
            ∃ sign tail, rest = sign :: tail ∧ (sign = '+' ∨ sign = '-') := by
          rcases signed with plus | minus
          · obtain ⟨tail, rfl⟩ := List.head?_eq_some_iff.1 plus
            exact ⟨'+', tail, rfl, .inl rfl⟩
          · obtain ⟨tail, rfl⟩ := List.head?_eq_some_iff.1 minus
            exact ⟨'-', tail, rfl, .inr rfl⟩
        have digits : spanLength Text.isDecimal tail ≠ 0 := by
          intro none
          rcases isSign with rfl | rfl <;> simp [exponentLength, isMark, none] at nothing
        rw [exponentLength_signed mark sign tail isMark isSign digits, List.take_succ_cons,
          List.take_succ_cons, List.cons_append, List.cons_append,
          exponentLength_signed mark sign _ isMark isSign (by rwa [span]), span]
      · have digits : spanLength Text.isDecimal rest ≠ 0 := by
          intro none
          simp [exponentLength, isMark, signed, none] at nothing
        have unsigned : ¬((rest.take (spanLength Text.isDecimal rest) ++ suffix).head? = some '+' ∨
            (rest.take (spanLength Text.isDecimal rest) ++ suffix).head? = some '-') := by
          cases rest with
          | nil => exact absurd rfl digits
          | cons first others =>
            have isDigit : Text.isDecimal first = true := by
              by_contra other
              exact digits (by simp [spanLength, other])
            rw [take_spanLength, List.takeWhile_cons_of_pos isDigit]
            exact signed
        rw [exponentLength_unsigned mark rest isMark signed digits, List.take_succ_cons,
          List.cons_append, exponentLength_unsigned mark _ isMark unsigned (by rwa [span]), span]
    · simp [exponentLength, isMark] at nothing

theorem numberLength?_take (chars suffix : List Char) (length : Nat)
    (found : numberLength? chars = some length) (ends : NumberEnds suffix) :
    numberLength? (chars.take length ++ suffix) = some length := by
  obtain ⟨mantissa, step, rfl⟩ := Option.map_eq_some_iff.1 found
  have head (exponent : List Char) (shape : IsExponent exponent) (c : Char)
      (first : (exponent ++ suffix).head? = some c) : Text.isDecimal c = false ∧ c ≠ '.' := by
    have mark (isMark : c = 'e' ∨ c = 'E') : Text.isDecimal c = false ∧ c ≠ '.' := by
      rcases isMark with rfl | rfl <;> decide
    cases shape with
    | none => exact ⟨ends.digit c first, by rintro rfl; exact ends.point first⟩
    | digits isMark _ => exact mark (Option.some.inj first ▸ isMark)
    | signed isMark _ _ => exact mark (Option.some.inj first ▸ isMark)
  have exponent := head _ (isExponent_take (chars.drop mantissa))
  have bound := mantissaLength?_le chars mantissa step
  have again : mantissaLength? (chars.take mantissa ++
      ((chars.drop mantissa).take (exponentLength (chars.drop mantissa)) ++ suffix)) =
        some mantissa := by
    exact mantissaLength?_take chars _ mantissa step (fun c first => (exponent c first).1)
      fun first => (exponent '.' first).2 rfl
  have size : (chars.take mantissa).length = mantissa := by
    rw [List.length_take]
    omega
  rw [List.take_add, List.append_assoc, numberLength?, again, Option.map_some,
    List.drop_left' size, exponentLength_take _ suffix ends]

/-- What may stand behind an operator that is not glued to anything. -/
def partingChars : List Char :=
  [' ', '\n', '(', ')', ',', ';']

def Parted (suffix : List Char) : Prop :=
  ∀ c, suffix.head? = some c → c ∈ partingChars

theorem Parted.outside {suffix : List Char} (parted : Parted suffix) (belongs : Char → Bool)
    (apart : partingChars.all (!belongs ·) = true) (c : Char) (head : suffix.head? = some c) :
    belongs c = false := by
  simpa using List.all_eq_true.1 apart c (parted c head)

theorem isPrefixOf_append (operator text suffix : List Char) (filled : text ≠ [])
    (apart : ∀ c, suffix.head? = some c → c ∉ operator.tail) :
    operator.isPrefixOf (text ++ suffix) = operator.isPrefixOf text := by
  rw [Bool.eq_iff_iff, List.isPrefixOf_iff_prefix, List.isPrefixOf_iff_prefix]
  refine ⟨fun whole => ?_, fun front => front.trans (List.prefix_append text suffix)⟩
  rcases List.prefix_or_prefix_of_prefix whole (List.prefix_append text suffix) with
    front | ⟨tail, rfl⟩
  · exact front
  · rw [List.prefix_append_right_inj] at whole
    cases tail with
    | nil => simp
    | cons c others =>
      obtain ⟨first, rest, rfl⟩ := List.exists_cons_of_ne_nil filled
      obtain ⟨more, rfl⟩ := whole
      exact absurd (by simp) (apart c rfl)

theorem operatorLexeme_take (c : Char) (rest suffix : List Char) (parted : Parted suffix) :
    operatorLexeme c (rest.take (operatorLexeme c rest).more ++ suffix) =
      operatorLexeme c rest := by
  have apart (operator : List Char) (member : operator ∈ longOperators) (d : Char)
      (head : suffix.head? = some d) : d ∉ operator.tail := by
    have none : longOperators.all (fun operator =>
        operator.tail.all fun d => !partingChars.contains d) = true := by decide
    intro inside
    have here := List.all_eq_true.1 (List.all_eq_true.1 none operator member) d inside
    simp [parted d head] at here
  have found (text : List Char) (filled : text ≠ []) :
      longOperators.find? (·.isPrefixOf (text ++ suffix)) =
        longOperators.find? (·.isPrefixOf text) :=
    List.find?_congr fun operator member =>
      isPrefixOf_append operator text suffix filled (apart operator member)
  have own : longOperators.all (fun operator =>
      longOperators.find? (·.isPrefixOf operator) = some operator) = true := by decide
  have long : longOperators.all (fun operator => 1 < operator.length) = true := by decide
  cases here : longOperators.find? (·.isPrefixOf (c :: rest)) with
  | none =>
    have same : operatorLexeme c rest = { kind := .operator, more := 0 } := by
      rw [operatorLexeme, here]
    have alone : longOperators.find? (·.isPrefixOf [c]) = none := by
      rw [List.find?_eq_none]
      intro operator member front
      have bound := (List.isPrefixOf_iff_prefix.1 front).length_le
      have more := List.all_eq_true.1 long operator member
      simp only [decide_eq_true_eq, List.length_singleton] at more bound
      omega
    rw [same, List.take_zero, List.nil_append, operatorLexeme]
    rw [← List.singleton_append, found [c] (by simp), alone]
  | some operator =>
    have member := List.mem_of_find?_eq_some here
    have front : operator.isPrefixOf (c :: rest) = true := by simpa using List.find?_some here
    obtain ⟨first, others, rfl, -⟩ := Clear.head_of_longOperators operator member
    obtain ⟨behind, whole⟩ := List.isPrefixOf_iff_prefix.1 front
    simp only [List.cons_append, List.cons.injEq] at whole
    obtain ⟨rfl, rfl⟩ := whole
    have same : operatorLexeme first (others ++ behind) =
        { kind := .operator, more := others.length } := by
      rw [operatorLexeme, here]
      rfl
    have again := List.all_eq_true.1 own _ member
    rw [same, List.take_left, operatorLexeme, ← List.cons_append, found _ (by simp)]
    rw [decide_eq_true_eq] at again
    rw [again]
    rfl

end SqlLayout.Token

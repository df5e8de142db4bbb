import SqlLayout.Proofs.Spellings

/-! How quoted runs, brackets and what a dollar sign starts are read again. They are passed
as a whole, because they end where they ended before; only a bracket that had no partner
may find one in what stands behind it now. -/
namespace SqlLayout.Token

open Keyword Layout

theorem closeQuote_take (quote : Char) (chars suffix : List Char) (length : Nat)
    (found : closeQuote quote chars = some length) (apart : suffix.head? ≠ some quote) :
    closeQuote quote (chars.take length ++ suffix) = some length := by
  have single : closeQuote quote (quote :: suffix) = some 1 := by
    cases suffix with
    | nil => simp [closeQuote]
    | cons next rest =>
      have other : next ≠ quote := by simpa using apart
      simp [closeQuote, other]
  fun_induction closeQuote quote chars generalizing length with
  | case1 => simp at found
  | case2 =>
    obtain rfl := Option.some.inj found
    exact single
  | case3 => simp at found
  | case4 rest ih =>
    obtain ⟨inner, step, rfl⟩ := Option.map_eq_some_iff.1 found
    rw [List.take_succ_cons, List.take_succ_cons, List.cons_append, List.cons_append, closeQuote,
      if_pos rfl, if_pos rfl, ih inner step]
    rfl
  | case5 next rest other =>
    obtain rfl := Option.some.inj found
    exact single
  | case6 c next rest differs ih =>
    obtain ⟨inner, step, rfl⟩ := Option.map_eq_some_iff.1 found
    have onward := ih inner step
    rw [List.take_succ_cons, List.cons_append]
    cases behind : (next :: rest).take inner ++ suffix with
    | nil => simp [behind, closeQuote] at onward
    | cons d others =>
      rw [behind] at onward
      rw [closeQuote, if_neg differs, onward]
      rfl

namespace Clear

variable {ends : List Char → Prop} {suffix : List Char}

theorem of_quoted (c : Char) (rest : List Char) (lexeme : Lexeme)
    (found : quoted? c rest = some lexeme) (clear : Clear ends false suffix)
    (closed : rest.drop lexeme.more = [] → suffix = []) (joint : JointAhead suffix)
    (tight : Bool) : Clear ends tight (c :: rest.take lexeme.more ++ suffix) := by
  obtain ⟨lead, quote, body, kind, whole, letters, isQuote, -, rfl⟩ :=
    quoted?_eq_some c rest lexeme found
  have text (more : Nat) : c :: rest.take (lead.length + more) = lead ++ quote :: body.take more := by
    rw [← List.take_succ_cons, whole, Nat.add_assoc, List.take_add, List.take_left, List.drop_left,
      List.take_succ_cons]
  have behind (more : Nat) : rest.drop (lead.length + more) = body.drop more := by
    rw [← List.drop_succ_cons (a := c), whole, Nat.add_assoc, ← List.drop_drop, List.drop_left,
      List.drop_succ_cons]
  rw [more_of_quotedRun, behind] at closed
  rw [more_of_quotedRun, text, List.append_assoc, List.cons_append]
  refine of_inert lead ?_ (fun tight => .quote isQuote ?_) tight
  · intro letter member
    exact isInert_of_class isQuoteLead (by decide) letter (letters letter member)
  · cases ended : closeQuote quote body with
    | none =>
      have more : (quotedRun .stringLiteral quote 0 body).more = body.length := by
        simp [quotedRun, ended]
      rw [more, List.drop_length] at closed
      have nothing := closed rfl
      subst nothing
      rw [more, List.take_length, List.append_nil, more, List.drop_length]
      exact clear
    | some length =>
      have apart : suffix.head? ≠ some quote := by
        refine joint.head_ne quote ?_
        rcases isQuote with rfl | rfl | rfl <;> decide
      have bound := closeQuote_le quote body length ended
      have more : (quotedRun .stringLiteral quote 0 body).more = length := by
        simp [quotedRun, ended]
      have again : (quotedRun .stringLiteral quote 0 (body.take length ++ suffix)).more =
          length := by
        simp [quotedRun, closeQuote_take quote body suffix length ended apart]
      have size : (body.take length).length = length := by
        rw [List.length_take]
        omega
      rw [more, again, List.drop_left' size]
      exact clear

end Clear

theorem spanLength_front (belongs : Char → Bool) (front suffix : List Char)
    (all : ∀ c ∈ front, belongs c = true)
    (stops : ∀ c, suffix.head? = some c → belongs c = false) :
    spanLength belongs (front ++ suffix) = front.length := by
  have nothing : suffix.takeWhile belongs = [] := by
    cases suffix with
    | nil => rfl
    | cons c rest => exact List.takeWhile_cons_of_neg (by simp [stops c rfl])
  rw [spanLength, List.takeWhile_append_of_pos all, nothing, List.append_nil]

theorem exists_closed (close : Char) (chars : List Char)
    (closed : spanLength (· ≠ close) chars < chars.length) :
    ∃ name rest, chars = name ++ close :: rest ∧ (∀ c ∈ name, c ≠ close) ∧
      spanLength (· ≠ close) chars = name.length := by
  have split := List.takeWhile_append_dropWhile (p := (· ≠ close)) (l := chars)
  cases left : chars.dropWhile (· ≠ close) with
  | nil =>
    rw [left, List.append_nil] at split
    rw [spanLength, split] at closed
    omega
  | cons c rest =>
    have head := List.head?_dropWhile_not (· ≠ close) chars
    rw [left] at head
    have isClose : c = close := by simpa using head
    rw [left, isClose] at split
    refine ⟨_, rest, split.symm, ?_, rfl⟩
    intro d member
    simpa using List.all_eq_true.1 List.all_takeWhile d member

theorem spanLength_closed (close : Char) (name rest : List Char) (inside : ∀ c ∈ name, c ≠ close) :
    spanLength (· ≠ close) (name ++ close :: rest) = name.length := by
  refine spanLength_front _ name (close :: rest) ?_ ?_
  · intro c member
    simpa using inside c member
  · intro c head
    simpa using (Option.some.inj head).symm

namespace LandsBehind

variable {ends : List Char → Prop} {rest : List Char}

theorem of_closing (front : List Char) (inside : ∀ c ∈ front, c ≠ ']')
    (clear : Clear ends false rest) : LandsBehind ends (front ++ ']' :: rest) := by
  intro _
  rw [spanLength_closed ']' front rest inside, ← List.drop_drop, List.drop_left]
  exact clear

theorem of_other (front : List Char) (inside : ∀ c ∈ front, c ≠ ']')
    (lands : LandsBehind ends rest) : LandsBehind ends (front ++ rest) := by
  have all : ∀ c ∈ front, decide (c ≠ ']') = true := by simpa using inside
  have span : spanLength (· ≠ ']') (front ++ rest) =
      front.length + spanLength (· ≠ ']') rest := by
    rw [spanLength, List.takeWhile_append_of_pos all, List.length_append]
    rfl
  intro further
  rw [span, List.length_append, Nat.add_lt_add_iff_left] at further
  rw [span, Nat.add_assoc, ← List.drop_drop, List.drop_left]
  exact lands further

end LandsBehind

namespace Clear

variable {ends : List Char → Prop} {suffix : List Char}

/-- A name in brackets is passed as a whole, and a bracket alone up to its partner at most. -/
theorem of_bracket (rest : List Char) (clear : Clear ends false suffix)
    (lands : (bracketed rest).more = 0 → LandsBehind ends suffix) (tight : Bool) :
    Clear ends tight ('[' :: rest.take (bracketed rest).more ++ suffix) := by
  rw [List.cons_append]
  refine .bracket ?_
  by_cases named : spanLength (· ≠ ']') rest < rest.length ∧ 0 < spanLength (· ≠ ']') rest ∧
      !(rest.take (spanLength (· ≠ ']') rest)).contains '\n' ∧
      !(rest.take (spanLength (· ≠ ']') rest)).contains '['
  · obtain ⟨name, tail, whole, inside, length⟩ := exists_closed ']' rest named.1
    have more : (bracketed rest).more = name.length + 1 := by
      rw [bracketed, if_pos named, length]
    have text : rest.take (name.length + 1) ++ suffix = name ++ ']' :: suffix := by
      rw [whole, List.take_append, List.take_of_length_le (by omega)]
      simp
    have again : (bracketed (name ++ ']' :: suffix)).more = name.length + 1 := by
      have same : (name ++ ']' :: suffix).take name.length = rest.take name.length := by
        rw [whole, List.take_left, List.take_left]
      rw [bracketed, spanLength_closed ']' name suffix inside, if_pos]
      rw [same, ← length]
      refine ⟨?_, named.2⟩
      rw [length]
      simp
    rw [more, text, again, ← List.drop_drop, List.drop_left]
    exact clear
  · have alone : (bracketed rest).more = 0 := by
      rw [bracketed, if_neg named]
    rw [alone, List.take_zero, List.nil_append]
    have landing := lands alone
    unfold bracketed
    simp only
    split
    · rename_i closed
      exact landing closed.1
    · exact clear

end Clear

theorem findSequence_take (wanted chars suffix : List Char) (place : Nat)
    (filled : wanted ≠ []) (found : Text.findSequence wanted chars = some place) :
    Text.findSequence wanted (chars.take (place + wanted.length) ++ suffix) = some place := by
  induction chars generalizing place with
  | nil =>
    simp only [Text.findSequence] at found
    split at found
    · rename_i empty
      exact absurd (List.isEmpty_iff.1 empty) filled
    · simp at found
  | cons c rest ih =>
    simp only [Text.findSequence] at found
    split at found
    · rename_i here
      obtain rfl := Option.some.inj found
      obtain ⟨tail, whole⟩ := List.isPrefixOf_iff_prefix.1 here
      have start : (c :: rest).take (0 + wanted.length) = wanted := by
        rw [← whole, Nat.zero_add, List.take_left]
      rw [start]
      obtain ⟨first, others, rfl⟩ := List.exists_cons_of_ne_nil filled
      rw [List.cons_append, Text.findSequence, if_pos]
      exact List.isPrefixOf_iff_prefix.2 ⟨suffix, rfl⟩
    · rename_i notHere
      obtain ⟨before, step, rfl⟩ := Option.map_eq_some_iff.1 found
      have onward := ih before step
      rw [show before + 1 + wanted.length = before + wanted.length + 1 by omega,
        List.take_succ_cons, List.cons_append, Text.findSequence, if_neg, onward]
      · rfl
      · -- An occurrence here would lie within what is kept.
        intro here
        refine notHere (List.isPrefixOf_iff_prefix.2 ?_)
        have occurs := List.isPrefixOf_iff_prefix.1 here
        have bound := findSequence_le wanted rest before filled step
        have kept : (c :: (rest.take (before + wanted.length) ++ suffix)).take wanted.length =
            (c :: rest).take wanted.length := by
          obtain ⟨first, others, rfl⟩ := List.exists_cons_of_ne_nil filled
          simp only [List.length_cons, List.take_succ_cons] at bound ⊢
          rw [List.take_append_of_le_length (by rw [List.length_take]; omega), List.take_take]
          congr 2
          omega
        have same := List.prefix_iff_eq_take.1 occurs
        rw [kept] at same
        exact List.prefix_iff_eq_take.2 same

theorem dollar?_of_other (first : Char) (rest : List Char) (square : first ≠ '[')
    (curly : first ≠ '{') :
    dollar? (first :: rest) =
      match spanLength Text.isDecimal (first :: rest) with
      | 0 => tagged? (first :: rest)
      | digits => some { kind := .placeholder, more := digits } := by
  unfold dollar?
  split
  · rename_i body same
    simp only [List.cons.injEq] at same
    exact absurd same.1 square
  · rename_i body same
    simp only [List.cons.injEq] at same
    exact absurd same.1 curly
  · rfl

structure IsTag (name : List Char) : Prop where
  word : ∀ c ∈ name, Text.isWord c = true
  start : ∀ c, name.head? = some c → Text.isWordStart c = true

theorem tagged?_of_tag (name content : List Char) (tag : IsTag name) :
    tagged? (name ++ '$' :: content) =
      match Text.findSequence ('$' :: (name ++ ['$'])) content with
      | some distance =>
        some { kind := .stringLiteral, more := name.length + 1 + distance + (name.length + 2) }
      | none => some { kind := .stringLiteral, more := (name ++ '$' :: content).length } := by
  have length : (if (name ++ '$' :: content).head?.any Text.isWordStart then
      spanLength Text.isWord (name ++ '$' :: content) else 0) = name.length := by
    cases name with
    | nil => rfl
    | cons c others =>
      rw [if_pos]
      · refine spanLength_front Text.isWord (c :: others) _ tag.word ?_
        intro d head
        rw [← Option.some.inj head]
        decide
      · simpa using tag.start c rfl
  have text : (name ++ '$' :: content).take (name.length + 1) = name ++ ['$'] := by
    rw [List.take_append, List.take_of_length_le (by omega)]
    simp
  have behind : (name ++ '$' :: content).drop (name.length + 1) = content := by
    rw [← List.drop_drop, List.drop_left]
    rfl
  unfold tagged?
  simp only [length]
  rw [if_pos (by rw [List.drop_left]; rfl), text, behind]
  cases Text.findSequence ('$' :: (name ++ ['$'])) content with
  | none => rfl
  | some distance => simp

theorem exists_tag (rest : List Char) (lexeme : Lexeme) (found : tagged? rest = some lexeme) :
    ∃ name content, rest = name ++ '$' :: content ∧ IsTag name := by
  unfold tagged? at found
  simp only at found
  split at found
  · rename_i starts
    split at found
    · rename_i isDollar
      rw [drop_spanLength] at isDollar
      obtain ⟨content, left⟩ := List.head?_eq_some_iff.1 isDollar
      refine ⟨rest.takeWhile Text.isWord, content, ?_, ?_, ?_⟩
      · rw [← left, List.takeWhile_append_dropWhile]
      · exact List.all_eq_true.1 List.all_takeWhile
      · intro c head
        cases rest with
        | nil => simp at head
        | cons first others =>
          have isStart : Text.isWordStart first = true := by simpa using starts
          have isWord : Text.isWord first = true := by
            simp only [Text.isWordStart, Bool.and_eq_true] at isStart
            exact isStart.1
          rw [List.takeWhile_cons_of_pos isWord, List.head?_cons] at head
          rw [← Option.some.inj head]
          exact isStart
    · simp at found
  · split at found
    · rename_i isDollar
      obtain ⟨content, left⟩ := List.head?_eq_some_iff.1 isDollar
      exact ⟨[], content, left, by simp, by simp⟩
    · simp at found

theorem tagged?_take (rest suffix : List Char) (lexeme : Lexeme)
    (found : tagged? rest = some lexeme) (closed : rest.drop lexeme.more = [] → suffix = []) :
    tagged? (rest.take lexeme.more ++ suffix) = some lexeme ∧
      (rest.take lexeme.more ++ suffix).drop lexeme.more = suffix ∧
      (rest.take lexeme.more ++ suffix).head? = rest.head? := by
  obtain ⟨name, content, rfl, tag⟩ := exists_tag rest lexeme found
  rw [tagged?_of_tag name content tag] at found
  cases ended : Text.findSequence ('$' :: (name ++ ['$'])) content with
  | none =>
    simp only [ended] at found
    obtain rfl := Option.some.inj found
    simp only [List.drop_length, true_implies] at closed
    subst closed
    simp only [List.take_length, List.append_nil]
    refine ⟨by rw [tagged?_of_tag name content tag, ended], ?_, trivial⟩
    simp
  | some distance =>
    simp only [ended] at found
    obtain rfl := Option.some.inj found
    have size : ('$' :: (name ++ ['$'])).length = name.length + 2 := by simp
    have bound := findSequence_le _ content distance (by simp) ended
    have again := findSequence_take _ content suffix distance (by simp) ended
    rw [size] at bound again
    have text : (name ++ '$' :: content).take (name.length + 1 + distance + (name.length + 2)) ++
        suffix = name ++ '$' :: (content.take (distance + (name.length + 2)) ++ suffix) := by
      rw [show name.length + 1 + distance + (name.length + 2) =
        name.length + (distance + (name.length + 2) + 1) by omega, List.take_add, List.take_left,
        List.drop_left, List.take_succ_cons, List.append_assoc, List.cons_append]
    simp only [text]
    refine ⟨by rw [tagged?_of_tag name _ tag, again], ?_, by cases name <;> rfl⟩
    rw [show name.length + 1 + distance + (name.length + 2) =
      name.length + (distance + (name.length + 2) + 1) by omega, ← List.drop_drop, List.drop_left,
      List.drop_succ_cons]
    exact List.drop_left' (by rw [List.length_take]; omega)

namespace Clear

variable {ends : List Char → Prop} {suffix : List Char}

theorem of_enclosed (opening close : Char) (body : List Char) (lexeme : Lexeme)
    (same : ∀ chars, dollar? (opening :: chars) = enclosedPlaceholder? close chars)
    (found : enclosedPlaceholder? close body = some lexeme) (clear : Clear ends false suffix) :
    Clear ends false ('$' :: (opening :: body).take lexeme.more ++ suffix) := by
  unfold enclosedPlaceholder? at found
  simp only at found
  split at found
  · rename_i fits
    obtain rfl := Option.some.inj found
    obtain ⟨name, tail, rfl, inside, length⟩ := exists_closed close body fits.1
    rw [length] at fits ⊢
    have text : (opening :: (name ++ close :: tail)).take (name.length + 2) ++ suffix =
        opening :: (name ++ close :: suffix) := by
      rw [List.take_succ_cons, List.take_append, List.take_of_length_le (by omega)]
      simp
    rw [List.cons_append, text]
    have again : dollar? (opening :: (name ++ close :: suffix)) =
        some { kind := .placeholder, more := name.length + 2 } := by
      rw [same, enclosedPlaceholder?]
      simp only [spanLength_closed close name suffix inside]
      rw [List.take_left, if_pos]
      refine ⟨by simp, ?_⟩
      rw [List.take_left] at fits
      exact fits.2
    refine .literal _ again ?_
    simp only [List.drop_succ_cons]
    rw [← List.drop_drop, List.drop_left]
    exact clear
  · simp at found

/-- A string between tags. The first character decides what the dollar sign starts, and it
is still there. -/
theorem of_tagged (first : Char) (others : List Char) (lexeme : Lexeme) (square : first ≠ '[')
    (curly : first ≠ '{') (noDigit : spanLength Text.isDecimal (first :: others) = 0)
    (found : tagged? (first :: others) = some lexeme) (clear : Clear ends false suffix)
    (closed : (first :: others).drop lexeme.more = [] → suffix = []) :
    Clear ends false ('$' :: (first :: others).take lexeme.more ++ suffix) := by
  obtain ⟨same, behind, head⟩ := tagged?_take (first :: others) suffix lexeme found closed
  obtain ⟨tail, start⟩ := List.head?_eq_some_iff.1 head
  rw [List.cons_append, start]
  rw [start] at same behind
  have stillNone : spanLength Text.isDecimal (first :: tail) = 0 := by
    by_cases isDigit : Text.isDecimal first = true
    · simp [spanLength, isDigit] at noDigit
    · simp [spanLength, isDigit]
  refine .literal lexeme ?_ (by rw [behind]; exact clear)
  rw [dollar?_of_other first tail square curly, stillNone]
  exact same

theorem of_numbered (digits : List Char) (some : digits ≠ [])
    (all : ∀ c ∈ digits, Text.isDecimal c = true) (clear : Clear ends false suffix)
    (joint : JointAhead suffix) : Clear ends false ('$' :: digits ++ suffix) := by
  have span : spanLength Text.isDecimal (digits ++ suffix) = digits.length :=
    spanLength_front Text.isDecimal digits suffix all (joint.outside Text.isDecimal (by decide))
  obtain ⟨first, others, rfl⟩ := List.exists_cons_of_ne_nil some
  have again : dollar? (first :: (others ++ suffix)) =
      Option.some { kind := .placeholder, more := (first :: others).length } := by
    rw [dollar?_of_other first _ ?_ ?_, ← List.cons_append, span]
    · rfl
    · rintro rfl
      exact absurd (all '[' (by simp)) (by decide)
    · rintro rfl
      exact absurd (all '{' (by simp)) (by decide)
  have next : Clear ends false ((first :: (others ++ suffix)).drop (first :: others).length) := by
    rw [← List.cons_append, List.drop_left]
    exact clear
  exact .literal { kind := .placeholder, more := (first :: others).length } again next

theorem of_dollar (rest : List Char) (lexeme : Lexeme) (found : dollar? rest = some lexeme)
    (clear : Clear ends false suffix) (closed : rest.drop lexeme.more = [] → suffix = [])
    (joint : JointAhead suffix) :
    Clear ends false ('$' :: rest.take lexeme.more ++ suffix) := by
  unfold dollar? at found
  split at found
  · rename_i body
    exact of_enclosed '[' ']' body lexeme (fun _ => rfl) found clear
  · rename_i body
    exact of_enclosed '{' '}' body lexeme (fun _ => rfl) found clear
  · rename_i square curly
    split at found
    · rename_i noDigit
      cases rest with
      | nil => simp [tagged?] at found
      | cons first others =>
        exact of_tagged first others lexeme (by rintro rfl; exact square others rfl)
          (by rintro rfl; exact curly others rfl) noDigit found clear closed
    · rename_i digits
      obtain rfl := Option.some.inj found
      refine of_numbered _ ?_ (belongs_of_mem_span Text.isDecimal rest) clear joint
      intro nothing
      rw [take_spanLength] at nothing
      exact digits (by rw [spanLength, nothing]; rfl)

end Clear

end SqlLayout.Token

import SqlLayout.Proofs.Scanning

/-! Where quoted runs end. Between its two quotes a run has other characters and quotes in pairs,
and the quote that ends it is followed by no further one. So there is one end at most, wherever the
pairs stand; a run without an end takes the rest of the text. -/
namespace SqlLayout.Token

open Keyword

/-- Other characters than the quote, and quotes in pairs. -/
inductive Escaped (quote : Char) : List Char → Prop
  | nil : Escaped quote []
  | other {c : Char} {rest : List Char} (differs : c ≠ quote) (behind : Escaped quote rest) :
      Escaped quote (c :: rest)
  | pair {rest : List Char} (behind : Escaped quote rest) : Escaped quote (quote :: quote :: rest)

/-- A run that a quote opens at a place may stop before another place: right before that stands the
second quote of the run, with no further one behind it, and between the two all is escaped. -/
structure StopsAt (source : List Char) (place : Nat) (quote : Char) (stop : Nat) : Prop where
  later : place + 1 < stop
  escaped : Escaped quote ((source.take (stop - 1)).drop (place + 1))
  closes : source[stop - 1]? = some quote
  alone : source[stop]? ≠ some quote

section

variable {quote : Char}

theorem closeQuote_of_escaped {content : List Char} (escaped : Escaped quote content)
    (behind : List Char) (alone : behind.head? ≠ some quote) :
    closeQuote quote (content ++ quote :: behind) = some (content.length + 1) := by
  induction escaped with
  | nil =>
    cases behind with
    | nil => simp [closeQuote]
    | cons next rest => simpa [closeQuote] using alone
  | @other c rest differs _ ih =>
    cases rest with
    | nil => simpa [closeQuote, differs] using ih
    | cons next rest => simpa [closeQuote, differs] using ih
  | pair _ ih => simp [closeQuote, ih]

theorem exists_of_closeQuote (chars : List Char) (length : Nat)
    (found : closeQuote quote chars = some length) :
    ∃ content behind, chars = content ++ quote :: behind ∧ Escaped quote content ∧
      behind.head? ≠ some quote ∧ length = content.length + 1 := by
  fun_induction closeQuote quote chars generalizing length with
  | case1 => cases found
  | case2 =>
    obtain rfl := Option.some.inj found
    exact ⟨[], [], rfl, .nil, by simp, rfl⟩
  | case3 => cases found
  | case4 rest ih =>
    obtain ⟨inner, step, rfl⟩ := Option.map_eq_some_iff.1 found
    obtain ⟨content, behind, rfl, escaped, alone, rfl⟩ := ih inner step
    exact ⟨quote :: quote :: content, behind, rfl, escaped.pair, alone, rfl⟩
  | case5 next rest differs =>
    obtain rfl := Option.some.inj found
    exact ⟨[], next :: rest, rfl, .nil, by simpa using differs, rfl⟩
  | case6 c next rest differs ih =>
    obtain ⟨inner, step, rfl⟩ := Option.map_eq_some_iff.1 found
    obtain ⟨content, behind, same, escaped, alone, rfl⟩ := ih inner step
    exact ⟨c :: content, behind, by rw [same, List.cons_append], escaped.other differs, alone, rfl⟩

theorem stopsAt_iff_exists (source : List Char) (place stop : Nat) :
    StopsAt source place quote stop ↔
      ∃ content behind, source.drop (place + 1) = content ++ quote :: behind ∧
        Escaped quote content ∧ behind.head? ≠ some quote ∧
        stop = place + 1 + (content.length + 1) := by
  constructor
  · rintro ⟨later, escaped, closes, alone⟩
    obtain ⟨last, rfl⟩ : ∃ last, stop = last + 1 := ⟨stop - 1, by omega⟩
    rw [Nat.add_sub_cancel] at escaped closes
    obtain ⟨inside, same⟩ := List.getElem?_eq_some_iff.1 closes
    have whole : source = source.take last ++ quote :: source.drop (last + 1) := by
      rw [← same, ← List.drop_eq_getElem_cons inside, List.take_append_drop]
    have long : (source.take last).length = last := List.length_take_of_le (Nat.le_of_lt inside)
    refine ⟨_, source.drop (last + 1), ?_, escaped, by rwa [List.head?_drop], ?_⟩
    · conv_lhs => rw [whole]
      exact List.drop_append_of_le_length (by omega)
    · rw [List.length_drop, long]
      omega
  · rintro ⟨content, behind, same, escaped, alone, rfl⟩
    have partner : source.drop (place + 1 + content.length) = quote :: behind := by
      rw [← List.drop_drop, same, List.drop_left]
    rw [← Nat.add_assoc]
    refine ⟨by omega, ?_, ?_, ?_⟩
    · rwa [Nat.add_sub_cancel, List.drop_take, Nat.add_sub_cancel_left, same, List.take_left]
    · rw [Nat.add_sub_cancel, ← List.head?_drop, partner, List.head?_cons]
    · rwa [← List.head?_drop, ← List.drop_drop, partner, List.drop_one, List.tail_cons]

theorem stopsAt_iff (source : List Char) (place stop : Nat) :
    StopsAt source place quote stop ↔
      ∃ length, closeQuote quote (source.drop (place + 1)) = some length ∧
        stop = place + 1 + length := by
  rw [stopsAt_iff_exists]
  constructor
  · rintro ⟨content, behind, same, escaped, alone, rfl⟩
    exact ⟨_, by rw [same, closeQuote_of_escaped escaped behind alone], rfl⟩
  · rintro ⟨length, found, rfl⟩
    obtain ⟨content, behind, same, escaped, alone, rfl⟩ := exists_of_closeQuote _ length found
    exact ⟨content, behind, same, escaped, alone, rfl⟩

theorem quotedRun_cases (kind : Kind) (offset : Nat) (rest : List Char) :
    (∃ length, closeQuote quote rest = some length ∧
      quotedRun kind quote offset rest = { kind, more := offset + length }) ∨
    (closeQuote quote rest = none ∧ quotedRun kind quote offset rest =
      { kind, more := offset + rest.length, openQuote := some (quote, offset) }) := by
  unfold quotedRun
  cases found : closeQuote quote rest with
  | none => exact .inr ⟨rfl, rfl⟩
  | some length => exact .inl ⟨length, rfl, rfl⟩

theorem more_quotedRun (kind : Kind) (offset : Nat) (rest : List Char) :
    (quotedRun kind quote offset rest).more =
      offset + (closeQuote quote rest).getD rest.length := by
  rcases quotedRun_cases kind offset rest with ⟨length, found, read⟩ | ⟨missing, read⟩
  · rw [read, found, Option.getD_some]
  · rw [read, missing, Option.getD_none]

theorem scan?_quote (registry : Registry) (last : Option Token) (rest : List Char)
    (isQuote : quote ∈ ['\'', '"', '`']) :
    scan? registry last quote rest = some (quotedRun
      (if quote = '\'' then .stringLiteral else .quotedIdentifier) quote 0 rest) := by
  simp only [List.mem_cons, List.not_mem_nil, or_false] at isQuote
  rcases isQuote with rfl | rfl | rfl <;> rfl

end

/-- Wherever a quote opens a run, with any number of letters in front, either there is exactly one
place where the run may stop, and it stops there, or there is none, and it takes what is left of
the text and says that the quote is open. -/
theorem quoted_runs_stop (registry : Registry) (last : Option Token) (kind : Kind)
    (source : List Char) (start offset : Nat) (quote : Char)
    (isQuote : quote ∈ ['\'', '"', '`']) (opens : source[start + offset]? = some quote) :
    let rest := source.drop (start + offset + 1)
    let run := quotedRun kind quote offset rest
    let stop := start + 1 + run.more
    ((run.openQuote = none ∧ ∀ other, StopsAt source (start + offset) quote other ↔ other = stop) ∨
      (run.openQuote = some (quote, offset) ∧ stop = source.length ∧
        ∀ other, ¬StopsAt source (start + offset) quote other)) ∧
    ∃ alone, scan? registry last quote rest = some alone ∧
      start + offset + 1 + alone.more = stop := by
  intro rest run stop
  have inside := (List.getElem?_eq_some_iff.1 opens).1
  have reaches : stop = start + offset + 1 + (closeQuote quote rest).getD rest.length := by
    simp only [stop, run, more_quotedRun]
    omega
  refine ⟨?_, _, scan?_quote registry last rest isQuote, ?_⟩
  · rcases quotedRun_cases kind offset rest with ⟨length, found, read⟩ | ⟨missing, read⟩
    · refine .inl ⟨congrArg Lexeme.openQuote read, fun other => ?_⟩
      rw [stopsAt_iff, reaches, found]
      simp
    · refine .inr ⟨congrArg Lexeme.openQuote read, ?_, fun other => ?_⟩
      · rw [reaches, missing, Option.getD_none, List.length_drop]
        omega
      · rw [stopsAt_iff, missing]
        simp
  · rw [reaches, more_quotedRun, Nat.zero_add]

theorem quoted_runs_stop_pairs :
    '\'' ∈ ['\'', '"', '`'] ∧
    "N'it''s''' '".toList[0 + 1]? = some '\'' ∧
    (∀ other, StopsAt "N'it''s''' '".toList (0 + 1) '\'' other ↔ other = 10) ∧
    "'a''".toList[0 + 0]? = some '\'' ∧
    ∀ other, ¬StopsAt "'a''".toList (0 + 0) '\'' other := by
  obtain ⟨closed, -⟩ := quoted_runs_stop (Registry.common {}) none .stringLiteral
    "N'it''s''' '".toList 0 1 '\'' (by decide) (by decide)
  obtain ⟨isOpen, -⟩ := quoted_runs_stop (Registry.common {}) none .stringLiteral
    "'a''".toList 0 0 '\'' (by decide) (by decide)
  refine ⟨by decide, by decide, ?_, by decide, ?_⟩
  · exact (closed.resolve_right fun missing => absurd missing.1 (by decide)).2
  · exact (isOpen.resolve_left fun found => absurd found.1 (by decide)).2.2

end SqlLayout.Token

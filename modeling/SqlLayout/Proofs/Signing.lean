import SqlLayout.Proofs.Rereading
import SqlLayout.Proofs.Stepping

/-! Signs and the numbers behind them. The scanner decides by one token that it remembers, the
last one that is neither blank nor comment, and never looks back at the text. After any stretch
of tokens what it remembers is the last such token of the stretch, or what it remembered
before; so the decision can be told from the tokens alone. -/
namespace SqlLayout.Token

open Keyword

def lastSolid (tokens : List Token) : Option Token :=
  (tokens.filter isSolid).getLast?

theorem lastSolid_cons (token : Token) (others : List Token) :
    lastSolid (token :: others) =
      (lastSolid others).or (if token.isSolid then some token else none) := by
  rw [lastSolid, lastSolid, List.filter_cons]
  split
  · rw [List.getLast?_cons]
    cases (others.filter isSolid).getLast? <;> rfl
  · rw [Option.or_none]

theorem Cursor.Passes.last_eq {registry : Registry} {cursor stop : Cursor} {tokens : List Token}
    (passes : Passes registry cursor tokens stop) :
    stop.last = (lastSolid tokens).or cursor.last := by
  induction passes with
  | done => rfl
  | @token cursor next stop token notices others step _ ih =>
    rw [ih, (scannedFrom_of_read registry _ _ _ _ step).2, lastSolid_cons, Option.or_assoc]
    by_cases solid : token.isSolid = true
    · simp only [if_pos solid, Option.some_or]
    · simp only [if_neg solid, Option.none_or]

namespace ScannedFrom

variable {registry : Registry} {last : Option Token} {token : Token} {behind : List Char}

theorem any_isOperand_of_number (scanned : ScannedFrom registry last token behind)
    (kind : token.kind = .numberLiteral)
    (sign : token.text.toList.head? = some '+' ∨ token.text.toList.head? = some '-') :
    last.any isOperand = false := by
  obtain ⟨c, rest, lexeme, step, same, text, -, -⟩ := scanned
  rw [text, List.head?_cons, Option.some.injEq, Option.some.injEq] at sign
  rw [kind] at same
  cases scans_of_scan? registry last c rest lexeme step with
  | signed unmarked first length found =>
    exact any_isOperand_of_signed registry last c rest _ sign unmarked step rfl
  | number unmarked length found =>
    obtain ⟨first, head, numeral⟩ := numeral_of_numberLength? (c :: rest) length found
    obtain rfl : c = first := by simpa using head
    rcases sign with rfl | rfl <;> exact absurd numeral (by decide)
  | word _ _ given => rcases given with given | given <;> simp [given] at same
  | _ => grind [lineComment]

theorem any_isOperand_of_operator (scanned : ScannedFrom registry last token behind)
    (kind : token.kind = .operator) (sign : token.text = "+" ∨ token.text = "-")
    (number : (numberLength? behind).isSome = true) : last.any isOperand = true := by
  obtain ⟨c, rest, lexeme, step, same, text, -, rfl⟩ := scanned
  obtain ⟨signs, nothing⟩ : (c = '+' ∨ c = '-') ∧ rest.take lexeme.more = [] := by
    rcases sign with sign | sign <;> rw [sign] at text
    · exact ⟨.inl (List.cons.inj text).1.symm, (List.cons.inj text).2.symm⟩
    · exact ⟨.inr (List.cons.inj text).1.symm, (List.cons.inj text).2.symm⟩
  have behind : rest.drop lexeme.more = rest := by
    have whole := List.take_append_drop lexeme.more rest
    rwa [nothing, List.nil_append] at whole
  rw [behind] at number
  obtain ⟨length, found⟩ := Option.isSome_iff_exists.1 number
  have apart : rest.head? ≠ some '-' := by
    obtain ⟨first, head, numeral⟩ := numeral_of_numberLength? rest length found
    rintro minus
    rw [head, Option.some.injEq] at minus
    rw [minus] at numeral
    exact absurd numeral (by decide)
  -- Without an operand before it, the sign would have been read with the number.
  by_contra free
  rw [scan?_of_sign registry last c rest signs (marked?_of_sign c rest signs apart), signed?,
    if_pos ⟨signs, by simpa using free⟩, found] at step
  rw [← Option.some.inj step] at same
  simp [kind] at same

end ScannedFrom

theorem scannedFrom_of_tokens? {registry : Registry} {source : String} {front back : List Token}
    {token : Token} (lexed : tokens? registry source = .ok (front ++ token :: back)) :
    ScannedFrom registry (lastSolid front) token (source.toList.drop token.stop) := by
  obtain ⟨-, cut⟩ := (tokens?_eq_ok_iff registry source _).1 lexed
  have run := Cursor.Passes.of_readAll registry (.ofSource source)
  rw [← lex, cut] at run
  obtain ⟨between, before, onward⟩ := run.split
  cases onward with
  | @token _ next _ _ notices _ step onward =>
    have last : between.last = lastSolid front := by
      rw [before.last_eq]
      exact Option.or_none
    have passed := before.append (.token step (.done next))
    have place : next.position = token.stop :=
      (Cursor.advances_of_read registry _ _ _ _ step).stop
    rw [← last, ← place, passed.split_source.2]
    exact (Cursor.scannedFrom_of_read registry _ _ _ _ step).1

/-- Signs go with numbers just if no operand stands before them, blanks and comments aside. A
number that begins with a sign has no solid token before it, or one that is no operand; a sign
that is an operator, though a number stands right behind it, has an operand before it. -/
theorem signs_numbers (registry : Registry) (source : String) (front back : List Token)
    (token : Token) (lexed : tokens? registry source = .ok (front ++ token :: back)) :
    (token.kind = .numberLiteral →
      token.text.toList.head? = some '+' ∨ token.text.toList.head? = some '-' →
      lastSolid front = none ∨
        ∃ before, lastSolid front = some before ∧ before.isOperand = false) ∧
    (token.kind = .operator → token.text = "+" ∨ token.text = "-" →
      (numberLength? (source.toList.drop token.stop)).isSome = true →
      ∃ before, lastSolid front = some before ∧ before.isOperand = true) := by
  have scanned := scannedFrom_of_tokens? lexed
  constructor
  · intro kind sign
    have free := scanned.any_isOperand_of_number kind sign
    cases before : lastSolid front with
    | none => exact .inl rfl
    | some token => exact .inr ⟨token, rfl, by simpa [before] using free⟩
  · intro kind sign number
    exact (Option.any_eq_true _ _).1 (scanned.any_isOperand_of_operator kind sign number)

theorem signs_numbers_comment :
    let front : List Token := [.plain .identifier "x" 0, .plain .blank " " 1,
      .plain .comment "-- y" 2, .plain .blank "\n" 6]
    let between : List Token := [.plain .operator "-" 7, .plain .numberLiteral "1" 8,
      .plain .operator "*" 9]
    tokens? (Registry.common {}) "x -- y\n-1*-1" =
        .ok (front ++ between ++ [.plain .numberLiteral "-1" 10]) ∧
      (∃ before, lastSolid front = some before ∧ before.isOperand = true) ∧
      (lastSolid (front ++ between) = none ∨
        ∃ before, lastSolid (front ++ between) = some before ∧ before.isOperand = false) := by
  intro front between
  have lexed : tokens? (Registry.common {}) "x -- y\n-1*-1" =
      .ok (front ++ between ++ [.plain .numberLiteral "-1" 10]) :=
    (tokens?_eq_ok_iff _ _ _).2 (by decide +kernel)
  refine ⟨lexed, ?_, ?_⟩
  · rw [List.append_assoc] at lexed
    exact (signs_numbers _ _ front _ _ lexed).2 rfl (.inr rfl) (by decide +kernel)
  · exact (signs_numbers _ _ (front ++ between) [] _ lexed).1 rfl (.inr (by decide))

end SqlLayout.Token

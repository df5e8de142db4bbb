import SqlLayout.Proofs.Stepping

/-! One text in two dialects. A hint can only add reserved words, whatever the library knows of
the dialect; the phrases are the same for all. So a word may be a name in one dialect and
reserved in another, and wherever it is, the text falls into the same pieces. Only signs look at
the kind of a token before them, and where no sign stands in front of a number they have nothing
to decide. -/
namespace SqlLayout.Keyword.Registry

/-- Has the phrases of another registry, and reserves all words that it reserves. -/
structure Widens (wide base : Registry) : Prop where
  compounds : wide.compounds = base.compounds
  reserved (word : String) (inBase : base.isReserved word = true) : wide.isReserved word = true

theorem widens_ofTables (library : Library) (name : Option String) (tables : WordTables) :
    (ofTables name tables).Widens (common library) where
  compounds := rfl
  reserved word inBase := by
    rw [isReserved_common, List.contains_iff_mem] at inBase
    rw [isReserved, List.contains_iff_mem, ofTables]
    exact List.mem_append_left _ inBase

end SqlLayout.Keyword.Registry

namespace SqlLayout.Token

open Keyword Text

def Promotes (token other : Token) : Prop :=
  other = token ∨ token.kind = .identifier ∧
    other = { token with kind := .reservedWord, contents := upper token.text }

def SignsApart (chars : List Char) : Prop :=
  chars.IsChain fun sign next => sign = '+' ∨ sign = '-' → next ≠ '.' ∧ isDecimal next = false

instance (chars : List Char) : Decidable (SignsApart chars) :=
  inferInstanceAs (Decidable (List.IsChain _ chars))

theorem SignsApart.signed? {c : Char} {rest : List Char} (apart : SignsApart (c :: rest))
    (last : Option Token) : Token.signed? last c rest = none := by
  rw [Token.signed?]
  split
  · rename_i signs
    rw [Option.map_eq_none_iff, ← Option.not_isSome_iff_eq_none, numberLength?_isSome]
    cases rest with
    | nil => simp
    | cons next others =>
      obtain ⟨noPoint, noDigit⟩ := (List.isChain_cons_cons.1 apart).1 signs.1
      simp [noPoint, noDigit]
  · rfl

variable {base wide : Registry}

open Cursor (tokenOf)

theorem wordLexeme_promotes (widens : wide.Widens base) (position : Nat) (c : Char)
    (rest : List Char) (starts : isWordStart c = true) :
    let lexeme := wordLexeme base c rest (1 + spanLength isNamePart rest)
    let other := wordLexeme wide c rest (1 + spanLength isNamePart rest)
    other.more = lexeme.more ∧
      Promotes (tokenOf position c rest lexeme) (tokenOf position c rest other) := by
  obtain ⟨word, behind, whole, plain, ends⟩ := exists_word_of_isWordStart c rest starts
  have phrases : phraseOf wide = phraseOf base := by
    funext word others
    rw [phraseOf, phraseOf, widens.compounds]
  intro lexeme other
  simp only [lexeme, other, wordLexeme_eq _ c rest word behind whole plain ends, phrases]
  cases phraseOf base word ((ahead behind).map Prod.snd) with
  | some found => exact ⟨rfl, .inl rfl⟩
  | none =>
    dsimp only
    by_cases inBase : base.isReserved (String.ofList word) = true
    · rw [if_pos inBase, if_pos (widens.reserved _ inBase)]
      exact ⟨rfl, .inl rfl⟩
    · rw [if_neg inBase]
      by_cases inWide : wide.isReserved (String.ofList word) = true
      · have text : c :: rest.take (word.length - 1) = word := by
          obtain ⟨first, others, rfl, -⟩ := plain.start
          rw [← List.take_succ_cons, whole]
          simp
        rw [if_pos inWide]
        refine ⟨rfl, .inr ⟨rfl, ?_⟩⟩
        simp only [tokenOf, text]
        rfl
      · rw [if_neg inWide]
        exact ⟨rfl, .inl rfl⟩

/-- Whatever solid token stands behind, the wider registry finds a lexeme of the same length. -/
theorem scan?_promotes (widens : wide.Widens base) (last other : Option Token) (position : Nat)
    (c : Char) (rest : List Char) (apart : SignsApart (c :: rest)) (lexeme : Lexeme)
    (found : scan? base last c rest = some lexeme) :
    ∃ promoted, scan? wide other c rest = some promoted ∧ promoted.more = lexeme.more ∧
      Promotes (tokenOf position c rest lexeme) (tokenOf position c rest promoted) := by
  cases marked : marked? c rest with
  | some mark =>
    obtain rfl : mark = lexeme := by simpa [scan?, marked] using found
    exact ⟨_, scan?_of_marked wide other c rest _ marked, rfl, .inl rfl⟩
  | none =>
    by_cases number : startsNumber c rest = true
    · have same : scan? wide other c rest = scan? base last c rest := by
        simp only [scan?, marked, if_pos number]
      exact ⟨lexeme, same.trans found, rfl, .inl rfl⟩
    · have noNumber : startsNumber c rest = false := by simpa using number
      -- No number follows a sign, so neither remembered token is asked for.
      rw [scan?_of_unmarked base last c rest marked noNumber, apart.signed?, Option.getD_none,
        Option.some.injEq] at found
      rw [scan?_of_unmarked wide other c rest marked noNumber, apart.signed?, Option.getD_none]
      refine ⟨_, rfl, ?_⟩
      subst found
      by_cases starts : isWordStart c = true
      · rw [wordOrOperator, wordOrOperator, wordLength?, if_pos starts]
        exact wordLexeme_promotes widens position c rest starts
      · rw [wordOrOperator, wordOrOperator, wordLength?, if_neg starts]
        exact ⟨rfl, .inl rfl⟩

theorem Cursor.Passes.promotes (widens : wide.Widens base) {cursor stop : Cursor}
    {tokens : List Token} (passes : Passes base cursor tokens stop)
    (apart : SignsApart cursor.rest) (last : Option Token) :
    ∃ others final, Passes wide ⟨cursor.position, cursor.rest, last⟩ others final ∧
      List.Forall₂ Promotes tokens others ∧ final.position = stop.position ∧
      final.rest = stop.rest := by
  -- The tokens remembered may differ on the way, a name here and a reserved word there.
  induction passes generalizing last with
  | done cursor => exact ⟨[], _, .done _, .nil, rfl, rfl⟩
  | @token cursor next stop token notices others step _ ih =>
    have advance := advances_of_read base _ _ _ _ step
    obtain ⟨c, rest, lexeme, ahead, found, rfl, rfl⟩ := exists_of_read base _ _ _ _ step
    rw [advance.ahead] at apart
    have apartNext := List.IsChain.right_of_append apart
    rw [← advance.ahead, ahead] at apart
    obtain ⟨promoted, again, more, promotes⟩ :=
      scan?_promotes widens cursor.last last cursor.position c rest apart lexeme found
    obtain ⟨notices, read⟩ := read_of_scan? wide cursor.position last c rest promoted again
    have place : (tokenOf cursor.position c rest promoted).stop =
        (tokenOf cursor.position c rest lexeme).stop := by
      simp only [Token.stop, tokenOf, more]
    rw [place, more] at read
    obtain ⟨own, final, onward, all, position, left⟩ := ih apartNext _
    rw [ahead]
    exact ⟨_, final, .token read onward, .cons promotes all, position, left⟩

theorem lex_promotes (widens : wide.Widens base) (source : String)
    (apart : SignsApart source.toList) :
    List.Forall₂ Promotes (lex base source).tokens (lex wide source).tokens ∧
      (lex wide source).stop.position = (lex base source).stop.position ∧
      (lex wide source).stop.rest = (lex base source).stop.rest := by
  obtain ⟨others, final, passes, all, position, left⟩ :=
    (Cursor.Passes.of_readAll base (.ofSource source)).promotes widens apart none
  have run : (lex wide source).tokens = others ∧ (lex wide source).stop = final := by
    rcases Cursor.stop_readAll base (.ofSource source) with finished | stray
    · exact passes.readAll (left.trans finished)
    · exact passes.readAll_of_strays (left ▸ stray)
  rw [run.1, run.2]
  exact ⟨all, position, left⟩

/-- A hint only promotes names. Where no sign stands right in front of a point or a digit, a text
can be read with a hint just if it can be read without one, and otherwise fails at the same
place; reading gives a token for each token, at the same place and of the same text. It is the
same token, or a reserved word that is a name without the hint. This holds for every library, and
for all words that may be added for the name that the hint stands for. -/
theorem hint_promotes (library : Library) (hint : Option String) (registry : Registry)
    (given : registry = (Registry.ofHint library hint).1 ∨
      ∃ tables, registry = Registry.ofTables (hint.bind normalizeHint) tables)
    (source : String) (apart : SignsApart source.toList) :
    (∀ fault, tokens? registry source = .error fault ↔
      tokens? (Registry.ofHint library none).1 source = .error fault) ∧
    ∀ tokens, tokens? (Registry.ofHint library none).1 source = .ok tokens →
      ∃ others, tokens? registry source = .ok others ∧ List.Forall₂ Promotes tokens others := by
  have widens : registry.Widens (Registry.ofHint library none).1 := by
    rcases given with rfl | ⟨tables, rfl⟩
    · obtain ⟨tables, same⟩ := Registry.exists_ofTables library hint
      rw [same]
      exact Registry.widens_ofTables library _ tables
    · exact Registry.widens_ofTables library _ tables
  obtain ⟨all, position, left⟩ := lex_promotes widens source apart
  have together : (lex registry source).isComplete =
      (lex (Registry.ofHint library none).1 source).isComplete := by
    rw [Cursor.Run.isComplete, Cursor.Run.isComplete, left]
  unfold tokens?
  dsimp only
  rw [together, position]
  by_cases complete : (lex (Registry.ofHint library none).1 source).isComplete = true
  · rw [if_pos complete, if_pos complete]
    exact ⟨by simp, fun tokens lexed => ⟨_, rfl, Except.ok.inj lexed ▸ all⟩⟩
  · rw [if_neg complete, if_neg complete]
    exact ⟨fun _ => Iff.rfl, by simp⟩

def topLibrary : Library where
  grammar? name :=
    if name = "tsql" then some { keywords := [("DECLARE", "DECLARE")] } else none

theorem hint_promotes_top :
    tokens? (Registry.ofHint topLibrary (some "MSSQL")).1 "Top -Declare" =
        .ok [⟨.reservedWord, "Top", 0, "TOP"⟩, .plain .blank " " 3, .plain .operator "-" 4,
          ⟨.reservedWord, "Declare", 5, "DECLARE"⟩] ∧
      List.Forall₂ Promotes
        [.plain .identifier "Top" 0, .plain .blank " " 3, .plain .operator "-" 4,
          .plain .identifier "Declare" 5]
        [⟨.reservedWord, "Top", 0, "TOP"⟩, .plain .blank " " 3, .plain .operator "-" 4,
          ⟨.reservedWord, "Declare", 5, "DECLARE"⟩] := by
  have without : tokens? (Registry.ofHint topLibrary none).1 "Top -Declare" =
      .ok [.plain .identifier "Top" 0, .plain .blank " " 3, .plain .operator "-" 4,
        .plain .identifier "Declare" 5] :=
    (tokens?_eq_ok_iff _ _ _).2 (by decide +kernel)
  have hinted : tokens? (Registry.ofHint topLibrary (some "MSSQL")).1 "Top -Declare" =
      .ok [⟨.reservedWord, "Top", 0, "TOP"⟩, .plain .blank " " 3, .plain .operator "-" 4,
        ⟨.reservedWord, "Declare", 5, "DECLARE"⟩] :=
    (tokens?_eq_ok_iff _ _ _).2 (by decide +kernel)
  obtain ⟨others, lexed, promotes⟩ :=
    (hint_promotes topLibrary (some "MSSQL") _ (.inl rfl) "Top -Declare" (by decide +kernel)).2 _
      without
  rw [hinted] at lexed
  exact ⟨hinted, Except.ok.inj lexed ▸ promotes⟩

end SqlLayout.Token

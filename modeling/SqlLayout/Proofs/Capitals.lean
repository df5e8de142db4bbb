import SqlLayout.Proofs.Outlining
import SqlLayout.Proofs.Relettering
import SqlLayout.Proofs.Whitespace

/-! Capitals and small letters. Once a style puts every word into a case, it does not matter
in which case the words of a source were written: the tokens of the source in other letters
are twins of its own tokens, and twins are written alike. -/
namespace SqlLayout

open Keyword Layout SqlLayout.Tree

namespace Token

open Text

/-- The words that clauses are told by are always reserved, or they are several. -/
theorem clauseWords_reserved :
    clauseWords.all (fun word => word.toList.any Text.isBlank ||
      reservedWords.contains (Text.upper word)) = true := by
  cbv

theorem clauseWords_spelt :
    clauseWords.all (fun word => word.toList.head?.all fun c => c ≠ '@' && c ≠ '#') = true := by
  cbv

theorem ReadFrom.no_clauseWord {registry : Registry} {token : Token} {behind : List Char}
    (reserved : reservedWords ⊆ registry.reserved) (read : ReadFrom registry token behind)
    (kind : token.kind = .identifier) (word : String) (member : word ∈ clauseWords) :
    token.contents ≠ word := by
  have free : token.isReserved = false := by rw [isReserved, kind]; rfl
  rw [read.contents_eq_text free]
  rintro rfl
  obtain ⟨c, rest, lexeme, scans, own, text, -, -⟩ := read
  rw [kind] at own
  cases scans with
  | special sign _ =>
    have spelt := List.all_eq_true.1 clauseWords_spelt _ member
    rw [text] at spelt
    rcases sign with rfl | rfl <;> simp at spelt
  | word unmarked starts _ =>
    obtain ⟨words, worded, -, head, others, rfl, named⟩ :=
      named_of_wordLexeme registry c rest starts _ rfl
    rw [← own] at named
    split at named
    · simp at named
    obtain ⟨rfl, named⟩ := named
    split at named
    · simp at named
    rename_i free
    rw [worded.eq_of_single] at text
    rw [← text, String.ofList_toList, Registry.isReserved] at free
    rcases Bool.or_eq_true_iff.1 (List.all_eq_true.1 clauseWords_reserved _ member) with
      blank | common
    · obtain ⟨d, inside, isBlank⟩ := List.any_eq_true.1 blank
      have plain := worded.plain _ (List.mem_singleton_self _)
      have visible := isBlank_of_isNamePart d (plain.parts d (text ▸ inside))
      simp [isBlank] at visible
    · exact free (List.contains_iff_mem.2 (reserved (List.contains_iff_mem.1 common)))
  | _ => grind [lineComment]

theorem twin_of_letters {registry : Registry} {token twin : Token} {behind after : List Char}
    (words : reservedWords ⊆ registry.reserved) (read : ReadFrom registry token behind)
    (reread : ReadFrom registry twin after) (kind : twin.kind = token.kind)
    (same : SameLetters token.text.toList twin.text.toList)
    (plain : token.kind.isWordLike = false → twin.text = token.text)
    (reserved : token.isReserved = true → twin.contents = token.contents) : Twin token twin := by
  have upper : Text.upper twin.text = Text.upper token.text := by
    simpa only [String.ofList_toList] using same.upper
  have length : twin.text.length = token.text.length := by
    rw [← String.length_toList, ← String.length_toList, same.length]
  have own (free : ¬token.isReserved = true) :
      token.contents = token.text ∧ twin.contents = twin.text := by
    have twinFree : twin.isReserved = false := by
      rw [isReserved, kind]
      simpa [isReserved] using free
    exact ⟨read.contents_eq_text (by simpa using free), reread.contents_eq_text twinFree⟩
  refine ⟨kind, plain, reserved, ?_, ?_, ?_, ?_, fun _ => length⟩
  · by_cases isReserved : token.isReserved = true
    · rw [reserved isReserved]
    · rw [(own isReserved).1, (own isReserved).2, upper]
  · by_cases isReserved : token.isReserved = true
    · rw [reserved isReserved]
    · rw [(own isReserved).1, (own isReserved).2, length]
  · intro word member
    by_cases isReserved : token.isReserved = true
    · rw [reserved isReserved]
    by_cases wordLike : token.kind.isWordLike = true
    · have identifier : token.kind = .identifier := by
        revert wordLike isReserved
        rw [Token.isReserved]
        cases token.kind <;> simp [Kind.isWordLike]
      exact iff_of_false (reread.no_clauseWord words (kind.trans identifier) word member)
        (read.no_clauseWord words identifier word member)
    · rw [(own isReserved).1, (own isReserved).2, plain (by simpa using wordLike)]
  · intro word _
    rw [upper]

theorem written_of_letters {style : Style} {token twin : Token} (twins : Twin token twin)
    (same : SameLetters token.text.toList twin.text.toList)
    (keywords : style.keywordCase ≠ .asIs) (identifiers : style.identifierCase ≠ .asIs)
    (functions : style.functionCase ≠ .asIs) (dataTypes : style.dataTypeCase ≠ .asIs) :
    Written style token twin := by
  have applied (choice : Style.WordCase) (settled : choice ≠ .asIs) :
      choice.apply twin.text = choice.apply token.text := by
    refine String.toList_injective ?_
    rw [choice.apply_toList_ascii _ same.asciiTwin, choice.apply_toList_ascii _ same.ascii]
    cases choice with
    | asIs => exact absurd rfl settled
    | upper => exact same.map_toUpper
    | lower => exact same.map_toLower
  refine ⟨twins, fun _ => ?_, fun unsettled => absurd unsettled keywords⟩
  simp only [List.forall_mem_cons, List.not_mem_nil, false_implies, implies_true, and_true]
  exact ⟨applied _ dataTypes, applied _ identifiers, applied _ functions⟩

theorem sameLetters_respelled (registry : Registry) (first second : String) (tokens : List Token)
    (lexed : tokens? registry first = .ok tokens) (differ : DifferInCase tokens first second)
    (token : Token) (member : token ∈ tokens) :
    SameLetters token.text.toList (respelled second token).text.toList := by
  have slice : token.text.toList = (first.toList.drop token.start).take token.text.length := by
    simpa using (tiles_of_tokens? registry first tokens lexed).slice [] rfl token member
  unfold respelled
  split
  · rw [String.toList_ofList, slice]
    exact (differ.sameLetters.drop _).take _
  · refine List.forall₂_same.2 fun c inside => .refl (differ.ascii c ?_)
    rw [slice] at inside
    exact List.mem_of_mem_drop (List.mem_of_mem_take inside)

end Token

theorem commentLineStarts_map {change : Token → Token} (twins : ∀ token, Twin token (change token))
    (tokens : List Token) (places : ∀ token ∈ tokens, (change token).start = token.start)
    (previous : Option Token) :
    commentLineStarts (previous.map change) (tokens.map change) =
      commentLineStarts previous tokens := by
  have begins (previous : Option Token) :
      (previous.map change).all (fun before =>
        before.isBlank && before.text.toList.contains '\n') =
      previous.all fun before => before.isBlank && before.text.toList.contains '\n' := by
    cases previous with
    | none => rfl
    | some before =>
      simp only [Option.map_some, Option.all_some, (twins before).isBlank]
      by_cases blank : before.isBlank = true
      · have kind : before.kind = .blank := by simpa [Token.isBlank] using blank
        rw [(twins before).text (by rw [kind]; rfl)]
      · simp [blank]
  induction tokens generalizing previous with
  | nil => rfl
  | cons token rest ih =>
    have onward := ih (fun other member => places other (List.mem_cons_of_mem token member))
      (some token)
    rw [Option.map_some] at onward
    simp only [List.map_cons, commentLineStarts, begins, onward, (twins token).isComment,
      places token (by simp)]

namespace Formatter

theorem formatTokens_recast (formatter : Formatter) {change : Token → Token}
    (renames : Renaming formatter.style change) (tokens : List Token)
    (places : ∀ token ∈ tokens, (change token).start = token.start) :
    formatter.formatTokens (tokens.map change) = formatter.formatTokens tokens := by
  have lines := commentLineStarts_map renames.twins tokens places none
  rw [Option.map_none] at lines
  rw [formatTokens, formatTokens, lines,
    Token.splitStatements_map fun token => (renames.twins token).kind, List.map_map]
  have texts : (Token.splitStatements tokens).map
        (formatter.formatStatement (commentLineStarts none tokens) ∘ List.map change) =
      (Token.splitStatements tokens).map
        (formatter.formatStatement (commentLineStarts none tokens)) := by
    refine List.map_congr_left fun statement member => ?_
    refine formatter.formatStatement_recast renames statement fun token inside _ => ?_
    rw [places token (Token.mem_of_mem_splitStatements tokens statement member token inside)]
  simp only [texts]

theorem exists_renaming (style : Style) (unnamed : style.addColumnNameComments = false)
    (counterpart : Token → Token) (tokens : List Token)
    (alike : ∀ token ∈ tokens, Written style token (counterpart token)) :
    ∃ change, Renaming style change ∧ ∀ token ∈ tokens, change token = counterpart token := by
  classical
  refine ⟨fun token => if Written style token (counterpart token) then counterpart token else token,
    ⟨fun token => ?_, fun named => by simp [unnamed] at named⟩,
    fun token member => if_pos (alike token member)⟩
  split
  · assumption
  · exact ⟨Twin.refl token, fun _ _ _ => rfl, fun _ _ => rfl⟩

/-- In which letters the words of a source are written does not matter where every case is
settled. -/
theorem format_eq_of_letters (formatter : Formatter)
    (reserved : reservedWords ⊆ formatter.registry.reserved) (first second : String)
    (keywords : formatter.style.keywordCase ≠ .asIs)
    (identifiers : formatter.style.identifierCase ≠ .asIs)
    (functions : formatter.style.functionCase ≠ .asIs)
    (dataTypes : formatter.style.dataTypeCase ≠ .asIs)
    (columns : formatter.style.addColumnNameComments = false)
    (differ : Token.DifferInCase (Token.lex formatter.registry first).tokens first second) :
    ∃ text, formatter.format first = .ok text ∧ formatter.format second = .ok text := by
  obtain ⟨tokens, lexed⟩ := Token.tokens?_ascii formatter.registry first differ.ascii
  obtain rfl := ((Token.tokens?_eq_ok_iff formatter.registry first tokens).1 lexed).2
  set tokens := (Token.lex formatter.registry first).tokens
  have again := Token.tokens?_reletter formatter.registry first second tokens lexed differ
  have alike (token : Token) (member : token ∈ tokens) :
      Written formatter.style token (Token.respelled second token) := by
    obtain ⟨behind, read⟩ := Token.readFrom_of_mem formatter.registry first tokens lexed token member
    obtain ⟨after, reread⟩ := Token.readFrom_of_mem formatter.registry second _ again _
      (List.mem_map_of_mem member)
    have same := Token.sameLetters_respelled formatter.registry first second tokens lexed differ
      token member
    refine Token.written_of_letters (Token.twin_of_letters reserved read reread
      (Token.kind_respelled second token) same (fun plain => ?_) fun isReserved => ?_) same
      keywords identifiers functions dataTypes
    · rw [Token.respelled, if_neg (by simp [plain])]
    · unfold Token.respelled
      split
      · dsimp only
      · rfl
  obtain ⟨change, renames, equal⟩ := exists_renaming formatter.style columns _ tokens alike
  refine ⟨formatter.formatTokens tokens, ?_, ?_⟩
  · rw [format, lexed, Except.map]
  · rw [format, again, Except.map, ← List.map_congr_left equal, formatter.formatTokens_recast renames]
    intro token member
    rw [equal token member, Token.start_respelled]

def lowering : Formatter :=
  { standard with
    style :=
      { keywordCase := .lower, identifierCase := .lower, functionCase := .lower
        dataTypeCase := .lower } }

def mixedQuery : List Token :=
  [⟨.reservedWord, "Select", 0, "SELECT"⟩, .plain .blank " " 6, .plain .identifier "Top" 7,
    .plain .parenOpen "(" 10, .plain .identifier "a" 11, .plain .parenClose ")" 12,
    .plain .blank " " 13, ⟨.reservedWord, "from", 14, "FROM"⟩, .plain .blank " " 18,
    .plain .identifier "T" 19]

theorem format_eq_of_letters_mixed :
    Token.DifferInCase (Token.lex lowering.registry "Select Top(a) from T").tokens
      "Select Top(a) from T" "sELECT TOP(A) FROM t" ∧
    lowering.format "Select Top(a) from T" = .ok "select top(a)\nfrom t" ∧
    lowering.format "sELECT TOP(A) FROM t" = .ok "select top(a)\nfrom t" := by
  have lexed := (Token.tokens?_eq_ok_iff lowering.registry "Select Top(a) from T" mixedQuery).2
    (by decide +kernel)
  have differ : Token.DifferInCase (Token.lex lowering.registry "Select Top(a) from T").tokens
      "Select Top(a) from T" "sELECT TOP(A) FROM t" := by
    rw [((Token.tokens?_eq_ok_iff _ _ _).1 lexed).2]
    exact ⟨by simp [Text.IsAscii], by simp [Text.IsAscii], by decide +kernel, by decide +kernel⟩
  obtain ⟨text, first, second⟩ := lowering.format_eq_of_letters
    (List.subset_append_left _ _) _ _ (by decide) (by decide) (by decide) (by decide) rfl differ
  have shown : lowering.format "Select Top(a) from T" = .ok "select top(a)\nfrom t" := by
    rw [format, lexed]
    exact congrArg Except.ok (by decide +kernel)
  rw [Except.ok.inj (first.symm.trans shown)] at second
  exact ⟨differ, shown, second⟩

end Formatter

end SqlLayout

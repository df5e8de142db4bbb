import Mathlib.Data.List.Flatten
import SqlLayout.Proofs.Completeness
import SqlLayout.Proofs.Rows

/-! Reading a formatted text again. Every statement is laid in a row of its own, with an
empty line before the next one. No comment comes out of a text that had none, unless an
operator with one operand is a hyphen and another hyphen is glued to it. Two kinds of
source are left out of this: words with two dollar signs, which another case may break
into pieces, and brackets without a partner before a token with a closing one inside. -/
namespace SqlLayout

open Keyword Layout SqlLayout.Tree

namespace Token

def Closed (registry : Registry) (token : Token) : Prop :=
  ∃ behind, behind ≠ [] ∧ ReadFrom registry token behind

theorem readFrom_of_comma (registry : Registry) (token : Token) (kind : token.kind = .comma)
    (text : token.text = ",") (contents : token.contents = ",") (behind : List Char) :
    ReadFrom registry token behind := by
  refine ⟨',', behind, { kind := .comma, more := 0 }, .punctuation .comma (by simp), kind, ?_, ?_,
    rfl⟩
  · rw [text]
    rfl
  · rw [text, contents]
    rfl

theorem closed_of_comma {registry : Registry} {token : Token} {behind : List Char}
    (read : ReadFrom registry token behind) (isComma : token.kind = .comma) :
    Closed registry token := by
  have text := read.comma isComma
  obtain ⟨c, rest, lexeme, scans, kind, -, contents, -⟩ := read
  refine ⟨[','], by simp, readFrom_of_comma registry token isComma text ?_ [',']⟩
  rw [contents, text]
  rw [kind] at isComma
  cases scans with
  | punctuation => rfl
  | word _ _ given => rcases given with given | given <;> simp [given] at isComma
  | _ => grind [Kind.isWordLike, lineComment]

theorem text_face (token : Token) (comma : token.kind = .comma → token.text = ",") :
    token.face.text = token.text := by
  unfold face
  split
  · rename_i isComma
    rw [comma isComma]
    rfl
  · rfl

theorem pairwise_closed (registry : Registry) (source : String) (tokens : List Token)
    (lexed : tokens? registry source = .ok tokens) :
    tokens.Pairwise fun first _ => Closed registry first := by
  have later (front back : List Token)
      (lexed : tokens? registry source = .ok (front ++ back)) :
      back.Pairwise fun first _ => Closed registry first := by
    induction back generalizing front with
    | nil => exact .nil
    | cons token back ih =>
      refine List.pairwise_cons.2 ⟨?_, ih (front ++ [token]) (by simpa using lexed)⟩
      intro other member
      refine ⟨_, ?_, readFrom_of_tokens? registry source front back token lexed⟩
      obtain ⟨behind, c, rest, lexeme, -, -, text, -⟩ :=
        readFrom_of_mem registry source _ lexed other (by simp [member])
      have inside : c ∈ other.text.toList := by
        rw [text]
        simp
      exact List.ne_nil_of_mem (List.mem_flatMap.2 ⟨other, member, inside⟩)
  exact later [] tokens lexed

end Token

namespace Formatter.Reads

variable {formatter : Formatter} {source : String} {tokens statement : List Token}

theorem mem_shown (reads : Reads formatter source tokens statement) (token : Token)
    (member : token ∈ formatter.shown statement) :
    token = commaToken ∨ token ∈ statement ∧ token.isBlank = false := by
  rcases List.mem_append.1 member with drawn | ends
  · obtain ⟨mark, inTrace, rfl⟩ := List.mem_map.1 drawn
    rcases reads.mark_cases mark inTrace with rfl | ⟨token, counts, rfl⟩
    · exact .inl rfl
    · have inside : token ∈ statement.filter (!·.isBlank) := by
        rw [← countedTokens_append tokens statement reads.member]
        exact List.mem_append_left _ counts
      rw [List.mem_filter] at inside
      have visible : token.isBlank = false := by simpa using inside.2
      exact .inr ⟨inside.1, visible⟩
  · obtain ⟨isEnd, inside⟩ := kind_of_terminator statement token (by simpa using ends)
    exact .inr ⟨inside, by simp [Token.isBlank, isEnd]⟩

theorem shown_sublist (reads : Reads formatter source tokens statement)
    (code : ∀ token ∈ statement, token.isComment = false) :
    ((formatter.shown statement).map Token.face).Sublist (statement.map Token.face) := by
  obtain ⟨kept, sub, displaced⟩ := reads.carries.order
  have still : ∀ mark ∈ kept, ¬mark.Mobile := by
    intro mark member
    have inFaces := sub.subset member
    rw [Trace.faces, Trace.marks_ofTokens, List.map_map] at inFaces
    obtain ⟨token, counts, rfl⟩ := List.mem_map.1 inFaces
    have noComment := code token (mem_of_counted token counts)
    rw [Mark.Mobile, Function.comp_apply, token_face (.ofToken token) rfl]
    change ¬token.face.isLineComment = true
    unfold Token.face
    split
    · decide
    · simp [Token.isLineComment, noComment]
  have same := displaced.eq_of_still still
  have counted : ((Trace.ofTokens (countedTokens statement)).faces.map Mark.token) =
      (countedTokens statement).map Token.face := by
    rw [Trace.faces, Trace.marks_ofTokens, List.map_map, List.map_map]
    exact List.map_congr_left fun token _ => token_face (.ofToken token) rfl
  have front := sub.map Mark.token
  rw [← same, reads.faces_shown, counted] at front
  have whole := front.append (List.Sublist.refl ((terminator statement).toList.map Token.face))
  rw [← List.map_append, ← List.map_append, countedTokens_append tokens statement reads.member]
    at whole
  exact whole.trans (List.filter_sublist.map Token.face)

end Formatter.Reads

namespace Formatter

def written (formatter : Formatter) (tokens : List Token) : List (List Token) :=
  (Token.splitStatements tokens).filter fun statement =>
    formatter.formatStatement (commentLineStarts none tokens) statement ≠ ""

structure RowOf (formatter : Formatter) (lineStarts : List Nat) (statement : List Token)
    (placements : List Placement) : Prop where
  inRow : Placement.InRow ⟨formatter.style, formatter.registry, formatter.width, lineStarts⟩
    (formatter.shown statement) placements
  text : Placement.row placements = (formatter.formatStatement lineStarts statement).toList

/-- A source without comments, in which words and brackets stay what they are. -/
structure Uncommented (tokens : List Token) : Prop where
  code : ∀ token ∈ tokens, token.isComment = false
  dollars : ∀ token ∈ tokens, token.kind.isWordLike = true → token.text.toList.count '$' ≤ 1
  brackets : tokens.Pairwise fun first second =>
    first.text = "[" → ']' ∉ second.text.toList.dropLast

def shownAll (formatter : Formatter) (tokens : List Token) : List Token :=
  ((formatter.written tokens).map formatter.shown).flatten

def HasRows (formatter : Formatter) (tokens : List Token)
    (places : List Token → List Placement) : Prop :=
  ∀ statement ∈ formatter.written tokens,
    RowOf formatter (commentLineStarts none tokens) statement (places statement)

section Lines

variable {formatter : Formatter} {source : String} {tokens : List Token}

theorem exists_rowOf (reads : ReadsText formatter source tokens)
    (unnamed : formatter.style.addColumnNameComments = false) (statement : List Token)
    (member : statement ∈ formatter.written tokens) :
    ∃ placements, RowOf formatter (commentLineStarts none tokens) statement placements := by
  obtain ⟨inside, some⟩ := List.mem_filter.1 member
  have full : ∃ token ∈ statement, token.isBlank = false ∧ token.kind ≠ .semicolon := by
    by_cases empty : (statement.all fun token => token.isBlank || token.kind = .semicolon) = true
    · simp [formatStatement, empty] at some
    · simpa using empty
  obtain ⟨placements, inRow, text⟩ := Placement.exists_row
    ((reads.part inside).laid unnamed (commentLineStarts none tokens) full)
  exact ⟨placements, inRow, text⟩

theorem exists_rows (reads : ReadsText formatter source tokens)
    (unnamed : formatter.style.addColumnNameComments = false) :
    ∃ places, formatter.HasRows tokens places := by
  have each : ∀ statement, ∃ placements, statement ∈ formatter.written tokens →
      RowOf formatter (commentLineStarts none tokens) statement placements := by
    intro statement
    by_cases member : statement ∈ formatter.written tokens
    · obtain ⟨placements, rowOf⟩ := exists_rowOf reads unnamed statement member
      exact ⟨placements, fun _ => rowOf⟩
    · exact ⟨[], fun inside => absurd inside member⟩
  exact Classical.skolem.1 each

theorem shown_flatten_sublist (reads : ReadsText formatter source tokens)
    (code : ∀ token ∈ tokens, token.isComment = false) :
    ((formatter.shownAll tokens).map Token.face).Sublist
      (tokens.map Token.face) := by
  have each (statements : List (List Token))
      (inside : ∀ statement ∈ statements, statement ∈ Token.splitStatements tokens) :
      ((statements.map formatter.shown).flatten.map Token.face).Sublist
        (statements.flatten.map Token.face) := by
    induction statements with
    | nil => simp
    | cons statement others ih =>
      rw [List.map_cons, List.flatten_cons, List.flatten_cons, List.map_append, List.map_append]
      refine List.Sublist.append ?_ (ih fun other member =>
        inside other (List.mem_cons_of_mem _ member))
      have here := inside statement (by simp)
      exact (reads.part here).shown_sublist fun token member =>
        code token (Token.mem_of_mem_splitStatements tokens statement here token member)
  have whole := each (formatter.written tokens) fun statement member =>
    (List.mem_filter.1 member).1
  have fewer : (formatter.written tokens).flatten.Sublist tokens := by
    conv => rhs; rw [← Token.flatten_splitStatements tokens]
    exact List.Sublist.flatten List.filter_sublist
  exact whole.trans (fewer.map Token.face)

theorem mem_shown_flatten (reads : ReadsText formatter source tokens) (token : Token)
    (member : token ∈ formatter.shownAll tokens) :
    token = commaToken ∨ token ∈ tokens ∧ token.isBlank = false := by
  obtain ⟨shown, inside, here⟩ := List.mem_flatten.1 member
  obtain ⟨statement, isWritten, rfl⟩ := List.mem_map.1 inside
  have split := (List.mem_filter.1 isWritten).1
  rcases (reads.part split).mem_shown token here with comma | ⟨inStatement, visible⟩
  · exact .inl comma
  · exact .inr ⟨Token.mem_of_mem_splitStatements tokens statement split token inStatement, visible⟩

theorem shown_readFrom (reads : ReadsText formatter source tokens)
    (token : Token)
    (member : token ∈ formatter.shownAll tokens) :
    ∃ behind, Token.ReadFrom formatter.registry token behind := by
  rcases mem_shown_flatten reads token member with rfl | ⟨inside, -⟩
  · exact ⟨[], Token.readFrom_of_comma _ commaToken rfl rfl rfl []⟩
  · exact Token.readFrom_of_mem _ source tokens reads.lexed token inside

/-- What holds of two tokens of the source in their order, and sees no more of commas than
that they are commas, holds of the tokens that are shown. -/
theorem pairwise_shown (related : Token → Token → Prop)
    (reads : ReadsText formatter source tokens)
    (code : ∀ token ∈ tokens, token.isComment = false)
    (pairs : tokens.Pairwise fun first second => related first.face second.face) :
    (formatter.shownAll tokens).Pairwise fun first second =>
      related first.face second.face := by
  have faces := (List.pairwise_map.2 pairs).sublist (shown_flatten_sublist reads code)
  exact List.pairwise_map.1 faces

theorem shown_closed (reads : ReadsText formatter source tokens)
    (code : ∀ token ∈ tokens, token.isComment = false) :
    (formatter.shownAll tokens).Pairwise fun first _ =>
      Token.Closed formatter.registry first := by
  have comma : Token.Closed formatter.registry commaToken :=
    ⟨[','], by simp, Token.readFrom_of_comma _ commaToken rfl rfl rfl [',']⟩
  have pairs : tokens.Pairwise fun first _ => Token.Closed formatter.registry first.face := by
    refine (Token.pairwise_closed formatter.registry source tokens reads.lexed).imp ?_
    intro first _ closed
    unfold Token.face
    split
    · exact comma
    · exact closed
  have shown := pairwise_shown (fun first _ => Token.Closed formatter.registry first) reads code
    pairs
  refine shown.imp_of_mem ?_
  intro first second member _ closed
  by_cases isComma : first.kind = .comma
  · obtain ⟨behind, read⟩ := shown_readFrom reads first member
    exact Token.closed_of_comma read isComma
  · rwa [Token.face, if_neg isComma] at closed

theorem shown_brackets (reads : ReadsText formatter source tokens)
    (plain : Uncommented tokens) :
    (formatter.shownAll tokens).Pairwise fun first second =>
      first.text = "[" → ']' ∉ second.text.toList.dropLast := by
  have inSource (token : Token) (member : token ∈ tokens) : token.face.text = token.text := by
    obtain ⟨behind, read⟩ := Token.readFrom_of_mem _ source tokens reads.lexed token member
    exact token.text_face read.comma
  have inShown (token : Token)
      (member : token ∈ formatter.shownAll tokens) :
      token.face.text = token.text := by
    obtain ⟨behind, read⟩ := shown_readFrom reads token member
    exact token.text_face read.comma
  have pairs : tokens.Pairwise fun first second =>
      first.face.text = "[" → ']' ∉ second.face.text.toList.dropLast := by
    refine plain.brackets.imp_of_mem ?_
    intro first second firstMember secondMember pair
    rwa [inSource first firstMember, inSource second secondMember]
  refine (pairwise_shown (fun first second => first.text = "[" →
    ']' ∉ second.text.toList.dropLast) reads plain.code pairs).imp_of_mem ?_
  intro first second firstMember secondMember pair
  rwa [inShown first firstMember, inShown second secondMember] at pair

def lines (formatter : Formatter) (tokens : List Token)
    (places : List Token → List Placement) : List Placement :=
  Placement.lines ((formatter.written tokens).map places)

variable {places : List Token → List Placement}

theorem map_token_lines (rows : formatter.HasRows tokens places) :
    (formatter.lines tokens places).map Placement.token =
      formatter.shownAll tokens := by
  rw [lines, Placement.map_token_lines, List.map_map]
  refine congrArg List.flatten (List.map_congr_left fun statement member => ?_)
  exact (rows statement member).inRow.tokens

theorem row_lines_of_texts (texts : ∀ statement ∈ formatter.written tokens,
      Placement.row (places statement) =
        (formatter.formatStatement (commentLineStarts none tokens) statement).toList) :
    Placement.row (formatter.lines tokens places) = (formatter.formatTokens tokens).toList := by
  have full : ∀ placements ∈ (formatter.written tokens).map places, placements ≠ [] := by
    intro placements member nothing
    obtain ⟨statement, isWritten, rfl⟩ := List.mem_map.1 member
    have text := texts statement isWritten
    rw [nothing, Placement.row_nil] at text
    have empty := String.toList_eq_nil_iff.1 text.symm
    simpa [empty] using (List.mem_filter.1 isWritten).2
  rw [lines, Placement.row_lines _ full, formatTokens, String.toList_intercalate, List.map_map,
    List.filter_map, List.map_map]
  exact congrArg (List.intercalate _) (List.map_congr_left texts)

theorem row_lines (rows : formatter.HasRows tokens places) :
    Placement.row (formatter.lines tokens places) = (formatter.formatTokens tokens).toList :=
  row_lines_of_texts fun statement member => (rows statement member).text

theorem written_lines (reads : ReadsText formatter source tokens)
    (plain : Uncommented tokens) (separator : formatter.style.catalogSeparator = '.')
    (rows : formatter.HasRows tokens places) :
    Placement.Written formatter.registry (formatter.lines tokens places) := by
  have same := map_token_lines rows
  have isShown (placement : Placement) (member : placement ∈ formatter.lines tokens places) :
      placement.token ∈ formatter.shownAll tokens := by
    rw [← same]
    exact List.mem_map_of_mem member
  have closed := shown_closed reads plain.code
  have brackets := shown_brackets reads plain
  rw [← same, List.pairwise_map] at closed brackets
  refine ⟨?_, ?_, ?_, ?_, closed, brackets, ?_⟩
  · refine Placement.sound_lines _ fun placements member => ?_
    obtain ⟨statement, isWritten, rfl⟩ := List.mem_map.1 member
    exact (rows statement isWritten).inRow.sound
  · intro placement member
    rcases mem_shown_flatten reads placement.token (isShown placement member) with
      comma | ⟨inside, visible⟩
    · rw [comma]
      decide
    · have noComment := plain.code placement.token inside
      simp only [Token.isBlank, Token.isComment, decide_eq_false_iff_not] at visible noComment
      exact ⟨visible, noComment⟩
  · intro placement member wordLike
    rcases mem_shown_flatten reads placement.token (isShown placement member) with
      comma | ⟨inside, -⟩
    · rw [comma]
      decide
    · exact plain.dollars placement.token inside wordLike
  · intro placement member
    exact shown_readFrom reads placement.token (isShown placement member)
  · refine (Placement.isChain_lines _ _ (fun _ _ _ => Iff.rfl) ?_).2 fun placements member => ?_
    · intro first second gap noGap
      simp [noGap] at gap
    · obtain ⟨statement, isWritten, rfl⟩ := List.mem_map.1 member
      exact (rows statement isWritten).inRow.touches separator

theorem isChain_lines_iff (reads : ReadsText formatter source tokens)
    (separator : formatter.style.catalogSeparator = '.')
    (rows : formatter.HasRows tokens places) :
    ((formatter.lines tokens places).IsChain fun first second =>
        ¬Placement.Meets first second) ↔
      ∀ statement ∈ formatter.written tokens, ¬Placement.HyphensMeet (places statement) := by
  rw [lines, Placement.isChain_lines (fun first second => ¬Placement.Meets first second) _
    (fun _ _ _ => Iff.rfl) fun _ _ gap meets => by simp [meets.1] at gap, List.forall_mem_map]
  refine forall₂_congr fun statement member => ?_
  have inRow := (rows statement member).inRow
  constructor
  · rintro apart ⟨front, hyphen, next, back, whole, meets, -⟩
    rw [whole, List.isChain_append_cons_cons] at apart
    exact apart.2.1 meets
  · intro apart
    refine inRow.isChain_of_not_meet formatter.registry separator ?_ apart
    intro placement inside
    refine shown_readFrom reads placement.token ?_
    refine List.mem_flatten.2 ⟨formatter.shown statement, List.mem_map_of_mem member, ?_⟩
    rw [← inRow.tokens]
    exact List.mem_map_of_mem inside

end Lines

/-- Formatting turns code into a comment where a hyphen with one operand has another hyphen
glued to it, and nowhere else: the rows of the statements decide what the text is read as.
This holds of sources without comments, whose words have no two dollar signs and whose
single brackets come before no token with a closing bracket inside, for all words, widths
and styles that separate names by points and do not name columns; that hyphens lead to
a comment is said for sources without single brackets. -/
theorem relexed_uncommented (formatter : Formatter)
    (phrases : formatter.registry.compounds = commonPhrases) (source : String)
    (tokens : List Token) (lexed : Token.tokens? formatter.registry source = .ok tokens)
    (plain : Uncommented tokens) (unnamed : formatter.style.addColumnNameComments = false)
    (separator : formatter.style.catalogSeparator = '.') :
    ∃ (text : String) (places : List Token → List Placement), formatter.format source = .ok text ∧
      formatter.HasRows tokens places ∧
      ((∀ statement ∈ formatter.written tokens, ¬Placement.HyphensMeet (places statement)) →
        ∀ token ∈ (Token.lex formatter.registry text).tokens, token.isComment = false) ∧
      ((∀ token ∈ tokens, token.text ≠ "[") →
        (∃ statement ∈ formatter.written tokens, Placement.HyphensMeet (places statement)) →
        ∀ relexed, Token.tokens? formatter.registry text = .ok relexed →
          ∃ token ∈ relexed, token.isComment = true) := by
  have reads : ReadsText formatter source tokens := ⟨phrases, lexed⟩
  obtain ⟨places, rows⟩ := exists_rows reads unnamed
  have text := (row_lines rows).symm
  have written := written_lines reads plain separator rows
  have meetings := isChain_lines_iff reads separator rows
  refine ⟨formatter.formatTokens tokens, places, ?_, rows, ?_, ?_⟩
  · rw [format, reads.lexed]
    rfl
  · intro apart
    exact written.no_comment reads.plain (meetings.2 apart) _ text
  · rintro single ⟨statement, member, meet⟩
    refine written.exists_comment reads.plain ?_ ?_ _ text
    · intro placement inside
      have isShown : placement.token ∈ (formatter.lines tokens places).map Placement.token :=
        List.mem_map_of_mem inside
      rw [map_token_lines rows] at isShown
      rcases mem_shown_flatten reads placement.token isShown with comma | ⟨inSource, -⟩
      · rw [comma]
        decide
      · exact single placement.token inSource
    · intro apart
      exact meetings.1 apart statement member meet

def negativeNumber : List Token :=
  [⟨.reservedWord, "select", 0, "SELECT"⟩, .plain .blank " " 6, .plain .numberLiteral "-1" 7]

theorem relexed_uncommented_number :
    ∃ text, standard.format "select -1" = .ok text ∧
      ∀ token ∈ (Token.lex standard.registry text).tokens, token.isComment = false := by
  have lexed := (Token.tokens?_eq_ok_iff (Registry.common {}) "select -1" negativeNumber).2
    (by decide +kernel)
  obtain ⟨text, places, formatted, rows, apart, -⟩ := relexed_uncommented standard rfl _
    negativeNumber lexed ⟨by decide, by decide, by decide⟩ rfl rfl
  refine ⟨text, formatted, apart ?_⟩
  rintro statement member ⟨front, hyphen, next, back, whole, meets, -⟩
  -- No token that is shown is a hyphen.
  have shown : ∀ statement ∈ Token.splitStatements negativeNumber,
      ∀ token ∈ standard.shown statement, token.text ≠ "-" := by decide +kernel
  refine shown statement (List.mem_filter.1 member).1 hyphen.token ?_ meets.2.1
  rw [← (rows statement member).inRow.tokens]
  exact List.mem_map_of_mem (by simp [whole])

def doubleNegative : List Token :=
  [⟨.reservedWord, "select", 0, "SELECT"⟩, .plain .blank " " 6, .plain .operator "-" 7,
    .plain .blank " " 8, .plain .numberLiteral "-1" 9]

/-- The number becomes a comment. -/
theorem double_negative_commented :
    Token.tokens? standard.registry "select - -1" = .ok doubleNegative ∧
    (∀ token ∈ doubleNegative, token.isComment = false) ∧
    standard.style.addColumnNameComments = false ∧ standard.style.catalogSeparator = '.' ∧
    standard.formatTokens doubleNegative = "SELECT --1" ∧
    ∃ relexed, Token.tokens? standard.registry "SELECT --1" = .ok relexed ∧
      ∃ token ∈ relexed, token.isComment = true := by
  refine ⟨(Token.tokens?_eq_ok_iff _ _ _).2 (by decide +kernel), by decide, rfl, rfl,
    by decide +kernel, _, (Token.tokens?_eq_ok_iff _ _ _).2 ⟨by decide +kernel, rfl⟩, ?_⟩
  exact List.any_eq_true.1 (by decide +kernel)

def enclosedNegative : List Token :=
  [⟨.reservedWord, "select", 0, "SELECT"⟩, .plain .blank " " 6, .plain .parenOpen "(" 7,
    .plain .operator "-" 8, .plain .blank " " 9, .plain .numberLiteral "-1" 10,
    .plain .parenClose ")" 12]

/-- The comment takes the closing parenthesis with it, so that the text is no fixed point. -/
theorem enclosed_negative_reformatted :
    Token.tokens? standard.registry "select (- -1)" = .ok enclosedNegative ∧
    (walk ⟨standard.registry, standard.style.functionNames⟩ enclosedNegative).progress.notices =
      [] ∧
    standard.style.addColumnNameComments = false ∧ standard.style.catalogSeparator = '.' ∧
    standard.formatTokens enclosedNegative = "SELECT (--1)" ∧
    ∃ relexed, Token.tokens? standard.registry "SELECT (--1)" = .ok relexed ∧
      standard.formatTokens relexed = "SELECT ( --1)" :=
  ⟨(Token.tokens?_eq_ok_iff _ _ _).2 (by decide +kernel), by decide +kernel, rfl, rfl,
    by decide +kernel, _, (Token.tokens?_eq_ok_iff _ _ _).2 ⟨by decide +kernel, rfl⟩,
    by decide +kernel⟩

end Formatter

end SqlLayout

import SqlLayout.Proofs.Listing
import SqlLayout.Proofs.Outlining
import SqlLayout.Proofs.Unfailing

/-! Lists of names with their wraps, from the text of a query to the text that it is formatted
to. The writer only remembers spaces and line breaks, so drawing is followed by what has been
written and what is asked for: a space asks for one on a line that has something on it, a line
break forgets what was asked for before, and a text takes all of it. An entry of a list then
adds what separates it from the one before, and the list is the sum of its entries. -/
namespace SqlLayout

open Keyword Layout

namespace Layout

/-- What separates the entry at an index of a SELECT from the one before it. The comma at a wrap
may lead the new line. -/
def listSeparator (threshold : Nat) (leading spaced : Bool) (index : Nat) : String :=
  if index = 0 then ""
  else if index % threshold ≠ 0 then ", "
  else if leading then if spaced then "\n       , " else "\n       ,"
  else ",\n       "

def listText (threshold : Nat) (leading spaced : Bool) (names : List String) : String :=
  String.join (names.mapIdx fun index name =>
    listSeparator threshold leading spaced index ++ name)

/-- A query for names from one source, whose name may be the one that is read as the keyword of a
join. -/
def queryText (style : Style) (names : List String) (table : String) : String :=
  "SELECT " ++ listText style.maxColumnsSelect style.commaAfterLineBreak
      style.spaceAfterLineBreakComma names ++ "\nFROM" ++
    (if Text.upper table = "STRAIGHT_JOIN" then "\n  " else " ") ++ table

/-- A writer that makes its line breaks, outside of parentheses. It has written some characters,
a token last, and is asked for a break or not and for a number of spaces. -/
structure Writer.Awaits (written : List Char) (last : Token) (breaks : Bool) (spaces : Nat)
    (w : Writer) : Prop where
  chars : w.chars = written
  last : w.last = some last
  pendingBreak : w.pendingBreak = breaks
  lineHasContent : w.lineHasContent = !breaks
  pendingSpaces : w.pendingSpaces = spaces
  inline : w.inline = false
  loose : w.lastUnary = false
  outside : w.parens = []
  free : w.breakIndent = none

structure Sheet.Shows (sheet : Sheet) (token : Token) (text : String) : Prop where
  wordLike : token.kind.isWordLike = true
  filled : text ≠ ""
  cased : ∀ last : Option Token, (last.all fun token => token.kind ≠ .operator) = true →
    sheet.cased token last false = text

namespace Writer.Awaits

variable {written : List Char} {last : Token} {breaks : Bool} {spaces : Nat} {w : Writer}

theorem space (awaits : w.Awaits written last breaks spaces) :
    w.space.Awaits written last breaks (if breaks then spaces else max spaces 1) := by
  obtain ⟨chars, behind, pendingBreak, content, pendingSpaces, inline, loose, outside, free⟩ :=
    awaits
  cases breaks with
  | false =>
    have same : w.space = { w with pendingSpaces := max w.pendingSpaces 1 } := by
      rw [Writer.space, Writer.spaces, content]
      rfl
    rw [same]
    exact ⟨chars, behind, pendingBreak, content, congrArg (max · 1) pendingSpaces, inline, loose,
      outside, free⟩
  | true =>
    have same : w.space = w := by
      rw [Writer.space, Writer.spaces, content]
      rfl
    rw [same]
    exact ⟨chars, behind, pendingBreak, content, pendingSpaces, inline, loose, outside, free⟩

theorem newline (awaits : w.Awaits written last false spaces) (indent : Nat) :
    (w.newline indent).Awaits written last true indent := by
  obtain ⟨chars, behind, pendingBreak, content, -, inline, loose, outside, -⟩ := awaits
  have same : w.newline indent = { w with
      breakIndent := none, pendingBreak := true, lineHasContent := false, column := 0
      pendingSpaces := indent, indent } := by
    simp [Writer.newline, inline, pendingBreak, content]
  rw [same]
  exact ⟨chars, behind, rfl, rfl, rfl, inline, loose, outside, rfl⟩

theorem write (awaits : w.Awaits written last breaks spaces) (text : String) (token : Token)
    (filled : text ≠ "") :
    ((w.write text).mark token false).Awaits (written ++ (Piece.mk breaks spaces text).chars)
      token false 0 := by
  obtain ⟨chars, -, pendingBreak, -, pendingSpaces, inline, -, outside, free⟩ := awaits
  have settled : w.settle = w := by
    rw [settle, free]
  have written : (w.write text).chars = w.chars ++ (Piece.mk breaks spaces text).chars := by
    rw [chars_write text w filled, settled, pendingBreak, pendingSpaces]
  rw [Writer.write, if_neg filled, settled] at written ⊢
  exact ⟨chars ▸ written, rfl, rfl, rfl, rfl, inline, rfl, outside, free⟩

theorem markAs (awaits : w.Awaits written last breaks spaces) (token : Token) :
    (w.markAs token).Awaits written token breaks spaces :=
  { awaits with last := rfl }

variable {sheet : Sheet} {token : Token} {text : String}

theorem word (awaits : w.Awaits written last breaks spaces) (shows : sheet.Shows token text)
    (calm : last.kind ∈ [.reservedWord, .identifier, .comma, .parenOpen]) (indent : Nat) :
    (sheet.token indent token w).Awaits
      (written ++ (Piece.mk breaks
        (if breaks || last.kind = .parenOpen then spaces else max spaces 1) text).chars)
      token false 0 := by
  have kinds : token.kind ≠ .comment ∧ token.kind ≠ .operator ∧ token.kind ≠ .comma ∧
      token.kind ≠ .semicolon ∧ token.kind ≠ .parenClose := by
    have wordLike := shows.wordLike
    cases kind : token.kind <;> simp [kind, Token.Kind.isWordLike] at wordLike ⊢
  simp only [List.mem_cons, List.not_mem_nil, or_false] at calm
  have shown : sheet.cased token w.last false = text := by
    refine shows.cased _ ?_
    rw [awaits.last]
    rcases calm with kind | kind | kind | kind <;> simp [kind]
  have apart : sheet.needsSpace w token = decide (last.kind ≠ .parenOpen) := by
    rcases calm with kind | kind | kind | kind <;>
      simp [Sheet.needsSpace, awaits.last, Token.isComment, Sheet.gluesAfter, Sheet.gluesBefore,
        kind, kinds, awaits.loose, inListParens, awaits.outside]
  have unary : Sheet.isUnary token w.last = false := by simp [Sheet.isUnary, kinds]
  have noComment : ¬token.isComment = true := by simp [Token.isComment, kinds]
  have drawn : sheet.token indent token w =
      ((if last.kind = .parenOpen then w else w.space).write text).mark token false := by
    rw [Sheet.token, Sheet.word, if_neg noComment, shown, Sheet.solid, apart, unary]
    by_cases opens : last.kind = .parenOpen <;> simp [opens]
  rw [drawn]
  by_cases opens : last.kind = .parenOpen
  · simpa [opens] using awaits.write text token shows.filled
  · simpa [opens] using awaits.space.write text token shows.filled

theorem punct (awaits : w.Awaits written last breaks spaces) (token : Token)
    (filled : token.text ≠ "") :
    (Sheet.punct token w).Awaits (written ++ (Piece.mk breaks spaces token.text).chars)
      token false 0 :=
  awaits.write token.text token filled

end Writer.Awaits

def Writer.BehindWord (written : List Char) (w : Writer) : Prop :=
  ∃ last, last.kind.isWordLike = true ∧ w.Awaits written last false 0

namespace Writer.BehindWord

variable {sheet : Sheet} {token : Token} {text : String} {written : List Char} {w : Writer}

theorem calm {last : Token} (wordLike : last.kind.isWordLike = true) :
    last.kind ∈ [.reservedWord, .identifier, .comma, .parenOpen] ∧ last.kind ≠ .parenOpen := by
  cases kind : last.kind <;> simp [kind, Token.Kind.isWordLike] at wordLike ⊢

theorem beside (behind : w.BehindWord written) (shows : sheet.Shows token text) (indent : Nat) :
    (sheet.token indent token w).BehindWord (written ++ ' ' :: text.toList) := by
  obtain ⟨last, wordLike, awaits⟩ := behind
  obtain ⟨among, noParen⟩ := calm wordLike
  have drawn := awaits.word shows among indent
  exact ⟨token, shows.wordLike, by simpa [noParen, Piece.chars, Piece.separator] using drawn⟩

/-- A space that is asked for is the one that a word has before it anyway. -/
theorem space_beside (behind : w.BehindWord written) (shows : sheet.Shows token text)
    (indent : Nat) :
    (sheet.token indent token w.space).BehindWord (written ++ ' ' :: text.toList) := by
  obtain ⟨last, wordLike, awaits⟩ := behind
  obtain ⟨among, noParen⟩ := calm wordLike
  have drawn := awaits.space.word shows among indent
  exact ⟨token, shows.wordLike, by simpa [noParen, Piece.chars, Piece.separator] using drawn⟩

theorem below (behind : w.BehindWord written) (shows : sheet.Shows token text)
    (margin indent : Nat) :
    (sheet.token indent token (w.newline margin)).BehindWord
      (written ++ '\n' :: (List.replicate margin ' ' ++ text.toList)) := by
  obtain ⟨last, wordLike, awaits⟩ := behind
  have drawn := (awaits.newline margin).word shows (calm wordLike).1 indent
  exact ⟨token, shows.wordLike, by simpa [Piece.chars, Piece.separator] using drawn⟩

theorem listed (behind : w.BehindWord written) (shows : sheet.Shows token text)
    (threshold index : Nat) (later : index ≠ 0) :
    (sheet.token 7 token (sheet.listComma 7 threshold index w)).BehindWord
      (written ++ (listSeparator threshold sheet.style.commaAfterLineBreak
        sheet.style.spaceAfterLineBreakComma index ++ text).toList) := by
  obtain ⟨last, wordLike, awaits⟩ := behind
  refine ⟨token, shows.wordLike, ?_⟩
  have isComma : commaToken.kind ∈ [.reservedWord, .identifier, .comma, .parenOpen] := by decide
  have isOpening : openToken.kind ∈ [.reservedWord, .identifier, .comma, .parenOpen] := by decide
  have comma {written : List Char} {last : Token} {breaks : Bool} {spaces : Nat} {w : Writer}
      (awaits : w.Awaits written last breaks spaces) := awaits.punct commaToken (by decide)
  rw [listSeparator, if_neg later, Sheet.listComma, if_neg later]
  by_cases wraps : index % threshold = 0
  · have noInline : ¬w.inline = true := by simp [awaits.inline]
    rw [if_neg (not_not_intro wraps), if_pos wraps, Sheet.lineBreakComma, if_neg noInline]
    cases sheet.style.commaAfterLineBreak with
    | false =>
      have drawn := ((comma awaits).newline 7).word shows isComma 7
      simpa [Piece.chars, Piece.separator, commaToken, Token.plain] using drawn
    | true =>
      cases sheet.style.spaceAfterLineBreakComma with
      | false =>
        have drawn := ((comma (awaits.newline 7)).markAs openToken).word shows isOpening 7
        simpa [Piece.chars, Piece.separator, commaToken, openToken, Token.plain] using drawn
      | true =>
        have drawn := (comma (awaits.newline 7)).space.word shows isComma 7
        simpa [Piece.chars, Piece.separator, commaToken, Token.plain] using drawn
  · rw [if_pos wraps, if_neg wraps]
    have drawn := (comma awaits).space.word shows isComma 7
    simpa [Piece.chars, Piece.separator, commaToken, Token.plain] using drawn

end Writer.BehindWord

namespace Sheet

variable {sheet : Sheet}

theorem noOperator {last : Option Token}
    (calm : (last.all fun token => token.kind ≠ .operator) = true) :
    (last.filter fun last => last.kind = .operator) = none := by
  cases last with
  | none => rfl
  | some token => simpa [Option.filter] using calm

theorem shows_name (asIs : sheet.style.identifierCase = .asIs) {name : Token}
    (kind : name.kind = .identifier) (filled : name.text ≠ "") : sheet.Shows name name.text := by
  refine ⟨by rw [kind]; rfl, filled, fun last calm => ?_⟩
  simp [cased, caseFor, kind, Token.Kind.isWordLike, Token.isReserved, noOperator calm, asIs,
    Style.WordCase.apply]

theorem shows_keyword (upper : sheet.style.keywordCase = .upper) {keyword : Token}
    (kind : keyword.kind = .reservedWord) (filled : Text.upper keyword.contents ≠ "") :
    sheet.Shows keyword (Text.upper keyword.contents) := by
  refine ⟨by rw [kind]; rfl, filled, fun last calm => ?_⟩
  simp [cased, caseFor, kind, Token.Kind.isWordLike, Token.isReserved, noOperator calm,
    keywordText, upper, Style.WordCase.apply]

theorem run_token (height : Nat) (mode : RunMode) (plain : mode.typeAfterAs = false)
    (indent : Nat) (token : Token) (w : Writer) :
    (sheet.painter (height + 1)).run mode indent [.token token] w = sheet.token indent token w := by
  simp [painter, run, runFrom, plain, startsCall, Sheet.token]

theorem run_nil (height : Nat) (mode : RunMode) (indent : Nat) (w : Writer) :
    (sheet.painter (height + 1)).run mode indent [] w = w := rfl

theorem each_listed (names : List Token) (shows : ∀ name ∈ names, sheet.Shows name name.text)
    (threshold index : Nat) (later : index ≠ 0) (written : List Char) (w : Writer)
    (behind : w.BehindWord written) :
    (Writer.each (fun index name w => sheet.token 7 name (sheet.listComma 7 threshold index w))
      index names w).BehindWord
      (written ++ ((names.zipIdx index).flatMap fun entry =>
        (listSeparator threshold sheet.style.commaAfterLineBreak
          sheet.style.spaceAfterLineBreakComma entry.2 ++ entry.1.text).toList)) := by
  induction names generalizing index written w with
  | nil => simpa using behind
  | cons name rest ih =>
    rw [List.forall_mem_cons] at shows
    have onward := ih shows.2 (index + 1) (Nat.succ_ne_zero index) _ _
      (behind.listed shows.1 threshold index later)
    rw [List.zipIdx_cons, List.flatMap_cons, ← List.append_assoc]
    exact onward

theorem itemList_names (height threshold : Nat) (first : Token) (others : List Token)
    (shows : ∀ name ∈ first :: others, sheet.Shows name name.text) (written : List Char)
    (w : Writer) (behind : w.BehindWord written) :
    (sheet.itemList (sheet.painter (height + 1)) 7 threshold
      ((first :: others).map fun name => [.token name]) w.space).BehindWord
      (written ++ ' ' :: (((first :: others).zipIdx).flatMap fun entry =>
        (listSeparator threshold sheet.style.commaAfterLineBreak
          sheet.style.spaceAfterLineBreakComma entry.2 ++ entry.1.text).toList)) := by
  rw [List.forall_mem_cons] at shows
  have front := behind.space_beside shows.1 7
  have onward := each_listed others shows.2 threshold 1 Nat.one_ne_zero _ _ front
  rw [itemList, Writer.each_map]
  simp only [run_token]
  simpa [Writer.each, listComma, listSeparator] using onward

theorem behindWord_first {token : Token} {text : String} (shows : sheet.Shows token text)
    (indent : Nat) : (sheet.token indent token {}).BehindWord text.toList := by
  have kinds : token.kind ≠ .comment ∧ token.kind ≠ .operator := by
    have wordLike := shows.wordLike
    cases kind : token.kind <;> simp [kind, Token.Kind.isWordLike] at wordLike ⊢
  have drawn : sheet.token indent token {} = (({} : Writer).put text).mark token false := by
    simp [Sheet.token, word, solid, shows.cased none rfl, Token.isComment, isUnary, kinds,
      needsSpace, Writer.space, Writer.spaces, Writer.write, Writer.settle, shows.filled]
  rw [drawn]
  exact ⟨token, shows.wordLike, by simp [Writer.chars, Writer.put, Writer.mark, Piece.chars,
    Piece.separator], rfl, rfl, rfl, rfl, rfl, rfl, rfl, rfl⟩

end Sheet

end Layout

namespace NameQuery

open SqlLayout.Tree

variable (query : NameQuery) {sheet : Sheet}

theorem shows_names (asIs : sheet.style.identifierCase = .asIs) (name : Token)
    (member : name ∈ query.table :: query.columns) : sheet.Shows name name.text :=
  let facts := query.names name member
  Sheet.shows_name asIs facts.1 facts.2.2

theorem behindWord_select (asIs : sheet.style.identifierCase = .asIs)
    (upper : sheet.style.keywordCase = .upper) (height : Nat) :
    (sheet.clause (sheet.painter (height + 1)) 0 ⟨some query.select, .projection []
        ⟨query.columns.map fun name => [.token name], query.others.map Prod.fst⟩⟩ {}).BehindWord
      ("SELECT " ++ listText sheet.style.maxColumnsSelect sheet.style.commaAfterLineBreak
        sheet.style.spaceAfterLineBreakComma (query.columns.map Token.text)).toList := by
  have select := Sheet.shows_keyword upper query.select_reserved
    (by rw [query.select_contents]; decide)
  rw [query.select_contents, show Text.upper "SELECT" = "SELECT" by decide] at select
  have drawn := Sheet.itemList_names height sheet.style.maxColumnsSelect query.first
    (query.others.map Prod.snd)
    (fun name member => query.shows_names asIs name (List.mem_cons_of_mem _ member)) _ _
    (Sheet.behindWord_first select 0)
  rw [show query.first :: query.others.map Prod.snd = query.columns from rfl] at drawn
  have list : (listText sheet.style.maxColumnsSelect sheet.style.commaAfterLineBreak
        sheet.style.spaceAfterLineBreakComma (query.columns.map Token.text)).toList =
      query.columns.zipIdx.flatMap fun entry =>
        (listSeparator sheet.style.maxColumnsSelect sheet.style.commaAfterLineBreak
          sheet.style.spaceAfterLineBreakComma entry.2 ++ entry.1.text).toList := by
    simp [listText, List.mapIdx_eq_zipIdx_map, List.zipIdx_map, List.flatMap_def,
      Function.comp_def]
  rw [Sheet.clause]
  simpa [Sheet.run_nil, list] using drawn

/-- The source stands behind FROM, but the keyword of a join on a line of its own. -/
theorem behindWord_origin (asIs : sheet.style.identifierCase = .asIs)
    (upper : sheet.style.keywordCase = .upper) (height : Nat) (written : List Char) (w : Writer)
    (behind : w.BehindWord written) :
    (sheet.clause (sheet.painter (height + 1)) 0 ⟨some query.origin, query.sources⟩
      (w.newline 0)).BehindWord
        (written ++ ("\nFROM" ++
          (if Text.upper query.table.text = "STRAIGHT_JOIN" then "\n  " else " ") ++
            query.table.text).toList) := by
  have origin := Sheet.shows_keyword upper query.origin_reserved
    (by rw [query.origin_contents]; decide)
  rw [query.origin_contents, show Text.upper "FROM" = "FROM" by decide] at origin
  have table := query.shows_names asIs query.table (by simp)
  have front := behind.below origin 0 0
  rw [sources, Sheet.clause]
  by_cases straight : Text.upper query.table.text = "STRAIGHT_JOIN"
  · have drawn := front.below table 2 2
    simpa [straight, Sheet.sources, Writer.each, Sheet.join, Sheet.joinConditions, Sheet.run_nil]
      using drawn
  · have drawn := front.beside table 5
    simpa [straight, Sheet.sources, Writer.each, Sheet.run_token] using drawn

theorem render_statement (asIs : sheet.style.identifierCase = .asIs)
    (upper : sheet.style.keywordCase = .upper) :
    sheet.render query.statement none =
      queryText sheet.style (query.columns.map Token.text) query.table.text := by
  obtain ⟨height, high⟩ : ∃ height, query.statement.height = height + 1 :=
    ⟨_, by rw [statement, Statement.ofForm, Statement.height]⟩
  have front := query.behindWord_select asIs upper height
  obtain ⟨last, -, drawn⟩ := query.behindWord_origin asIs upper height _ _ front
  have whole : ((sheet.painter (query.statement.height + 1)).statement 0 query.statement {}) =
      sheet.clause (sheet.painter (height + 1)) 0 ⟨some query.origin, query.sources⟩
        ((sheet.clause (sheet.painter (height + 1)) 0 ⟨some query.select, .projection []
          ⟨query.columns.map fun name => [.token name], query.others.map Prod.fst⟩⟩ {}).newline
            0) := by
    rw [high, Sheet.painter]
    simp only [Sheet.statement, statement, Statement.ofForm, Sheet.form, Sheet.clauses, clauses,
      Writer.each, if_true, Nat.zero_add, Nat.one_ne_zero, if_false]
  refine String.toList_injective ?_
  rw [Sheet.render, whole, Writer.text, drawn.chars, String.toList_ofList, queryText]
  simp

end NameQuery

namespace Token

theorem splitStatements_single (tokens : List Token) (filled : tokens ≠ [])
    (plain : ∀ token ∈ tokens, token.kind ≠ .semicolon) : splitStatements tokens = [tokens] := by
  induction tokens with
  | nil => exact absurd rfl filled
  | cons token rest ih =>
    rw [List.forall_mem_cons] at plain
    rw [splitStatements_cons token rest plain.1]
    cases rest with
    | nil => rfl
    | cons next others => rw [ih (List.cons_ne_nil _ _) plain.2]; rfl

end Token

namespace Formatter

def wrapOptions (threshold : Nat) (leading spaced : Bool) : List (String × Value) :=
  ("max_columns_select", .int threshold) ::
    ((if leading then [("comma_after_line_break", .bool true)] else []) ++
      if spaced then [("space_after_line_break_comma", .bool true)] else [])

def wrapStyle (threshold : Nat) (leading spaced : Bool) : Style :=
  { maxColumnsSelect := threshold, commaAfterLineBreak := leading,
    spaceAfterLineBreakComma := spaced }

theorem ofValue_wrapOptions (threshold : Nat) (leading spaced : Bool) (positive : 1 ≤ threshold) :
    (Style.ofValue (.record (wrapOptions threshold leading spaced))).outcome =
      .ok (wrapStyle threshold leading spaced) := by
  have number : Style.readThreshold .maxColumnsSelect 1 (.int threshold) = pure threshold := by
    have bound : ¬(threshold : Int) < 1 := by omega
    simp [Style.readThreshold, Value.isInfinite, Value.toInteger?, bound]
  have select : Style.OptionKey.resolve? "max_columns_select" = some .maxColumnsSelect :=
    Style.OptionKey.resolve?_name .maxColumnsSelect
  have comma : Style.OptionKey.resolve? "comma_after_line_break" = some .commaAfterLineBreak :=
    Style.OptionKey.resolve?_name .commaAfterLineBreak
  have space : Style.OptionKey.resolve? "space_after_line_break_comma" =
      some .spaceAfterLineBreakComma :=
    Style.OptionKey.resolve?_name .spaceAfterLineBreakComma
  have read (settings : Style.Settings)
      (set : settings.lookup .maxColumnsSelect = some (.int threshold)) :
      Style.readOr settings .maxColumnsSelect 1 Style.readThreshold = pure threshold := by
    rw [Style.readOr, set]
    exact number
  have made : Style.ofValue (.record (wrapOptions threshold leading spaced)) =
      Style.ofSettings (
        (if spaced then [(Style.OptionKey.spaceAfterLineBreakComma, Value.bool true)] else []) ++
        (if leading then [(Style.OptionKey.commaAfterLineBreak, Value.bool true)] else []) ++
          [(Style.OptionKey.maxColumnsSelect, Value.int threshold)]) := by
    cases leading <;> cases spaced <;>
      simp [Style.ofValue, Value.isSet, wrapOptions, Style.ofRecord, Style.settingsOfRecord,
        select, comma, space]
  rw [made, Style.ofSettings, read _ (by cases leading <;> cases spaced <;> rfl)]
  cases leading <;> cases spaced <;> rfl

theorem make_wrapOptions (catalogue : Catalogue) (threshold : Nat) (leading spaced : Bool)
    (positive : 1 ≤ threshold) :
    (make catalogue { style := .inr (.record (wrapOptions threshold leading spaced)) }).outcome =
      .ok (⟨wrapStyle threshold leading spaced, 60, .null, .common catalogue.library⟩,
        catalogue) := by
  have style : (readStyle (.inr (.record (wrapOptions threshold leading spaced)))).outcome =
      .ok (wrapStyle threshold leading spaced) :=
    ofValue_wrapOptions threshold leading spaced positive
  have width : (readWidth (.int 60)).outcome = .ok 60 := rfl
  have found : (findRegistry catalogue .null).outcome =
      .ok (.common catalogue.library, catalogue) := rfl
  rw [make, Report.bind_outcome]
  refine ⟨_, style, ?_⟩
  rw [Report.bind_outcome]
  refine ⟨60, width, ?_⟩
  rw [Report.bind_outcome]
  exact ⟨_, found, rfl⟩

theorem formatTokens_nameQuery (formatter : Formatter) (tokens : List Token) (query : NameQuery)
    (asIs : formatter.style.identifierCase = .asIs) (upper : formatter.style.keywordCase = .upper)
    (visible : Token.visible tokens = query.tokens) :
    formatter.formatTokens tokens =
      queryText formatter.style (query.columns.map Token.text) query.table.text := by
  have noSemicolon : ∀ token ∈ query.tokens, token.kind ≠ .semicolon := by
    intro token member
    rcases query.token_kind token member with kind | kind | ⟨kind, -⟩ <;> simp [kind]
  have single : Token.splitStatements query.tokens = [query.tokens] :=
    Token.splitStatements_single query.tokens (by simp [NameQuery.tokens]) noSemicolon
  have solid : (query.tokens.all fun token =>
      token.isBlank || token.kind = .semicolon) = false := by
    simp [NameQuery.tokens, Token.isBlank, query.select_reserved]
  have unfinished : query.tokens.getLast?.filter (fun token => token.kind = .semicolon) = none := by
    rw [query.tokens_eq_append, List.getLast?_concat]
    simp [Option.filter, (query.names query.table (by simp)).1]
  have text (lines : List Nat) : formatter.formatStatement lines query.tokens =
      queryText formatter.style (query.columns.map Token.text) query.table.text := by
    rw [formatStatement, if_neg (by rw [solid]; exact Bool.false_ne_true)]
    simp only [unfinished, NameQuery.walk_tokens]
    exact query.render_statement asIs upper
  rw [formatTokens]
  change "\n\n".intercalate (((Token.splitStatements tokens).map
    (formatter.formatStatement (commentLineStarts none tokens))).filter (· ≠ "")) = _
  rw [← texts_visible, visible, single, List.map_singleton, text]
  simp [queryText]

theorem format_nameQuery (library : Library) (threshold : Nat) (leading spaced : Bool)
    (names : List String) (table : String) (filled : names ≠ [])
    (words : ∀ name ∈ table :: names, Token.IsFreeWord name) :
    (⟨wrapStyle threshold leading spaced, 60, .null, .common library⟩ : Formatter).format
        ("select " ++ ",".intercalate names ++ " from " ++ table) =
      .ok ("SELECT " ++ listText threshold leading spaced names ++ "\nFROM" ++
        (if Text.upper table = "STRAIGHT_JOIN" then "\n  " else " ") ++ table) := by
  obtain ⟨first, others, rfl⟩ := List.exists_cons_of_ne_nil filled
  rw [List.forall_mem_cons] at words
  obtain ⟨tokens, query, lexed, visible, columns, source⟩ :=
    Token.exists_nameQuery library words.2 words.1
  rw [format, lexed, Except.map, formatTokens_nameQuery _ tokens query rfl rfl visible, columns,
    source]
  rfl

/-- Threshold wrapping from the text to the text. Words that are not reserved, with commas between
them, come out on lines of `threshold` names each. At a wrap the comma ends the line, or with
`comma_after_line_break` leads the next one, with a space behind it or not. The source stands
behind FROM, unless it is called STRAIGHT_JOIN and is read as the keyword of a join. -/
theorem format_wraps_names (catalogue : Catalogue) (threshold : Nat) (leading spaced : Bool)
    (names : List String) (table : String) (filled : names ≠ []) (positive : 1 ≤ threshold)
    (words : ∀ name ∈ table :: names, Token.IsFreeWord name) :
    ∃ formatter later,
      (make catalogue { style := .inr (.record (wrapOptions threshold leading spaced)) }).outcome =
        .ok (formatter, later) ∧
      formatter.format ("select " ++ ",".intercalate names ++ " from " ++ table) =
        .ok ("SELECT " ++ listText threshold leading spaced names ++ "\nFROM" ++
          (if Text.upper table = "STRAIGHT_JOIN" then "\n  " else " ") ++ table) :=
  ⟨_, _, make_wrapOptions catalogue threshold leading spaced positive,
    format_nameQuery _ threshold leading spaced names table filled words⟩

theorem format_wraps_names_leading :
    ["größe", "b", "c"] ≠ [] ∧ 1 ≤ 2 ∧
      (∀ name ∈ "t" :: ["größe", "b", "c"], Token.IsFreeWord name) ∧
      ∃ formatter later,
        (make {} { style := .inr (.record (wrapOptions 2 true true)) }).outcome =
          .ok (formatter, later) ∧
        formatter.format "select größe,b,c from t" =
          .ok "SELECT größe, b\n       , c\nFROM t" := by
  have words : ∀ name ∈ "t" :: ["größe", "b", "c"], Token.IsFreeWord name := by decide +kernel
  obtain ⟨formatter, later, made, text⟩ := format_wraps_names {} 2 true true ["größe", "b", "c"] "t"
    (by simp) (by decide) words
  have usual : Text.upper "t" ≠ "STRAIGHT_JOIN" := by decide
  rw [if_neg usual] at text
  exact ⟨by simp, by decide, words, formatter, later, made, text⟩

/-- The one word that is not reserved and yet read as a keyword behind FROM. -/
theorem format_straight_join :
    (∀ name ∈ "straight_join" :: ["a"], Token.IsFreeWord name) ∧
      (make {} { style := .inr (.record (wrapOptions 1 false false)) }).outcome =
        .ok (⟨wrapStyle 1 false false, 60, .null, .common {}⟩, {}) ∧
      (⟨wrapStyle 1 false false, 60, .null, .common {}⟩ : Formatter).format
          "select a from straight_join" =
        .ok "SELECT a\nFROM\n  straight_join" ∧
      "SELECT a\nFROM\n  straight_join" ≠
        "SELECT " ++ listText 1 false false ["a"] ++ "\nFROM " ++ "straight_join" := by
  have words : ∀ name ∈ "straight_join" :: ["a"], Token.IsFreeWord name := by decide +kernel
  have text := format_nameQuery {} 1 false false ["a"] "straight_join" (by simp) words
  have straight : Text.upper "straight_join" = "STRAIGHT_JOIN" := by decide
  rw [if_pos straight] at text
  exact ⟨words, make_wrapOptions {} 1 false false (by decide), text, by decide⟩

end Formatter

end SqlLayout

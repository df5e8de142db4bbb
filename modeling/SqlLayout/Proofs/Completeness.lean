import SqlLayout.Formatter
import SqlLayout.Proofs.Laying
import SqlLayout.Proofs.Parting
import SqlLayout.Proofs.Scanning
import SqlLayout.Proofs.Walking

/-! Formatting writes every token once. The tree of a statement carries its tokens and a
layout draws what the tree shows, so the text of a statement is made of its tokens with
blanks between them. All of them are there if no form loses any: an INSERT loses its tail
where a clause follows its values that is drawn from a cut run, and a WITH loses a
statement in the head of a named query and a comma behind the last one. -/
namespace SqlLayout

open Keyword Layout SqlLayout.Tree

namespace Layout

/-- A text that is made of tokens, one spelling of each, with nothing but spaces and line
breaks between them. -/
inductive Spelled : List Token → List Char → Prop
  | nil : Spelled [] []
  | snoc {tokens : List Token} {chars : List Char} (front : Spelled tokens chars)
      (gap : List Char) (token : Token) (text : String)
      (blank : ∀ c ∈ gap, c = ' ' ∨ c = '\n') (atStart : tokens = [] → gap = [])
      (spelling : Spelling token text) :
      Spelled (tokens ++ [token]) (chars ++ gap ++ text.toList)

theorem Laid.spelled {sheet : Sheet} {tokens : List Token} {chars : List Char}
    (laid : Laid sheet tokens chars) : Spelled tokens chars := by
  induction laid with
  | nil => exact .nil
  | snoc _ gap token text blank atStart spelling _ _ _ ih =>
    exact .snoc ih gap token text blank atStart spelling

theorem Spelled.mem_chars {tokens : List Token} {chars : List Char}
    (spelled : Spelled tokens chars) (token : Token) (member : token ∈ tokens)
    (solid : token.kind.isWordLike = false) (c : Char) (inside : c ∈ token.text.toList) :
    c ∈ chars := by
  induction spelled with
  | nil => simp at member
  | @snoc tokens chars front gap last text blank atStart spelling ih =>
    rcases List.mem_append.1 member with before | here
    · exact List.mem_append_left _ (List.mem_append_left _ (ih before))
    · rw [List.mem_singleton.1 here] at solid inside
      rw [Spelling, if_neg (by simp [solid])] at spelling
      rw [spelling]
      exact List.mem_append_right _ inside

end Layout

namespace Token

def face (token : Token) : Token :=
  if token.kind = .comma then commaToken else token

theorem spelling_of_face (first second : Token) (same : first.face = second.face)
    (comma : first.kind = .comma → first.text = ",")
    (other : second.kind = .comma → second.text = ",") (text : String)
    (spelling : Spelling first text) : Spelling second text := by
  have commas (token : Token) (isComma : token.kind = .comma) (named : token.text = ",") :
      Spelling token text ↔ text = "," := by
    rw [Spelling, if_neg (by rw [isComma]; decide), named]
  unfold face at same
  split at same
  · rename_i isComma
    split at same
    · rename_i isOther
      rw [commas second isOther (other isOther)]
      rwa [commas first isComma (comma isComma)] at spelling
    · rename_i notComma
      exact absurd (by rw [← same]; rfl) notComma
  · rename_i notComma
    split at same
    · exact absurd (by rw [same]; rfl) notComma
    · rw [← same]
      exact spelling

end Token

theorem Layout.Spelled.of_face {shown : List Token} {chars : List Char}
    (spelled : Spelled shown chars) (written : List Token)
    (same : written.map Token.face = shown.map Token.face)
    (commas : ∀ token ∈ shown, token.kind = .comma → token.text = ",")
    (others : ∀ token ∈ written, token.kind = .comma → token.text = ",") :
    Spelled written chars := by
  induction spelled generalizing written with
  | nil =>
    rw [List.map_nil, List.map_eq_nil_iff] at same
    rw [same]
    exact .nil
  | @snoc tokens chars front gap token text blank atStart spelling ih =>
    rw [List.map_append, List.map_eq_append_iff] at same
    obtain ⟨before, final, rfl, sameBefore, sameLast⟩ := same
    rw [List.map_cons, List.map_nil, List.map_eq_singleton_iff] at sameLast
    obtain ⟨last, rfl, sameLast⟩ := sameLast
    have onward := ih before sameBefore
      (fun other member => commas other (List.mem_append_left _ member))
      (fun other member => others other (List.mem_append_left _ member))
    refine .snoc onward gap last text blank ?_ ?_
    · intro nothing
      rw [nothing, List.map_nil] at sameBefore
      exact atStart (List.map_eq_nil_iff.1 sameBefore.symm)
    · exact Token.spelling_of_face token last sameLast.symm (commas token (by simp))
        (others last (by simp)) text spelling

namespace Formatter

def terminator (statement : List Token) : Option Token :=
  statement.getLast?.filter fun token => token.kind = .semicolon

theorem kind_of_terminator (statement : List Token) (token : Token)
    (found : terminator statement = some token) :
    token.kind = .semicolon ∧ token ∈ statement := by
  obtain ⟨last, isEnd⟩ := Option.filter_eq_some_iff.1 found
  exact ⟨by simpa using isEnd, List.mem_of_getLast? last⟩

theorem countedTokens_of_body (body : List Token)
    (plain : ∀ token ∈ body, token.kind ≠ .semicolon) (last : Option Token)
    (ends : ∀ token ∈ last, token.kind = .semicolon) :
    countedTokens (body ++ last.toList) = body.filter (!·.isBlank) := by
  have kept : ((body.filter (!·.isBlank)).reverse.dropWhile fun token =>
      token.kind = .semicolon) = (body.filter (!·.isBlank)).reverse := by
    cases reversed : (body.filter (!·.isBlank)).reverse with
    | nil => rfl
    | cons token rest =>
      have inside : token ∈ (body.filter (!·.isBlank)).reverse := by simp [reversed]
      rw [List.mem_reverse, List.mem_filter] at inside
      exact List.dropWhile_cons_of_neg (by simpa using plain token inside.1)
  rw [countedTokens, List.filter_append, List.reverse_append]
  cases last with
  | none => rw [Option.toList_none, List.filter_nil, List.reverse_nil, List.nil_append, kept,
      List.reverse_reverse]
  | some token =>
    have isEnd := ends token rfl
    have visible : token.isBlank = false := by simp [Token.isBlank, isEnd]
    rw [Option.toList_some, List.filter_cons_of_pos (by simp [visible]), List.filter_nil,
      List.reverse_singleton, List.singleton_append,
      List.dropWhile_cons_of_pos (by simp [isEnd]), kept, List.reverse_reverse]

theorem exists_body (tokens statement : List Token)
    (member : statement ∈ Token.splitStatements tokens) :
    ∃ body, (∀ token ∈ body, token.kind ≠ .semicolon) ∧
      statement = body ++ (terminator statement).toList ∧
      countedTokens statement = body.filter (!·.isBlank) := by
  obtain ⟨body, plain, whole⟩ := Token.splitStatements_cases tokens statement member
  have parts : statement = body ++ (terminator statement).toList := by
    rcases whole with rfl | ⟨last, ends, rfl⟩
    · cases found : terminator statement with
      | none => simp
      | some token =>
        obtain ⟨isEnd, inside⟩ := kind_of_terminator statement token found
        exact absurd isEnd (plain token inside)
    · have found : terminator (body ++ [last]) = some last := by
        rw [terminator, List.getLast?_append, List.getLast?_singleton, Option.some_or]
        simp [Option.filter, ends]
      rw [found, Option.toList_some]
  refine ⟨body, plain, parts, ?_⟩
  have ends : ∀ token ∈ terminator statement, token.kind = .semicolon := by
    intro token found
    exact (kind_of_terminator statement token found).1
  generalize terminator statement = last at parts ends
  rw [parts]
  exact countedTokens_of_body body plain last ends

theorem countedTokens_append (tokens statement : List Token)
    (member : statement ∈ Token.splitStatements tokens) :
    countedTokens statement ++ (terminator statement).toList =
      statement.filter (!·.isBlank) := by
  obtain ⟨body, -, parts, counted⟩ := exists_body tokens statement member
  have visible : (terminator statement).toList.filter (!·.isBlank) =
      (terminator statement).toList := by
    refine List.filter_eq_self.2 fun token found => ?_
    have isEnd := (kind_of_terminator statement token (by simpa using found)).1
    simp [Token.isBlank, isEnd]
  have whole := congrArg (List.filter (!·.isBlank)) parts
  rw [List.filter_append, visible, ← counted] at whole
  exact whole.symm

def tree (formatter : Formatter) (statement : List Token) : Statement :=
  (walk ⟨formatter.registry, formatter.style.functionNames⟩ statement).statement

def forms (formatter : Formatter) (statement : List Token) : List Form :=
  (formatter.tree statement).trace.forms

def shown (formatter : Formatter) (statement : List Token) : List Token :=
  (formatter.tree statement).trace.marks.map Mark.token ++ (terminator statement).toList

structure ReadsText (formatter : Formatter) (source : String) (tokens : List Token) : Prop where
  phrases : formatter.registry.compounds = commonPhrases
  lexed : Token.tokens? formatter.registry source = .ok tokens

structure Reads (formatter : Formatter) (source : String) (tokens statement : List Token) : Prop
    extends ReadsText formatter source tokens where
  member : statement ∈ Token.splitStatements tokens

namespace ReadsText

variable {formatter : Formatter} {source : String} {tokens statement : List Token}

theorem plain (reads : ReadsText formatter source tokens) :
    formatter.registry.compounds.all isPlainPhrase = true :=
  reads.phrases ▸ commonPhrases_plain

theorem part (reads : ReadsText formatter source tokens)
    (member : statement ∈ Token.splitStatements tokens) :
    Reads formatter source tokens statement :=
  ⟨reads, member⟩

end ReadsText

namespace Reads

variable {formatter : Formatter} {source : String} {tokens statement : List Token}

theorem readFrom (reads : Reads formatter source tokens statement) (token : Token)
    (inside : token ∈ statement) : ∃ behind, Token.ReadFrom formatter.registry token behind :=
  Token.readFrom_of_mem _ source tokens reads.lexed token
    (Token.mem_of_mem_splitStatements tokens statement reads.member token inside)

theorem text_ne_empty (reads : Reads formatter source tokens statement) (token : Token)
    (inside : token ∈ statement) : token.text ≠ "" := by
  obtain ⟨behind, c, rest, lexeme, -, -, text, -, -⟩ := reads.readFrom token inside
  intro empty
  simp [empty] at text

theorem fits (reads : Reads formatter source tokens statement) (token : Token)
    (inside : token ∈ statement) : Fits (.ofToken token) where
  kind := rfl
  comma := by
    obtain ⟨behind, read⟩ := reads.readFrom token inside
    exact read.comma
  filled := by
    intro text spelling
    obtain ⟨behind, read⟩ := reads.readFrom token inside
    change Spelling token text at spelling
    unfold Spelling at spelling
    split at spelling
    · rename_i wordLike
      obtain ⟨⟨c, visible, notBlank⟩, named⟩ := read.word reads.plain wordLike
      obtain ⟨choice, rfl | rfl | rfl⟩ := spelling
      · exact choice.apply_ne_empty _ (reads.text_ne_empty token inside)
      · exact choice.apply_ne_empty _ (Text.collapse_ne_empty _ c visible notBlank)
      · exact choice.apply_ne_empty _ named
    · rw [spelling]
      exact reads.text_ne_empty token inside

theorem carries (_ : Reads formatter source tokens statement) :
    Carries (.ofTokens (countedTokens statement)) (formatter.tree statement).trace :=
  carries_walk _ statement

/-- Whatever the tree shows comes from the statement, but for commas that were put in. -/
theorem mark_cases (reads : Reads formatter source tokens statement) (mark : Mark)
    (drawn : mark ∈ (formatter.tree statement).trace.marks) :
    mark = commaMark ∨ ∃ token ∈ countedTokens statement, mark = .ofToken token := by
  rcases reads.carries.members mark drawn with comma | inside
  · exact .inl comma
  · obtain ⟨token, counts, rfl⟩ := List.mem_map.1 inside
    exact .inr ⟨token, counts, rfl⟩

theorem fits_shown (reads : Reads formatter source tokens statement) (mark : Mark)
    (drawn : mark ∈ (formatter.tree statement).trace.marks) : Fits mark := by
  rcases reads.mark_cases mark drawn with rfl | ⟨token, counts, rfl⟩
  · refine ⟨rfl, fun _ => rfl, ?_⟩
    intro text spelling
    have comma : text = "," := spelling
    rw [comma]
    decide
  · exact reads.fits token (mem_of_counted token counts)

theorem laid (reads : Reads formatter source tokens statement)
    (unnamed : formatter.style.addColumnNameComments = false) (lineStarts : List Nat)
    (full : ∃ token ∈ statement, token.isBlank = false ∧ token.kind ≠ .semicolon) :
    Laid ⟨formatter.style, formatter.registry, formatter.width, lineStarts⟩
      (formatter.shown statement) (formatter.formatStatement lineStarts statement).toList := by
  have some : ¬(statement.all fun token => token.isBlank || token.kind = .semicolon) = true := by
    obtain ⟨token, inside, visible, solid⟩ := full
    intro all
    have empty := List.all_eq_true.1 all token inside
    simp [visible, solid] at empty
  rw [formatStatement, if_neg some]
  refine Sheet.laid_render _ _ _ unnamed reads.fits_shown fun token found => ?_
  obtain ⟨isEnd, inside⟩ := kind_of_terminator statement token found
  exact ⟨isEnd, reads.text_ne_empty token inside⟩

theorem text_of_comma (reads : Reads formatter source tokens statement) (token : Token)
    (inside : token ∈ statement) (isComma : token.kind = .comma) : token.text = "," :=
  (reads.fits token inside).comma isComma

theorem comma_shown (reads : Reads formatter source tokens statement) (token : Token)
    (drawn : token ∈ formatter.shown statement) (isComma : token.kind = .comma) :
    token.text = "," := by
  rcases List.mem_append.1 drawn with marked | ends
  · obtain ⟨mark, member, rfl⟩ := List.mem_map.1 marked
    exact (reads.fits_shown mark member).comma isComma
  · obtain ⟨isEnd, -⟩ := kind_of_terminator statement token (by simpa using ends)
    simp [isComma] at isEnd

theorem token_face (mark : Mark) (kind : mark.token.kind = mark.kind) :
    mark.face.token = mark.token.face := by
  unfold Mark.face Token.face
  rw [kind]
  split <;> rfl

theorem faces_shown (reads : Reads formatter source tokens statement) :
    (formatter.tree statement).trace.faces.map Mark.token =
      ((formatter.tree statement).trace.marks.map Mark.token).map Token.face := by
  rw [Trace.faces, List.map_map, List.map_map]
  refine List.map_congr_left fun mark drawn => ?_
  exact token_face mark (reads.fits_shown mark drawn).kind

theorem exists_displaced (reads : Reads formatter source tokens statement)
    (same : (formatter.tree statement).trace.marks.length = (countedTokens statement).length) :
    ∃ written, Displaced (fun token => token.isLineComment = true)
        (fun token => token.kind = .comma) (countedTokens statement) written ∧
      written.map Token.face =
        ((formatter.tree statement).trace.marks.map Mark.token).map Token.face := by
  obtain ⟨kept, sub, displaced⟩ := reads.carries.order
  have whole : kept = (Trace.ofTokens (countedTokens statement)).faces := by
    refine sub.eq_of_length ?_
    rw [← displaced.length_eq, Trace.length_faces, Trace.length_faces, same, Trace.marks_ofTokens,
      List.length_map]
  rw [whole, Trace.faces, Trace.marks_ofTokens, List.map_map] at displaced
  obtain ⟨written, moved, shown⟩ := Displaced.lift (fun token => token.isLineComment = true)
    (fun token => token.kind = .comma) (Mark.face ∘ Mark.ofToken)
    (by
      intro token mobile
      by_cases isComma : token.kind = .comma
      · rw [Function.comp_apply, Mark.face_of_comma _ isComma] at mobile
        simp [Mark.Mobile, commaMark, Mark.ofToken, commaToken, Token.plain, Token.isLineComment,
          Token.isComment] at mobile
      · rwa [Function.comp_apply, Mark.face_of_ne_comma _ isComma] at mobile)
    (by
      intro token passable
      by_cases isComma : token.kind = .comma
      · exact isComma
      · rwa [Function.comp_apply, Mark.face_of_ne_comma _ isComma] at passable)
    (countedTokens statement) _ displaced
  refine ⟨written, moved, ?_⟩
  rw [← reads.faces_shown, ← shown, List.map_map]
  refine List.map_congr_left fun token _ => ?_
  exact (token_face (.ofToken token) rfl).symm

theorem length_marks_iff (reads : Reads formatter source tokens statement) :
    (formatter.tree statement).trace.marks.length = (countedTokens statement).length ↔
      ∀ form ∈ formatter.forms statement, form.keepsAll = true := by
  have whole := reads.carries.whole (by simp [Trace.KeepsAll])
  rwa [Trace.marks_ofTokens, List.length_map] at whole

theorem length_shown_lt (reads : Reads formatter source tokens statement)
    (lost : ¬∀ form ∈ formatter.forms statement, form.keepsAll = true) :
    (formatter.shown statement).length < (statement.filter (!·.isBlank)).length := by
  rw [← reads.length_marks_iff] at lost
  have bound := reads.carries.length_le
  rw [Trace.marks_ofTokens, List.length_map] at bound
  rw [← countedTokens_append tokens statement reads.member, shown, List.length_append,
    List.length_append, List.length_map]
  omega

theorem exists_written (reads : Reads formatter source tokens statement)
    (keeps : ∀ form ∈ formatter.forms statement, form.keepsAll = true) :
    ∃ written, Displaced (fun token => token.isLineComment = true)
        (fun token => token.kind = .comma) (statement.filter (!·.isBlank)) written ∧
      written.map Token.face = (formatter.shown statement).map Token.face := by
  obtain ⟨written, moved, same⟩ := reads.exists_displaced (reads.length_marks_iff.2 keeps)
  refine ⟨written ++ (terminator statement).toList, ?_, ?_⟩
  · rw [← countedTokens_append tokens statement reads.member]
    exact moved.append_right _
  · rw [shown, List.map_append, List.map_append, same]

theorem spelled_of_face (reads : Reads formatter source tokens statement) (written : List Token)
    (moved : Displaced (fun token => token.isLineComment = true)
      (fun token => token.kind = .comma) (statement.filter (!·.isBlank)) written)
    (same : written.map Token.face = (formatter.shown statement).map Token.face)
    (chars : List Char) (spelled : Spelled (formatter.shown statement) chars) :
    Spelled written chars := by
  refine spelled.of_face written same reads.comma_shown fun token member => ?_
  have inside := List.mem_filter.1 ((moved.mem_iff token).1 member)
  exact reads.text_of_comma token inside.1

theorem tree_of_counted_nil (counted : countedTokens statement = []) :
    formatter.tree statement = .ofForm (.raw []) := by
  have cases : openCases [] = [] := by rw [openCases]
  simp only [tree, walk, counted, build, groupTokens, cases, groupCases_nil]
  rfl

theorem full_of_form (reads : Reads formatter source tokens statement) (form : Form)
    (occurs : form ∈ formatter.forms statement) (filled : form ≠ .raw []) :
    ∃ token ∈ statement, token.isBlank = false ∧ token.kind ≠ .semicolon := by
  obtain ⟨body, plain, parts, counted⟩ := exists_body tokens statement reads.member
  cases found : countedTokens statement with
  | nil =>
    rw [forms, tree_of_counted_nil found, trace_ofForm, Form.trace, traceRun] at occurs
    exact absurd (by simpa using occurs) filled
  | cons first rest =>
    have inside : first ∈ body.filter (!·.isBlank) := by
      rw [← counted, found]
      simp
    rw [List.mem_filter] at inside
    refine ⟨first, ?_, by simpa using inside.2, plain first inside.1⟩
    rw [parts]
    exact List.mem_append_left _ inside.1

/-- The text is made of the tokens that the tree shows, which are all tokens of the statement
exactly if every form keeps what it is made of. -/
theorem complete_iff (reads : Reads formatter source tokens statement)
    (unnamed : formatter.style.addColumnNameComments = false) (lineStarts : List Nat)
    (full : ∃ token ∈ statement, token.isBlank = false ∧ token.kind ≠ .semicolon) :
    Spelled (formatter.shown statement)
        (formatter.formatStatement lineStarts statement).toList ∧
      ((∀ form ∈ formatter.forms statement, form.keepsAll = true) →
        ∃ written, Displaced (fun token => token.isLineComment = true)
            (fun token => token.kind = .comma) (statement.filter (!·.isBlank)) written ∧
          Spelled written (formatter.formatStatement lineStarts statement).toList) ∧
      (¬(∀ form ∈ formatter.forms statement, form.keepsAll = true) →
        (formatter.shown statement).length < (statement.filter (!·.isBlank)).length) := by
  have spelled := (reads.laid unnamed lineStarts full).spelled
  refine ⟨spelled, fun keeps => ?_, reads.length_shown_lt⟩
  obtain ⟨written, moved, same⟩ := reads.exists_written keeps
  exact ⟨written, moved, reads.spelled_of_face written moved same _ spelled⟩

end Reads

/-- Formatting with the common phrases and any words, in whatever style and width, loses, doubles
and alters nothing: where neither an INSERT nor a named query occurs, the text of a statement is
made of all its tokens, in their order but for line comments that have gone behind commas. -/
theorem statement_complete (formatter : Formatter)
    (phrases : formatter.registry.compounds = commonPhrases) (source : String)
    (tokens : List Token) (lexed : Token.tokens? formatter.registry source = .ok tokens)
    (unnamed : formatter.style.addColumnNameComments = false)
    (statement : List Token) (member : statement ∈ Token.splitStatements tokens)
    (full : ∃ token ∈ statement, token.isBlank = false ∧ token.kind ≠ .semicolon)
    (plain : ∀ form ∈ formatter.forms statement, form.isInsert = false ∧ form.isWith = false) :
    ∃ written, Displaced (fun token => token.isLineComment = true)
        (fun token => token.kind = .comma) (statement.filter (!·.isBlank)) written ∧
      Spelled written
        (formatter.formatStatement (commentLineStarts none tokens) statement).toList := by
  have reads := (ReadsText.mk phrases lexed).part member
  refine (reads.complete_iff unnamed (commentLineStarts none tokens) full).2.1
    fun form inside => ?_
  rw [form.keepsAll_of_not_with (plain form inside).2,
    form.keepsTail_of_not_insert (plain form inside).1]

def standard : Formatter :=
  ⟨{}, 60, .null, .common {}⟩

def commentedList : List Token :=
  [⟨.reservedWord, "select", 0, "SELECT"⟩, .plain .blank " " 6, .plain .identifier "a" 7,
    .plain .blank " " 8, .plain .comment "-- x" 9, .plain .blank "\n" 13, .plain .comma "," 14,
    .plain .blank " " 15, .plain .identifier "b" 16]

theorem statement_complete_comment :
    ∃ written, Displaced (fun token => token.isLineComment = true)
        (fun token => token.kind = .comma) (commentedList.filter (!·.isBlank)) written ∧
      Spelled written "SELECT a,\n       -- x\n       b".toList := by
  have lexed := (Token.tokens?_eq_ok_iff (Registry.common {}) "select a -- x\n, b"
    commentedList).2 (by decide +kernel)
  have text : standard.formatStatement (commentLineStarts none commentedList) commentedList =
      "SELECT a,\n       -- x\n       b" := by decide +kernel
  have complete := statement_complete standard rfl _ commentedList lexed rfl commentedList
    (by decide) ⟨.plain .identifier "b" 16, by decide, by decide, by decide⟩ (by decide +kernel)
  rwa [text] at complete

/-- With an INSERT somewhere but no named query, the text of a statement is made of the tokens
that its tree shows. These are all its tokens, in their order but for line comments that
have gone behind commas, if every INSERT keeps what follows its values, and fewer if one
does not. -/
theorem insert_complete (formatter : Formatter)
    (phrases : formatter.registry.compounds = commonPhrases) (source : String)
    (tokens : List Token) (lexed : Token.tokens? formatter.registry source = .ok tokens)
    (unnamed : formatter.style.addColumnNameComments = false)
    (statement : List Token) (member : statement ∈ Token.splitStatements tokens)
    (inserts : ∃ form ∈ formatter.forms statement, form.isInsert = true)
    (plain : ∀ form ∈ formatter.forms statement, form.isWith = false) :
    Spelled (formatter.shown statement)
        (formatter.formatStatement (commentLineStarts none tokens) statement).toList ∧
      ((∀ form ∈ formatter.forms statement, form.keepsTail = true) →
        ∃ written, Displaced (fun token => token.isLineComment = true)
            (fun token => token.kind = .comma) (statement.filter (!·.isBlank)) written ∧
          Spelled written
            (formatter.formatStatement (commentLineStarts none tokens) statement).toList) ∧
      (¬(∀ form ∈ formatter.forms statement, form.keepsTail = true) →
        (formatter.shown statement).length < (statement.filter (!·.isBlank)).length) := by
  have reads := (ReadsText.mk phrases lexed).part member
  obtain ⟨form, occurs, isInsert⟩ := inserts
  have full := reads.full_of_form form occurs (by
    rintro rfl
    simp [Form.isInsert] at isInsert)
  have same : (∀ form ∈ formatter.forms statement, form.keepsAll = true) ↔
      ∀ form ∈ formatter.forms statement, form.keepsTail = true :=
    forall₂_congr fun form inside => by rw [form.keepsAll_of_not_with (plain form inside)]
  have complete := reads.complete_iff unnamed (commentLineStarts none tokens) full
  rwa [same] at complete

def returningInsert : List Token :=
  [⟨.reservedWord, "insert", 0, "INSERT"⟩, .plain .blank " " 6, .plain .identifier "t" 7,
    .plain .blank " " 8, ⟨.reservedWord, "values", 9, "VALUES"⟩, .plain .blank " " 15,
    .plain .parenOpen "(" 16, .plain .numberLiteral "1" 17, .plain .parenClose ")" 18,
    .plain .blank " " 19, ⟨.reservedWord, "returning", 20, "RETURNING"⟩, .plain .blank " " 29,
    .plain .identifier "a" 30]

theorem insert_complete_returning :
    ∃ written, Displaced (fun token => token.isLineComment = true)
        (fun token => token.kind = .comma) (returningInsert.filter (!·.isBlank)) written ∧
      Spelled written "INSERT t\nVALUES\n(\n  1\n)\nRETURNING a".toList := by
  have lexed := (Token.tokens?_eq_ok_iff (Registry.common {})
    "insert t values (1) returning a" returningInsert).2 (by decide +kernel)
  have text : standard.formatStatement (commentLineStarts none returningInsert) returningInsert =
      "INSERT t\nVALUES\n(\n  1\n)\nRETURNING a" := by decide +kernel
  have complete := insert_complete standard rfl _ returningInsert lexed rfl returningInsert
    (by decide) (List.any_eq_true.1 (by decide +kernel)) (by decide +kernel)
  rw [text] at complete
  exact complete.2.1 (by decide +kernel)

def conditionalInsert : List Token :=
  [⟨.reservedWord, "merge", 0, "MERGE"⟩, .plain .blank " " 5, ⟨.reservedWord, "into", 6, "INTO"⟩,
    .plain .blank " " 10, .plain .identifier "t" 11, .plain .blank " " 12,
    ⟨.reservedWord, "using", 13, "USING"⟩, .plain .blank " " 18, .plain .identifier "s" 19,
    .plain .blank " " 20, ⟨.reservedWord, "on", 21, "ON"⟩, .plain .blank " " 23,
    .plain .identifier "a" 24, .plain .blank " " 25, .plain .operator "=" 26,
    .plain .blank " " 27, .plain .identifier "b" 28, .plain .blank " " 29,
    ⟨.reservedWord, "when", 30, "WHEN"⟩, .plain .blank " " 34, ⟨.reservedWord, "not", 35, "NOT"⟩,
    .plain .blank " " 38, ⟨.reservedWord, "matched", 39, "MATCHED"⟩, .plain .blank " " 46,
    ⟨.reservedWord, "then", 47, "THEN"⟩, .plain .blank " " 51,
    ⟨.reservedWord, "insert", 52, "INSERT"⟩, .plain .blank " " 58,
    ⟨.reservedWord, "values", 59, "VALUES"⟩, .plain .blank " " 65, .plain .parenOpen "(" 66,
    .plain .numberLiteral "1" 67, .plain .parenClose ")" 68, .plain .blank " " 69,
    ⟨.reservedWord, "where", 70, "WHERE"⟩, .plain .blank " " 75, .plain .identifier "c" 76,
    .plain .blank " " 77, .plain .operator ">" 78, .plain .blank " " 79,
    .plain .numberLiteral "2" 80]

/-- The condition is lost: no arrangement of the tokens spells the text. -/
theorem conditional_insert_lost :
    Token.tokens? (Registry.common {})
        "merge into t using s on a = b when not matched then insert values (1) where c > 2" =
      .ok conditionalInsert ∧
    conditionalInsert ∈ Token.splitStatements conditionalInsert ∧
    (∃ form ∈ standard.forms conditionalInsert, form.isInsert = true) ∧
    (∀ form ∈ standard.forms conditionalInsert, form.isWith = false) ∧
    ¬∃ written, Displaced (fun token => token.isLineComment = true)
        (fun token => token.kind = .comma) (conditionalInsert.filter (!·.isBlank)) written ∧
      Spelled written (standard.formatStatement (commentLineStarts none conditionalInsert)
        conditionalInsert).toList := by
  refine ⟨(Token.tokens?_eq_ok_iff _ _ _).2 (by decide +kernel), by decide +kernel,
    List.any_eq_true.1 (by decide +kernel), by decide +kernel, ?_⟩
  rintro ⟨written, moved, spelled⟩
  have compared : Token.plain .operator ">" 78 ∈ written :=
    (moved.mem_iff _).2 (by decide)
  have drawn := spelled.mem_chars _ compared rfl '>' (by decide)
  revert drawn
  decide +kernel

/-- With a WITH somewhere but no INSERT, the text of a statement is made of the tokens that its
tree shows. These are all its tokens, in their order but for line comments that have gone
behind commas, if no named query has a statement in its head or ends with a comma that
nothing follows, and fewer otherwise. -/
theorem with_complete (formatter : Formatter)
    (phrases : formatter.registry.compounds = commonPhrases) (source : String)
    (tokens : List Token) (lexed : Token.tokens? formatter.registry source = .ok tokens)
    (unnamed : formatter.style.addColumnNameComments = false)
    (statement : List Token) (member : statement ∈ Token.splitStatements tokens)
    (named : ∃ form ∈ formatter.forms statement, form.isWith = true)
    (plain : ∀ form ∈ formatter.forms statement, form.isInsert = false) :
    Spelled (formatter.shown statement)
        (formatter.formatStatement (commentLineStarts none tokens) statement).toList ∧
      ((∀ form ∈ formatter.forms statement, form.keepsQueries = true) →
        ∃ written, Displaced (fun token => token.isLineComment = true)
            (fun token => token.kind = .comma) (statement.filter (!·.isBlank)) written ∧
          Spelled written
            (formatter.formatStatement (commentLineStarts none tokens) statement).toList) ∧
      (¬(∀ form ∈ formatter.forms statement, form.keepsQueries = true) →
        (formatter.shown statement).length < (statement.filter (!·.isBlank)).length) := by
  have reads := (ReadsText.mk phrases lexed).part member
  obtain ⟨form, occurs, isWith⟩ := named
  have full := reads.full_of_form form occurs (by
    rintro rfl
    simp [Form.isWith] at isWith)
  have same : (∀ form ∈ formatter.forms statement, form.keepsAll = true) ↔
      ∀ form ∈ formatter.forms statement, form.keepsQueries = true :=
    forall₂_congr fun form inside => by rw [form.keepsAll_of_not_insert (plain form inside)]
  have complete := reads.complete_iff unnamed (commentLineStarts none tokens) full
  rwa [same] at complete

def namedColumn : List Token :=
  [⟨.reservedWord, "with", 0, "WITH"⟩, .plain .blank " " 4, .plain .identifier "a" 5,
    .plain .blank " " 6, .plain .parenOpen "(" 7, .plain .identifier "b" 8,
    .plain .parenClose ")" 9, .plain .blank " " 10, ⟨.reservedWord, "as", 11, "AS"⟩,
    .plain .blank " " 13, .plain .parenOpen "(" 14, ⟨.reservedWord, "select", 15, "SELECT"⟩,
    .plain .blank " " 21, .plain .numberLiteral "1" 22, .plain .parenClose ")" 23,
    .plain .blank " " 24, ⟨.reservedWord, "select", 25, "SELECT"⟩, .plain .blank " " 31,
    .plain .identifier "b" 32]

theorem with_complete_column :
    ∃ written, Displaced (fun token => token.isLineComment = true)
        (fun token => token.kind = .comma) (namedColumn.filter (!·.isBlank)) written ∧
      Spelled written "WITH a (b) AS\n(\n  SELECT 1\n)\nSELECT b".toList := by
  have lexed := (Token.tokens?_eq_ok_iff (Registry.common {})
    "with a (b) as (select 1) select b" namedColumn).2 (by decide +kernel)
  have text : standard.formatStatement (commentLineStarts none namedColumn) namedColumn =
      "WITH a (b) AS\n(\n  SELECT 1\n)\nSELECT b" := by decide +kernel
  have complete := with_complete standard rfl _ namedColumn lexed rfl namedColumn
    (by decide) (List.any_eq_true.1 (by decide +kernel)) (by decide +kernel)
  rw [text] at complete
  exact complete.2.1 (by decide +kernel)

def queryInHead : List Token :=
  [⟨.reservedWord, "with", 0, "WITH"⟩, .plain .blank " " 4, .plain .identifier "a" 5,
    .plain .blank " " 6, .plain .parenOpen "(" 7, ⟨.reservedWord, "select", 8, "SELECT"⟩,
    .plain .blank " " 14, .plain .numberLiteral "1" 15, .plain .parenClose ")" 16,
    .plain .blank " " 17, ⟨.reservedWord, "as", 18, "AS"⟩, .plain .blank " " 20,
    .plain .parenOpen "(" 21, ⟨.reservedWord, "select", 22, "SELECT"⟩, .plain .blank " " 28,
    .plain .numberLiteral "2" 29, .plain .parenClose ")" 30, .plain .blank " " 31,
    ⟨.reservedWord, "select", 32, "SELECT"⟩, .plain .blank " " 38,
    .plain .numberLiteral "3" 39]

/-- The query in the head is lost: no arrangement of the tokens spells the text. -/
theorem query_in_head_lost :
    Token.tokens? (Registry.common {}) "with a (select 1) as (select 2) select 3" =
      .ok queryInHead ∧
    queryInHead ∈ Token.splitStatements queryInHead ∧
    (∃ form ∈ standard.forms queryInHead, form.isWith = true) ∧
    (∀ form ∈ standard.forms queryInHead, form.isInsert = false) ∧
    ¬∃ written, Displaced (fun token => token.isLineComment = true)
        (fun token => token.kind = .comma) (queryInHead.filter (!·.isBlank)) written ∧
      Spelled written (standard.formatStatement (commentLineStarts none queryInHead)
        queryInHead).toList := by
  refine ⟨(Token.tokens?_eq_ok_iff _ _ _).2 (by decide +kernel), by decide +kernel,
    List.any_eq_true.1 (by decide +kernel), by decide +kernel, ?_⟩
  rintro ⟨written, moved, spelled⟩
  have selected : Token.plain .numberLiteral "1" 15 ∈ written :=
    (moved.mem_iff _).2 (by decide)
  have drawn := spelled.mem_chars _ selected rfl '1' (by decide)
  revert drawn
  decide +kernel

end Formatter

end SqlLayout

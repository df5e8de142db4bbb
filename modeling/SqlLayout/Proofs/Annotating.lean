import Mathlib.Data.List.Infix
import SqlLayout.Proofs.Completeness
import SqlLayout.Proofs.Respelling

/-! The names of columns as comments before the values of an INSERT. A row whose values
have their annotations already is drawn as if it had none, and an annotation is read again
as one comment, just if its name does not close a comment. Neither holds of every name
that a first run writes: it is the spelling of the source, while a second run reads the
spelling that the first one gave to the column. -/
namespace SqlLayout

namespace Layout

open SqlLayout.Tree Sheet

def nameComment (name : String) : String := "/* " ++ name ++ " */"

theorem toList_nameComment (name : String) :
    (nameComment name).toList = '/' :: '*' :: ' ' :: (name.toList ++ [' ', '*', '/']) := by
  simp [nameComment]

theorem nameComment_inj (name other : String) :
    nameComment name = nameComment other ↔ name = other := by
  rw [← String.toList_inj, toList_nameComment, toList_nameComment]
  simp [String.toList_inj]

def IsCopy (name : String) (element : Element) : Prop :=
  ∃ token, element = .token token ∧ token.isComment = true ∧ token.text = nameComment name

def withoutCopy (name : String) : List Element → List Element
  | .token first :: rest =>
    if first.isComment && first.text = nameComment name then rest else .token first :: rest
  | item => item

theorem columnComment_named (names : List String) (index : Nat) (name : String)
    (item : List Element) (w : Writer) (named : names[index]? = some name) :
    columnComment names index item w =
      (withoutCopy name item, (w.write (nameComment name)).space.markAs openToken) := by
  unfold columnComment withoutCopy
  rw [named]
  rcases item with _ | ⟨first | group | case, rest⟩
  · rfl
  · by_cases known : (first.isComment && first.text = nameComment name) = true
    · simp only [known, if_true]
      exact if_pos known
    · simp only [known]
      exact if_neg known
  · rfl
  · rfl

theorem withoutCopy_of_copy (name : String) (copy : Element) (value : List Element)
    (isCopy : IsCopy name copy) : withoutCopy name (copy :: value) = value := by
  obtain ⟨token, rfl, comment, text⟩ := isCopy
  simp [withoutCopy, comment, text]

theorem withoutCopy_of_plain (name : String) (value : List Element)
    (plain : ∀ first ∈ value.head?, ¬IsCopy name first) : withoutCopy name value = value := by
  unfold withoutCopy
  split
  · rename_i first rest
    rw [if_neg]
    intro known
    simp only [Bool.and_eq_true, decide_eq_true_eq] at known
    exact plain (.token first) rfl ⟨first, rfl, known.1, known.2⟩
  · rfl

/-- A comment in front of a value is taken for a copy just if it shows the name as it is
spelt now. -/
theorem withoutCopy_comment_iff (name other : String) (token : Token) (value : List Element)
    (comment : token.isComment = true) (text : token.text = nameComment other) :
    withoutCopy name (.token token :: value) = value ↔ other = name := by
  simp only [withoutCopy, comment, text, Bool.true_and, decide_eq_true_eq, nameComment_inj]
  split <;> simp_all

/-- The values of a row from `index` on, each with its annotation or without. -/
inductive Annotated (names : List String) : Nat → List (List Element) → List (List Element) → Prop
  | nil (index : Nat) : Annotated names index [] []
  | same {index : Nat} {items others : List (List Element)} (value : List Element)
      (next : Annotated names (index + 1) items others) :
      Annotated names index (value :: items) (value :: others)
  | copied {index : Nat} {items others : List (List Element)} (name : String) (copy : Element)
      (value : List Element) (named : names[index]? = some name) (isCopy : IsCopy name copy)
      (plain : ∀ first ∈ value.head?, ¬IsCopy name first)
      (next : Annotated names (index + 1) items others) :
      Annotated names index ((copy :: value) :: items) (value :: others)

theorem Annotated.each {names : List String} {index : Nat} {items others : List (List Element)}
    (annotated : Annotated names index items others)
    (before : Nat → Writer → Writer) (draw : Nat → List Element × Writer → Writer) (w : Writer) :
    Writer.each (fun place item w => draw place (columnComment names place item (before place w)))
        index items w =
      Writer.each (fun place item w => draw place (columnComment names place item (before place w)))
        index others w := by
  induction annotated generalizing w with
  | nil => rfl
  | same value next ih => exact ih _
  | copied name copy value named isCopy plain next ih =>
    rw [Writer.each, Writer.each, columnComment_named _ _ name _ _ named,
      columnComment_named _ _ name _ _ named, withoutCopy_of_copy name copy value isCopy,
      withoutCopy_of_plain name value plain]
    exact ih _

/-- A row that has its annotations is drawn like the row without them. -/
theorem Sheet.tupleBlock_annotated (sheet : Sheet) (painter : Painter) (base : Nat)
    (names : List String) (group : Group) (others : List (List Element))
    (annotated : Annotated names 0 group.items others) (w : Writer) :
    sheet.tupleBlock painter base names group w =
      sheet.tupleBlock painter base names { group with items := others } w := by
  unfold Sheet.tupleBlock
  simp only
  split
  · rw [annotated.each (fun place w => if place = 0 then w.newline _ else sheet.lineBreakComma _ w)
      (fun _ pair => painter.run {} _ pair.1 pair.2)]
  · rw [annotated.each (fun place w => sheet.listComma _ _ place w)
      (fun _ pair => painter.run {} _ pair.1 pair.2)]

def columnName : List Element → String
  | [.token token] => if token.isComment then "" else token.text
  | item => plainText item

theorem plainText_eq_columnName : plainText = columnName := by
  funext item
  unfold columnName
  split
  · rename_i token
    by_cases comment : token.isComment = true <;>
      simp [plainText, Element.tokens, Element.collect, inTextOrder, dropRepeats, comment]
  · rfl

def Sheet.renderInsert (sheet : Sheet) (statement : Statement) (terminator : Option Token) :
    String :=
  match statement with
  | ⟨[], .insert keyword target (some group) source, []⟩ =>
    let painter := sheet.painter statement.height
    let w := painter.run {} 7 target (sheet.token 0 keyword {})
    let w := sheet.insertSource painter 0 (group.items.map columnName) source
      (sheet.tupleBlock painter 0 [] group w)
    (match terminator with
      | some token => w.terminate token.text
      | none => w).text
  | statement => sheet.render statement terminator

theorem Sheet.renderInsert_eq (sheet : Sheet) (statement : Statement) (terminator : Option Token) :
    sheet.renderInsert statement terminator = sheet.render statement terminator := by
  unfold Sheet.renderInsert
  split
  · rw [← plainText_eq_columnName]
    rfl
  · rfl

end Layout

namespace Token

open Layout

theorem findSequence_name (name rest : List Char) :
    ∃ place ≤ name.length + 1,
      Text.findSequence ['*', '/'] (name ++ ' ' :: '*' :: '/' :: rest) = some place ∧
      (place = name.length + 1 ↔ ¬['*', '/'] <:+: name) := by
  induction name with
  | nil => exact ⟨1, Nat.le_refl 1, by simp [Text.findSequence], by simp⟩
  | cons c name ih =>
    obtain ⟨place, bound, found, exact⟩ := ih
    by_cases here : ['*', '/'] <+: c :: name
    · refine ⟨0, by simp, ?_, by simpa using here.isInfix⟩
      have ahead := List.isPrefixOf_iff_prefix.2
        (here.trans (List.prefix_append _ (' ' :: '*' :: '/' :: rest)))
      rw [List.cons_append] at ahead
      rw [List.cons_append, Text.findSequence, if_pos ahead]
    · refine ⟨place + 1, by simpa using bound, ?_, ?_⟩
      · rw [List.cons_append, Text.findSequence, if_neg, found, Option.map_some]
        intro ahead
        cases name with
        | nil => simp [List.isPrefixOf] at ahead
        | cons d name =>
          apply here
          simp only [List.cons_append, List.isPrefixOf, Bool.and_true, Bool.and_eq_true,
            beq_iff_eq] at ahead
          simp [← ahead.1, ← ahead.2]
      · rw [List.length_cons, Nat.add_right_cancel_iff, exact, List.infix_cons_iff, not_or]
        exact ⟨fun apart => ⟨here, apart⟩, And.right⟩

/-- An annotation is read as that comment, with nothing of what follows, just if its name
does not end a comment. -/
theorem read_nameComment_iff (registry : Keyword.Registry) (position : Nat) (name : String)
    (rest : List Char) (last : Option Token) :
    (⟨position, (nameComment name).toList ++ rest, last⟩ : Cursor).read registry =
        .token (.plain .comment (nameComment name) position) []
          ⟨position + (nameComment name).length, rest, last⟩ ↔
      ¬['*', '/'] <:+: name.toList := by
  obtain ⟨place, bound, found, exact⟩ := findSequence_name name.toList rest
  have whole : (nameComment name).toList ++ rest =
      '/' :: '*' :: ' ' :: (name.toList ++ ' ' :: '*' :: '/' :: rest) := by
    rw [toList_nameComment]
    simp
  have step : scan? registry last '/' ('*' :: ' ' :: (name.toList ++ ' ' :: '*' :: '/' :: rest)) =
      some { kind := .comment, more := place + 4 } := by
    refine scan?_of_marked registry last _ _ _ ?_
    have later : Text.findSequence ['*', '/'] (' ' :: (name.toList ++ ' ' :: '*' :: '/' :: rest)) =
        some (place + 1) := by
      rw [Text.findSequence, if_neg (by simp [List.isPrefixOf]), found]
      rfl
    rw [marked?, if_neg (by decide), if_neg (by simp), if_pos (by simp)]
    simp [blockComment, later]
  have length : (nameComment name).toList.length = name.toList.length + 6 := by
    rw [toList_nameComment]
    simp
  have read : (⟨position, (nameComment name).toList ++ rest, last⟩ : Cursor).read registry =
      .token (.plain .comment (String.ofList (((nameComment name).toList ++ rest).take (place + 5)))
          position) []
        ⟨position + (String.ofList (((nameComment name).toList ++ rest).take (place + 5))).length,
          ((nameComment name).toList ++ rest).drop (place + 5), last⟩ := by
    rw [whole]
    simp only [Cursor.read, step]
    rfl
  rw [read, ← exact]
  constructor
  · intro same
    simp only [Cursor.Reading.token.injEq, plain, Token.mk.injEq] at same
    have taken := congrArg (·.toList.length) same.1.2.1
    simp only [String.toList_ofList, List.length_take, List.length_append, length] at taken
    omega
  · rintro rfl
    rw [← length, List.take_left, List.drop_left, String.ofList_toList]

end Token

namespace Formatter

open Keyword Layout

def annotating : Formatter := { standard with style := { addColumnNameComments := true } }

def oneColumn (column : Token) : List Token :=
  [⟨.reservedWord, "insert", 0, "INSERT"⟩, .plain .blank " " 6, ⟨.reservedWord, "into", 7, "INTO"⟩,
    .plain .blank " " 11, .plain .identifier "t" 12, .plain .blank " " 13,
    .plain .parenOpen "(" 14, column, .plain .parenClose ")" column.stop,
    .plain .blank " " (column.stop + 1), ⟨.reservedWord, "values", column.stop + 2, "VALUES"⟩,
    .plain .blank " " (column.stop + 8), .plain .parenOpen "(" (column.stop + 9),
    .plain .numberLiteral "1" (column.stop + 10), .plain .parenClose ")" (column.stop + 11)]

def code (tokens : List Token) : List (Token.Kind × String × String) :=
  (tokens.filter fun token => !token.isBlank && !token.isComment).map fun token =>
    (token.kind, token.text, token.contents)

theorem formatTokens_eq_renderInsert (formatter : Formatter) (tokens : List Token) :
    formatter.formatTokens tokens =
      "\n\n".intercalate (((Token.splitStatements tokens).map fun part =>
        if part.all fun token => token.isBlank || token.kind = .semicolon then ""
        else
          (⟨formatter.style, formatter.registry, formatter.width,
              commentLineStarts none tokens⟩ : Sheet).renderInsert
            (Tree.walk ⟨formatter.registry, formatter.style.functionNames⟩ part).statement
            (part.getLast?.filter fun token => token.kind = .semicolon)).filter (· ≠ "")) := by
  simp only [formatTokens, Sheet.renderInsert_eq]
  rfl

/-- The name of a column closes its own annotation, and what is left of it opens a string. -/
theorem annotation_cut_short :
    let source := "insert into t (\"a*/b\") values (1)"
    let plain := "INSERT INTO t\n(\n  \"a*/b\"\n)\nVALUES\n(\n  1\n)"
    let annotated := "INSERT INTO t\n(\n  \"a*/b\"\n)\nVALUES\n(\n  /* \"a*/b\" */ 1\n)"
    Token.tokens? standard.registry source =
      .ok (oneColumn (.plain .quotedIdentifier "\"a*/b\"" 15)) ∧
    annotating = { standard with style := { standard.style with addColumnNameComments := true } } ∧
    standard.formatTokens (oneColumn (.plain .quotedIdentifier "\"a*/b\"" 15)) = plain ∧
    annotating.formatTokens (oneColumn (.plain .quotedIdentifier "\"a*/b\"" 15)) = annotated ∧
    ∃ first second, Token.tokens? standard.registry plain = .ok first ∧
      Token.tokens? standard.registry annotated = .ok second ∧ code first ≠ code second := by
  refine ⟨(Token.tokens?_eq_ok_iff _ _ _).2 (by decide +kernel), rfl, ?_, ?_, _, _,
    (Token.tokens?_eq_ok_iff _ _ _).2 ⟨by decide +kernel, rfl⟩,
    (Token.tokens?_eq_ok_iff _ _ _).2 ⟨by decide +kernel, rfl⟩, fun same => ?_⟩
  · rw [formatTokens_eq_renderInsert]
    decide +kernel
  · rw [formatTokens_eq_renderInsert]
    decide +kernel
  · -- A parenthesis ends the one, an open string the other.
    exact absurd (congrArg (fun parts => parts.getLast?.map Prod.fst) same) (by decide +kernel)

/-- A reserved word as a column is written in capitals, but not in its annotation, which the
second run does not know again. -/
theorem annotation_repeated :
    let once := "INSERT INTO t\n(\n  DATE\n)\nVALUES\n(\n  /* date */ 1\n)"
    let twice := "INSERT INTO t\n(\n  DATE\n)\nVALUES\n(\n  /* DATE */\n  /* date */ 1\n)"
    Token.tokens? annotating.registry "insert into t (date) values (1)" =
      .ok (oneColumn ⟨.reservedWord, "date", 15, "DATE"⟩) ∧
    annotating.style.addColumnNameComments = true ∧
    annotating.formatTokens (oneColumn ⟨.reservedWord, "date", 15, "DATE"⟩) = once ∧
    ∃ first second, Token.tokens? annotating.registry once = .ok first ∧
      annotating.formatTokens first = twice ∧
      Token.tokens? annotating.registry twice = .ok second ∧
      first.countP Token.isComment = 1 ∧ second.countP Token.isComment = 2 := by
  refine ⟨(Token.tokens?_eq_ok_iff _ _ _).2 (by decide +kernel), rfl, ?_, _, _,
    (Token.tokens?_eq_ok_iff _ _ _).2 ⟨by decide +kernel, rfl⟩, ?_,
    (Token.tokens?_eq_ok_iff _ _ _).2 ⟨by decide +kernel, rfl⟩, by decide +kernel,
    by decide +kernel⟩
  · rw [formatTokens_eq_renderInsert]
    decide +kernel
  · rw [formatTokens_eq_renderInsert]
    decide +kernel

end Formatter

end SqlLayout

import SqlLayout.Layout.Clauses
import SqlLayout.Tree.Height
import SqlLayout.Tree.Tokens

/-! Drawing statements. The painter for a tree is made level by level: the painter of
one level more draws runs and statements with the painter below it. -/
namespace SqlLayout.Layout

open SqlLayout.Tree SqlLayout.Style

/-- The texts of a run without its comments, as names of columns are shown. -/
def plainText (elements : List Element) : String :=
  let tokens := (elements.flatMap Element.tokens).filter (!·.isComment)
  " ".intercalate (tokens.map Token.text)

namespace Sheet

def update (sheet : Sheet) (painter : Painter) (base setIndent : Nat) (keyword : Token)
    (target : List Element) (clauses : List (Clause Element)) (w : Writer) : Writer :=
  let w := painter.run {} (base + 7) target (sheet.token base keyword w)
  let draw (_ : Nat) (clause : Clause Element) (w : Writer) : Writer :=
    match clause.keyword, clause.body with
    | some word, .list entries =>
      if word.contents = "SET" then
        let w := (sheet.token setIndent word (w.newline setIndent)).space
        sheet.itemList painter (setIndent + 4) sheet.style.maxColumnsUpdate entries.items w
      else sheet.clause painter base clause (w.newline base)
    | _, _ => sheet.clause painter base clause (w.newline base)
  Writer.each draw 0 clauses w

def delete (sheet : Sheet) (painter : Painter) (base : Nat) (keyword : Token)
    (target : List Element) (clauses : List (Clause Element)) (w : Writer) : Writer :=
  let w := painter.run {} (base + 7) target (sheet.token base keyword w)
  Writer.each (fun _ clause w => sheet.clause painter base clause (w.newline base)) 0 clauses w

/-- Writes the name of a column before a value, and gives the value without a comment that
says the same already. -/
def columnComment (names : List String) (index : Nat) (item : List Element) (w : Writer) :
    List Element × Writer :=
  match names[index]? with
  | none => (item, w)
  | some name =>
    let annotation := "/* " ++ name ++ " */"
    let w := (w.write annotation).space.markAs openToken
    match item with
    | .token first :: rest =>
      if first.isComment && first.text = annotation then (rest, w) else (item, w)
    | _ => (item, w)

/-- The columns or a row of an INSERT. With one entry to a line it is a block between its
parentheses; otherwise it is one line that wraps. -/
def tupleBlock (sheet : Sheet) (painter : Painter) (base : Nat) (names : List String)
    (group : Group) (w : Writer) : Writer :=
  let threshold := sheet.style.maxColumnsInsert
  let indent := if sheet.style.indentInsert then base + 2 else base
  if threshold = 1 ∧ !w.inline then
    let draw (index : Nat) (item : List Element) (w : Writer) : Writer :=
      let w := if index = 0 then w.newline indent else sheet.lineBreakComma indent w
      let (item, w) := columnComment names index item w
      painter.run {} indent item w
    let w := Writer.each draw 0 group.items (punct group.opening (w.newline base))
    punct group.closing (w.newline base)
  else
    let draw (index : Nat) (item : List Element) (w : Writer) : Writer :=
      let w := sheet.listComma (indent + 1) threshold index w
      let (item, w) := columnComment names index item w
      painter.run {} (indent + 1) item w
    punct group.closing (Writer.each draw 0 group.items (punct group.opening (w.newline indent)))

def row (sheet : Sheet) (painter : Painter) (base : Nat) (names : List String)
    (item : List Element) (w : Writer) : Writer :=
  match item with
  | [.group inner] =>
    if inner.isSubquery then painter.run {} (base + 2) item w
    else sheet.tupleBlock painter base names inner w
  | _ => painter.run {} (base + 2) item w

def insertSource (sheet : Sheet) (painter : Painter) (base : Nat) (names : List String)
    (source : InsertSource) (w : Writer) : Writer :=
  match source with
  | .nothing => w
  | .values keyword rows tail =>
    let shown := if sheet.style.addColumnNameComments then names else []
    let draw (index : Nat) (item : List Element) (w : Writer) : Writer :=
      sheet.row painter base shown item (if index = 0 then w else punct commaToken w)
    let w := Writer.each draw 0 rows.items (sheet.token base keyword (w.newline base))
    match tail with
    | none => w
    | some branch =>
      sheet.looseRun painter base branch.keyword branch.elements
        (sheet.token base branch.keyword (w.newline base))
  | .statement body => painter.statement base body (w.newline base)

def insert (sheet : Sheet) (painter : Painter) (base : Nat) (keyword : Token)
    (target : List Element) (columns : Option Group) (source : InsertSource) (w : Writer) :
    Writer :=
  let w := painter.run {} (base + 7) target (sheet.token base keyword w)
  match columns with
  | none => sheet.insertSource painter base [] source w
  | some group =>
    let w := sheet.tupleBlock painter base [] group w
    sheet.insertSource painter base (group.items.map plainText) source w

def mergeAction (sheet : Sheet) (painter : Painter) (base : Nat) (action : Form) (w : Writer) :
    Writer :=
  match action with
  | .update keyword target clauses =>
    sheet.update painter base base keyword target clauses w
  | .insert keyword target columns source =>
    sheet.insert painter base keyword target columns source (w.newline base)
  | .raw elements => painter.run {} base elements w
  | _ => w

def merge (sheet : Sheet) (painter : Painter) (base : Nat) (keyword : Token)
    (target : List Element) (source : MergeSource) (branches : List MergeBranch) (w : Writer) :
    Writer :=
  let w := painter.run {} (base + 6) target (sheet.token base keyword w)
  let w := sheet.token base source.keyword (w.newline base)
  let w := painter.run { block := true } (base + 6) source.source w
  let w := sheet.joinConditions painter base (base + 5) source.conditions w
  let draw (_ : Nat) (branch : MergeBranch) (w : Writer) : Writer :=
    let w := sheet.token base branch.keyword (w.newline base)
    sheet.mergeAction painter (base + 2) branch.action (painter.run {} (base + 2) branch.head w)
  Writer.each draw 0 branches w

/-- A tuple on one line with a space after every comma. Of a group only its items are
drawn. -/
def inlineTuple (painter : Painter) (indent : Nat) (group : Group) (w : Writer) : Writer :=
  let draw (index : Nat) (item : List Element) (w : Writer) : Writer :=
    painter.run {} indent item (if index = 0 then w else (punct commaToken w).space)
  punct group.closing (Writer.each draw 0 group.items (punct group.opening w.space))

def definitionHead (painter : Painter) (base : Nat) (head : List Element) (w : Writer) : Writer :=
  let draw (_ : Nat) (element : Element) (w : Writer) : Writer :=
    match element with
    | .group inner =>
      if inner.role = .tuple then inlineTuple painter base inner w
      else painter.run {} base [element] w
    | _ => painter.run {} base [element] w
  Writer.each draw 0 head w

def definition (sheet : Sheet) (painter : Painter) (base : Nat) (definition : Definition)
    (w : Writer) : Writer :=
  let w := definitionHead painter base definition.head w
  let w := painter.run {} base definition.modifiers (sheet.token base definition.keyword w)
  let query := definition.query
  match query.role, query.body with
  | .subquery, some body =>
    let w := (punct query.opening (w.newline base)).newline (base + 2)
    punct query.closing ((painter.statement (base + 2) body w).newline base)
  | _, _ => painter.run {} base [.group query] w

/-- Named queries never go on one line. -/
def withQueries (sheet : Sheet) (painter : Painter) (base : Nat) (keyword : Token)
    (modifiers : List Element) (definitions : List Definition) (body : Statement) (w : Writer) :
    Writer :=
  let w := { w with broken := w.broken || w.inline }
  let w := painter.run {} base modifiers (sheet.token base keyword w)
  let draw (index : Nat) (definition : Definition) (w : Writer) : Writer :=
    sheet.definition painter base definition
      (if index = 0 then w else (punct commaToken w).newline base)
  painter.statement base body ((Writer.each draw 0 definitions w).newline base)

def isColumn : List Element → Bool
  | .token token :: _ => token.kind.isName
  | _ => false

def nameWidth (items : List (List Element)) : Nat :=
  (items.map fun item =>
    match item with
    | .token token :: _ => if token.kind.isName then token.text.length else 0
    | _ => 0).foldl max 0

def columnRest (sheet : Sheet) (painter : Painter) (base : Nat) (rest : List Element)
    (w : Writer) : Writer :=
  match rest with
  | .token first :: others =>
    if first.kind.isWordLike then painter.run {} (base + 4) others (sheet.typeWord first w)
    else painter.run {} (base + 4) rest w
  | _ => painter.run {} (base + 4) rest w

def tableColumns (sheet : Sheet) (painter : Painter) (base : Nat) (group : Group) (w : Writer) :
    Writer :=
  let width := nameWidth group.items
  let count := group.items.length
  let draw (index : Nat) (item : List Element) (w : Writer) : Writer :=
    let w := w.newline (base + 2)
    let w := match item with
      | .token name :: rest =>
        if name.kind.isName then
          sheet.columnRest painter base rest
            ((sheet.token (base + 2) name w).padTo (base + 2 + width + 3))
        else painter.run {} (base + 4) item w
      | _ => painter.run {} (base + 4) item w
    if index + 1 < count then punct commaToken w else w
  let w := Writer.each draw 0 group.items (punct group.opening (w.newline base))
  punct group.closing (w.newline base)

def create (sheet : Sheet) (painter : Painter) (base : Nat) (keyword : Token)
    (object : List Element) (columns : Option Group) (rest : CreateRest) (w : Writer) : Writer :=
  let w := painter.run {} base object (sheet.token base keyword w)
  let w := match columns with
    | none => w
    | some group =>
      if object.any (Element.isKeyword ["TABLE"]) then sheet.tableColumns painter base group w
      else inlineTuple painter base group w
  match rest with
  | .nothing => w
  | .query word body =>
    painter.statement base body ((sheet.token base word (w.newline base)).newline base)
  | .run elements => painter.run {} base elements w

def grant (sheet : Sheet) (painter : Painter) (base : Nat) (keyword : Token)
    (privileges : List Element) (clauses : List (Branch Element)) (w : Writer) : Writer :=
  let w := painter.run {} (base + 2) privileges (sheet.token base keyword w)
  let draw (_ : Nat) (branch : Branch Element) (w : Writer) : Writer :=
    let w := sheet.token (base + 2) branch.keyword (w.newline (base + 2))
    painter.run {} (base + 4) branch.elements w
  Writer.each draw 0 clauses w

def form (sheet : Sheet) (painter : Painter) (base : Nat) : Form → Writer → Writer
  | .query clauses => sheet.clauses painter base clauses
  | .insert keyword target columns source =>
    sheet.insert painter base keyword target columns source
  | .update keyword target clauses =>
    sheet.update painter base (base + 3) keyword target clauses
  | .delete keyword target clauses => sheet.delete painter base keyword target clauses
  | .merge keyword target source branches =>
    sheet.merge painter base keyword target source branches
  | .withQueries keyword modifiers definitions _ body =>
    sheet.withQueries painter base keyword modifiers definitions body
  | .create keyword object columns rest => sheet.create painter base keyword object columns rest
  | .grant keyword privileges clauses => sheet.grant painter base keyword privileges clauses
  | .raw elements => painter.run {} base elements

def statement (sheet : Sheet) (painter : Painter) (base : Nat) (statement : Statement)
    (w : Writer) : Writer :=
  let w := Writer.each (fun _ comment w => (sheet.comment base comment w).newline base) 0
    statement.leading w
  let w := sheet.form painter base statement.form w
  Writer.each (fun _ comment w => sheet.comment base comment w) 0 statement.trailing w

/-- The painter for trees of less than that height. -/
def painter (sheet : Sheet) : Nat → Painter
  | 0 => .blank
  | height + 1 =>
    let below := sheet.painter height
    ⟨sheet.run below, sheet.statement below⟩

def render (sheet : Sheet) (statement : Statement) (terminator : Option Token) : String :=
  let w := (sheet.painter (statement.height + 1)).statement 0 statement {}
  (match terminator with
    | some token => w.terminate token.text
    | none => w).text

end Sheet

end SqlLayout.Layout

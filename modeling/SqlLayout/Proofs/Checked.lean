import SqlLayout.Formatter
import SqlLayout.Proofs.Nodes

/-! Drawing nodes with every step checked. A node may lack a keyword, a body or whatever else
its kind leads one to expect, a list may be empty where its first member is asked for, and a
remainder may be taken by zero. Here each such step is an error of its own, and nothing is
drawn in its place. -/
namespace SqlLayout.Layout

open SqlLayout.Tree SqlLayout.Style

inductive Undefined where
  | noKeyword
  | noClosing
  | noBody
  | noFirst
  | noParens
  | zeroModulus
  | tooDeep
  deriving DecidableEq, Repr

namespace Undefined

def need {α : Type} (undefined : Undefined) : Option α → Except Undefined α
  | none => .error undefined
  | some value => .ok value

/-- Errors about places in lists, which formatting a statement is prepared for. -/
def isIndexing : Undefined → Bool
  | .noFirst => true
  | .noParens => true
  | _ => false

end Undefined

open Undefined
open Sheet (punct)

namespace Checked

structure Painter where
  run : RunMode → Nat → List Part → Writer → Except Undefined Writer
  statement : Nat → Node → Writer → Except Undefined Writer

def Painter.blank : Painter :=
  ⟨fun _ _ _ _ => .error .tooDeep, fun _ _ _ => .error .tooDeep⟩

def remainder (number modulus : Nat) : Except Undefined Nat :=
  if modulus = 0 then .error .zeroModulus else .ok (number % modulus)

def each {α : Type} (draw : Nat → α → Writer → Except Undefined Writer) (index : Nat) :
    List α → Writer → Except Undefined Writer
  | [], w => .ok w
  | entry :: rest, w => do
    let w ← draw index entry w
    each draw (index + 1) rest w

def leave (w : Writer) : Except Undefined Writer :=
  if w.parens.isEmpty then .error .noParens else .ok w.leave

def plainText (parts : List Part) : String :=
  " ".intercalate (((parts.flatMap Part.tokens).filter (!·.isComment)).map Token.text)

def arguments : List Part → List Part × List (List Part)
  | [] => ([], [])
  | part :: rest =>
    let (head, others) := arguments rest
    if part.token?.any fun token => token.kind = .comma then ([], head :: others)
    else (part :: head, others)

def startsCall : List Part → Bool
  | .node node :: _ => node.kind = .parenGroup && node.role = some .call
  | _ => false

variable (sheet : Sheet) (painter : Painter)

def onOneLine? (body : Node) : Except Undefined (Option String) := do
  let w ← painter.statement 0 body { inline := true }
  return if w.broken || sheet.width < w.chars.length then none else some w.text

def subquery (block : Bool) (body : Node) (w : Writer) : Except Undefined Writer := do
  if w.inline then painter.statement w.column body w
  else if block then
    let outer := w.indent
    let w ← painter.statement (outer + 2) body (w.newline (outer + 2))
    return w.newline outer
  else
    match ← onOneLine? sheet painter body with
    | some text => return (w.write text).markAs closeToken
    | none => painter.statement w.column body w

def decode (nameColumn : Nat) (group : Node) (w : Writer) : Except Undefined Writer := do
  let opening ← need .noKeyword group.keyword
  let w := punct opening w
  let column := w.column
  let (first, others) := arguments group.elements
  let draw (index : Nat) (argument : List Part) (w : Writer) : Except Undefined Writer :=
    let w := if index = 0 then w else punct commaToken w
    let w := if index % 2 = 1 then w.newline column else w
    painter.run {} column argument w
  let w ← each draw 0 (first :: others) (w.enter .call)
  let w ← leave w
  let closing ← need .noClosing group.closing
  return sheet.token nameColumn closing (w.newline nameColumn)

def content (block : Bool) (name : Option Token) (group : Node) (w : Writer) :
    Except Undefined Writer := do
  if group.isSubquery then
    let body ← need .noBody group.body
    subquery sheet painter block body w
  else
    let isCast := name.any fun name => castFunctions.contains (Text.upper name.contents)
    painter.run { typeAfterAs := isCast } w.column group.elements w

def group (indent : Nat) (block : Bool) (group : Node) (w : Writer) :
    Except Undefined Writer := do
  let name := if group.role = some .call then w.last else none
  match name.filter fun name =>
      Text.upper name.text = "DECODE" && !group.elements.isEmpty && !w.inline with
  | some name => decode sheet painter (w.column - name.text.length) group w
  | none =>
    let opening ← need .noKeyword group.keyword
    let apart := name.all Token.isComment && sheet.needsSpace w opening
    let w := punct opening (if apart then w.space else w)
    let w ← content sheet painter block name group (w.enter (group.role.getD .grouping))
    let w ← leave w
    let closing ← need .noClosing group.closing
    return sheet.token indent closing w

def caseExpression (node : Node) (w : Writer) : Except Undefined Writer := do
  let keyword ← need .noKeyword node.keyword
  let w := sheet.token w.column keyword w
  let column := w.column - keyword.text.length
  let w ← painter.run {} (column + 5) node.elements w
  let draw (_ : Nat) (branch : Node) (w : Writer) : Except Undefined Writer := do
    let keyword ← need .noKeyword branch.keyword
    let w := sheet.token (column + 2) keyword (w.newline (column + 2))
    painter.run {} (column + 3 + keyword.contents.length) branch.elements w
  let w ← each draw 0 node.children w
  let closing ← need .noClosing node.closing
  return sheet.token column closing (w.newline column)

/-- One member of a run; what is neither a group nor a CASE expression is a statement. -/
def member (mode : RunMode) (indent : Nat) (afterAs : Bool) (rest : List Part) :
    Part → Writer → Except Undefined Writer
  | .token token, w =>
    if mode.typeAfterAs && afterAs && token.kind.isWordLike then .ok (sheet.typeWord token w)
    else .ok (sheet.word indent (startsCall rest) token w)
  | .node node, w =>
    match node.kind with
    | .parenGroup => group sheet painter indent (mode.block && node.isSubquery) node w
    | .case => caseExpression sheet painter node w
    | _ => painter.statement w.space.column node w.space

def runFrom (mode : RunMode) (indent : Nat) (afterAs : Bool) :
    List Part → Writer → Except Undefined Writer
  | [], w => .ok w
  | part :: rest, w => do
    let w ← member sheet painter mode indent afterAs rest part w
    runFrom mode indent (part.isKeyword ["AS"]) rest w

def listComma (indent threshold index : Nat) (w : Writer) : Except Undefined Writer := do
  if index = 0 then return w
  else
    let place ← remainder index threshold
    return if place = 0 then sheet.lineBreakComma indent w else (punct commaToken w).space

def itemList (indent threshold : Nat) (items : List (List Part)) (w : Writer) :
    Except Undefined Writer :=
  let draw (index : Nat) (item : List Part) (w : Writer) : Except Undefined Writer := do
    let w ← listComma sheet indent threshold index w
    painter.run {} indent item w
  each draw 0 items w

def joinConditions (indent keywordEnd : Nat) (conditions : List (Condition Part)) (w : Writer) :
    Except Undefined Writer :=
  let wraps := sheet.style.joinWrapStyle.wraps conditions.length
  let draw (_ : Nat) (condition : Condition Part) (w : Writer) : Except Undefined Writer :=
    let w := match condition.connector with
      | none => w
      | some connector =>
        let w :=
          if wraps then w.newline (max (keywordEnd - connector.contents.length) indent) else w
        sheet.token indent connector w
    painter.run {} (keywordEnd + 1) condition.elements w
  each draw 0 conditions w

def joined (mode : RunMode) (source indent keywordEnd : Nat) (node : Node) (w : Writer) :
    Except Undefined Writer := do
  let w ←
    if node.items.isEmpty then .ok w
    else do
      let first ← need .noFirst node.items.head?
      painter.run mode source first w
  if node.conditions.isEmpty then return w
  else joinConditions sheet painter indent keywordEnd node.conditions w

def join (indent : Nat) (join : Node) (w : Writer) : Except Undefined Writer := do
  let keyword ← need .noKeyword join.keyword
  let w := sheet.token indent keyword w
  let w ← joined sheet painter { block := sheet.style.newLineForSubselects } (indent + 2) indent
    (indent + keyword.contents.length) join w
  painter.run {} (indent + 2) join.elements w

def sources (base : Nat) (clause : Node) (w : Writer) : Except Undefined Writer := do
  let drawTable (index : Nat) (table : List Part) (w : Writer) : Except Undefined Writer :=
    let w := if index = 0 then w else (punct commaToken w).newline (base + 5)
    painter.run { block := sheet.style.newLineForSubselects } (base + 5) table w
  let drawJoin (_ : Nat) (node : Node) (w : Writer) : Except Undefined Writer :=
    join sheet painter (base + 2) node (w.newline (base + 2))
  let w ← each drawTable 0 clause.items w
  each drawJoin 0 clause.children w

def predicates (base width : Nat) (conditions : List (Condition Part)) (w : Writer) :
    Except Undefined Writer :=
  let align := base + width + 1
  let draw (index : Nat) (condition : Condition Part) (w : Writer) : Except Undefined Writer :=
    let w := match condition.connector with
      | none => w
      | some connector =>
        if index = 0 then sheet.token base connector w
        else if sheet.style.indentWhereConditions then
          sheet.token base connector (w.newline (base + (width - connector.contents.length)))
        else (sheet.token base connector (w.newline base)).padTo align
    painter.run {} align condition.elements w
  each draw 0 conditions w

def clause (base : Nat) (clause : Node) (w : Writer) : Except Undefined Writer :=
  match clause.keyword with
  | none => painter.run {} base clause.elements w
  | some keyword => do
    let word := keyword.contents
    let width := word.length
    let w := sheet.token base keyword w
    if word = "SELECT" then
      let w ← painter.run {} base clause.elements w
      itemList sheet painter (base + 7) sheet.style.maxColumnsSelect clause.items w.space
    else if word = "FROM" then sources sheet painter base clause w
    else if predicateClauses.contains word then
      predicates sheet painter base width clause.conditions w
    else if orderingClauses.contains word then
      itemList sheet painter (base + width + 1) sheet.style.maxColumnsUpdate clause.items w.space
    else if word = "SET" then
      itemList sheet painter (w.space.column + 1) sheet.style.maxColumnsUpdate clause.items
        w.space
    else if setOperators.contains word then
      if clause.elements.isEmpty then return w
      else painter.run {} base clause.elements (w.newline base)
    else painter.run {} (base + width + 1) clause.elements w

def select (base : Nat) (node : Node) (w : Writer) : Except Undefined Writer :=
  each (fun index child w =>
    clause sheet painter base child (if index = 0 then w else w.newline base)) 0 node.children w

def update (base setIndent : Nat) (node : Node) (w : Writer) : Except Undefined Writer := do
  let keyword ← need .noKeyword node.keyword
  let w ← painter.run {} (base + 7) node.elements (sheet.token base keyword w)
  let draw (_ : Nat) (child : Node) (w : Writer) : Except Undefined Writer :=
    match child.keyword with
    | some word =>
      if word.contents = "SET" then
        let w := (sheet.token setIndent word (w.newline setIndent)).space
        itemList sheet painter (setIndent + 4) sheet.style.maxColumnsUpdate child.items w
      else clause sheet painter base child (w.newline base)
    | none => clause sheet painter base child (w.newline base)
  each draw 0 node.children w

def delete (base : Nat) (node : Node) (w : Writer) : Except Undefined Writer := do
  let keyword ← need .noKeyword node.keyword
  let w ← painter.run {} (base + 7) node.elements (sheet.token base keyword w)
  each (fun _ child w => clause sheet painter base child (w.newline base)) 0 node.children w

def columnComment (names : List String) (index : Nat) (item : List Part) (w : Writer) :
    List Part × Writer :=
  match names[index]? with
  | none => (item, w)
  | some name =>
    let annotation := "/* " ++ name ++ " */"
    let w := (w.write annotation).space.markAs openToken
    match item with
    | .token first :: rest =>
      if first.isComment && first.text = annotation then (rest, w) else (item, w)
    | _ => (item, w)

def tupleBlock (base : Nat) (names : List String) (group : Node) (w : Writer) :
    Except Undefined Writer := do
  let threshold := sheet.style.maxColumnsInsert
  let indent := if sheet.style.indentInsert then base + 2 else base
  let opening ← need .noKeyword group.keyword
  if threshold = 1 ∧ !w.inline then
    let draw (index : Nat) (item : List Part) (w : Writer) : Except Undefined Writer :=
      let w := if index = 0 then w.newline indent else sheet.lineBreakComma indent w
      let (item, w) := columnComment names index item w
      painter.run {} indent item w
    let w ← each draw 0 group.items (punct opening (w.newline base))
    let closing ← need .noClosing group.closing
    return punct closing (w.newline base)
  else
    let draw (index : Nat) (item : List Part) (w : Writer) : Except Undefined Writer := do
      let w ← listComma sheet (indent + 1) threshold index w
      let (item, w) := columnComment names index item w
      painter.run {} (indent + 1) item w
    let w ← each draw 0 group.items (punct opening (w.newline indent))
    let closing ← need .noClosing group.closing
    return punct closing w

def row (base : Nat) (names : List String) (item : List Part) (w : Writer) :
    Except Undefined Writer := do
  if item.length = 1 then
    match ← need .noFirst item.head? with
    | .token _ => painter.run {} (base + 2) item w
    | .node inner =>
      if inner.kind = .parenGroup && !inner.isSubquery then
        tupleBlock sheet painter base names inner w
      else painter.run {} (base + 2) item w
  else painter.run {} (base + 2) item w

def rows (base : Nat) (names : List String) (keyword : Token) (values : Node) (w : Writer) :
    Except Undefined Writer :=
  let shown := if sheet.style.addColumnNameComments then names else []
  let draw (index : Nat) (item : List Part) (w : Writer) : Except Undefined Writer :=
    row sheet painter base shown item (if index = 0 then w else punct commaToken w)
  each draw 0 values.items (sheet.token base keyword (w.newline base))

def insertParts (base : Nat) (names : List String) :
    List Node → Writer → Except Undefined Writer
  | [], w => .ok w
  | child :: rest, w =>
    if child.kind = .parenGroup then do
      let w ← tupleBlock sheet painter base [] child w
      insertParts base (child.items.map plainText) rest w
    else
      match child.keyword.filter (Token.isKeyword · ["VALUES"]) with
      | some keyword => do
        let w ← rows sheet painter base names keyword child w
        insertParts base names rest w
      | none => do
        let w ← clause sheet painter base child (w.newline base)
        insertParts base names rest w

def insert (base : Nat) (node : Node) (w : Writer) : Except Undefined Writer := do
  let keyword ← need .noKeyword node.keyword
  let w ← painter.run {} (base + 7) node.elements (sheet.token base keyword w)
  let w ← insertParts sheet painter base [] node.children w
  match node.body with
  | none => return w
  | some body => painter.statement base body (w.newline base)

def raw (base : Nat) (node : Node) (w : Writer) : Except Undefined Writer :=
  let w := match node.keyword with
    | none => w
    | some keyword => sheet.token base keyword w
  painter.run {} base node.elements w

def mergeAction (base : Nat) (action : Option Node) (w : Writer) : Except Undefined Writer :=
  match action with
  | none => .ok w
  | some node =>
    match node.kind with
    | .update => update sheet painter base base node w
    | .insert => insert sheet painter base node (w.newline base)
    | _ => raw sheet painter base node w

def merge (base : Nat) (node : Node) (w : Writer) : Except Undefined Writer := do
  let keyword ← need .noKeyword node.keyword
  let w ← painter.run {} (base + 6) node.elements (sheet.token base keyword w)
  let draw (_ : Nat) (child : Node) (w : Writer) : Except Undefined Writer := do
    let keyword ← need .noKeyword child.keyword
    let w := sheet.token base keyword (w.newline base)
    if keyword.isKeyword ["USING"] then
      joined sheet painter { block := true } (base + 6) base (base + 5) child w
    else
      let w ← painter.run {} (base + 2) child.elements w
      mergeAction sheet painter (base + 2) child.body w
  each draw 0 node.children w

def inlineTuple (indent : Nat) (group : Node) (w : Writer) : Except Undefined Writer := do
  let opening ← need .noKeyword group.keyword
  let draw (index : Nat) (item : List Part) (w : Writer) : Except Undefined Writer :=
    painter.run {} indent item (if index = 0 then w else (punct commaToken w).space)
  let w ← each draw 0 group.items (punct opening w.space)
  let closing ← need .noClosing group.closing
  return punct closing w

def definitionHead (base : Nat) (head : List Part) (w : Writer) : Except Undefined Writer :=
  let draw (_ : Nat) (part : Part) (w : Writer) : Except Undefined Writer :=
    match part with
    | .token _ => painter.run {} base [part] w
    | .node inner =>
      if inner.kind = .parenGroup && inner.role = some .tuple then
        inlineTuple painter base inner w
      else painter.run {} base [part] w
  each draw 0 head w

def definition (base : Nat) (definition : Node) (w : Writer) : Except Undefined Writer := do
  let w ← definitionHead painter base definition.elements w
  let keyword ← need .noKeyword definition.keyword
  let w := sheet.token base keyword w
  let w ← each (fun _ modifiers w => painter.run {} base modifiers w) 0 definition.items w
  let group ← need .noBody definition.body
  if group.isSubquery then
    let opening ← need .noKeyword group.keyword
    let body ← need .noBody group.body
    let w := (punct opening (w.newline base)).newline (base + 2)
    let w ← painter.statement (base + 2) body w
    let closing ← need .noClosing group.closing
    return punct closing (w.newline base)
  else painter.run {} base [.node group] w

def withQueries (base : Nat) (node : Node) (w : Writer) : Except Undefined Writer := do
  let w := { w with broken := w.broken || w.inline }
  let keyword ← need .noKeyword node.keyword
  let w ← painter.run {} base node.elements (sheet.token base keyword w)
  let draw (index : Nat) (child : Node) (w : Writer) : Except Undefined Writer :=
    definition sheet painter base child
      (if index = 0 then w else (punct commaToken w).newline base)
  let w ← each draw 0 node.children w
  match node.body with
  | none => return w
  | some body => painter.statement base body (w.newline base)

def columnName? (item : List Part) : Except Undefined (Option Token) := do
  if item.isEmpty then return none
  else
    let first ← need .noFirst item.head?
    return first.token?.filter fun token => token.kind.isName

def nameWidth (items : List (List Part)) : Except Undefined Nat := do
  let names ← items.mapM columnName?
  return ((names.filterMap id).map fun name => name.text.length).foldl max 0

def columnRest (base : Nat) (rest : List Part) (w : Writer) : Except Undefined Writer := do
  if rest.isEmpty then painter.run {} (base + 4) rest w
  else
    match (← need .noFirst rest.head?).token?.filter fun token => token.kind.isWordLike with
    | some first => painter.run {} (base + 4) rest.tail (sheet.typeWord first w)
    | none => painter.run {} (base + 4) rest w

def tableColumns (base : Nat) (group : Node) (w : Writer) : Except Undefined Writer := do
  let width ← nameWidth group.items
  let count := group.items.length
  let opening ← need .noKeyword group.keyword
  let draw (index : Nat) (item : List Part) (w : Writer) : Except Undefined Writer := do
    let w := w.newline (base + 2)
    let w ← match ← columnName? item with
      | some name =>
        columnRest sheet painter base item.tail
          ((sheet.token (base + 2) name w).padTo (base + 2 + width + 3))
      | none => painter.run {} (base + 4) item w
    return if index + 1 < count then punct commaToken w else w
  let w ← each draw 0 group.items (punct opening (w.newline base))
  let closing ← need .noClosing group.closing
  return punct closing (w.newline base)

def createPart (base : Nat) (isTable : Bool) (child : Node) (w : Writer) :
    Except Undefined Writer :=
  if child.kind = .parenGroup then
    if isTable then tableColumns sheet painter base child w
    else inlineTuple painter base child w
  else
    match child.keyword.filter (Token.isKeyword · ["AS"]) with
    | some keyword => do
      let body ← need .noBody child.body
      painter.statement base body ((sheet.token base keyword (w.newline base)).newline base)
    | none => painter.run {} base child.elements w

def create (base : Nat) (node : Node) (w : Writer) : Except Undefined Writer := do
  let keyword ← need .noKeyword node.keyword
  let w ← painter.run {} base node.elements (sheet.token base keyword w)
  let isTable := node.elements.any (Part.isKeyword ["TABLE"])
  each (fun _ child w => createPart sheet painter base isTable child w) 0 node.children w

def grant (base : Nat) (node : Node) (w : Writer) : Except Undefined Writer := do
  let keyword ← need .noKeyword node.keyword
  let w ← painter.run {} (base + 2) node.elements (sheet.token base keyword w)
  let draw (_ : Nat) (child : Node) (w : Writer) : Except Undefined Writer := do
    let keyword ← need .noKeyword child.keyword
    let w := sheet.token (base + 2) keyword (w.newline (base + 2))
    painter.run {} (base + 4) child.elements w
  each draw 0 node.children w

def handled (base : Nat) (node : Node) : Writer → Except Undefined Writer :=
  match node.kind with
  | .select => select sheet painter base node
  | .insert => insert sheet painter base node
  | .update => update sheet painter base (base + 3) node
  | .delete => delete sheet painter base node
  | .merge => merge sheet painter base node
  | .cte => withQueries sheet painter base node
  | .create => create sheet painter base node
  | .grant => grant sheet painter base node
  | _ => raw sheet painter base node

def statement (base : Nat) (node : Node) (w : Writer) : Except Undefined Writer := do
  let w := Writer.each (fun _ comment w => (sheet.comment base comment w).newline base) 0
    node.leading w
  let w ← handled sheet painter base node w
  return Writer.each (fun _ comment w => sheet.comment base comment w) 0 node.trailing w

def painterOf (sheet : Sheet) : Nat → Painter
  | 0 => .blank
  | height + 1 =>
    let below := painterOf sheet height
    ⟨fun mode indent => runFrom sheet below mode indent false, statement sheet below⟩

def render (height : Nat) (node : Node) (terminator : Option Token) :
    Except Undefined String := do
  let w ← (painterOf sheet (height + 1)).statement 0 node {}
  return (match terminator with
    | some token => w.terminate token.text
    | none => w).text

end Checked

end SqlLayout.Layout

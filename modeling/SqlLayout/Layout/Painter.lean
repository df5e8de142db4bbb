import SqlLayout.Layout.Sheet
import SqlLayout.Tree.Cutting

/-! Drawing runs of elements. A painter draws what lies deeper in a tree: the runs
and statements inside groups and CASE expressions. The functions here say how a run
is drawn once a painter for what its elements hold is given. -/
namespace SqlLayout.Layout

open SqlLayout.Tree SqlLayout.Style

structure RunMode where
  /-- Subqueries get lines of their own. -/
  block : Bool := false
  typeAfterAs : Bool := false

structure Painter where
  run : RunMode → Nat → List Element → Writer → Writer
  statement : Nat → Statement → Writer → Writer

/-- Draws nothing; it stands for what is deeper than a tree goes. -/
def Painter.blank : Painter :=
  ⟨fun _ _ _ w => w, fun _ _ w => w⟩

/-- Functions whose argument may name a data type after AS. -/
def castFunctions : List String :=
  ["CAST", "TRY_CAST", "SAFE_CAST", "CONVERT"]

def startsCall : List Element → Bool
  | .group group :: _ => group.role = .call
  | _ => false

namespace Sheet

def onOneLine? (sheet : Sheet) (painter : Painter) (body : Statement) : Option String :=
  let w := painter.statement 0 body { inline := true }
  if w.broken || sheet.width < w.chars.length then none else some w.text

def subquery (sheet : Sheet) (painter : Painter) (block : Bool) (body : Statement)
    (w : Writer) : Writer :=
  if w.inline then painter.statement w.column body w
  else if block then
    let outer := w.indent
    (painter.statement (outer + 2) body (w.newline (outer + 2))).newline outer
  else
    match sheet.onOneLine? painter body with
    | some text => (w.write text).markAs closeToken
    | none => painter.statement w.column body w

/-- The arguments of DECODE: after the first, two on a line, below each other. -/
def decode (sheet : Sheet) (painter : Painter) (nameColumn : Nat) (group : Group)
    (w : Writer) : Writer :=
  let w := punct group.opening w
  let column := w.column
  let (first, others) := cutCommas group.elements
  let draw (index : Nat) (argument : List Element) (w : Writer) : Writer :=
    let w := if index = 0 then w else punct commaToken w
    let w := if index % 2 = 1 then w.newline column else w
    painter.run {} column argument w
  let w := (Writer.each draw 0 (first :: others.map Prod.snd) (w.enter .call)).leave
  sheet.token nameColumn group.closing (w.newline nameColumn)

def content (sheet : Sheet) (painter : Painter) (block : Bool) (name : Option Token)
    (group : Group) (w : Writer) : Writer :=
  match group.role, group.body with
  | .subquery, some body => sheet.subquery painter block body w
  | _, _ =>
    let isCast := name.any fun name => castFunctions.contains (Text.upper name.contents)
    painter.run { typeAfterAs := isCast } w.column group.elements w

def group (sheet : Sheet) (painter : Painter) (indent : Nat) (block : Bool) (group : Group)
    (w : Writer) : Writer :=
  let name := if group.role = .call then w.last else none
  match name.filter fun name =>
      Text.upper name.text = "DECODE" && !group.elements.isEmpty && !w.inline with
  | some name => sheet.decode painter (w.column - name.text.length) group w
  | none =>
    let apart := name.all Token.isComment && sheet.needsSpace w group.opening
    let w := punct group.opening (if apart then w.space else w)
    let w := (sheet.content painter block name group (w.enter group.role)).leave
    sheet.token indent group.closing w

def caseExpression (sheet : Sheet) (painter : Painter) (case : Case Element) (w : Writer) :
    Writer :=
  let w := sheet.token w.column case.keyword w
  let column := w.column - case.keyword.text.length
  let w := painter.run {} (column + 5) case.operand w
  let draw (_ : Nat) (branch : Branch Element) (w : Writer) : Writer :=
    let w := sheet.token (column + 2) branch.keyword (w.newline (column + 2))
    painter.run {} (column + 3 + branch.keyword.contents.length) branch.elements w
  let w := Writer.each draw 0 case.branches w
  sheet.token column case.closing (w.newline column)

def runFrom (sheet : Sheet) (painter : Painter) (mode : RunMode) (indent : Nat)
    (afterAs : Bool) : List Element → Writer → Writer
  | [], w => w
  | .token token :: rest, w =>
    let w :=
      if mode.typeAfterAs && afterAs && token.kind.isWordLike then sheet.typeWord token w
      else sheet.word indent (startsCall rest) token w
    sheet.runFrom painter mode indent (token.isKeyword ["AS"]) rest w
  | .group inner :: rest, w =>
    sheet.runFrom painter mode indent false rest
      (sheet.group painter indent (mode.block && inner.isSubquery) inner w)
  | .case inner :: rest, w =>
    sheet.runFrom painter mode indent false rest (sheet.caseExpression painter inner w)

def run (sheet : Sheet) (painter : Painter) (mode : RunMode) (indent : Nat)
    (elements : List Element) (w : Writer) : Writer :=
  sheet.runFrom painter mode indent false elements w

end Sheet

end SqlLayout.Layout

import SqlLayout.Layout.Painter
import SqlLayout.Tree.Clauses

/-! Drawing clauses: lists with their wraps, sources with their joins, and chains of
conditions. -/
namespace SqlLayout.Layout.Sheet

open SqlLayout.Tree SqlLayout.Style

def itemList (sheet : Sheet) (painter : Painter) (indent threshold : Nat)
    (items : List (List Element)) (w : Writer) : Writer :=
  Writer.each (fun index item w =>
    painter.run {} indent item (sheet.listComma indent threshold index w)) 0 items w

/-- The conditions of a join. When they are wrapped, their connectors end below the end
of the keyword of the join. -/
def joinConditions (sheet : Sheet) (painter : Painter) (indent keywordEnd : Nat)
    (conditions : List (Condition Element)) (w : Writer) : Writer :=
  let wraps := sheet.style.joinWrapStyle.wraps conditions.length
  let draw (_ : Nat) (condition : Condition Element) (w : Writer) : Writer :=
    let w := match condition.connector with
      | none => w
      | some connector =>
        let w :=
          if wraps then w.newline (max (keywordEnd - connector.contents.length) indent) else w
        sheet.token indent connector w
    painter.run {} (keywordEnd + 1) condition.elements w
  Writer.each draw 0 conditions w

def join (sheet : Sheet) (painter : Painter) (indent : Nat) (join : Join Element)
    (w : Writer) : Writer :=
  let w := sheet.token indent join.keyword w
  let w := painter.run { block := sheet.style.newLineForSubselects } (indent + 2) join.source w
  let w := sheet.joinConditions painter indent (indent + join.keyword.contents.length)
    join.conditions w
  painter.run {} (indent + 2) join.columns w

def sources (sheet : Sheet) (painter : Painter) (base : Nat) (tables : List (List Element))
    (joins : List (Join Element)) (w : Writer) : Writer :=
  let drawTable (index : Nat) (table : List Element) (w : Writer) : Writer :=
    let w := if index = 0 then w else (punct commaToken w).newline (base + 5)
    painter.run { block := sheet.style.newLineForSubselects } (base + 5) table w
  let drawJoin (_ : Nat) (join : Join Element) (w : Writer) : Writer :=
    sheet.join painter (base + 2) join (w.newline (base + 2))
  Writer.each drawJoin 0 joins (Writer.each drawTable 0 tables w)

/-- The conditions of a clause whose keyword has `width` characters. Each connector goes
to a line of its own, where it starts at the left or ends below the keyword. -/
def predicates (sheet : Sheet) (painter : Painter) (base width : Nat)
    (conditions : List (Condition Element)) (w : Writer) : Writer :=
  let align := base + width + 1
  let draw (index : Nat) (condition : Condition Element) (w : Writer) : Writer :=
    let w := match condition.connector with
      | none => w
      | some connector =>
        if index = 0 then sheet.token base connector w
        else if sheet.style.indentWhereConditions then
          sheet.token base connector (w.newline (base + (width - connector.contents.length)))
        else (sheet.token base connector (w.newline base)).padTo align
    painter.run {} align condition.elements w
  Writer.each draw 0 conditions w

/-- A run after a keyword, where it has not been cut as the keyword would ask. What would
have been cut into items or conditions is then not drawn. -/
def looseRun (_ : Sheet) (painter : Painter) (base : Nat) (keyword : Token)
    (elements : List Element) (w : Writer) : Writer :=
  let word := keyword.contents
  if word = "SELECT" then (painter.run {} base elements w).space
  else if word = "FROM" || word = "VALUES" || predicateClauses.contains word then w
  else if orderingClauses.contains word || word = "SET" then w.space
  else if setOperators.contains word then
    if elements.isEmpty then w else painter.run {} base elements (w.newline base)
  else painter.run {} (base + word.length + 1) elements w

def clause (sheet : Sheet) (painter : Painter) (base : Nat) (clause : Clause Element)
    (w : Writer) : Writer :=
  match clause.keyword, clause.body with
  | none, .run elements => painter.run {} base elements w
  | none, _ => w
  | some keyword, body =>
    let width := keyword.contents.length
    let w := sheet.token base keyword w
    match body with
    | .run elements => sheet.looseRun painter base keyword elements w
    | .projection modifiers columns =>
      sheet.itemList painter (base + 7) sheet.style.maxColumnsSelect columns.items
        (painter.run {} base modifiers w).space
    | .sources tables joins => sheet.sources painter base tables.items joins w
    | .predicate conditions => sheet.predicates painter base width conditions w
    | .list entries =>
      let w := w.space
      let indent := if keyword.contents = "SET" then w.column + 1 else base + width + 1
      sheet.itemList painter indent sheet.style.maxColumnsUpdate entries.items w

def clauses (sheet : Sheet) (painter : Painter) (base : Nat) (clauses : List (Clause Element))
    (w : Writer) : Writer :=
  Writer.each (fun index clause w =>
    sheet.clause painter base clause (if index = 0 then w else w.newline base)) 0 clauses w

end SqlLayout.Layout.Sheet

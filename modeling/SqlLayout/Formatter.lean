import SqlLayout.Layout.Statements
import SqlLayout.Report
import SqlLayout.Token.Lexer
import SqlLayout.Token.Stream
import SqlLayout.Tree.Walk

/-! The formatter: a style, a width and the words of a dialect. It lays out the
statements of a text one by one and puts an empty line between them. The only text
that it refuses is one that cannot be cut into tokens. -/
namespace SqlLayout

open Keyword Layout

structure Formatter where
  style : Style
  /-- The longest subquery that stays on one line. -/
  width : Nat
  hint : Value
  registry : Registry

/-- Where comments start that begin a line: no token stands before them, or blanks with a
line break. -/
def commentLineStarts (previous : Option Token) : List Token → List Nat
  | [] => []
  | token :: rest =>
    let beginsLine := previous.all fun before =>
      before.isBlank && before.text.toList.contains '\n'
    let others := commentLineStarts (some token) rest
    if token.isComment && beginsLine then token.start :: others else others

namespace Formatter

structure Request where
  style : Style ⊕ Value := .inr .null
  width : Value := .int 60
  hint : Value := .null

def readStyle : Style ⊕ Value → Report Style
  | .inl style => pure style
  | .inr .null => pure {}
  | .inr (.record entries) => Style.ofValue (.record entries)
  | .inr other => .fault (.styleKind other.kind)

def readWidth : Value → Report Nat
  | .int number =>
    if number < 1 then .noted (.widthBelowOne number) 1 else pure number.toNat
  | other => .fault (.widthKind other.kind)

def findRegistry (catalogue : Catalogue) (hint : Value) : Report (Registry × Catalogue) :=
  match catalogue.lookupValue hint with
  | .error fault => .fault fault
  | .ok answer => ⟨answer.notices, .ok (answer.registry, answer.catalogue)⟩

def make (catalogue : Catalogue) (request : Request) : Report (Formatter × Catalogue) := do
  let style ← readStyle request.style
  let width ← readWidth request.width
  let (registry, catalogue) ← findRegistry catalogue request.hint
  return (⟨style, width, request.hint, registry⟩, catalogue)

def formatStatement (formatter : Formatter) (lineStarts : List Nat) (tokens : List Token) :
    String :=
  if tokens.all fun token => token.isBlank || token.kind = .semicolon then ""
  else
    let terminator := tokens.getLast?.filter fun token => token.kind = .semicolon
    let vocabulary : Tree.Vocabulary := ⟨formatter.registry, formatter.style.functionNames⟩
    let sheet : Sheet := ⟨formatter.style, formatter.registry, formatter.width, lineStarts⟩
    sheet.render (Tree.walk vocabulary tokens).statement terminator

def formatTokens (formatter : Formatter) (tokens : List Token) : String :=
  let lineStarts := commentLineStarts none tokens
  let texts := (Token.splitStatements tokens).map (formatter.formatStatement lineStarts)
  "\n\n".intercalate (texts.filter (· ≠ ""))

def format (formatter : Formatter) (source : String) : Except Fault String :=
  (Token.tokens? formatter.registry source).map formatter.formatTokens

def formatValue (formatter : Formatter) : Value → Except Fault String
  | .text source => formatter.format source
  | other => .error (.sourceKind other.kind)

end Formatter

end SqlLayout

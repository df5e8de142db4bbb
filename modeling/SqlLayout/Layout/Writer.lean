import SqlLayout.Token.Basic
import SqlLayout.Tree.Basic

/-! The line writer. Spaces and line breaks are only remembered until the next text
is written, so no line ends with a space and two breaks in a row are one. What has
been written is kept as pieces, each a text with the separator before it. An inline
writer makes a space of every break; a text with a break in it, or a line comment,
marks it as broken. -/
namespace SqlLayout.Layout

open SqlLayout.Tree

/-- A text and what separates it from the one before: a line break or not, then spaces. -/
structure Piece where
  lineBreak : Bool
  spaces : Nat
  text : String
  deriving DecidableEq, Repr

namespace Piece

def separator (piece : Piece) : List Char :=
  (if piece.lineBreak then ['\n'] else []) ++ List.replicate piece.spaces ' '

def chars (piece : Piece) : List Char :=
  piece.separator ++ piece.text.toList

end Piece

structure Writer where
  inline : Bool := false
  broken : Bool := false
  /-- What was written last, in as far as spacing depends on it. -/
  last : Option Token := none
  lastUnary : Bool := false
  /-- What has been written, the latest first. -/
  pieces : List Piece := []
  pendingSpaces : Nat := 0
  pendingBreak : Bool := false
  lineHasContent : Bool := false
  /-- A break that the next text cannot avoid, with its indentation. -/
  breakIndent : Option Nat := none
  column : Nat := 0
  indent : Nat := 0
  parens : List Role := []

namespace Writer

def chars (w : Writer) : List Char :=
  w.pieces.reverse.flatMap Piece.chars

def text (w : Writer) : String :=
  String.ofList w.chars

/-- Asks for a number of spaces at least, unless the line is still empty. -/
def spaces (count : Nat) (w : Writer) : Writer :=
  if w.lineHasContent then { w with pendingSpaces := max w.pendingSpaces count } else w

def space (w : Writer) : Writer :=
  w.spaces 1

def padTo (column : Nat) (w : Writer) : Writer :=
  if w.inline then w.space
  else if w.lineHasContent ∧ w.column < column then
    { w with pendingSpaces := column - w.column }
  else w

def newline (indent : Nat) (w : Writer) : Writer :=
  if w.inline then { w with breakIndent := none }.space
  else
    { w with
      breakIndent := none
      pendingBreak := w.pendingBreak || w.lineHasContent
      lineHasContent := false
      column := if w.lineHasContent then 0 else w.column
      pendingSpaces := indent
      indent := indent }

def columnAfter (column : Nat) (text : String) : Nat :=
  let chars := text.toList
  if chars.contains '\n' then (chars.reverse.takeWhile (· ≠ '\n')).length
  else column + chars.length

/-- Takes a break that cannot be avoided. -/
def settle (w : Writer) : Writer :=
  match w.breakIndent with
  | some indent => w.newline indent
  | none => w

def put (text : String) (w : Writer) : Writer :=
  { w with
    pieces := ⟨w.pendingBreak, w.pendingSpaces, text⟩ :: w.pieces
    pendingBreak := false
    pendingSpaces := 0
    column := columnAfter (w.column + w.pendingSpaces) text
    broken := w.broken || (w.inline && text.toList.contains '\n')
    lineHasContent := true }

def write (text : String) (w : Writer) : Writer :=
  if text = "" then w else w.settle.put text

def endLineAfterComment (indent : Nat) (w : Writer) : Writer :=
  { w with broken := w.broken || w.inline, breakIndent := some indent }

def terminate (text : String) (w : Writer) : Writer :=
  (if w.breakIndent.isSome then w.newline 0 else w).write text

def mark (token : Token) (unary : Bool) (w : Writer) : Writer :=
  { w with last := some token, lastUnary := unary }

/-- The next text stands as after an opening parenthesis or another token, while it
remains open whether the operator before it was unary. -/
def markAs (token : Token) (w : Writer) : Writer :=
  { w with last := some token }

def enter (role : Role) (w : Writer) : Writer :=
  { w with parens := role :: w.parens }

def leave (w : Writer) : Writer :=
  { w with parens := w.parens.tail }

def inListParens (w : Writer) : Bool :=
  w.parens.head?.any (· ≠ .subquery)

def each {α : Type} (draw : Nat → α → Writer → Writer) (index : Nat) :
    List α → Writer → Writer
  | [], w => w
  | entry :: rest, w => each draw (index + 1) rest (draw index entry w)

@[simp] theorem each_nil {α : Type} (draw : Nat → α → Writer → Writer) (index : Nat)
    (w : Writer) : each draw index [] w = w := rfl

theorem each_map {α β : Type} (draw : Nat → β → Writer → Writer) (part : α → β) (index : Nat)
    (entries : List α) (w : Writer) :
    each draw index (entries.map part) w =
      each (fun place entry => draw place (part entry)) index entries w := by
  induction entries generalizing index w with
  | nil => rfl
  | cons entry rest ih => exact ih (index + 1) _

theorem chars_put (text : String) (w : Writer) :
    (w.put text).chars =
      w.chars ++ (Piece.mk w.pendingBreak w.pendingSpaces text).chars := by
  simp [put, chars]

theorem chars_write (text : String) (w : Writer) (filled : text ≠ "") :
    (w.write text).chars =
      w.settle.chars ++ (Piece.mk w.settle.pendingBreak w.settle.pendingSpaces text).chars := by
  rw [write, if_neg filled, chars_put]

@[simp] theorem pieces_spaces (count : Nat) (w : Writer) : (w.spaces count).pieces = w.pieces := by
  unfold spaces
  split <;> rfl

@[simp] theorem pieces_newline (indent : Nat) (w : Writer) :
    (w.newline indent).pieces = w.pieces := by
  unfold newline
  split
  · simp [space]
  · rfl

@[simp] theorem pieces_padTo (column : Nat) (w : Writer) : (w.padTo column).pieces = w.pieces := by
  unfold padTo
  split
  · simp [space]
  · split <;> rfl

@[simp] theorem pieces_settle (w : Writer) : w.settle.pieces = w.pieces := by
  unfold settle
  split <;> simp

theorem chars_eq_of_pieces {first second : Writer} (same : first.pieces = second.pieces) :
    first.chars = second.chars := by
  rw [chars, chars, same]

end Writer

end SqlLayout.Layout

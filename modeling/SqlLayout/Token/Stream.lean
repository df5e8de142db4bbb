import SqlLayout.Fault
import SqlLayout.Text.Case
import SqlLayout.Token.Basic

/-! Sequences of tokens: their text, parts of them, and the statements they fall
into. Positions count from the front, or from the back when they are negative. -/
namespace SqlLayout.Token

def shown (token : Token) : String :=
  "Token(" ++ Text.upper token.kind.name ++ ", " ++ Text.quoted token.text ++ ", " ++
    token.start.repr ++ ")"

structure Stream where
  tokens : List Token
  deriving DecidableEq, Repr

/-- Which places of a sequence a slice takes. A missing end of the slice lies at the
corresponding end of the sequence, and ends beyond it are moved to it. -/
structure Slice where
  start : Option Int := none
  stop : Option Int := none
  step : Int := 1

namespace Slice

/-- Counts from the back if negative, and stays within the bounds. -/
def place (length : Nat) (low high position : Int) : Int :=
  max low (min high (if position < 0 then position + length else position))

def places (slice : Slice) (length : Nat) : List Nat :=
  if 0 < slice.step then
    let first := (slice.start.map (place length 0 length)).getD 0
    let last := (slice.stop.map (place length 0 length)).getD length
    let count := (last - first + slice.step - 1) / slice.step
    (List.range count.toNat).map fun (index : Nat) => (first + index * slice.step).toNat
  else
    let first := (slice.start.map (place length (-1) (length - 1))).getD (length - 1)
    let last := (slice.stop.map (place length (-1) (length - 1))).getD (-1)
    let count := (first - last - slice.step - 1) / -slice.step
    (List.range count.toNat).map fun (index : Nat) => (first + index * slice.step).toNat

end Slice

def entryAt? {α : Type} (entries : List α) (position : Int) : Option α :=
  let place := if position < 0 then position + entries.length else position
  if place < 0 then none else entries[place.toNat]?

def splitStatements : List Token → List (List Token)
  | [] => []
  | token :: rest =>
    if token.kind = .semicolon then [token] :: splitStatements rest
    else match splitStatements rest with
      | [] => [[token]]
      | statement :: statements => (token :: statement) :: statements

namespace Stream

def length (stream : Stream) : Nat :=
  stream.tokens.length

def shown (stream : Stream) : String :=
  "TokenStream(" ++ stream.length.repr ++ " tokens)"

def text (stream : Stream) : String :=
  String.join (stream.tokens.map Token.text)

def significant (stream : Stream) (skipComments : Bool) : List Token :=
  stream.tokens.filter fun token => !token.isBlank && !(skipComments && token.isComment)

def statements (stream : Stream) : List Stream :=
  (splitStatements stream.tokens).map Stream.mk

def slice (stream : Stream) (slice : Slice) : Except Fault Stream :=
  if slice.step = 0 then .error .zeroStep
  else .ok ⟨(slice.places stream.length).filterMap (stream.tokens[·]?)⟩

def get (stream : Stream) (position : Int) : Except Fault Token :=
  match entryAt? stream.tokens position with
  | some token => .ok token
  | none => .error .tokenIndex

def statement (stream : Stream) (position : Int) : Except Fault Stream :=
  match entryAt? stream.statements position with
  | some statement => .ok statement
  | none => .error .statementIndex

end Stream

theorem flatten_splitStatements (tokens : List Token) :
    (splitStatements tokens).flatten = tokens := by
  induction tokens with
  | nil => rfl
  | cons token rest ih =>
    by_cases ends : token.kind = .semicolon
    · simp [splitStatements, ends, ih]
    · rw [splitStatements, if_neg ends]
      cases split : splitStatements rest with
      | nil => simp [split] at ih; simp [← ih]
      | cons statement statements => simp [split] at ih; simp [← ih]

theorem ne_nil_of_mem_splitStatements (tokens statement : List Token)
    (member : statement ∈ splitStatements tokens) : statement ≠ [] := by
  induction tokens generalizing statement with
  | nil => simp [splitStatements] at member
  | cons token rest ih =>
    rw [splitStatements] at member
    split at member
    · rcases List.mem_cons.1 member with here | later
      · simp [here]
      · exact ih statement later
    · split at member
      · simp_all
      · rename_i first others equal
        rcases List.mem_cons.1 member with here | later
        · simp [here]
        · exact ih statement (equal ▸ List.mem_cons_of_mem first later)

end SqlLayout.Token

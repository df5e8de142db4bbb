import SqlLayout.Decimal.Shortest
import SqlLayout.Text.Blank
import SqlLayout.Text.Digit
import SqlLayout.Text.Quoted

/-! Values as option files hold them: a value says its own kind, and an option says
what it makes of a value of that kind. -/
namespace SqlLayout

inductive Value where
  | null
  | bool (flag : Bool)
  | int (number : Int)
  | real (number : Decimal.Binary64)
  | text (content : String)
  | list (entries : List Value)
  | record (entries : List (String × Value))
  deriving Inhabited

namespace Value

inductive Kind where
  | null
  | bool
  | int
  | real
  | text
  | list
  | record
  deriving DecidableEq, Repr

def Kind.name : Kind → String
  | .null => "NoneType"
  | .bool => "bool"
  | .int => "int"
  | .real => "float"
  | .text => "str"
  | .list => "list"
  | .record => "dict"

def kind : Value → Kind
  | .null => .null
  | .bool _ => .bool
  | .int _ => .int
  | .real _ => .real
  | .text _ => .text
  | .list _ => .list
  | .record _ => .record

/-- A value that stands for something: neither null, false, zero nor empty. -/
def isSet : Value → Bool
  | .null => false
  | .bool flag => flag
  | .int number => number ≠ 0
  | .real number => !number.isZero
  | .text content => content ≠ ""
  | .list entries => !entries.isEmpty
  | .record entries => !entries.isEmpty

/-- The most digits of an integer that is read from a text or written as one. -/
def digitLimit : Nat := 4300

/-- An integer in digits, unless there are too many; a sign is not counted. -/
def digits? (number : Int) : Option String :=
  if number.natAbs < Nat.pow 10 digitLimit then some number.repr else none

mutual

/-- The value as messages show it: texts quoted, lists in brackets, records in braces. There is
nothing to show where an integer in it is too long. -/
def shown : Value → Option String
  | .null => some "None"
  | .bool flag => some (if flag then "True" else "False")
  | .int number => digits? number
  | .real number => some number.text
  | .text content => some (Text.quoted content)
  | .list entries => (shownList entries).map fun texts => "[" ++ ", ".intercalate texts ++ "]"
  | .record entries =>
    (shownRecord entries).map fun texts => "\x7b" ++ ", ".intercalate texts ++ "\x7d"

def shownList : List Value → Option (List String)
  | [] => some []
  | entry :: rest => do return (← shown entry) :: (← shownList rest)

def shownRecord : List (String × Value) → Option (List String)
  | [] => some []
  | (name, entry) :: rest => do
    return (Text.quoted name ++ ": " ++ (← shown entry)) :: (← shownRecord rest)

end

def plain : Value → Option String
  | .text content => some content
  | other => other.shown

/-- Blanks that may surround a number in a text: all but the four separators. -/
def isPadding (c : Char) : Bool :=
  Text.isBlank c && !(28 ≤ c.toNat && c.toNat ≤ 31)

/-- Decimal digits with at most one low line between two of them. `afterDigit` says
that a digit stands right before; the result pairs the value with the digit count. -/
def readDigits (afterDigit : Bool) (total count : Nat) : List Char → Option (Nat × Nat)
  | [] => if afterDigit then some (total, count) else none
  | c :: rest =>
    if c = '_' then
      if afterDigit then readDigits false total count rest else none
    else
      match Text.decimalValue? c with
      | some digit => readDigits true (10 * total + digit) (count + 1) rest
      | none => none

def readNatural (chars : List Char) : Option Nat :=
  match readDigits false 0 0 chars with
  | some (total, count) => if count ≤ digitLimit then some total else none
  | none => none

def readInteger (text : String) : Option Int :=
  let padded := text.toList.dropWhile isPadding
  match (padded.reverse.dropWhile isPadding).reverse with
  | '-' :: digits => (readNatural digits).map fun total => -(total : Int)
  | '+' :: digits => (readNatural digits).map fun total => (total : Int)
  | digits => (readNatural digits).map fun total => (total : Int)

def isInfinite : Value → Bool
  | .real number => number.isInfinite
  | _ => false

def toInteger? : Value → Option Int
  | .bool flag => some (if flag then 1 else 0)
  | .int number => some number
  | .real number => if number.isFinite then some number.truncate else none
  | .text content => readInteger content
  | _ => none

end Value

end SqlLayout

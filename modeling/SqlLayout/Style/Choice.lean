import SqlLayout.Fault
import SqlLayout.Text.Blank
import SqlLayout.Text.Case

/-! Options that choose among a few words. A choice is read from any value: its plain
text counts, without case, blanks around it, low lines and hyphens. -/
namespace SqlLayout.Style

def choiceKey (text : String) : List Char :=
  (Text.lower (Text.strip text)).toList.filter fun c => c ≠ '_' && c ≠ '-'

def readChoice {α : Type} (all : List α) (name : α → String) (unknown : Fault) (value : Value) :
    Except Fault α :=
  match value.plain with
  | none => .error .numberLength
  | some text =>
    match all.find? fun choice => (name choice).toList.filter (· ≠ '_') == choiceKey text with
    | some choice => .ok choice
    | none => .error unknown

inductive WordCase where
  | upper
  | lower
  | asIs
  deriving DecidableEq, Repr

namespace WordCase

def name : WordCase → String
  | .upper => "upper"
  | .lower => "lower"
  | .asIs => "as_is"

def all : List WordCase :=
  [.upper, .lower, .asIs]

def ofValue (value : Value) : Except Fault WordCase :=
  readChoice all name (.unknownCase value) value

def apply : WordCase → String → String
  | .upper, text => Text.upper text
  | .lower, text => Text.lower text
  | .asIs, text => text

end WordCase

/-- When the conditions of a join go to lines of their own. -/
inductive JoinWrap where
  | never
  | onlyMultiple
  | always
  deriving DecidableEq, Repr

namespace JoinWrap

def name : JoinWrap → String
  | .never => "none"
  | .onlyMultiple => "only_multiple"
  | .always => "always"

def all : List JoinWrap :=
  [.never, .onlyMultiple, .always]

def ofValue (value : Value) : Except Fault JoinWrap :=
  readChoice all name (.unknownJoinWrap value) value

def wraps : JoinWrap → Nat → Bool
  | .never, _ => false
  | .onlyMultiple, count => 1 < count
  | .always, _ => true

end JoinWrap

end SqlLayout.Style

import SqlLayout.Tree.Misfit
import SqlLayout.Value

/-! What is reported beside a result. A warning tells of something that was put
right on the user's behalf; a detail tells of text that was taken as it came. -/
namespace SqlLayout

inductive Notice where
  | unknownDialect (name : String)
  | openQuote (quote : Char) (offset : Nat)
  | passedThrough (reason : Tree.Misfit)
  | caseWithoutEnd (offset : Nat)
  | unknownOption (key : String)
  | invalidOption (name : String) (value : Value) (used : String)
  | thresholdBelowOne (name : String) (number : Int)
  | widthBelowOne (number : Int)

namespace Notice

def isWarning : Notice → Bool
  | .openQuote _ _ | .passedThrough _ | .caseWithoutEnd _ => false
  | _ => true

def origin : Notice → String
  | .unknownDialect _ => "keywords"
  | .openQuote _ _ => "lexer"
  | .passedThrough _ | .caseWithoutEnd _ => "walker"
  | .unknownOption _ | .invalidOption _ _ _ | .thresholdBelowOne _ _ => "config"
  | .widthBelowOne _ => "formatter"

def belowOne (name : String) (number : Int) : Option String :=
  (Value.digits? number).map fun digits =>
    name ++ " must be at least 1 (got " ++ digits ++ "), clamping to 1"

/-- What a notice says, unless it is about a value that cannot be shown. -/
def message : Notice → Option String
  | .unknownDialect name =>
    some ("Unknown SQL dialect " ++ Text.quoted name ++ ", using generic keywords")
  | .openQuote quote offset =>
    some ("Unterminated " ++ quote.toString ++ "-quoted text at offset " ++ offset.repr)
  | .passedThrough reason => some ("Passing statement through unformatted: " ++ reason.message)
  | .caseWithoutEnd offset => some ("CASE without END at offset " ++ offset.repr)
  | .unknownOption key => some ("Ignoring unknown formatter option " ++ Text.quoted key)
  | .invalidOption name value used =>
    value.shown.map fun text => "Invalid " ++ name ++ " " ++ text ++ ", using " ++ used
  | .thresholdBelowOne name number => belowOne name number
  | .widthBelowOne number => belowOne "max_line_width" number

end Notice

end SqlLayout

import SqlLayout.Value

/-! What stops a request. Each constructor is a cause; a request has one fault at
most, the first in the order in which its parts are looked at. -/
namespace SqlLayout

inductive Fault where
  | sourceKind (kind : Value.Kind)
  | styleKind (kind : Value.Kind)
  | widthKind (kind : Value.Kind)
  | hintKind (kind : Value.Kind)
  /-- A dialect hint is a list or a record, by which no registry can be looked up. -/
  | hintShape (kind : Value.Kind)
  | optionsKind (kind : Value.Kind)
  /-- Function names are something that has no members. -/
  | namesKind (kind : Value.Kind)
  /-- An integer has too many digits to be written. -/
  | numberLength
  | infiniteThreshold
  | unknownOption (name : String)
  | fixedOption (name : String)
  | unknownCase (value : Value)
  | unknownJoinWrap (value : Value)
  /-- A digit sign where a number should start, which no number starts with. -/
  | strayDigit (position : Nat)
  | zeroStep
  | tokenIndex
  | statementIndex

def Fault.message : Fault → String
  | .sourceKind kind => "SQL source must be str, got " ++ kind.name
  | .styleKind kind => "style must be a StyleConfig or a mapping, got " ++ kind.name
  | .widthKind kind => "max_line_width must be an int, got " ++ kind.name
  | .hintKind kind => "'" ++ kind.name ++ "' object has no attribute 'strip'"
  | .hintShape kind => "unhashable type: '" ++ kind.name ++ "'"
  | .optionsKind kind => "'" ++ kind.name ++ "' object has no attribute 'items'"
  | .namesKind kind => "'" ++ kind.name ++ "' object is not iterable"
  | .numberLength =>
    "Exceeds the limit (" ++ Value.digitLimit.repr ++ " digits) for integer string conversion; " ++
      "use sys.set_int_max_str_digits() to increase the limit"
  | .infiniteThreshold => "cannot convert float infinity to integer"
  | .unknownOption name =>
    "StyleConfig.__init__() got an unexpected keyword argument '" ++ name ++ "'"
  | .fixedOption name => "cannot assign to field " ++ Text.quoted name
  | .unknownCase value => "Unknown case style: " ++ value.shown.getD ""
  | .unknownJoinWrap value => "Unknown join wrap style: " ++ value.shown.getD ""
  | .strayDigit _ => "'NoneType' object has no attribute 'end'"
  | .zeroStep => "slice step cannot be zero"
  | .tokenIndex => "tuple index out of range"
  | .statementIndex => "list index out of range"

end SqlLayout

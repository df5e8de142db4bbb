import SqlLayout.Keyword.Dialect

/-! Grammars of dialects, as a library outside gives them. The words here come from its
tokenizers and parsers. Among their keywords are phrases and signs as well, of which nothing
is taken. -/
namespace SqlLayout.Keyword

structure Grammar where
  /-- Each keyword with the kind of token that it is read as. -/
  keywords : List (String × String) := []
  typeKinds : List String := []
  functions : List String := []

structure Library where
  common : Grammar := {}
  grammar? : String → Option Grammar := fun _ => none

/-- One word in capitals. A line break at its end is not looked at. -/
def isCapitalWord (word : String) : Bool :=
  let isCapital (c : Char) : Bool := c.isUpper || c = '_'
  let chars := word.toList
  match if chars.getLast? = some '\n' then chars.dropLast else chars with
  | [] => false
  | first :: rest => isCapital first && rest.all fun c => isCapital c || c.isDigit

namespace Grammar

def keywordWords (grammar : Grammar) : List String :=
  (grammar.keywords.map Prod.fst).filter isCapitalWord

def functionWords (grammar : Grammar) : List String :=
  grammar.functions.filter isCapitalWord

def typeWords (grammar : Grammar) : List String :=
  ((grammar.keywords.filter fun entry => grammar.typeKinds.contains entry.2).map Prod.fst).filter
    isCapitalWord

end Grammar

namespace Library

/-- What every dialect has: functions and data types, but no reserved words. -/
def commonWords (library : Library) : WordTables :=
  { functions := library.common.functionWords
    dataTypes := library.common.typeWords }

/-- What the grammar of a dialect has. Its keywords are reserved unless the common grammar has
them as well. -/
def wordsOf (library : Library) (grammar : Grammar) : WordTables :=
  { reserved := grammar.keywordWords.filter fun word =>
      !library.common.keywordWords.contains word
    functions := grammar.functionWords
    dataTypes := grammar.typeWords }

end Library

end SqlLayout.Keyword

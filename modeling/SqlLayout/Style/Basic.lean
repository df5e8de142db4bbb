import SqlLayout.Report
import SqlLayout.Style.Choice
import SqlLayout.Style.OptionKey

/-! A style: how statements are to be laid out. Every option has a default, and a
value that makes no sense is replaced with a notice. Three values are refused: an
infinite number of entries on a line, and function names that are given as something
that has no members, or with a number among them that is too long to be written. -/
namespace SqlLayout

structure Style where
  keywordCase : Style.WordCase := .upper
  identifierCase : Style.WordCase := .asIs
  functionCase : Style.WordCase := .upper
  dataTypeCase : Style.WordCase := .upper
  /-- Entries on a line before a list is wrapped, one at least. -/
  maxColumnsSelect : Nat := 1
  maxColumnsInsert : Nat := 1
  maxColumnsUpdate : Nat := 1
  /-- A comma at a wrap leads the next line instead of ending the one before. -/
  commaAfterLineBreak : Bool := false
  spaceAfterLineBreakComma : Bool := false
  spaceAfterInListComma : Bool := false
  /-- Subqueries among the sources of a query get lines of their own. -/
  newLineForSubselects : Bool := false
  joinWrapStyle : Style.JoinWrap := .onlyMultiple
  /-- AND and OR are aligned to the right under the keyword of their clause. -/
  indentWhereConditions : Bool := false
  indentInsert : Bool := true
  /-- Each value of an INSERT is preceded by the name of its column in a comment. -/
  addColumnNameComments : Bool := false
  catalogSeparator : Char := '.'
  /-- Names of further functions in upper case, ascending. -/
  functionNames : List String := []
  deriving DecidableEq, Repr

namespace Style

/-- Values by option, the latest first. -/
abbrev Settings : Type :=
  List (OptionKey × Value)

def readOr {α : Type} (settings : Settings) (key : OptionKey) (default : α)
    (rule : OptionKey → α → Value → Report α) : Report α :=
  match settings.lookup key with
  | none => pure default
  | some value => rule key default value

/-- A choice among a few words. Whatever stops its reading gives a notice. -/
def readWord {α : Type} (parse : Value → Except Fault α) (name : α → String) (key : OptionKey)
    (default : α) (value : Value) : Report α :=
  match parse value with
  | .ok choice => pure choice
  | .error _ => .noted (.invalidOption key.name value (name default)) default

def readCase : OptionKey → WordCase → Value → Report WordCase :=
  readWord WordCase.ofValue WordCase.name

def readJoinWrap : OptionKey → JoinWrap → Value → Report JoinWrap :=
  readWord JoinWrap.ofValue JoinWrap.name

def readThreshold (key : OptionKey) (_ : Nat) (value : Value) : Report Nat :=
  if value.isInfinite then .fault .infiniteThreshold
  else match value.toInteger? with
    | none => .noted (.invalidOption key.name value "1") 1
    | some number =>
      if number < 1 then .noted (.thresholdBelowOne key.name number) 1 else pure number.toNat

def flagOfText? (text : String) : Option Bool :=
  let word := Text.lower (Text.strip text)
  if ["true", "yes", "1", "on"].contains word then some true
  else if ["false", "no", "0", "off"].contains word then some false
  else none

def flagOfValue? : Value → Option Bool
  | .bool flag => some flag
  | .int number => some (number ≠ 0)
  | .text content => flagOfText? content
  | _ => none

def readFlag (key : OptionKey) (default : Bool) (value : Value) : Report Bool :=
  match flagOfValue? value with
  | some flag => pure flag
  | none => .noted (.invalidOption key.name value (if default then "True" else "False")) default

def readSeparator (key : OptionKey) (default : Char) (value : Value) : Report Char :=
  let invalid := Report.noted (.invalidOption key.name value "'.'") default
  match value with
  | .text content =>
    match content.toList with
    | [c] => pure c
    | _ => invalid
  | _ => invalid

/-- Names in upper case without blanks around them, ascending, each once, none empty. -/
def nameSet (names : List String) : List String :=
  let stripped := (names.map Text.strip).filter (· ≠ "")
  (stripped.map Text.upper).eraseDups.mergeSort fun first second => decide (first ≤ second)

/-- The members of a value: the words of a text, the entries of a list as plain texts, the names
in a record. A value that is not set has none. -/
def members (value : Value) : Except Fault (List String) :=
  if !value.isSet then .ok []
  else match value with
    | .text content =>
      .ok (Text.fields (String.ofList (content.toList.map fun c => if c = ',' then ' ' else c)))
    | .list entries =>
      match entries.mapM Value.plain with
      | some names => .ok names
      | none => .error .numberLength
    | .record entries => .ok (entries.map Prod.fst)
    | other => .error (.namesKind other.kind)

def readNames (_ : OptionKey) (_ : List String) (value : Value) : Report (List String) :=
  match members value with
  | .ok names => pure (nameSet names)
  | .error fault => .fault fault

def ofSettings (settings : Settings) : Report Style := do
  let keywordCase ← readOr settings .keywordCase .upper readCase
  let identifierCase ← readOr settings .identifierCase .asIs readCase
  let functionCase ← readOr settings .functionCase .upper readCase
  let dataTypeCase ← readOr settings .dataTypeCase .upper readCase
  let joinWrapStyle ← readOr settings .joinWrapStyle .onlyMultiple readJoinWrap
  let maxColumnsSelect ← readOr settings .maxColumnsSelect 1 readThreshold
  let maxColumnsInsert ← readOr settings .maxColumnsInsert 1 readThreshold
  let maxColumnsUpdate ← readOr settings .maxColumnsUpdate 1 readThreshold
  let commaAfterLineBreak ← readOr settings .commaAfterLineBreak false readFlag
  let spaceAfterLineBreakComma ← readOr settings .spaceAfterLineBreakComma false readFlag
  let spaceAfterInListComma ← readOr settings .spaceAfterInListComma false readFlag
  let newLineForSubselects ← readOr settings .newLineForSubselects false readFlag
  let addColumnNameComments ← readOr settings .addColumnNameComments false readFlag
  let indentWhereConditions ← readOr settings .indentWhereConditions false readFlag
  let indentInsert ← readOr settings .indentInsert true readFlag
  let catalogSeparator ← readOr settings .catalogSeparatorChar '.' readSeparator
  let functionNames ← readOr settings .additionalFunctionNames [] readNames
  return { keywordCase, identifierCase, functionCase, dataTypeCase, maxColumnsSelect,
           maxColumnsInsert, maxColumnsUpdate, commaAfterLineBreak, spaceAfterLineBreakComma,
           spaceAfterInListComma, newLineForSubselects, joinWrapStyle, indentWhereConditions,
           indentInsert, addColumnNameComments, catalogSeparator, functionNames }

def value (style : Style) : OptionKey → Value
  | .keywordCase => .text style.keywordCase.name
  | .identifierCase => .text style.identifierCase.name
  | .functionCase => .text style.functionCase.name
  | .dataTypeCase => .text style.dataTypeCase.name
  | .maxColumnsSelect => .int style.maxColumnsSelect
  | .maxColumnsInsert => .int style.maxColumnsInsert
  | .maxColumnsUpdate => .int style.maxColumnsUpdate
  | .commaAfterLineBreak => .bool style.commaAfterLineBreak
  | .spaceAfterLineBreakComma => .bool style.spaceAfterLineBreakComma
  | .spaceAfterInListComma => .bool style.spaceAfterInListComma
  | .newLineForSubselects => .bool style.newLineForSubselects
  | .joinWrapStyle => .text style.joinWrapStyle.name
  | .indentWhereConditions => .bool style.indentWhereConditions
  | .indentInsert => .bool style.indentInsert
  | .addColumnNameComments => .bool style.addColumnNameComments
  | .catalogSeparatorChar => .text style.catalogSeparator.toString
  | .additionalFunctionNames => .list (style.functionNames.map .text)

def settings (style : Style) : Settings :=
  OptionKey.all.map fun key => (key, style.value key)

def toRecord (style : Style) : List (String × Value) :=
  OptionKey.all.map fun key => (key.name, style.value key)

/-- Options by any of their names. Unknown ones are passed over with a notice. -/
def settingsOfRecord (settings : Settings) : List (String × Value) → Report Settings
  | [] => pure settings
  | (name, value) :: rest =>
    match OptionKey.resolve? name with
    | some key => settingsOfRecord ((key, value) :: settings) rest
    | none => do
      Report.noted (.unknownOption name) ()
      settingsOfRecord settings rest

def ofRecord (entries : List (String × Value)) : Report Style := do
  ofSettings (← settingsOfRecord [] entries)

/-- A style from a value that should be a record; one that is not set asks for nothing. -/
def ofValue (value : Value) : Report Style :=
  if !value.isSet then pure {}
  else match value with
    | .record entries => ofRecord entries
    | other => .fault (.optionsKind other.kind)

def changes (settings : Settings) : List (String × Value) → Report Settings
  | [] => pure settings
  | (name, value) :: rest =>
    match OptionKey.ofName? name with
    | some key => changes ((key, value) :: settings) rest
    | none => .fault (.unknownOption name)

def make (entries : List (String × Value)) : Report Style := do
  ofSettings (← changes [] entries)

def withOptions (style : Style) (entries : List (String × Value)) : Report Style := do
  ofSettings (← changes style.settings entries)

/-- A finished style cannot be changed in place. -/
def assign (_ : Style) (name : String) (_ : Value) : Report Style :=
  .fault (.fixedOption name)

def isFunctionName (style : Style) (name : String) : Bool :=
  style.functionNames.contains (Text.upper name)

end Style

end SqlLayout

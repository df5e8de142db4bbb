import SqlLayout.Text.Case
import SqlLayout.Text.Search

/-! The options by name. An option goes by its own name, by that name run together,
and by the name that preference stores keep it under. -/
namespace SqlLayout.Style

inductive OptionKey where
  | keywordCase
  | identifierCase
  | functionCase
  | dataTypeCase
  | maxColumnsSelect
  | maxColumnsInsert
  | maxColumnsUpdate
  | commaAfterLineBreak
  | spaceAfterLineBreakComma
  | spaceAfterInListComma
  | newLineForSubselects
  | joinWrapStyle
  | indentWhereConditions
  | indentInsert
  | addColumnNameComments
  | catalogSeparatorChar
  | additionalFunctionNames
  deriving DecidableEq, Repr

namespace OptionKey

def name : OptionKey → String
  | .keywordCase => "keyword_case"
  | .identifierCase => "identifier_case"
  | .functionCase => "function_case"
  | .dataTypeCase => "data_type_case"
  | .maxColumnsSelect => "max_columns_select"
  | .maxColumnsInsert => "max_columns_insert"
  | .maxColumnsUpdate => "max_columns_update"
  | .commaAfterLineBreak => "comma_after_line_break"
  | .spaceAfterLineBreakComma => "space_after_line_break_comma"
  | .spaceAfterInListComma => "space_after_in_list_comma"
  | .newLineForSubselects => "new_line_for_subselects"
  | .joinWrapStyle => "join_wrap_style"
  | .indentWhereConditions => "indent_where_conditions"
  | .indentInsert => "indent_insert"
  | .addColumnNameComments => "add_column_name_comments"
  | .catalogSeparatorChar => "catalog_separator_char"
  | .additionalFunctionNames => "additional_function_names"

/-- The name in a preference store, after `propertyStart`. -/
def property : OptionKey → String
  | .keywordCase => "keywords.case"
  | .identifierCase => "identifier.case"
  | .functionCase => "functions.case"
  | .dataTypeCase => "datatype.case"
  | .maxColumnsSelect => "select.columnsperline"
  | .maxColumnsInsert => "insert.columnsperline"
  | .maxColumnsUpdate => "update.columnsperline"
  | .commaAfterLineBreak => "comma.afterlinebreak"
  | .spaceAfterLineBreakComma => "comma.spaceafterlinebreakcomma"
  | .spaceAfterInListComma => "comma.spaceafter"
  | .newLineForSubselects => "subselect.newline"
  | .joinWrapStyle => "join.condition.wrapstyle"
  | .indentWhereConditions => "where.condition.indent"
  | .indentInsert => "insert.indent"
  | .addColumnNameComments => "insert.values.columnname"
  | .catalogSeparatorChar => "catalog.separator"
  | .additionalFunctionNames => "functions.additional"

def propertyStart : List Char :=
  "sql.formatter.".toList

def all : List OptionKey :=
  [.keywordCase, .identifierCase, .functionCase, .dataTypeCase, .maxColumnsSelect,
   .maxColumnsInsert, .maxColumnsUpdate, .commaAfterLineBreak, .spaceAfterLineBreakComma,
   .spaceAfterInListComma, .newLineForSubselects, .joinWrapStyle, .indentWhereConditions,
   .indentInsert, .addColumnNameComments, .catalogSeparatorChar, .additionalFunctionNames]

def runTogether (key : OptionKey) : List Char :=
  key.name.toList.filter (· ≠ '_')

def ofName? (text : String) : Option OptionKey :=
  all.find? fun key => key.name == text

/-- The option that a text stands for. The case of letters matters only in the name
itself; a property may have anything before `propertyStart`. -/
def resolve? (text : String) : Option OptionKey :=
  let lowered := (Text.lower text).toList
  (ofName? text).or <|
    (all.find? fun key => key.runTogether == lowered).or <|
      (Text.findSequence propertyStart lowered).bind fun place =>
        let property := lowered.drop (place + propertyStart.length)
        all.find? fun key => key.property.toList == property

theorem mem_all (key : OptionKey) : key ∈ all := by
  cases key <;> decide

theorem ofName?_name (key : OptionKey) : ofName? key.name = some key := by
  cases key <;> decide

theorem resolve?_name (key : OptionKey) : resolve? key.name = some key := by
  simp [resolve?, ofName?_name]

end OptionKey

end SqlLayout.Style

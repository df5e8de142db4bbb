/-! The names of dialects, and the words of the families that dialects belong to. -/
namespace SqlLayout.Keyword

def aliases : List (String × String) :=
  [("sqlserver", "tsql"), ("mssql", "tsql"), ("microsoft_sql_server", "tsql"),
   ("sybase", "tsql"), ("postgresql", "postgres"), ("pg", "postgres"), ("mariadb", "mysql")]

structure WordTables where
  reserved : List String := []
  functions : List String := []
  dataTypes : List String := []

namespace WordTables

def none : WordTables := {}

def append (first second : WordTables) : WordTables :=
  ⟨first.reserved ++ second.reserved, first.functions ++ second.functions,
    first.dataTypes ++ second.dataTypes⟩

end WordTables

inductive Family where
  | tsql
  | oracle
  | postgres
  | mysql
  deriving DecidableEq, Repr

namespace Family

def members : List (String × Family) :=
  [("tsql", .tsql), ("fabric", .tsql), ("oracle", .oracle), ("postgres", .postgres),
   ("redshift", .postgres), ("materialize", .postgres), ("risingwave", .postgres),
   ("mysql", .mysql), ("doris", .mysql), ("starrocks", .mysql)]

def ofName? (name : String) : Option Family :=
  members.lookup name

def words : Family → WordTables
  | .tsql =>
    { reserved :=
        ["APPLY", "CLUSTERED", "EXEC", "EXECUTE", "GO", "HOLDLOCK", "IDENTITY", "NOLOCK",
         "NONCLUSTERED", "NOWAIT", "OUTPUT", "PERCENT", "READPAST", "READUNCOMMITTED", "ROWLOCK",
         "TABLOCK", "TABLOCKX", "TOP", "UPDLOCK"]
      functions :=
        ["CHARINDEX", "DATEADD", "DATEDIFF", "DATEPART", "GETDATE", "IIF", "ISNULL", "LEN",
         "NEWID", "OBJECT_ID", "SCOPE_IDENTITY", "STUFF"] }
  | .oracle =>
    { reserved :=
        ["BODY", "LEVEL", "MATERIALIZED", "NOCYCLE", "PACKAGE", "PIVOT", "PRIOR", "PURGE",
         "ROWNUM", "SIBLINGS", "UNPIVOT"]
      functions :=
        ["ADD_MONTHS", "DECODE", "INSTR", "LISTAGG", "MONTHS_BETWEEN", "NVL", "NVL2", "SUBSTR",
         "SYS_CONTEXT", "TO_CHAR", "TO_DATE", "TO_NUMBER", "TRUNC"] }
  | .postgres =>
    { reserved := ["ANALYZE", "CONFLICT", "ILIKE", "MATERIALIZED", "SIMILAR", "VERBOSE"]
      functions :=
        ["ARRAY_AGG", "DATE_TRUNC", "GENERATE_SERIES", "JSONB_BUILD_OBJECT", "NOW",
         "REGEXP_REPLACE", "STRING_AGG", "TO_CHAR"] }
  | .mysql =>
    { reserved :=
        ["AUTO_INCREMENT", "DUPLICATE", "ENGINE", "IGNORE", "REGEXP", "RLIKE", "SEPARATOR",
         "STRAIGHT_JOIN"]
      functions :=
        ["CONCAT_WS", "DATE_FORMAT", "GROUP_CONCAT", "IFNULL", "NOW", "STR_TO_DATE",
         "UNIX_TIMESTAMP"] }

end Family

end SqlLayout.Keyword

/-! The words that mean something in every dialect: reserved words, the phrases of
several words that count as one keyword, the names of functions and of data types, and
the small classes of keywords that decide about operands and calls. -/
namespace SqlLayout.Keyword

def reservedWords : List String :=
  ["ADD", "ALL", "ALTER", "AND", "ANY", "AS", "ASC", "BETWEEN", "BY", "CASCADE", "CASE", "CAST",
   "CHECK", "COLLATE", "COLUMN", "COMMENT", "COMMIT", "CONNECT", "CONSTRAINT", "CREATE", "CROSS",
   "CUBE", "CURRENT", "CURRENT_DATE", "CURRENT_TIME", "CURRENT_TIMESTAMP", "CURRENT_USER",
   "DATABASE", "DATE", "DEFAULT", "DELETE", "DESC", "DISTINCT", "DO", "DROP", "ELSE", "END",
   "ESCAPE", "EXCEPT", "EXISTS", "FALSE", "FETCH", "FIRST", "FOLLOWING", "FOR", "FOREIGN", "FROM",
   "FULL", "FUNCTION", "GRANT", "GROUP", "GROUPING", "HAVING", "IF", "IN", "INDEX", "INNER",
   "INSERT", "INTERSECT", "INTERVAL", "INTO", "IS", "JOIN", "KEY", "LAST", "LATERAL", "LEFT",
   "LIKE", "LIMIT", "MATCHED", "MERGE", "MINUS", "NATURAL", "NEXT", "NO", "NOT", "NOTHING",
   "NULL", "NULLS", "OF", "OFFSET", "ON", "ONLY", "OPTION", "OR", "ORDER", "OUTER", "OVER",
   "PARTITION", "PRECEDING", "PRIMARY", "PROCEDURE", "QUALIFY", "RANGE", "RECURSIVE",
   "REFERENCES", "REPLACE", "RETURNING", "REVOKE", "RIGHT", "ROLLBACK", "ROLLUP", "ROW", "ROWS",
   "SCHEMA", "SELECT", "SEQUENCE", "SET", "SETS", "SOME", "START", "TABLE", "TEMPORARY", "THEN",
   "TIES", "TIME", "TIMESTAMP", "TO", "TRIGGER", "TRUE", "TRUNCATE", "UNBOUNDED", "UNION",
   "UNIQUE", "UPDATE", "USING", "VALUES", "VIEW", "WHEN", "WHERE", "WINDOW", "WITH", "WITHIN"]

def compoundPhrases : List (List String) :=
  [["UNION", "ALL"], ["UNION", "DISTINCT"], ["INTERSECT", "ALL"], ["EXCEPT", "ALL"],
   ["MINUS", "ALL"], ["GROUP", "BY"], ["ORDER", "BY"], ["ORDER", "SIBLINGS", "BY"],
   ["PARTITION", "BY"], ["GROUPING", "SETS"], ["START", "WITH"], ["CONNECT", "BY"],
   ["NULLS", "FIRST"], ["NULLS", "LAST"], ["CREATE", "OR", "REPLACE"], ["PACKAGE", "BODY"],
   ["MATERIALIZED", "VIEW"], ["PRIMARY", "KEY"], ["FOREIGN", "KEY"], ["IF", "EXISTS"],
   ["IF", "NOT", "EXISTS"], ["IS", "NULL"], ["IS", "NOT", "NULL"], ["NOT", "NULL"],
   ["INNER", "JOIN"], ["CROSS", "JOIN"], ["NATURAL", "JOIN"], ["OUTER", "JOIN"], ["LEFT", "JOIN"],
   ["RIGHT", "JOIN"], ["FULL", "JOIN"], ["LEFT", "OUTER", "JOIN"], ["RIGHT", "OUTER", "JOIN"],
   ["FULL", "OUTER", "JOIN"], ["LEFT", "SEMI", "JOIN"], ["LEFT", "ANTI", "JOIN"],
   ["NATURAL", "INNER", "JOIN"], ["NATURAL", "LEFT", "JOIN"], ["NATURAL", "RIGHT", "JOIN"],
   ["NATURAL", "FULL", "JOIN"], ["OUTER", "APPLY"], ["CROSS", "APPLY"]]

def functionNames : List String :=
  ["ABS", "AVG", "CAST", "CEIL", "CEILING", "CHAR_LENGTH", "COALESCE", "CONCAT", "CONVERT", "COUNT",
   "CUME_DIST", "DECODE", "DENSE_RANK", "EXTRACT", "FIRST_VALUE", "FLOOR", "GREATEST", "LAG",
   "LAST_VALUE", "LEAD", "LEAST", "LEFT", "LENGTH", "LOWER", "LPAD", "LTRIM", "MAX", "MIN", "MOD",
   "NTILE", "NULLIF", "PERCENT_RANK", "POSITION", "POWER", "RANK", "REPLACE", "RIGHT", "ROUND",
   "ROW_NUMBER", "RPAD", "RTRIM", "SIGN", "SQRT", "STDDEV", "SUBSTRING", "SUM", "TRIM", "UPPER",
   "VARIANCE"]

def dataTypeNames : List String :=
  ["BIGINT", "BINARY", "BIT", "BLOB", "BOOL", "BOOLEAN", "CHAR", "CHARACTER", "CLOB", "DATE",
   "DATETIME", "DECIMAL", "DOUBLE", "FLOAT", "INT", "INTEGER", "INTERVAL", "JSON", "NCHAR", "NCLOB",
   "NUMBER", "NUMERIC", "NVARCHAR", "REAL", "SMALLINT", "TEXT", "TIME", "TIMESTAMP", "TINYINT",
   "UUID", "VARBINARY", "VARCHAR", "VARCHAR2", "XML"]

/-- Keywords that can be the left operand of a binary operator. -/
def operandWords : List String :=
  ["NULL", "TRUE", "FALSE", "END", "CURRENT_DATE", "CURRENT_TIME", "CURRENT_TIMESTAMP",
   "CURRENT_USER"]

/-- Words that never name a function, even right before a parenthesis. -/
def neverFunctions : List String :=
  ["ALL", "AND", "ANY", "AS", "BETWEEN", "CASE", "CHECK", "DEFAULT", "ELSE", "EXCEPT", "EXISTS",
   "FROM", "HAVING", "IN", "INTERSECT", "INTO", "JOIN", "KEY", "LIKE", "NOT", "ON", "OR", "OVER",
   "RECURSIVE", "REFERENCES", "RETURNING", "SELECT", "SET", "SOME", "TABLE", "THEN", "UNION",
   "UNIQUE", "USING", "VALUES", "WHEN", "WHERE", "WITH"]

/-- Extensions of GROUP BY that are written like calls. -/
def groupingFunctions : List String :=
  ["ROLLUP", "CUBE", "GROUPING SETS"]

end SqlLayout.Keyword

import SearchCriteria.Query.Basic

/-!
# SQL filters

`Query.toSql` writes a query as a boolean SQL expression for a WHERE clause in which each property
names a column. A property becomes a double-quoted identifier and an operand a single-quoted
literal, each with its quote character doubled inside, so no character of either can leave its
quotes. Every junction is parenthesised. A class derives from itself and from every class whose
dotted path it extends, so derivedFrom tests equality or the operand followed by a dot as a
prefix.
-/

namespace SearchCriteria

/-- The characters of a quoted SQL token between its quotes: the quote character doubled. -/
def doubleQuoteChar (q : Char) : List Char → List Char
  | [] => []
  | c :: cs => if c = q then q :: q :: doubleQuoteChar q cs else c :: doubleQuoteChar q cs

/-- A property as a SQL column identifier. -/
def sqlIdentifier (property : String) : String :=
  "\"" ++ String.ofList (doubleQuoteChar '"' property.toList) ++ "\""

/-- A text as a SQL string literal. -/
def sqlLiteral (value : String) : String :=
  "'" ++ String.ofList (doubleQuoteChar '\'' value.toList) ++ "'"

/-- A property compared with a literal by a SQL comparison symbol. -/
def sqlCompare (property symbol value : String) : String :=
  sqlIdentifier property ++ " " ++ symbol ++ " " ++ sqlLiteral value

/-- The SQL test of one relational expression. -/
def Relation.toSql (property : String) : Relation → String
  | .text .equals v => sqlCompare property "=" v
  | .text .notEquals v => sqlCompare property "<>" v
  | .text .lessThan v => sqlCompare property "<" v
  | .text .lessOrEqual v => sqlCompare property "<=" v
  | .text .greaterThan v => sqlCompare property ">" v
  | .text .greaterOrEqual v => sqlCompare property ">=" v
  | .text .contains v => "strpos(" ++ sqlIdentifier property ++ ", " ++ sqlLiteral v ++ ") > 0"
  | .text .doesNotContain v =>
    "strpos(" ++ sqlIdentifier property ++ ", " ++ sqlLiteral v ++ ") = 0"
  | .text .derivedFrom v =>
    "(" ++ sqlIdentifier property ++ " = " ++ sqlLiteral v ++ " OR starts_with(" ++
      sqlIdentifier property ++ ", " ++ sqlLiteral (v.push '.') ++ "))"
  | .presence true => sqlIdentifier property ++ " IS NOT NULL"
  | .presence false => sqlIdentifier property ++ " IS NULL"

/-- The SQL keyword of a junction. -/
def Junction.sqlKeyword : Junction → String
  | .and => "AND"
  | .or => "OR"

/-- A query as a boolean SQL expression. -/
def Query.toSql : Query → String
  | .allResults => "TRUE"
  | .relational p r => r.toSql p
  | .join j l r => "(" ++ l.toSql ++ " " ++ j.sqlKeyword ++ " " ++ r.toSql ++ ")"

end SearchCriteria

import SearchCriteria.Query.Basic

/-!
# Canonical criteria text

`Query.toText` writes a query as criteria text with the fewest parentheses that read back to the
same tree. The conjunction binds tighter than the disjunction and equal junctions associate to the
left, so a side needs parentheses exactly when it is a disjunction under a conjunction, or a right
side with the same junction as its parent. A text operand is written between double quotes with a
backslash before each double quote and each backslash; properties are written as they are.
-/

namespace SearchCriteria

/-- The characters of a text operand between its double quotes: a backslash goes before each
double quote and each backslash. -/
def escapeOperand : List Char → List Char
  | [] => []
  | c :: cs => if c = '"' ∨ c = '\\' then '\\' :: c :: escapeOperand cs else c :: escapeOperand cs

/-- The empty operand is written with nothing between its quotes. -/
@[simp] theorem escapeOperand_nil : escapeOperand [] = [] := rfl

/-- A text operand as written: double-quoted, with its quotes and backslashes escaped. -/
def quoteOperand (v : String) : String := "\"" ++ String.ofList (escapeOperand v.toList) ++ "\""

/-- The operand of a relation as written. -/
def Relation.operandText : Relation → String
  | .text _ v => quoteOperand v
  | .presence b => flagSpelling b

/-- Whether a side of a junction must be grouped in parentheses: a disjunction under a
conjunction, or a right side with the same junction as its parent. -/
def Junction.groups (parent : Junction) (child : Query) (right : Bool) : Bool :=
  match parent, child.junction? with
  | _, none => false
  | .and, some .or => true
  | .or, some .and => false
  | _, some _ => right

/-- Put a text in parentheses when asked. -/
def parenthesize (grouped : Bool) (s : String) : String := if grouped then "(" ++ s ++ ")" else s

/-- The canonical criteria text of a query. -/
def Query.toText : Query → String
  | .allResults => "*"
  | .relational p r => p ++ " " ++ r.operator.spelling ++ " " ++ r.operandText
  | .join j l r =>
    parenthesize (j.groups l false) l.toText ++ " " ++ j.keyword ++ " " ++
      parenthesize (j.groups r true) r.toText

end SearchCriteria

/-!
# Queries

A query is the tree that criteria text reads into: the wildcard, which every item matches; a
relational expression, which tests one property of an item; or two queries joined by a
conjunction or a disjunction. This file holds the tree, its operators and the spelling of
operators and junctions in criteria text.
-/

namespace SearchCriteria

/-- The operators that test a property's text against a double-quoted operand. -/
inductive TextOperator where
  /-- Written =. -/
  | equals
  /-- Written !=. -/
  | notEquals
  /-- Written <. -/
  | lessThan
  /-- Written <=. -/
  | lessOrEqual
  /-- Written >. -/
  | greaterThan
  /-- Written >=. -/
  | greaterOrEqual
  /-- Written contains: the property holds the operand as a substring. -/
  | contains
  /-- Written doesNotContain. -/
  | doesNotContain
  /-- Written derivedFrom: the property is the operand's class or one derived from it. -/
  | derivedFrom
  deriving DecidableEq, Repr

/-- The operator of a relational expression: a text operator, or the presence test written
exists, which alone takes a boolean operand. -/
inductive Operator where
  /-- An operator with a double-quoted operand. -/
  | text (op : TextOperator)
  /-- The presence test, with operand true or false. -/
  | presence
  deriving DecidableEq, Repr

/-- An operator together with its operand. -/
inductive Relation where
  /-- A text operator and the operand's text, escapes resolved. -/
  | text (op : TextOperator) (operand : String)
  /-- The presence test: whether the property must be present. -/
  | presence (present : Bool)
  deriving DecidableEq, Repr

/-- The two junctions that combine queries. -/
inductive Junction where
  /-- The conjunction, written and; it binds tighter than the disjunction. -/
  | and
  /-- The disjunction, written or. -/
  | or
  deriving DecidableEq, Repr

/-- A search criteria query. -/
inductive Query where
  /-- The wildcard, written *: every item matches. -/
  | allResults
  /-- A single test of one property. -/
  | relational (property : String) (relation : Relation)
  /-- Two queries combined by a junction. -/
  | join (junction : Junction) (left right : Query)
  deriving DecidableEq, Repr

namespace TextOperator

/-- The operator as written in criteria text. -/
def spelling : TextOperator → String
  | equals => "="
  | notEquals => "!="
  | lessThan => "<"
  | lessOrEqual => "<="
  | greaterThan => ">"
  | greaterOrEqual => ">="
  | contains => "contains"
  | doesNotContain => "doesNotContain"
  | derivedFrom => "derivedFrom"

end TextOperator

namespace Operator

/-- The operator as written in criteria text. -/
def spelling : Operator → String
  | text op => op.spelling
  | presence => "exists"

end Operator

/-- The operand of exists as written: true or false. -/
def flagSpelling (value : Bool) : String := if value then "true" else "false"

/-- The operator of a relation. -/
def Relation.operator : Relation → Operator
  | .text op _ => .text op
  | .presence _ => .presence

namespace Junction

/-- The keyword of the junction in criteria text. -/
def keyword : Junction → String
  | .and => "and"
  | .or => "or"

/-- The junction's name in messages. -/
def noun : Junction → String
  | .and => "conjunction"
  | .or => "disjunction"

end Junction

namespace Query

/-- Only the wildcard matches every item by construction. -/
def isMatchAll : Query → Bool
  | allResults => true
  | _ => false

/-- The junction at the root of a query, if it has one. -/
def junction? : Query → Option Junction
  | join j _ _ => some j
  | _ => none

/-- A join has its junction at the root. -/
@[simp] theorem junction?_join (j : Junction) (l r : Query) : (join j l r).junction? = some j := rfl

end Query

end SearchCriteria

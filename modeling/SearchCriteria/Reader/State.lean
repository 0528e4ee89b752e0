import SearchCriteria.Chain

/-!
# Reader states

A reader of criteria text holds one state: where it stands in the grammar, and what it has read
that the query still needs. Every state after the first relational expression began carries a
scope: the chain of deferred junctions and the number of open parentheses, which is where the
expression lands once it is complete.
-/

namespace SearchCriteria

/-- The first character of a symbolic operator that an equals sign may extend. -/
inductive SymbolStart where
  /-- An exclamation mark, which only != begins. -/
  | bang
  /-- A less-than sign: < or <=. -/
  | less
  /-- A greater-than sign: > or >=. -/
  | greater
  deriving DecidableEq, Repr

/-- The operators spelled as words. -/
inductive WordOperator where
  /-- contains -/
  | contains
  /-- doesNotContain -/
  | doesNotContain
  /-- derivedFrom -/
  | derivedFrom
  /-- exists, the presence test -/
  | presence
  deriving DecidableEq, Repr

namespace WordOperator

/-- The operator that the word spells. -/
def operator : WordOperator → Operator
  | contains => .text .contains
  | doesNotContain => .text .doesNotContain
  | derivedFrom => .text .derivedFrom
  | presence => .presence

/-- The word as written. -/
def spelling (w : WordOperator) : String := w.operator.spelling

end WordOperator

/-- Where a relational expression lands: the deferred junctions and the open depth. -/
structure Scope where
  /-- The junctions waiting for their right operand. -/
  chain : Chain := {}
  /-- How many parentheses are open. -/
  depth : Nat := 0
  deriving DecidableEq, Repr

/-- Where the reader stands in the grammar, with what it has read that the query needs. -/
inductive State where
  /-- Before the first expression: only blanks and opening parentheses so far. -/
  | root (depth : Nat)
  /-- A lone wildcard has been read. -/
  | wildcard
  /-- Inside a property identifier. -/
  | property (token : String) (scope : Scope)
  /-- After a property identifier, waiting for the first character of its operator. -/
  | awaitOperator (property : String) (scope : Scope)
  /-- After the first character of a symbolic operator that an equals sign may extend. -/
  | symbol (property : String) (start : SymbolStart) (scope : Scope)
  /-- After the letter d, which begins two operators. -/
  | derivedOrDoesNot (property : String) (scope : Scope)
  /-- Inside a word operator, of which `typed` characters are read. -/
  | operatorWord (property : String) (word : WordOperator) (typed : Nat) (scope : Scope)
  /-- After a complete operator, waiting for blanks and then the operand; `spaced` tells whether
  a blank has followed the operator. -/
  | awaitOperand (property : String) (op : Operator) (spaced : Bool) (scope : Scope)
  /-- Inside a double-quoted operand; `escaped` tells whether a backslash is pending. -/
  | text (property : String) (op : TextOperator) (content : String) (escaped : Bool)
      (scope : Scope)
  /-- Inside the true or false operand of exists, of which `typed` characters are read. -/
  | flag (property : String) (value : Bool) (typed : Nat) (scope : Scope)
  /-- After a complete expression, which a junction or a closing parenthesis may follow. -/
  | expression (operand : Query) (scope : Scope)
  /-- Inside a junction keyword, of which `typed` characters are read. -/
  | junctionWord (junction : Junction) (typed : Nat) (scope : Scope)
  /-- After a junction keyword and a blank, waiting for the right operand. -/
  | joined (junction : Junction) (scope : Scope)
  deriving DecidableEq, Repr

end SearchCriteria

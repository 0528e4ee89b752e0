import SearchCriteria.Reader.Step

/-!
# Reading criteria text

A `Reader` is fed criteria text in pieces of any size and, at the end of the text, yields the
query or the parse error. `Query.parse` reads a whole text at once. Feeding stops at the first
character that cannot continue any query, so feeding a text in pieces and at once give the same
answer.
-/

namespace SearchCriteria

/-- The query that an expression closes, if no parenthesis is left open. -/
def finishExpression (operand : Query) (scope : Scope) : Except ParseError Query :=
  if scope.depth = 0 then .ok (scope.chain.complete operand) else .error (.unclosed scope.depth)

namespace State

/-- The query that a text ending in this state reads as, or why it is refused. -/
def finish : State → Except ParseError Query
  | root _ => .error .emptyQuery
  | wildcard => .ok .allResults
  | property token _ => .error (.danglingProperty token)
  | awaitOperator name _ => .error (.missingOperator name)
  | symbol _ .bang _ => .error .incompleteNotEquals
  | symbol _ start _ => .error (.missingOperand (.text start.alone))
  | derivedOrDoesNot _ _ => .error (.unexpectedOperator "d")
  | operatorWord _ word typed _ =>
    .error (keywordEnd word.spelling typed (.missingOperand word.operator))
  | awaitOperand _ op _ _ => .error (.missingOperand op)
  | text _ _ content _ _ => .error (.unterminatedString content)
  | flag name value typed scope =>
    match (flagSpelling value).toList.drop typed with
    | [] => finishExpression (.relational name (.presence value)) scope
    | _ :: _ => .error .expectedBoolean
  | expression operand scope => finishExpression operand scope
  | junctionWord j typed _ => .error (keywordEnd j.keyword typed (.missingJunctionOperand j))
  | joined j _ => .error (.missingJunctionOperand j)

/-- Feed every character of a list in order, stopping at the first refused one. -/
def feed (limits : Limits) (s : State) (cs : List Char) : Except ParseError State :=
  cs.foldlM (step limits) s

end State

/-- A reader of criteria text: the limits of the reading and the state reached so far. -/
structure Reader where
  /-- The limits of this reading. -/
  limits : Limits
  /-- The state after the text fed so far. -/
  state : State
  deriving DecidableEq, Repr

namespace Reader

/-- A reader that has read nothing yet. -/
def new (limits : Limits) : Reader := ⟨limits, .root 0⟩

/-- Feed a piece of text, stopping at the first refused character. -/
def feed (r : Reader) (piece : String) : Except ParseError Reader := do
  return ⟨r.limits, ← r.state.feed r.limits piece.toList⟩

/-- End the text: the query read, or why the text is refused. -/
def finish (r : Reader) : Except ParseError Query := r.state.finish

end Reader

/-- Read a whole criteria text under the given limits. -/
def Query.parse (limits : Limits) (s : String) : Except ParseError Query := do
  (← (Reader.new limits).feed s).finish

end SearchCriteria

import SearchCriteria.Syntax.Blank
import SearchCriteria.Limits.Basic
import SearchCriteria.Reader.Error
import SearchCriteria.Reader.State

/-!
# One character of criteria text

`State.step` moves a reader to its successor on one character, or refuses the character with the
parse error that explains why. It never looks ahead and never goes back: the state holds all that
the rest of the text can depend on.

Two rules need care. A junction is checked against the term limit at its first letter, before its
keyword is read, and is deferred on the chain at once. A closing parenthesis after an expression
only lowers the depth: grouping is already in the priorities of the junctions deferred inside.
-/

namespace SearchCriteria

/-- The operator that a symbol start spells when no equals sign follows. -/
def SymbolStart.alone : SymbolStart → TextOperator
  | .bang => .notEquals
  | .less => .lessThan
  | .greater => .greaterThan

/-- The operator that a symbol start spells with an equals sign after it. -/
def SymbolStart.withEquals : SymbolStart → TextOperator
  | .bang => .notEquals
  | .less => .lessOrEqual
  | .greater => .greaterOrEqual

/-- The first `typed` characters of a keyword. -/
def typedPart (word : String) (typed : Nat) : String := String.ofList (word.toList.take typed)

/-- What a character does to a keyword of which some characters are read. -/
inductive KeywordStep where
  /-- The keyword goes on, now with this many characters read. -/
  | typed (n : Nat)
  /-- The keyword was complete, and a blank ends it. -/
  | complete
  deriving DecidableEq, Repr

/-- Read one character of `word`, of which `typed` characters are read. A complete keyword must
be followed by a blank; a blank cuts an incomplete one short; any other character that does not
continue the keyword is reported together with the part read. -/
def stepKeyword (word : String) (typed : Nat) (c : Char) : Except ParseError KeywordStep :=
  match word.toList.drop typed with
  | [] =>
    if isBlank c then .ok .complete
    else .error (.unexpectedOperatorBeginning (word.push c))
  | d :: _ =>
    if c = d then .ok (.typed (typed + 1))
    else if isBlank c then .error (.unexpectedOperator (typedPart word typed))
    else .error (.unexpectedOperatorBeginning ((typedPart word typed).push c))

/-- The error at the end of the text inside a keyword: an incomplete keyword is reported with
the part read, a complete one with `whenComplete`. -/
def keywordEnd (word : String) (typed : Nat) (whenComplete : ParseError) : ParseError :=
  match word.toList.drop typed with
  | [] => whenComplete
  | _ :: _ => .unexpectedOperator (typedPart word typed)

/-- Open one more parenthesis at `depth`, within the nesting limit. -/
def openParenthesis (limits : Limits) (depth : Nat) : Except ParseError Nat :=
  if limits.maxNestingDepth ≤ depth then .error (.nestingTooDeep limits.maxNestingDepth)
  else .ok (depth + 1)

/-- Begin a junction after `operand`: refuse it if the query would combine more expressions than
the limit, else defer it on the chain at the priority of its depth. -/
def deferJunction (limits : Limits) (j : Junction) (operand : Query) (scope : Scope) :
    Except ParseError State :=
  if limits.maxTerms < scope.chain.joined + 2 then .error (.tooManyTerms limits.maxTerms)
  else .ok (.junctionWord j 1 { scope with chain := scope.chain.push operand j (j.priority scope.depth) })

/-- One character after a complete expression: blanks are skipped, a closing parenthesis lowers
the depth, and a or o begins a junction. -/
def stepExpression (limits : Limits) (operand : Query) (scope : Scope) (c : Char) :
    Except ParseError State :=
  if isBlank c then .ok (.expression operand scope)
  else match c with
    | ')' =>
      if scope.depth = 0 then .error .strayClose
      else .ok (.expression operand { scope with depth := scope.depth - 1 })
    | 'a' => deferJunction limits .and operand scope
    | 'o' => deferJunction limits .or operand scope
    | c => .error (.unexpectedOperatorBeginning c.toString)

namespace State

/-- Move the reader on by one character, or refuse it. -/
def step (limits : Limits) : State → Char → Except ParseError State
  | root depth, c =>
    if isBlank c then .ok (root depth)
    else match c with
      | '*' => if depth = 0 then .ok wildcard else .error .wildcardNotAlone
      | '(' => return root (← openParenthesis limits depth)
      | ')' => if depth = 0 then .error .strayClose else .error .emptyExpression
      | c => .ok (property c.toString { depth })
  | wildcard, c => if isBlank c then .ok wildcard else .error .wildcardNotAlone
  | property token scope, c =>
    if isBlank c then .ok (awaitOperator token scope) else .ok (property (token.push c) scope)
  | awaitOperator name scope, c =>
    if isBlank c then .ok (awaitOperator name scope)
    else match c with
      | '=' => .ok (awaitOperand name (.text .equals) false scope)
      | '!' => .ok (symbol name .bang scope)
      | '<' => .ok (symbol name .less scope)
      | '>' => .ok (symbol name .greater scope)
      | 'c' => .ok (operatorWord name .contains 1 scope)
      | 'e' => .ok (operatorWord name .presence 1 scope)
      | 'd' => .ok (derivedOrDoesNot name scope)
      | c => .error (.unexpectedOperatorBeginning c.toString)
  | symbol name start scope, c =>
    if c = '=' then .ok (awaitOperand name (.text start.withEquals) false scope)
    else if start = .bang then .error .incompleteNotEquals
    else if isBlank c then .ok (awaitOperand name (.text start.alone) true scope)
    else .error (.missingWhitespace (.text start.alone))
  | derivedOrDoesNot name scope, c =>
    match c with
    | 'e' => .ok (operatorWord name .derivedFrom 2 scope)
    | 'o' => .ok (operatorWord name .doesNotContain 2 scope)
    | c =>
      if isBlank c then .error (.unexpectedOperator "d")
      else .error (.unexpectedOperatorBeginning ("d".push c))
  | operatorWord name word typed scope, c => do
    match ← stepKeyword word.spelling typed c with
    | .typed n => pure (operatorWord name word n scope)
    | .complete => pure (awaitOperand name word.operator true scope)
  | awaitOperand name op spaced scope, c =>
    if isBlank c then .ok (awaitOperand name op true scope)
    else if !spaced then .error (.missingWhitespace op)
    else match op with
      | .presence =>
        if c = 't' then .ok (flag name true 1 scope)
        else if c = 'f' then .ok (flag name false 1 scope)
        else .error .expectedBoolean
      | .text op =>
        if c = '"' then .ok (text name op "" false scope) else .error (.expectedString op)
  | text name op content escaped scope, c =>
    if escaped then
      if c = '\\' ∨ c = '"' then .ok (text name op (content.push c) false scope)
      else .error (.unexpectedEscape c)
    else if c = '\\' then .ok (text name op content true scope)
    else if c = '"' then .ok (expression (.relational name (.text op content)) scope)
    else .ok (text name op (content.push c) false scope)
  | flag name value typed scope, c =>
    match (flagSpelling value).toList.drop typed with
    | [] =>
      if isBlank c ∨ c = '(' ∨ c = ')' then
        stepExpression limits (.relational name (.presence value)) scope c
      else .error .expectedBoolean
    | d :: _ => if c = d then .ok (flag name value (typed + 1) scope) else .error .expectedBoolean
  | expression operand scope, c => stepExpression limits operand scope c
  | junctionWord j typed scope, c => do
    match ← stepKeyword j.keyword typed c with
    | .typed n => pure (junctionWord j n scope)
    | .complete => pure (joined j scope)
  | joined j scope, c =>
    if isBlank c then .ok (joined j scope)
    else match c with
      | '(' => return joined j { scope with depth := ← openParenthesis limits scope.depth }
      | ')' => .error (.missingJunctionOperand j)
      | c => .ok (property c.toString scope)

end State

end SearchCriteria

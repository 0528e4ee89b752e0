import SearchCriteria.Query.Basic

/-!
# Why criteria text is refused

Reading stops at the first violation of the grammar or of a limit, so a refused text has exactly
one parse error. Each constructor names the violated rule and carries the fragment that shows it;
the wording of the message lives in one place, `ParseError.message`.
-/

namespace SearchCriteria

/-- The cause of a refused criteria text. -/
inductive ParseError where
  /-- Nothing but blanks and opening parentheses. -/
  | emptyQuery
  /-- The wildcard stands together with something else, or inside parentheses. -/
  | wildcardNotAlone
  /-- A closing parenthesis right after an opening one. -/
  | emptyExpression
  /-- The text ends with this many parentheses still open. -/
  | unclosed (depth : Nat)
  /-- A closing parenthesis with no open one to match. -/
  | strayClose
  /-- An opening parenthesis would nest deeper than the limit. -/
  | nestingTooDeep (limit : Nat)
  /-- A junction would combine more relational expressions than the limit. -/
  | tooManyTerms (limit : Nat)
  /-- The text ends inside a property identifier. -/
  | danglingProperty (property : String)
  /-- The text ends after a property identifier, before its operator. -/
  | missingOperator (property : String)
  /-- An operator or junction keyword is cut short by a blank or by the end of the text. -/
  | unexpectedOperator (pre : String)
  /-- A character that cannot continue the operator or junction keyword read so far. -/
  | unexpectedOperatorBeginning (fragment : String)
  /-- An exclamation mark that is not followed by an equals sign. -/
  | incompleteNotEquals
  /-- A symbolic operator that is not followed by a blank. -/
  | missingWhitespace (op : Operator)
  /-- The text ends after an operator, before its operand. -/
  | missingOperand (op : Operator)
  /-- A text operator whose operand does not start with a double quote. -/
  | expectedString (op : TextOperator)
  /-- A backslash in an operand followed by neither a backslash nor a double quote. -/
  | unexpectedEscape (c : Char)
  /-- The text ends inside a double-quoted operand, whose text so far is given. -/
  | unterminatedString (content : String)
  /-- The operand of exists is not exactly true or false. -/
  | expectedBoolean
  /-- A junction with no expression after it. -/
  | missingJunctionOperand (junction : Junction)
  deriving DecidableEq, Repr

namespace ParseError

/-- The message that explains the error to a reader. -/
def message : ParseError → String
  | emptyQuery => "the query is empty"
  | wildcardNotAlone => "the wildcard must be used alone"
  | emptyExpression => "empty expressions are not allowed"
  | unclosed depth => s!"the parentheses are unbalanced (depth {depth})"
  | strayClose => "the parentheses are unbalanced (depth -1)"
  | nestingTooDeep limit => s!"parentheses nest deeper than the limit of {limit}"
  | tooManyTerms limit => s!"more than {limit} expressions are combined"
  | danglingProperty property =>
    "the property identifier is not a part of an expression: " ++ property
  | missingOperator property => "no operator is applied to the property identifier: " ++ property
  | unexpectedOperator pre => "unexpected operator: " ++ pre
  | unexpectedOperatorBeginning fragment => "unexpected operator beginning: " ++ fragment
  | incompleteNotEquals => "incomplete operator: !="
  | missingWhitespace op => "whitespace is required around the operator: " ++ op.spelling
  | missingOperand op => "there is no operand for the operator: " ++ op.spelling
  | expectedString op =>
    "expecting a double-quoted string operand with the operator: " ++ op.spelling
  | unexpectedEscape c => "unexpected escape sequence: \\" ++ c.toString
  | unterminatedString content =>
    "the double-quoted string is not terminated: \"" ++ content ++ "\""
  | expectedBoolean => "expecting either \"true\" or \"false\""
  | missingJunctionOperand junction => "expecting an expression after the " ++ junction.noun

end ParseError

end SearchCriteria

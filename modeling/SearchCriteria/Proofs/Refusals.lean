import SearchCriteria.Proofs.Soundness

/-!
# Where a reading is refused, and unbalanced parentheses

A reading is refused at one place: the reader goes through a beginning of the text and refuses
the next character, or the end of the text (`Query.parse_eq_error_iff`). `Refusal` says once how
a step refuses a character, state by state, with the error it reports, and `EndRefusal` how the
end of the text refuses a state; every refusal is one of these (`State.refusal_of_step`,
`State.endRefusal_of_finish`), so what a refused reading reports is read off the state it stopped
in.

Unbalanced parentheses are refused at two such places. A closing parenthesis with no group open
is refused where it stands, after blanks alone or after a whole query. A text that ends with
groups open is refused at its end with their number, which is never zero, and exactly that many
closing parentheses complete it (`Query.parse_unbalanced_counts`).
-/

namespace SearchCriteria

/-- How a keyword of which `typed` characters are read refuses a character. -/
inductive KeywordRefusal (word : String) (typed : Nat) : Char → ParseError → Prop
  /-- A character other than a blank right after the whole keyword. -/
  | glued {c : Char} : word.toList.drop typed = [] → isBlank c = false →
      KeywordRefusal word typed c (.unexpectedOperatorBeginning (word.push c))
  /-- A blank before the keyword is whole. -/
  | cut {c d : Char} {rest : List Char} : word.toList.drop typed = d :: rest → c ≠ d →
      isBlank c = true → KeywordRefusal word typed c (.unexpectedOperator (typedPart word typed))
  /-- A character that neither continues the keyword nor is a blank. -/
  | stray {c d : Char} {rest : List Char} : word.toList.drop typed = d :: rest → c ≠ d →
      isBlank c = false →
        KeywordRefusal word typed c (.unexpectedOperatorBeginning ((typedPart word typed).push c))

/-- How the reader refuses a character after a complete expression. -/
inductive ExpressionRefusal (limits : Limits) (scope : Scope) : Char → ParseError → Prop
  /-- A closing parenthesis with no group open. -/
  | stray : scope.depth = 0 → ExpressionRefusal limits scope ')' .strayClose
  /-- The first letter of a junction that would combine too many relational expressions. -/
  | full {c : Char} : (c = 'a' ∨ c = 'o') → limits.maxTerms < scope.chain.joined + 2 →
      ExpressionRefusal limits scope c (.tooManyTerms limits.maxTerms)
  /-- A character that neither begins a junction nor closes a group nor is a blank. -/
  | unexpected {c : Char} : isBlank c = false → c ≠ ')' → c ≠ 'a' → c ≠ 'o' →
      ExpressionRefusal limits scope c (.unexpectedOperatorBeginning c.toString)

/-- How a step refuses a character, state by state, with the error it reports. -/
inductive Refusal (limits : Limits) : State → Char → ParseError → Prop
  /-- An asterisk inside parentheses. -/
  | nestedWildcard {depth : Nat} : depth ≠ 0 → Refusal limits (.root depth) '*' .wildcardNotAlone
  /-- An opening parenthesis beyond the nesting limit before the first expression. -/
  | rootTooDeep {depth : Nat} : limits.maxNestingDepth ≤ depth →
      Refusal limits (.root depth) '(' (.nestingTooDeep limits.maxNestingDepth)
  /-- A closing parenthesis before anything else. -/
  | rootStray : Refusal limits (.root 0) ')' .strayClose
  /-- A closing parenthesis right after an opening one. -/
  | emptyGroup {depth : Nat} : depth ≠ 0 → Refusal limits (.root depth) ')' .emptyExpression
  /-- Anything but a blank after the wildcard. -/
  | afterWildcard {c : Char} : isBlank c = false → Refusal limits .wildcard c .wildcardNotAlone
  /-- A character that begins no operator. -/
  | noOperator {name : String} {sc : Scope} {c : Char} : isBlank c = false →
      c ∉ ['=', '!', '<', '>', 'c', 'e', 'd'] →
        Refusal limits (.awaitOperator name sc) c (.unexpectedOperatorBeginning c.toString)
  /-- An exclamation mark without its equals sign. -/
  | bangAlone {name : String} {sc : Scope} {c : Char} : c ≠ '=' →
      Refusal limits (.symbol name .bang sc) c .incompleteNotEquals
  /-- A symbolic operator followed by neither an equals sign nor a blank. -/
  | symbolGlued {name : String} {start : SymbolStart} {sc : Scope} {c : Char} : c ≠ '=' →
      start ≠ .bang → isBlank c = false →
        Refusal limits (.symbol name start sc) c (.missingWhitespace (.text start.alone))
  /-- A blank right after the letter d. -/
  | dCut {name : String} {sc : Scope} {c : Char} : isBlank c = true →
      Refusal limits (.derivedOrDoesNot name sc) c (.unexpectedOperator "d")
  /-- After the letter d, a character other than e and o. -/
  | dStray {name : String} {sc : Scope} {c : Char} : c ≠ 'e' → c ≠ 'o' → isBlank c = false →
      Refusal limits (.derivedOrDoesNot name sc) c (.unexpectedOperatorBeginning ("d".push c))
  /-- An operator word refuses the character. -/
  | operatorWord {name : String} {word : WordOperator} {typed : Nat} {sc : Scope} {c : Char}
      {err : ParseError} : KeywordRefusal word.spelling typed c err →
        Refusal limits (.operatorWord name word typed sc) c err
  /-- An operand right after a symbolic operator, with no blank between. -/
  | unspaced {name : String} {op : Operator} {sc : Scope} {c : Char} : isBlank c = false →
      Refusal limits (.awaitOperand name op false sc) c (.missingWhitespace op)
  /-- An operand of exists that begins neither true nor false. -/
  | notFlag {name : String} {sc : Scope} {c : Char} : isBlank c = false → c ≠ 't' → c ≠ 'f' →
      Refusal limits (.awaitOperand name .presence true sc) c .expectedBoolean
  /-- An operand of a text operator that does not begin with a double quote. -/
  | notQuoted {name : String} {op : TextOperator} {sc : Scope} {c : Char} : isBlank c = false →
      c ≠ '"' → Refusal limits (.awaitOperand name (.text op) true sc) c (.expectedString op)
  /-- A backslash followed by neither a backslash nor a double quote. -/
  | badEscape {name : String} {op : TextOperator} {content : String} {sc : Scope} {c : Char} :
      c ≠ '\\' → c ≠ '"' → Refusal limits (.text name op content true sc) c (.unexpectedEscape c)
  /-- A whole flag followed by neither a blank nor a parenthesis. -/
  | flagGlued {name : String} {value : Bool} {typed : Nat} {sc : Scope} {c : Char} :
      (flagSpelling value).toList.drop typed = [] → isBlank c = false → c ≠ '(' → c ≠ ')' →
        Refusal limits (.flag name value typed sc) c .expectedBoolean
  /-- A whole flag followed by a character that an expression refuses. -/
  | flagExpression {name : String} {value : Bool} {typed : Nat} {sc : Scope} {c : Char}
      {err : ParseError} : (flagSpelling value).toList.drop typed = [] →
        (isBlank c = true ∨ c = '(' ∨ c = ')') → ExpressionRefusal limits sc c err →
          Refusal limits (.flag name value typed sc) c err
  /-- A character that does not continue the flag. -/
  | flagStray {name : String} {value : Bool} {typed : Nat} {sc : Scope} {c d : Char}
      {rest : List Char} : (flagSpelling value).toList.drop typed = d :: rest → c ≠ d →
        Refusal limits (.flag name value typed sc) c .expectedBoolean
  /-- After a complete expression. -/
  | expression {operand : Query} {sc : Scope} {c : Char} {err : ParseError} :
      ExpressionRefusal limits sc c err → Refusal limits (.expression operand sc) c err
  /-- A junction keyword refuses the character. -/
  | junctionWord {j : Junction} {typed : Nat} {sc : Scope} {c : Char} {err : ParseError} :
      KeywordRefusal j.keyword typed c err → Refusal limits (.junctionWord j typed sc) c err
  /-- An opening parenthesis beyond the nesting limit after a junction. -/
  | joinedTooDeep {j : Junction} {sc : Scope} : limits.maxNestingDepth ≤ sc.depth →
      Refusal limits (.joined j sc) '(' (.nestingTooDeep limits.maxNestingDepth)
  /-- A closing parenthesis right after a junction. -/
  | joinedClose {j : Junction} {sc : Scope} :
      Refusal limits (.joined j sc) ')' (.missingJunctionOperand j)

/-- A bind of readings fails when the first fails, or when it succeeds and the continuation
fails. -/
theorem error_of_bind_eq_error {α β : Type} {x : Except ParseError α}
    {f : α → Except ParseError β} {err : ParseError} (h : (x >>= f) = .error err) :
    x = .error err ∨ ∃ a, x = .ok a ∧ f a = .error err := by
  cases x with
  | error e =>
    cases h
    exact .inl rfl
  | ok a => exact .inr ⟨a, rfl, h⟩

/-- Every refusal of a keyword step is one of the keyword refusals: glued to a whole keyword, cut
short by a blank, or a stray character. -/
theorem keywordRefusal_of_stepKeyword {word : String} {typed : Nat} {c : Char} {err : ParseError}
    (h : stepKeyword word typed c = .error err) : KeywordRefusal word typed c err := by
  unfold stepKeyword at h
  split at h
  · next hdrop =>
    split at h
    · cases h
    · next hc =>
      cases h
      exact .glued hdrop (Bool.eq_false_iff.2 hc)
  · next d rest hdrop =>
    split at h
    · cases h
    · next hcd =>
      split at h
      · next hc =>
        cases h
        exact .cut hdrop hcd hc
      · next hc =>
        cases h
        exact .stray hdrop hcd (Bool.eq_false_iff.2 hc)

/-- Every refusal of a step after a complete expression is one of the expression refusals. -/
theorem expressionRefusal_of_stepExpression {limits : Limits} {operand : Query} {sc : Scope}
    {c : Char} {err : ParseError} (h : stepExpression limits operand sc c = .error err) :
    ExpressionRefusal limits sc c err := by
  unfold stepExpression at h
  split at h
  · cases h
  · next hc =>
    have hc' : isBlank c = false := Bool.eq_false_iff.2 hc
    split at h
    · split at h
      · next hd =>
        cases h
        exact .stray hd
      · cases h
    · unfold deferJunction at h
      split at h
      · next hfull =>
        cases h
        exact .full (.inl rfl) hfull
      · cases h
    · unfold deferJunction at h
      split at h
      · next hfull =>
        cases h
        exact .full (.inr rfl) hfull
      · cases h
    · next hclose ha ho =>
      cases h
      exact .unexpected hc' hclose ha ho

/-- An opening parenthesis is refused only at the nesting limit. -/
theorem openParenthesis_eq_error {limits : Limits} {depth : Nat} {err : ParseError}
    (h : openParenthesis limits depth = .error err) :
    limits.maxNestingDepth ≤ depth ∧ err = .nestingTooDeep limits.maxNestingDepth := by
  unfold openParenthesis at h
  split at h
  · next hle =>
    cases h
    exact ⟨hle, rfl⟩
  · cases h

namespace State

variable {limits : Limits}

/-- Every refused step is one of the refusals. Waiting for an operator, the reader refuses only a
character that begins none. -/
theorem refusal_of_step {st : State} {c : Char} {err : ParseError}
    (h : st.step limits c = .error err) : Refusal limits st c err := by
  cases st with
  | root depth =>
    simp only [State.step.eq_def] at h
    split at h
    · cases h
    · split at h
      · split at h
        · cases h
        · next hd =>
          cases h
          exact .nestedWildcard hd
      · rcases error_of_bind_eq_error h with h | ⟨d, -, h⟩
        · obtain ⟨hle, rfl⟩ := openParenthesis_eq_error h
          exact .rootTooDeep hle
        · cases h
      · split at h
        · next hd =>
          cases h
          subst hd
          exact .rootStray
        · next hd =>
          cases h
          exact .emptyGroup hd
      · cases h
  | wildcard =>
    simp only [State.step.eq_def] at h
    split at h
    · cases h
    · next hc =>
      cases h
      exact .afterWildcard (Bool.eq_false_iff.2 hc)
  | property token sc =>
    simp only [State.step.eq_def] at h
    split at h <;> cases h
  | awaitOperator name sc =>
    simp only [State.step.eq_def] at h
    split at h
    · cases h
    · next hc =>
      split at h
      any_goals cases h
      exact .noOperator (Bool.eq_false_iff.2 hc) (by simp_all)
  | symbol name start sc =>
    simp only [State.step.eq_def] at h
    split at h
    · cases h
    · next heq =>
      split at h
      · next hbang =>
        cases h
        subst hbang
        exact .bangAlone heq
      · next hbang =>
        split at h
        · cases h
        · next hc =>
          cases h
          exact .symbolGlued heq hbang (Bool.eq_false_iff.2 hc)
  | derivedOrDoesNot name sc =>
    simp only [State.step.eq_def] at h
    split at h
    · cases h
    · cases h
    · next he ho =>
      split at h
      · next hc =>
        cases h
        exact .dCut hc
      · next hc =>
        cases h
        exact .dStray he ho (Bool.eq_false_iff.2 hc)
  | operatorWord name word typed sc =>
    simp only [State.step.eq_def] at h
    rcases error_of_bind_eq_error h with h | ⟨k, -, h⟩
    · exact .operatorWord (keywordRefusal_of_stepKeyword h)
    · cases k <;> cases h
  | awaitOperand name op spaced sc =>
    simp only [State.step.eq_def] at h
    split at h
    · cases h
    · next hc =>
      have hc' : isBlank c = false := Bool.eq_false_iff.2 hc
      split at h
      · next hspaced =>
        cases h
        simp only [Bool.not_eq_true'] at hspaced
        subst hspaced
        exact .unspaced hc'
      · next hspaced =>
        simp only [Bool.not_eq_true', Bool.not_eq_false] at hspaced
        subst hspaced
        split at h
        · split at h
          · cases h
          · next ht =>
            split at h
            · cases h
            · next hf =>
              cases h
              exact .notFlag hc' ht hf
        · next op =>
          split at h
          · cases h
          · next hquote =>
            cases h
            exact .notQuoted hc' hquote
  | text name op content escaped sc =>
    simp only [State.step.eq_def] at h
    split at h
    · next hesc =>
      subst hesc
      split at h
      · cases h
      · next hc =>
        cases h
        simp only [not_or] at hc
        exact .badEscape hc.1 hc.2
    · split at h
      · cases h
      · split at h <;> cases h
  | flag name value typed sc =>
    simp only [State.step.eq_def] at h
    split at h
    · next hdrop =>
      split at h
      · next hc =>
        exact .flagExpression hdrop hc (expressionRefusal_of_stepExpression h)
      · next hc =>
        cases h
        simp only [not_or] at hc
        exact .flagGlued hdrop (Bool.eq_false_iff.2 hc.1) hc.2.1 hc.2.2
    · next d rest hdrop =>
      split at h
      · cases h
      · next hcd =>
        cases h
        exact .flagStray hdrop hcd
  | expression operand sc => exact .expression (expressionRefusal_of_stepExpression h)
  | junctionWord j typed sc =>
    simp only [State.step.eq_def] at h
    rcases error_of_bind_eq_error h with h | ⟨k, -, h⟩
    · exact .junctionWord (keywordRefusal_of_stepKeyword h)
    · cases k <;> cases h
  | joined j sc =>
    simp only [State.step.eq_def] at h
    split at h
    · cases h
    · split at h
      · rcases error_of_bind_eq_error h with h | ⟨d, -, h⟩
        · obtain ⟨hle, rfl⟩ := openParenthesis_eq_error h
          exact .joinedTooDeep hle
        · cases h
      · cases h
        exact .joinedClose
      · cases h

end State

/-- The end of the text inside a keyword is reported with the keyword's own error once it is
whole, and with the part read before that. -/
theorem keywordEnd_cases (word : String) (typed : Nat) (whole : ParseError) :
    (word.toList.drop typed = [] ∧ keywordEnd word typed whole = whole) ∨
      ((∃ d rest, word.toList.drop typed = d :: rest) ∧
        keywordEnd word typed whole = .unexpectedOperator (typedPart word typed)) := by
  unfold keywordEnd
  split
  · next hdrop => exact .inl ⟨hdrop, rfl⟩
  · next d rest hdrop => exact .inr ⟨⟨d, rest, hdrop⟩, rfl⟩

/-- An expression that cannot finish has groups left open, and says how many. -/
theorem finishExpression_eq_error {operand : Query} {sc : Scope} {err : ParseError}
    (h : finishExpression operand sc = .error err) : 0 < sc.depth ∧ err = .unclosed sc.depth := by
  unfold finishExpression at h
  split at h
  · cases h
  · next hd =>
    cases h
    exact ⟨Nat.pos_of_ne_zero hd, rfl⟩

/-- After a primary, the end of the text is read as after an expression. -/
theorem AfterPrimary.finish_eq {s : List Char} {st : State} {e : Query} {sc : Scope}
    (h : AfterPrimary s st e sc) : st.finish = finishExpression e sc := by
  cases h with
  | expression => rfl
  | flag _ => simp only [State.finish, drop_length_toList]

/-- How the end of the text refuses a state, with the error it reports. -/
inductive EndRefusal : State → ParseError → Prop
  /-- Blanks and opening parentheses only. -/
  | empty {depth : Nat} : EndRefusal (.root depth) .emptyQuery
  /-- A property with nothing after it. -/
  | dangling {token : String} {sc : Scope} :
      EndRefusal (.property token sc) (.danglingProperty token)
  /-- A property and blanks, with no operator. -/
  | noOperator {name : String} {sc : Scope} :
      EndRefusal (.awaitOperator name sc) (.missingOperator name)
  /-- An exclamation mark without its equals sign. -/
  | bangAlone {name : String} {sc : Scope} :
      EndRefusal (.symbol name .bang sc) .incompleteNotEquals
  /-- A symbolic operator with no operand. -/
  | symbolAlone {name : String} {start : SymbolStart} {sc : Scope} : start ≠ .bang →
      EndRefusal (.symbol name start sc) (.missingOperand (.text start.alone))
  /-- The letter d alone. -/
  | dCut {name : String} {sc : Scope} :
      EndRefusal (.derivedOrDoesNot name sc) (.unexpectedOperator "d")
  /-- A whole operator word with no operand. -/
  | operatorWhole {name : String} {word : WordOperator} {typed : Nat} {sc : Scope} :
      word.spelling.toList.drop typed = [] →
        EndRefusal (.operatorWord name word typed sc) (.missingOperand word.operator)
  /-- An operator word cut short, reported with the part read. -/
  | operatorCut {name : String} {word : WordOperator} {typed : Nat} {sc : Scope} {d : Char}
      {rest : List Char} : word.spelling.toList.drop typed = d :: rest →
        EndRefusal (.operatorWord name word typed sc)
          (.unexpectedOperator (typedPart word.spelling typed))
  /-- An operator with no operand. -/
  | noOperand {name : String} {op : Operator} {spaced : Bool} {sc : Scope} :
      EndRefusal (.awaitOperand name op spaced sc) (.missingOperand op)
  /-- A double-quoted operand that is never closed. -/
  | unterminated {name : String} {op : TextOperator} {content : String} {escaped : Bool}
      {sc : Scope} : EndRefusal (.text name op content escaped sc) (.unterminatedString content)
  /-- A flag cut short. -/
  | flagCut {name : String} {value : Bool} {typed : Nat} {sc : Scope} {d : Char}
      {rest : List Char} : (flagSpelling value).toList.drop typed = d :: rest →
        EndRefusal (.flag name value typed sc) .expectedBoolean
  /-- A whole flag with groups left open. -/
  | flagOpen {name : String} {value : Bool} {typed : Nat} {sc : Scope} :
      (flagSpelling value).toList.drop typed = [] → 0 < sc.depth →
        EndRefusal (.flag name value typed sc) (.unclosed sc.depth)
  /-- A complete expression with groups left open. -/
  | expressionOpen {operand : Query} {sc : Scope} : 0 < sc.depth →
      EndRefusal (.expression operand sc) (.unclosed sc.depth)
  /-- A whole junction keyword with no right operand. -/
  | junctionWhole {j : Junction} {typed : Nat} {sc : Scope} : j.keyword.toList.drop typed = [] →
      EndRefusal (.junctionWord j typed sc) (.missingJunctionOperand j)
  /-- A junction keyword cut short, reported with the part read. -/
  | junctionCut {j : Junction} {typed : Nat} {sc : Scope} {d : Char} {rest : List Char} :
      j.keyword.toList.drop typed = d :: rest →
        EndRefusal (.junctionWord j typed sc) (.unexpectedOperator (typedPart j.keyword typed))
  /-- A junction and blanks, with no right operand. -/
  | joined {j : Junction} {sc : Scope} : EndRefusal (.joined j sc) (.missingJunctionOperand j)

/-- Every refused end of the text is one of the end refusals. -/
theorem State.endRefusal_of_finish {st : State} {err : ParseError}
    (h : st.finish = .error err) : EndRefusal st err := by
  cases st with
  | root =>
    cases h
    exact .empty
  | wildcard => cases h
  | property =>
    cases h
    exact .dangling
  | awaitOperator =>
    cases h
    exact .noOperator
  | symbol name start sc =>
    cases start with
    | bang =>
      cases h
      exact .bangAlone
    | less =>
      cases h
      exact .symbolAlone nofun
    | greater =>
      cases h
      exact .symbolAlone nofun
  | derivedOrDoesNot =>
    cases h
    exact .dCut
  | operatorWord name word typed sc =>
    rcases keywordEnd_cases word.spelling typed (.missingOperand word.operator) with
      ⟨hdrop, hend⟩ | ⟨⟨d, rest, hdrop⟩, hend⟩ <;> simp only [State.finish, hend] at h <;> cases h
    · exact .operatorWhole hdrop
    · exact .operatorCut hdrop
  | awaitOperand =>
    cases h
    exact .noOperand
  | text =>
    cases h
    exact .unterminated
  | flag name value typed sc =>
    simp only [State.finish] at h
    split at h
    · next hdrop =>
      obtain ⟨hpos, rfl⟩ := finishExpression_eq_error h
      exact .flagOpen hdrop hpos
    · next d rest hdrop =>
      cases h
      exact .flagCut hdrop
  | expression operand sc =>
    obtain ⟨hpos, rfl⟩ := finishExpression_eq_error h
    exact .expressionOpen hpos
  | junctionWord j typed sc =>
    rcases keywordEnd_cases j.keyword typed (.missingJunctionOperand j) with
      ⟨hdrop, hend⟩ | ⟨⟨d, rest, hdrop⟩, hend⟩ <;> simp only [State.finish, hend] at h <;> cases h
    · exact .junctionWhole hdrop
    · exact .junctionCut hdrop
  | joined =>
    cases h
    exact .joined

namespace State

variable {limits : Limits}

/-- A run is refused exactly at one character: the run goes through the text before it, and the
step on that character is refused with the run's error. By induction on the text, its first
character either refused or stepped over. -/
theorem feed_eq_error_iff {st : State} {cs : List Char} {err : ParseError} :
    st.feed limits cs = .error err ↔
      ∃ pre x t st', cs = pre ++ x :: t ∧ st.feed limits pre = .ok st' ∧
        st'.step limits x = .error err := by
  constructor
  · intro h
    induction cs generalizing st with
    | nil => cases h
    | cons c cs ih =>
      cases hstep : st.step limits c with
      | error e =>
        rw [feed_cons, hstep] at h
        cases h
        exact ⟨[], c, cs, st, rfl, rfl, hstep⟩
      | ok st₁ =>
        rw [feed_cons_of_step hstep] at h
        obtain ⟨pre, x, t, st', rfl, hpre, hx⟩ := ih h
        exact ⟨c :: pre, x, t, st', rfl, by rw [feed_cons_of_step hstep]; exact hpre, hx⟩
  · rintro ⟨pre, x, t, st', rfl, hpre, hx⟩
    rw [feed_append_of_feed hpre, feed_cons, hx]
    rfl

/-- No step reports parentheses left open: only the end of the text does. -/
theorem step_ne_unclosed (st : State) (c : Char) (d : Nat) :
    st.step limits c ≠ .error (.unclosed d) := by
  intro h
  cases refusal_of_step h with
  | operatorWord hk => cases hk
  | flagExpression _ _ he => cases he
  | expression he => cases he
  | junctionWord hk => cases hk

/-- A stray closing parenthesis is refused at the root, or where the text could have ended with a
query. -/
theorem step_eq_strayClose {st : State} {c : Char} (h : st.step limits c = .error .strayClose) :
    c = ')' ∧ (st = .root 0 ∨ ∃ q, st.finish = .ok q) := by
  cases refusal_of_step h with
  | rootStray => exact ⟨rfl, .inl rfl⟩
  | flagExpression hdrop _ he =>
    cases he with
    | stray hd => exact ⟨rfl, .inr (by simp [State.finish, hdrop, finishExpression, hd])⟩
  | expression he =>
    cases he with
    | stray hd => exact ⟨rfl, .inr (by simp [State.finish, finishExpression, hd])⟩
  | operatorWord hk => cases hk
  | junctionWord hk => cases hk

/-- The end of the text reports parentheses left open only after a primary, with their number. A
flag that reports them is whole, so exactly its letters are read. -/
theorem finish_eq_unclosed {st : State} {d : Nat} (hwf : st.WellFormed limits)
    (h : st.finish = .error (.unclosed d)) :
    ∃ e sc, AfterPrimary [] st e sc ∧ sc.depth = d ∧ 0 < d := by
  cases endRefusal_of_finish h with
  | @flagOpen name value typed sc hdrop hpos =>
    have htyped : typed = (flagSpelling value).length := by
      have hle := List.drop_eq_nil_iff.1 hdrop
      simp only [String.length_toList] at hle
      exact Nat.le_antisymm hwf.2.1 hle
    subst htyped
    have hnot : ¬ EndsClosed [] := by simp [EndsClosed]
    exact ⟨_, sc, .flag hnot, rfl, hpos⟩
  | @expressionOpen operand sc hpos => exact ⟨operand, sc, .expression, rfl, hpos⟩

/-- The end of the text never reports a stray closing parenthesis. -/
theorem finish_ne_strayClose (st : State) : st.finish ≠ .error .strayClose := by
  intro h
  cases endRefusal_of_finish h

end State

/-- Closing parentheses after a primary close its open groups one by one. -/
theorem AfterPrimary.feed_closers {st : State} {e : Query} {sc : Scope}
    (h : AfterPrimary [] st e sc) (limits : Limits) {k : Nat} (hk : k ≤ sc.depth) :
    ∃ st', st.feed limits (List.replicate k ')') = .ok st' ∧
      AfterPrimary [] st' e { sc with depth := sc.depth - k } := by
  induction k generalizing st sc with
  | zero => exact ⟨st, rfl, by simpa using h⟩
  | succ k ih =>
    have hclose : st.feed limits ([] ++ [')']) =
        .ok (.expression e { sc with depth := sc.depth - 1 }) :=
      h.feed_close Blanks.nil (by omega)
    have hnext : AfterPrimary [] (.expression e { sc with depth := sc.depth - 1 }) e
        { sc with depth := sc.depth - 1 } := .expression
    obtain ⟨st', hrun, hafter⟩ := ih hnext (by show k ≤ sc.depth - 1; omega)
    refine ⟨st', ?_, ?_⟩
    · rw [List.replicate_succ, ← List.singleton_append, ← List.nil_append [')'],
        State.feed_append_of_feed hclose]
      exact hrun
    · have hdepth : sc.depth - 1 - k = sc.depth - (k + 1) := by omega
      simpa [hdepth] using hafter

namespace Query

/-- Reading `s` is refused with `err` right after its beginning `pre`: the reader goes through
`pre`, then refuses the next character of `s`, or the end of the text when `s` is `pre`. -/
def StopsAfter (limits : Limits) (s pre : List Char) (err : ParseError) : Prop :=
  ∃ st, (State.root 0).feed limits pre = .ok st ∧
    ((s = pre ∧ st.finish = .error err) ∨
      ∃ x t, s = pre ++ x :: t ∧ st.step limits x = .error err)

/-- A reading is refused exactly when it stops somewhere with that error. -/
theorem parse_eq_error_iff (limits : Limits) (s : String) (err : ParseError) :
    Query.parse limits s = .error err ↔ ∃ pre, StopsAfter limits s.toList pre err := by
  rw [parse_eq_feed]
  constructor
  · intro h
    cases hfeed : (State.root 0).feed limits s.toList with
    | error e =>
      rw [hfeed] at h
      cases h
      obtain ⟨pre, x, t, st, hs, hpre, hx⟩ := State.feed_eq_error_iff.1 hfeed
      exact ⟨pre, st, hpre, .inr ⟨x, t, hs, hx⟩⟩
    | ok st =>
      rw [hfeed] at h
      exact ⟨s.toList, st, hfeed, .inl ⟨rfl, h⟩⟩
  · rintro ⟨pre, st, hpre, ⟨hs, hfinish⟩ | ⟨x, t, hs, hx⟩⟩
    · rw [hs, hpre]
      exact hfinish
    · rw [hs, State.feed_eq_error_iff.2 ⟨pre, x, t, st, rfl, hpre, hx⟩]
      rfl

/-- A reading that goes through the whole text ends as the state it reached. -/
theorem parse_of_feed {limits : Limits} {s : String} {st : State}
    (h : (State.root 0).feed limits s.toList = .ok st) : Query.parse limits s = st.finish := by
  rw [parse_eq_feed, h]
  rfl

/-- Text that ends after a primary with groups open, followed by closing parentheses, ends as
the expression does with that many groups fewer open. -/
theorem parse_append_closers {limits : Limits} {s : String} {st : State} {e : Query} {sc : Scope}
    (hrun : (State.root 0).feed limits s.toList = .ok st) (h : AfterPrimary [] st e sc)
    {k : Nat} (hk : k ≤ sc.depth) :
    Query.parse limits (s ++ String.ofList (List.replicate k ')')) =
      finishExpression e { sc with depth := sc.depth - k } := by
  obtain ⟨st', hclose, hafter⟩ := h.feed_closers limits hk
  rw [parse_eq_feed, String.toList_append, String.toList_ofList,
    State.feed_append_of_feed hrun, hclose]
  exact hafter.finish_eq

end Query

/-- A reader at the root with no group open has read blanks alone. -/
theorem Viable.blanks_of_root {pre : List Char} (h : Viable pre (.root 0)) : Blanks pre := by
  cases h with
  | root ho _ => exact ho
  | leaf _ hl _ _ => exact False.elim hl

namespace Query

/-- A text refused for unbalanced parentheses is refused with the truth about them. A text that
ends with groups open reports how many, never none: fewer closing parentheses than that leave
the report counting down, and exactly that many complete a query. A closing parenthesis with no
group open is refused where it stands, after blanks alone or after a whole query. Open groups are
reported by the end of the text, after a primary; a stray parenthesis is refused by a step, at
the root or after an expression. -/
theorem parse_unbalanced_counts (limits : Limits) (s : String) :
    (∀ d, Query.parse limits s = .error (.unclosed d) →
      0 < d ∧
        (∀ k < d, Query.parse limits (s ++ String.ofList (List.replicate k ')')) =
          .error (.unclosed (d - k))) ∧
        ∃ q, Query.parse limits (s ++ String.ofList (List.replicate d ')')) = .ok q) ∧
    (Query.parse limits s = .error .strayClose →
      ∃ p t : String, s = p ++ ")" ++ t ∧
        (Blanks p.toList ∨ ∃ q, Query.parse limits p = .ok q)) := by
  refine ⟨fun d h => ?_, fun h => ?_⟩
  · obtain ⟨pre, st, hpre, ⟨hs, hfinish⟩ | ⟨x, t, -, hx⟩⟩ := (parse_eq_error_iff limits s _).1 h
    · rw [← hs] at hpre
      have hwf : st.WellFormed limits := State.feed_wellFormed (Nat.zero_le _) hpre
      obtain ⟨e, sc, hafter, rfl, hpos⟩ := State.finish_eq_unclosed hwf hfinish
      refine ⟨hpos, fun k hk => ?_, ?_⟩
      · rw [parse_append_closers hpre hafter (Nat.le_of_lt hk)]
        simp [finishExpression, show sc.depth - k ≠ 0 by omega]
      · exact ⟨sc.chain.complete e, by
          rw [parse_append_closers hpre hafter (Nat.le_refl _)]; simp [finishExpression]⟩
    · exact absurd hx (State.step_ne_unclosed st x d)
  · obtain ⟨pre, st, hpre, ⟨-, hfinish⟩ | ⟨x, t, hs, hx⟩⟩ := (parse_eq_error_iff limits s _).1 h
    · exact absurd hfinish (State.finish_ne_strayClose st)
    obtain ⟨rfl, hst⟩ := State.step_eq_strayClose hx
    refine ⟨String.ofList pre, String.ofList t, String.toList_inj.1 (by simp [hs]), ?_⟩
    rcases hst with rfl | ⟨q, hq⟩
    · have hv : Viable pre (.root 0) := by simpa using Viable.initial.feed hpre
      exact .inl (by simpa using hv.blanks_of_root)
    · exact .inr ⟨q, by rw [parse_of_feed (by simpa using hpre)]; exact hq⟩

/-- Read with the default limits, a text with two groups left open reports two, and two closing
parentheses complete it. -/
theorem parse_two_groups_open :
    Query.parse {} "((a = \"x\"" = .error (.unclosed 2) ∧
      ∃ q, Query.parse {} ("((a = \"x\"" ++ String.ofList (List.replicate 2 ')')) = .ok q := by
  have h : Query.parse {} "((a = \"x\"" = .error (.unclosed 2) := by rfl
  exact ⟨h, ((parse_unbalanced_counts {} _).1 2 h).2.2⟩

end Query

end SearchCriteria

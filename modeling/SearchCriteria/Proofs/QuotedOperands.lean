import SearchCriteria.Proofs.Canonical

/-!
# Double-quoted operands

Inside a double-quoted operand the reader runs a loop with two modes: a backslash makes the next
character an escape, which must be a double quote or a backslash, and an unescaped double quote
closes the operand. Every text after an opening double quote begins with a longest quoted body,
and what stands after that body is one of four stops (`QuotedBody.Stop`, `QuotedBody.split`):
nothing, a lone backslash, an unescaped double quote, or a backslash before a character it
cannot escape. The reader is cut short, closes the operand or refuses the escape there, with the
text the body stands for. The written form of an operand is its escaped text and the closing
double quote, so reading it back gives the operand (`State.feed_quoted_operand`).
-/

namespace SearchCriteria

namespace QuotedBody

/-- What can stand right after the longest quoted body a text begins with: nothing, a lone
backslash, an unescaped double quote, or a backslash before a character that it cannot escape. -/
def Stop (rest : List Char) : Prop :=
  rest = [] ∨ rest = ['\\'] ∨ (∃ r, rest = '"' :: r) ∨
    ∃ x r, rest = '\\' :: x :: r ∧ x ≠ '\\' ∧ x ≠ '"'

/-- Every text is a quoted body followed by a stop. An escape pair is one piece of the body, so the
recursion takes it in one step. -/
theorem split : ∀ t : List Char, ∃ b v rest, QuotedBody b v ∧ t = b ++ rest ∧ Stop rest
  | [] => ⟨[], [], [], .nil, rfl, .inl rfl⟩
  | c :: t => by
    by_cases hquote : c = '"'
    · exact ⟨[], [], c :: t, .nil, rfl, .inr (.inr (.inl ⟨t, by rw [hquote]⟩))⟩
    by_cases hslash : c = '\\'
    · subst hslash
      match t with
      | [] => exact ⟨[], [], ['\\'], .nil, rfl, .inr (.inl rfl)⟩
      | x :: t =>
        by_cases hx : x = '"' ∨ x = '\\'
        · obtain ⟨b, v, rest, hb, rfl, hstop⟩ := split t
          exact ⟨'\\' :: x :: b, x :: v, rest, .escape hx hb, rfl, hstop⟩
        · simp only [not_or] at hx
          exact ⟨[], [], '\\' :: x :: t, .nil, rfl,
            .inr (.inr (.inr ⟨x, t, rfl, hx.2, hx.1⟩))⟩
    · obtain ⟨b, v, rest, hb, rfl, hstop⟩ := split t
      exact ⟨c :: b, c :: v, rest, .plain hquote hslash hb, rfl, hstop⟩

end QuotedBody

namespace State

variable {limits : Limits} {name : String} {op : TextOperator} {sc : Scope}

/-- The text that a body adds to an operand read so far. -/
theorem feed_quotedBody_append {b v : List Char} (hb : QuotedBody b v) (content : String) :
    (text name op content false sc).feed limits b =
      .ok (text name op (content ++ String.ofList v) false sc) :=
  feed_quotedBody hb name op sc (by simp)

/-- A body and an unescaped double quote close the operand with the text the body stands for,
and the reading goes on from the closed expression. -/
theorem feed_text_close {b v : List Char} (hb : QuotedBody b v) (content : String)
    (rest : List Char) :
    (text name op content false sc).feed limits (b ++ '"' :: rest) =
      (expression (.relational name (.text op (content ++ String.ofList v))) sc).feed limits
        rest := by
  rw [feed_append_of_feed (feed_quotedBody_append hb content),
    feed_cons_of_step (step_text_quote name op _ sc)]

/-- A lone backslash after a body leaves the operand open with the body's text, waiting for the
character it escapes. -/
theorem feed_text_loneBackslash {b v : List Char} (hb : QuotedBody b v) (content : String) :
    (text name op content false sc).feed limits (b ++ ['\\']) =
      .ok (text name op (content ++ String.ofList v) true sc) := by
  rw [feed_append_of_feed (feed_quotedBody_append hb content),
    feed_cons_of_step (step_text_backslash name op _ sc)]
  rfl

/-- A backslash after a body before a character other than a double quote or a backslash is
refused, whatever follows. -/
theorem feed_text_unexpectedEscape {b v : List Char} (hb : QuotedBody b v) {x : Char}
    (hslash : x ≠ '\\') (hquote : x ≠ '"') (content : String) (rest : List Char) :
    (text name op content false sc).feed limits (b ++ '\\' :: x :: rest) =
      .error (.unexpectedEscape x) := by
  have hrefuse : (text name op (content ++ String.ofList v) true sc).step limits x =
      .error (.unexpectedEscape x) := by
    simp [State.step.eq_def, hslash, hquote]
  rw [show b ++ '\\' :: x :: rest = b ++ ['\\'] ++ x :: rest by simp,
    feed_append_of_feed (feed_text_loneBackslash hb content), feed_cons, hrefuse]
  rfl

/-- The written form of an operand, after an operator and a blank, is read whole and closes the
operand with exactly its text; the reading goes on from the closed expression. -/
theorem feed_quoteOperand (v : String) (rest : List Char) :
    (awaitOperand name (.text op) true sc).feed limits ((quoteOperand v).toList ++ rest) =
      (expression (.relational name (.text op v)) sc).feed limits rest := by
  have hwritten :
      (quoteOperand v).toList ++ rest = '"' :: (escapeOperand v.toList ++ '"' :: rest) := by
    simp [quoteOperand]
  rw [hwritten, feed_cons_of_step (step_awaitOperand_quote name op sc),
    feed_text_close (QuotedBody.escapeOperand v.toList) "" rest]
  simp

/-- Reading a double-quoted operand. The written form of every operand reads back to exactly
that operand. Every text after an opening double quote is read up to its first stop: an
unescaped double quote closes the operand with the text read, a backslash before a character
other than a double quote or a backslash is refused, and at the end of the text the operand is
reported unterminated with the text read, a trailing lone backslash dropped. -/
theorem feed_quoted_operand (limits : Limits) (name : String) (op : TextOperator) (sc : Scope) :
    (∀ (v : String) (rest : List Char),
      (awaitOperand name (.text op) true sc).feed limits ((quoteOperand v).toList ++ rest) =
        (expression (.relational name (.text op v)) sc).feed limits rest) ∧
    ∀ t : List Char,
      (∃ b v rest, QuotedBody b v ∧ t = b ++ '"' :: rest ∧
        (text name op "" false sc).feed limits t =
          (expression (.relational name (.text op (String.ofList v))) sc).feed limits rest) ∨
      (∃ b v x rest, QuotedBody b v ∧ x ≠ '\\' ∧ x ≠ '"' ∧ t = b ++ '\\' :: x :: rest ∧
        (text name op "" false sc).feed limits t = .error (.unexpectedEscape x)) ∨
      (∃ b v, QuotedBody b v ∧ (t = b ∨ t = b ++ ['\\']) ∧
        ((text name op "" false sc).feed limits t >>= finish) =
          .error (.unterminatedString (String.ofList v))) := by
  refine ⟨feed_quoteOperand, fun t => ?_⟩
  obtain ⟨b, v, rest, hb, rfl, hstop⟩ := QuotedBody.split t
  rcases hstop with rfl | rfl | ⟨r, rfl⟩ | ⟨x, r, rfl, hslash, hquote⟩
  · refine .inr (.inr ⟨b, v, hb, .inl (List.append_nil b), ?_⟩)
    rw [List.append_nil, feed_quotedBody_append hb]
    rfl
  · refine .inr (.inr ⟨b, v, hb, .inr rfl, ?_⟩)
    rw [feed_text_loneBackslash hb]
    rfl
  · exact .inl ⟨b, v, r, hb, rfl, by simpa using feed_text_close hb "" r⟩
  · exact .inr (.inl ⟨b, v, x, r, hb, hslash, hquote, rfl,
      feed_text_unexpectedEscape hb hslash hquote "" r⟩)

example : ((text "a" .equals "" false {}).feed {} "ends\\".toList >>= finish) =
    .error (.unterminatedString "ends") := by
  rfl

example :
    (text "a" .equals "" false {}).feed {} "\\n\"".toList = .error (.unexpectedEscape 'n') := by
  rfl

end State

end SearchCriteria

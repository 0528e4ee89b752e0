import SearchCriteria.Proofs.Soundness

/-!
# Runs of blanks

Outside a double-quoted operand the reader treats the six blanks alike and a run of them as one.
Every blank steps a state as a space does (`State.step_blank_eq`), and a state that a blank has
stepped to rests under further blanks (`State.resting_of_step_space`). So a non-empty run of
blanks acts as one space (`State.feed_spacing_eq`), and replacing one run by another outside an
operand changes neither what a text reads as nor the error it is refused with, field by field
(`Query.parse_replace_blank_run`).

Inside an operand a blank is text: it is kept in the operand, and after a backslash it is
reported as the character that cannot be escaped. Where a run lies inside an operand is said by
the grammar, not by the reader: after the opening double quote of an operand whose body is not
yet closed (`EndsInOperand`).
-/

namespace SearchCriteria

/-- A blank is none of the characters that are not blanks. -/
theorem ne_of_isBlank {c d : Char} (hc : isBlank c = true) (hd : isBlank d = false) : c ≠ d := by
  rintro rfl
  rw [hc] at hd
  cases hd

/-- No operator word holds a blank. -/
theorem WordOperator.spelling_not_blank (w : WordOperator) :
    ∀ d ∈ w.spelling.toList, isBlank d = false := by
  cases w <;> simp [WordOperator.spelling, WordOperator.operator, Operator.spelling,
    TextOperator.spelling, isBlank, blanks]

/-- No junction keyword holds a blank. -/
theorem Junction.keyword_not_blank (j : Junction) : ∀ d ∈ j.keyword.toList, isBlank d = false := by
  cases j <;> simp [Junction.keyword, isBlank, blanks]

/-- Neither flag holds a blank. -/
theorem flagSpelling_not_blank (value : Bool) :
    ∀ d ∈ (flagSpelling value).toList, isBlank d = false := by
  cases value <;> simp [flagSpelling, isBlank, blanks]

/-- In a keyword without blanks, every blank does what a space does: it completes the keyword
when it is whole and cuts it short otherwise. -/
theorem stepKeyword_blank_eq {word : String} (hword : ∀ d ∈ word.toList, isBlank d = false)
    (typed : Nat) {c : Char} (hc : isBlank c = true) :
    stepKeyword word typed c = stepKeyword word typed ' ' := by
  have hspace : isBlank ' ' = true := rfl
  unfold stepKeyword
  split
  · simp only [hc, hspace, if_true]
  · next d rest hdrop =>
    have hd : isBlank d = false := hword d (List.mem_of_mem_drop (by rw [hdrop]; simp))
    simp only [ne_of_isBlank hc hd, ne_of_isBlank hspace hd, hc, hspace, if_false, if_true]

/-- A blank read into a keyword without blanks can only complete it. -/
theorem stepKeyword_blank_ok {word : String} (hword : ∀ d ∈ word.toList, isBlank d = false)
    {typed : Nat} {c : Char} (hc : isBlank c = true) {k : KeywordStep}
    (h : stepKeyword word typed c = .ok k) : k = .complete := by
  cases k with
  | complete => rfl
  | typed n =>
    obtain ⟨-, htake⟩ := stepKeyword_eq_typed_take h
    have hmem : c ∈ word.toList := List.mem_of_mem_take (by rw [htake]; simp)
    exact absurd (hword c hmem) (by rw [hc]; decide)

/-- After a complete expression, a blank leaves it in place. -/
theorem stepExpression_blank {limits : Limits} {operand : Query} {sc : Scope} {c : Char}
    (hc : isBlank c = true) : stepExpression limits operand sc c = .ok (.expression operand sc) := by
  simp [stepExpression, hc]

namespace State

/-- The reader is inside a double-quoted operand. -/
def InOperand : State → Prop
  | text .. => True
  | _ => False

/-- A state that blanks leave as it is: before the first expression, after the wildcard, while
waiting for an operator, after the blank that an operand waits for, after an expression, or
after a junction. -/
def Resting : State → Prop
  | root _ | wildcard | awaitOperator _ _ | expression _ _ | joined _ _ => True
  | awaitOperand _ _ spaced _ => spaced = true
  | _ => False

variable {limits : Limits}

/-- A resting state stays where any blank leaves it. -/
theorem Resting.step_blank {st : State} (hst : st.Resting) {c : Char} (hc : isBlank c = true) :
    st.step limits c = .ok st := by
  cases st with
  | awaitOperand name op spaced sc =>
    cases hst
    simp [State.step.eq_def, hc]
  | root | wildcard | awaitOperator | expression | joined =>
    simp [State.step.eq_def, stepExpression, hc]
  | property | symbol | derivedOrDoesNot | operatorWord | text | flag | junctionWord =>
    exact False.elim hst

/-- A resting state stays where a space leaves it. -/
theorem Resting.of_step_space {st st' : State} (h : st.step limits ' ' = .ok st')
    (hst : st.Resting) : st'.Resting := by
  rw [hst.step_blank rfl] at h
  cases h
  exact hst

/-- Outside an operand, every blank steps a state as a space does. No blank is the equals sign that
would extend a symbol, or a letter that continues a keyword. -/
theorem step_blank_eq {st : State} {c : Char} (hst : ¬ st.InOperand) (hc : isBlank c = true) :
    st.step limits c = st.step limits ' ' := by
  have hspace : isBlank ' ' = true := rfl
  cases st with
  | root depth => simp only [State.step.eq_def, hc, hspace, if_true]
  | wildcard => simp only [State.step.eq_def, hc, hspace, if_true]
  | property token sc => simp only [State.step.eq_def, hc, hspace, if_true]
  | awaitOperator name sc => simp only [State.step.eq_def, hc, hspace, if_true]
  | symbol name start sc =>
    simp [State.step.eq_def, hc, hspace, ne_of_isBlank hc (d := '=') rfl]
  | derivedOrDoesNot name sc =>
    simp [State.step.eq_def, hc, hspace, ne_of_isBlank hc (d := 'e') rfl,
      ne_of_isBlank hc (d := 'o') rfl]
  | operatorWord name word typed sc =>
    simp only [State.step.eq_def, stepKeyword_blank_eq word.spelling_not_blank typed hc]
  | awaitOperand name op spaced sc => simp only [State.step.eq_def, hc, hspace, if_true]
  | text => exact absurd trivial hst
  | flag name value typed sc =>
    simp only [State.step.eq_def]
    split
    · simp [hc, hspace, stepExpression_blank hc, stepExpression_blank hspace]
    · next d rest hdrop =>
      have hd : isBlank d = false :=
        flagSpelling_not_blank value d (List.mem_of_mem_drop (by rw [hdrop]; simp))
      simp [ne_of_isBlank hc hd, ne_of_isBlank hspace hd]
  | expression operand sc =>
    simp only [State.step.eq_def, stepExpression_blank hc, stepExpression_blank hspace]
  | junctionWord j typed sc =>
    simp only [State.step.eq_def, stepKeyword_blank_eq j.keyword_not_blank typed hc]
  | joined j sc => simp only [State.step.eq_def, hc, hspace, if_true]

/-- Outside an operand, a space that is read leaves a state that further blanks keep. -/
theorem resting_of_step_space {st st' : State} (hst : ¬ st.InOperand)
    (h : st.step limits ' ' = .ok st') : st'.Resting := by
  have hspace : isBlank ' ' = true := rfl
  cases st with
  | root depth =>
    exact Resting.of_step_space h trivial
  | wildcard =>
    exact Resting.of_step_space h trivial
  | property token sc =>
    simp only [State.step.eq_def, hspace, if_true] at h
    cases h
    trivial
  | awaitOperator name sc =>
    exact Resting.of_step_space h trivial
  | symbol name start sc =>
    by_cases hbang : start = .bang
    · simp [State.step.eq_def, hbang] at h
    · simp [State.step.eq_def, hbang, hspace] at h
      subst h
      rfl
  | derivedOrDoesNot name sc => cases h
  | operatorWord name word typed sc =>
    simp only [State.step.eq_def] at h
    obtain ⟨k, hk, h⟩ := ok_of_bind_eq_ok h
    cases stepKeyword_blank_ok word.spelling_not_blank hspace hk
    cases h
    rfl
  | awaitOperand name op spaced sc =>
    simp only [State.step.eq_def, hspace, if_true] at h
    cases h
    rfl
  | text => exact absurd trivial hst
  | flag name value typed sc =>
    simp only [State.step.eq_def] at h
    split at h
    · rw [if_pos (.inl hspace), stepExpression_blank hspace] at h
      cases h
      trivial
    · next d rest hdrop =>
      have hd : isBlank d = false :=
        flagSpelling_not_blank value d (List.mem_of_mem_drop (by rw [hdrop]; simp))
      rw [if_neg (ne_of_isBlank hspace hd)] at h
      cases h
  | expression operand sc =>
    exact Resting.of_step_space h trivial
  | junctionWord j typed sc =>
    simp only [State.step.eq_def] at h
    obtain ⟨k, hk, h⟩ := ok_of_bind_eq_ok h
    cases stepKeyword_blank_ok j.keyword_not_blank hspace hk
    cases h
    trivial
  | joined j sc =>
    exact Resting.of_step_space h trivial

/-- Outside an operand, a non-empty run of blanks acts as one space. -/
theorem feed_spacing_eq {st : State} (hst : ¬ st.InOperand) {w : List Char} (hw : Spacing w) :
    st.feed limits w = st.step limits ' ' := by
  obtain ⟨c, rest, rfl⟩ := List.exists_cons_of_ne_nil hw.1
  have hc : isBlank c = true := hw.blanks c (by simp)
  rw [feed_cons, step_blank_eq hst hc]
  cases hspace : st.step limits ' ' with
  | error err => rfl
  | ok st' =>
    have hrest : st'.feed limits rest = .ok st' :=
      feed_blanks_of_step (fun d hd => (resting_of_step_space hst hspace).step_blank hd)
        (fun d hd => hw.blanks d (by simp [hd]))
    exact hrest

end State

/-- Text that ends inside a double-quoted operand: a relational expression begun where a primary
starts, cut after the opening double quote of its operand and a part of its body, which may end
with a backslash that waits for the character it escapes. -/
def EndsInOperand (a : List Char) : Prop :=
  ∃ (d : Nat) (b name w₁ : List Char) (op : TextOperator) (w₂ body v : List Char), Begins d b ∧
    IsProperty name ∧ Spacing w₁ ∧ Spacing w₂ ∧ QuotedBody body v ∧
      (a = b ++ name ++ w₁ ++ op.spelling.toList ++ w₂ ++ '"' :: body ∨
        a = b ++ name ++ w₁ ++ op.spelling.toList ++ w₂ ++ '"' :: body ++ ['\\'])

/-- Text inside an operand has opened it with a double quote. -/
theorem EndsInOperand.quote_mem {a : List Char} (h : EndsInOperand a) : '"' ∈ a := by
  obtain ⟨-, b, name, w₁, op, w₂, body, -, -, -, -, -, -, rfl | rfl⟩ := h <;> simp

/-- A reader inside an operand has read text that ends inside one. -/
theorem Viable.endsInOperand {a : List Char} {name : String} {op : TextOperator}
    {content : String} {escaped : Bool} {sc : Scope}
    (h : Viable a (.text name op content escaped sc)) : EndsInOperand a := by
  cases h with
  | leaf hb hl hpre _ =>
    obtain ⟨w₂, body, hw₂, hbody, w₁, hp, hw₁, rfl⟩ := hl
    refine ⟨_, _, name.toList, w₁, op, w₂, body, _, hb, hp, hw₁, hw₂, hbody, ?_⟩
    cases escaped
    · exact .inl (by simp [hpre])
    · exact .inr (by simp [hpre])

/-- A reader that has read text which does not end inside an operand is not inside one. -/
theorem State.not_inOperand_of_feed {limits : Limits} {a : List Char} {st : State}
    (hrun : (State.root 0).feed limits a = .ok st) (hout : ¬ EndsInOperand a) : ¬ st.InOperand := by
  intro hin
  have hv : Viable a st := by simpa using Viable.initial.feed hrun
  cases st with
  | text name op content escaped sc => exact hout hv.endsInOperand
  | root | wildcard | property | awaitOperator | symbol | derivedOrDoesNot | operatorWord
  | awaitOperand | flag | expression | junctionWord | joined => exact hin

namespace Query

/-- Replacing a non-empty run of blanks outside a double-quoted operand by any other non-empty run
changes nothing: the text reads as the same query, or is refused with the same error, every field
of it the same. After the text before the run the reader is outside an operand, where each run
acts as one space. -/
theorem parse_replace_blank_run (limits : Limits) (a w w' b : String) (hw : Spacing w.toList)
    (hw' : Spacing w'.toList) (hout : ¬ EndsInOperand a.toList) :
    Query.parse limits (a ++ w ++ b) = Query.parse limits (a ++ w' ++ b) := by
  simp only [parse_eq_feed, String.toList_append, List.append_assoc]
  cases hrun : (State.root 0).feed limits a.toList with
  | error err => rw [State.feed_append_of_error hrun, State.feed_append_of_error hrun]
  | ok st =>
    have hst := State.not_inOperand_of_feed hrun hout
    rw [State.feed_append_of_feed hrun, State.feed_append_of_feed hrun, State.feed_append,
      State.feed_append, State.feed_spacing_eq hst hw, State.feed_spacing_eq hst hw']

/-- Read with the default limits, a tab and a line feed after a property do what one space does. -/
theorem parse_tab_newline_as_space :
    Spacing " ".toList ∧ Spacing "\t\n".toList ∧ ¬ EndsInOperand "p".toList ∧
      Query.parse {} ("p" ++ " " ++ "= \"x y\"") = Query.parse {} ("p" ++ "\t\n" ++ "= \"x y\"") := by
  have hw : Spacing " ".toList := ⟨by simp, by simp [Blanks, isBlank, blanks]⟩
  have hw' : Spacing "\t\n".toList := ⟨by simp, by simp [Blanks, isBlank, blanks]⟩
  have hout : ¬ EndsInOperand "p".toList := fun h => absurd h.quote_mem (by simp)
  exact ⟨hw, hw', hout, parse_replace_blank_run {} "p" " " "\t\n" "= \"x y\"" hw hw' hout⟩

end Query

end SearchCriteria

import SearchCriteria.Reader.Basic

/-!
# Well-formed reader states

Every state that a reader reaches keeps its counters in range: a keyword in progress has read at
least one and at most all of its characters, and the open depth never exceeds the nesting limit.
Each step keeps this (`State.step_wellFormed`), hence every feeding from a well-formed state does
(`State.feed_wellFormed`). Which operators a keyword, symbol or text state may hold is already
fixed by their types.

Main statement: whatever text a fresh reader is fed, the state it reaches is well-formed
(`Reader.feed_state_wellFormed`). So the part read of a keyword always lies between one character
and the whole keyword, a closing parenthesis never lowers the depth below zero, and an opening one
never raises it beyond the nesting limit.
-/

namespace SearchCriteria

namespace State

/-- The counters of a state are in range: the depth within the nesting limit and the part read
of a keyword between one character and the whole keyword. -/
def WellFormed (limits : Limits) : State → Prop
  | root depth => depth ≤ limits.maxNestingDepth
  | wildcard => True
  | property _ scope => scope.depth ≤ limits.maxNestingDepth
  | awaitOperator _ scope => scope.depth ≤ limits.maxNestingDepth
  | symbol _ _ scope => scope.depth ≤ limits.maxNestingDepth
  | derivedOrDoesNot _ scope => scope.depth ≤ limits.maxNestingDepth
  | operatorWord _ word typed scope =>
    1 ≤ typed ∧ typed ≤ word.spelling.length ∧ scope.depth ≤ limits.maxNestingDepth
  | awaitOperand _ _ _ scope => scope.depth ≤ limits.maxNestingDepth
  | text _ _ _ _ scope => scope.depth ≤ limits.maxNestingDepth
  | flag _ value typed scope =>
    1 ≤ typed ∧ typed ≤ (flagSpelling value).length ∧ scope.depth ≤ limits.maxNestingDepth
  | expression _ scope => scope.depth ≤ limits.maxNestingDepth
  | junctionWord j typed scope =>
    1 ≤ typed ∧ typed ≤ j.keyword.length ∧ scope.depth ≤ limits.maxNestingDepth
  | joined _ scope => scope.depth ≤ limits.maxNestingDepth

end State

/-- A list that still has an element after dropping `k` is longer than `k`. -/
theorem lt_length_of_drop_eq_cons {l : List Char} {k : Nat} {d : Char} {rest : List Char}
    (h : l.drop k = d :: rest) : k < l.length := by
  have hlen := congrArg List.length h
  simp only [List.length_drop, List.length_cons] at hlen
  omega

/-- A bind of readings succeeds only when the first succeeds and its continuation does. -/
theorem ok_of_bind_eq_ok {α β : Type} {x : Except ParseError α} {f : α → Except ParseError β}
    {b : β} (h : (x >>= f) = .ok b) : ∃ a, x = .ok a ∧ f a = .ok b := by
  cases x with
  | error e => cases h
  | ok a => exact ⟨a, rfl, h⟩

/-- An opened parenthesis stays within the nesting limit. -/
theorem openParenthesis_eq_ok {limits : Limits} {depth next : Nat} :
    openParenthesis limits depth = .ok next ↔ depth < limits.maxNestingDepth ∧ next = depth + 1 := by
  unfold openParenthesis
  split
  · next hle =>
    constructor
    · intro h
      cases h
    · intro ⟨hlt, _⟩
      omega
  · next hgt =>
    constructor
    · intro h
      cases h
      exact ⟨by omega, rfl⟩
    · intro ⟨_, h⟩
      rw [h]

/-- A keyword goes on only by one character, and only while some of it is unread. -/
theorem stepKeyword_eq_typed {word : String} {typed n : Nat} {c : Char}
    (h : stepKeyword word typed c = .ok (.typed n)) : typed < word.length ∧ n = typed + 1 := by
  unfold stepKeyword at h
  split at h
  · split at h <;> cases h
  · next d rest hdrop =>
    split at h
    · cases h
      have hlt := lt_length_of_drop_eq_cons hdrop
      exact ⟨by rw [← String.length_toList]; exact hlt, rfl⟩
    · split at h <;> cases h

/-- The junction keywords are at least two characters long. -/
theorem Junction.two_le_length (j : Junction) : 2 ≤ j.keyword.length := by
  cases j <;> decide

/-- A step after a complete expression keeps a state well-formed. -/
theorem stepExpression_wellFormed {limits : Limits} {operand : Query} {scope : Scope} {c : Char}
    {next : State} (hdepth : scope.depth ≤ limits.maxNestingDepth)
    (h : stepExpression limits operand scope c = .ok next) : next.WellFormed limits := by
  unfold stepExpression at h
  split at h
  · cases h
    exact hdepth
  · split at h
    · split at h
      · cases h
      · cases h
        show scope.depth - 1 ≤ limits.maxNestingDepth
        omega
    · unfold deferJunction at h
      split at h
      · cases h
      · cases h
        exact ⟨Nat.le_refl 1, by have := Junction.two_le_length .and; omega, hdepth⟩
    · unfold deferJunction at h
      split at h
      · cases h
      · cases h
        exact ⟨Nat.le_refl 1, by have := Junction.two_le_length .or; omega, hdepth⟩
    · cases h

namespace State

/-- Each step keeps a state well-formed. -/
theorem step_wellFormed {limits : Limits} {st next : State} {c : Char}
    (hwf : st.WellFormed limits) (h : st.step limits c = .ok next) : next.WellFormed limits := by
  cases st with
  | root depth =>
    simp only [State.step.eq_def] at h
    split at h
    · cases h
      exact hwf
    · split at h
      · split at h <;> cases h
        trivial
      · obtain ⟨d, ho, h⟩ := ok_of_bind_eq_ok h
        cases h
        have := openParenthesis_eq_ok.1 ho
        show d ≤ limits.maxNestingDepth
        omega
      · split at h <;> cases h
      · cases h
        exact hwf
  | wildcard =>
    simp only [State.step.eq_def] at h
    split at h <;> cases h
    trivial
  | property token scope =>
    simp only [State.step.eq_def] at h
    split at h <;> cases h <;> exact hwf
  | awaitOperator name scope =>
    simp only [State.step.eq_def] at h
    split at h
    · cases h
      exact hwf
    · split at h <;> cases h
      all_goals first
        | exact hwf
        | exact ⟨by decide, by decide, hwf⟩
  | symbol name start scope =>
    simp only [State.step.eq_def] at h
    split at h
    · cases h
      exact hwf
    · split at h
      · cases h
      · split at h <;> cases h
        exact hwf
  | derivedOrDoesNot name scope =>
    simp only [State.step.eq_def] at h
    split at h
    · cases h
      exact ⟨by decide, by decide, hwf⟩
    · cases h
      exact ⟨by decide, by decide, hwf⟩
    · split at h <;> cases h
  | operatorWord name word typed scope =>
    obtain ⟨hlo, hhi, hdepth⟩ := hwf
    simp only [State.step.eq_def] at h
    obtain ⟨k, hk, h⟩ := ok_of_bind_eq_ok h
    cases k with
    | typed n =>
      cases h
      obtain ⟨hlt, rfl⟩ := stepKeyword_eq_typed hk
      exact ⟨by omega, by omega, hdepth⟩
    | complete =>
      cases h
      exact hdepth
  | awaitOperand name op spaced scope =>
    simp only [State.step.eq_def] at h
    split at h
    · cases h
      exact hwf
    · split at h
      · cases h
      · split at h
        · split at h
          · cases h
            exact ⟨by decide, by decide, hwf⟩
          · split at h
            · cases h
              exact ⟨by decide, by decide, hwf⟩
            · cases h
        · split at h <;> cases h
          exact hwf
  | text name op content escaped scope =>
    simp only [State.step.eq_def] at h
    split at h
    · split at h <;> cases h
      exact hwf
    · split at h
      · cases h
        exact hwf
      · split at h <;> cases h <;> exact hwf
  | flag name value typed scope =>
    obtain ⟨hlo, hhi, hdepth⟩ := hwf
    simp only [State.step.eq_def] at h
    split at h
    · split at h
      · exact stepExpression_wellFormed hdepth h
      · cases h
    · next d rest hdrop =>
      split at h
      · cases h
        have hlt := lt_length_of_drop_eq_cons hdrop
        exact ⟨by omega, by rw [← String.length_toList]; omega, hdepth⟩
      · cases h
  | expression operand scope =>
    exact stepExpression_wellFormed hwf h
  | junctionWord j typed scope =>
    obtain ⟨hlo, hhi, hdepth⟩ := hwf
    simp only [State.step.eq_def] at h
    obtain ⟨k, hk, h⟩ := ok_of_bind_eq_ok h
    cases k with
    | typed n =>
      cases h
      obtain ⟨hlt, rfl⟩ := stepKeyword_eq_typed hk
      exact ⟨by omega, by omega, hdepth⟩
    | complete =>
      cases h
      exact hdepth
  | joined j scope =>
    simp only [State.step.eq_def] at h
    split at h
    · cases h
      exact hwf
    · split at h
      · obtain ⟨d, ho, h⟩ := ok_of_bind_eq_ok h
        cases h
        have := openParenthesis_eq_ok.1 ho
        show d ≤ limits.maxNestingDepth
        omega
      · cases h
      · cases h
        exact hwf

/-- Feeding characters keeps a state well-formed. -/
theorem feed_wellFormed {limits : Limits} {st next : State} {cs : List Char}
    (hwf : st.WellFormed limits) (h : st.feed limits cs = .ok next) : next.WellFormed limits := by
  induction cs generalizing st with
  | nil =>
    simp only [feed, List.foldlM_nil] at h
    cases h
    exact hwf
  | cons c cs ih =>
    simp only [feed, List.foldlM_cons] at h
    obtain ⟨st', hs, h⟩ := ok_of_bind_eq_ok h
    exact ih (step_wellFormed hwf hs) h

end State

/-- The state of a fresh reader fed any text is well-formed. -/
theorem Reader.feed_state_wellFormed {limits : Limits} {s : String} {r : Reader}
    (h : (Reader.new limits).feed s = .ok r) : r.state.WellFormed limits := by
  have hroot : (State.root 0).WellFormed limits := Nat.zero_le _
  obtain ⟨st, hs, h⟩ := ok_of_bind_eq_ok h
  cases h
  exact State.feed_wellFormed hroot hs

/-- A reader fed part of a keyword holds a well-formed count of its characters. -/
theorem Reader.feed_partial_keyword_wellFormed :
    (Reader.new {}).feed "a cont" = .ok ⟨{}, .operatorWord "a" .contains 4 {}⟩ ∧
      State.WellFormed {} (.operatorWord "a" .contains 4 {}) := by
  have h : (Reader.new {}).feed "a cont" = .ok ⟨{}, .operatorWord "a" .contains 4 {}⟩ := by
    rfl
  exact ⟨h, Reader.feed_state_wellFormed h⟩

end SearchCriteria

import SearchCriteria.Proofs.Completeness

/-!
# Tighter limits only cut a reading short

The limits are consulted in two places only: when a parenthesis opens and when a junction begins.
Both refuse before anything changes, and neither leaves a trace of the limits in the state. So
two readers of one text under limits `limits ≤ limits'` go in lock step: at every character they
reach the same state, unless the tighter reader is refused for one of its own limits
(`State.step_cuts`). Over a whole text (`Query.parse_eq_or_limit_of_le`), the tighter reading
gives the same tree or the same error as the looser one, or stops at one of its own limits.
-/

namespace SearchCriteria

/-- Limits are ordered pointwise: `limits ≤ limits'` when neither of its two limits is looser. -/
instance : LE Limits :=
  ⟨fun a b => a.maxNestingDepth ≤ b.maxNestingDepth ∧ a.maxTerms ≤ b.maxTerms⟩

/-- Whether limits are tighter is decided limit by limit. -/
instance (a b : Limits) : Decidable (a ≤ b) :=
  inferInstanceAs (Decidable (a.maxNestingDepth ≤ b.maxNestingDepth ∧ a.maxTerms ≤ b.maxTerms))

namespace Limits

/-- A reading `r` under `limits` is the reading `r'` under other limits, or it was cut short by
one of the two limits of `limits`. -/
def Cuts (limits : Limits) {α : Type} (r r' : Except ParseError α) : Prop :=
  r = r' ∨ r = .error (.nestingTooDeep limits.maxNestingDepth) ∨
    r = .error (.tooManyTerms limits.maxTerms)

variable {limits : Limits} {α β : Type}

/-- A reading is related to itself. -/
theorem Cuts.refl (r : Except ParseError α) : limits.Cuts r r := .inl rfl

/-- Readings that go on in lock step keep to the relation: a reading cut short stays cut short,
and equal readings go on to related ones. -/
theorem Cuts.bind {x x' : Except ParseError α} {f g : α → Except ParseError β}
    (hx : limits.Cuts x x') (hfg : ∀ a, limits.Cuts (f a) (g a)) :
    limits.Cuts (x >>= f) (x' >>= g) := by
  rcases hx with rfl | rfl | rfl
  · cases x with
    | error e => exact Cuts.refl _
    | ok a => exact hfg a
  · exact .inr (.inl rfl)
  · exact .inr (.inr rfl)

end Limits

variable {limits limits' : Limits}

/-- A parenthesis that opens under the tighter nesting limit opens under the looser one. -/
theorem openParenthesis_cuts (h : limits ≤ limits') (depth : Nat) :
    limits.Cuts (openParenthesis limits depth) (openParenthesis limits' depth) := by
  by_cases hdeep : limits.maxNestingDepth ≤ depth
  · exact .inr (.inl (by simp [openParenthesis, hdeep]))
  · have hdeep' : ¬ limits'.maxNestingDepth ≤ depth := by
      have := h.1
      omega
    exact .inl (by simp [openParenthesis, hdeep, hdeep'])

/-- A junction that finds room under the tighter term limit finds it under the looser one, and
is deferred the same way. -/
theorem deferJunction_cuts (h : limits ≤ limits') (j : Junction) (operand : Query)
    (scope : Scope) :
    limits.Cuts (deferJunction limits j operand scope) (deferJunction limits' j operand scope) := by
  by_cases hfull : limits.maxTerms < scope.chain.joined + 2
  · exact .inr (.inr (by simp [deferJunction, hfull]))
  · have hfull' : ¬ limits'.maxTerms < scope.chain.joined + 2 := by
      have := h.2
      omega
    exact .inl (by simp [deferJunction, hfull, hfull'])

/-- After an expression, a character under tighter limits is read as under looser ones, or the
junction it begins is refused for the term limit. -/
theorem stepExpression_cuts (h : limits ≤ limits') (operand : Query) (scope : Scope) (c : Char) :
    limits.Cuts (stepExpression limits operand scope c) (stepExpression limits' operand scope c) := by
  unfold stepExpression
  split
  · exact Limits.Cuts.refl _
  · split
    · exact Limits.Cuts.refl _
    · exact deferJunction_cuts h .and operand scope
    · exact deferJunction_cuts h .or operand scope
    · exact Limits.Cuts.refl _

namespace State

/-- One character under tighter limits goes to the state it goes to under looser ones, or is
refused for a tighter limit. Only the root, a joined junction, a flag and an expression consult
the limits; every other state steps alike under any limits. -/
theorem step_cuts (h : limits ≤ limits') (st : State) (c : Char) :
    limits.Cuts (st.step limits c) (st.step limits' c) := by
  cases st with
  | root depth =>
    simp only [State.step.eq_def]
    split
    · exact Limits.Cuts.refl _
    · split
      · exact Limits.Cuts.refl _
      · exact Limits.Cuts.bind (openParenthesis_cuts h depth) (fun _ => Limits.Cuts.refl _)
      · exact Limits.Cuts.refl _
      · exact Limits.Cuts.refl _
  | flag name value typed scope =>
    simp only [State.step.eq_def]
    split
    · split
      · exact stepExpression_cuts h _ scope c
      · exact Limits.Cuts.refl _
    · exact Limits.Cuts.refl _
  | expression operand scope => exact stepExpression_cuts h operand scope c
  | joined j scope =>
    simp only [State.step.eq_def]
    split
    · exact Limits.Cuts.refl _
    · split
      · exact Limits.Cuts.bind (openParenthesis_cuts h scope.depth) (fun _ => Limits.Cuts.refl _)
      · exact Limits.Cuts.refl _
      · exact Limits.Cuts.refl _
  | wildcard | property | awaitOperator | symbol | derivedOrDoesNot | operatorWord
  | awaitOperand | text | junctionWord => exact Limits.Cuts.refl _

/-- A run under tighter limits is the run under looser ones, or is cut short by a tighter
limit. -/
theorem feed_cuts (h : limits ≤ limits') (st : State) (cs : List Char) :
    limits.Cuts (st.feed limits cs) (st.feed limits' cs) := by
  induction cs generalizing st with
  | nil => exact Limits.Cuts.refl _
  | cons c cs ih =>
    rw [feed_cons, feed_cons]
    exact Limits.Cuts.bind (step_cuts h st c) ih

end State

/-- Under limits that are pointwise at most others, a text reads as the same tree or is refused
with the same error, unless the reading is cut short by one of the tighter limits. -/
theorem Query.parse_eq_or_limit_of_le (h : limits ≤ limits') (s : String) :
    Query.parse limits s = Query.parse limits' s ∨
      Query.parse limits s = .error (.nestingTooDeep limits.maxNestingDepth) ∨
      Query.parse limits s = .error (.tooManyTerms limits.maxTerms) := by
  rw [Query.parse_eq_feed, Query.parse_eq_feed]
  exact Limits.Cuts.bind (State.feed_cuts h (.root 0) s.toList) (fun st => Limits.Cuts.refl _)

/-- Under a nesting limit of one, a doubly parenthesised expression reads as under the default
limits or is cut short by a tighter limit. -/
theorem Query.parse_nested_under_tighter_limits :
    ({ maxNestingDepth := 1 } : Limits) ≤ {} ∧
      (Query.parse { maxNestingDepth := 1 } "((a = \"x\"))" =
          Query.parse {} "((a = \"x\"))" ∨
        Query.parse { maxNestingDepth := 1 } "((a = \"x\"))" = .error (.nestingTooDeep 1) ∨
        Query.parse { maxNestingDepth := 1 } "((a = \"x\"))" = .error (.tooManyTerms 1024)) :=
  ⟨by decide, Query.parse_eq_or_limit_of_le (by decide) "((a = \"x\"))"⟩

end SearchCriteria

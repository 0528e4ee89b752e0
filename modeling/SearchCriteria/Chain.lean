import SearchCriteria.Query.Basic

/-!
# Junction chains

A reader that sees criteria text one character at a time cannot know, at a junction, how far its
right operand reaches. It defers the junction instead: the junction waits on a stack, with its left
operand and a priority, until a junction of lower or equal priority, or the end of the text, shows
that its right operand is complete.

A junction's priority is `3 * depth + 1` for a disjunction and `3 * depth + 2` for a conjunction,
where `depth` counts the parentheses open around it. One more level of nesting outranks the
difference between the two keywords, so parentheses group, and within one level the conjunction
binds tighter. Folding every waiting junction of priority at least `p` before deferring one of
priority `p` makes equal priorities associate to the left.
-/

namespace SearchCriteria

/-- The binding priority of a junction written inside `depth` open parentheses. -/
def Junction.priority (j : Junction) (depth : Nat) : Nat :=
  3 * depth + match j with
    | .or => 1
    | .and => 2

/-- A deferred junction: its left operand, the junction and its priority. -/
structure Pending where
  /-- The complete left operand. -/
  left : Query
  /-- The junction that waits for its right operand. -/
  junction : Junction
  /-- How tightly the junction binds. -/
  priority : Nat
  deriving DecidableEq, Repr

/-- Junctions whose right operand is still being read, the most recent first, together with
the number of junctions deferred so far. -/
structure Chain where
  /-- The waiting junctions, the most recent first. -/
  pending : List Pending := []
  /-- How many junctions were deferred, folded or not. -/
  joined : Nat := 0
  deriving DecidableEq, Repr

namespace Chain

/-- Give `operand` as the right operand to each junction of `ps` in turn, most recent first. -/
def fold (ps : List Pending) (operand : Query) : Query :=
  ps.foldl (fun e p => .join p.junction p.left e) operand

/-- Folding no junction leaves the operand as it is. -/
@[simp] theorem fold_nil (operand : Query) : fold [] operand = operand := rfl

/-- The most recent junction takes the operand as its right side first. -/
@[simp] theorem fold_cons (p : Pending) (ps : List Pending) (operand : Query) :
    fold (p :: ps) operand = fold ps (.join p.junction p.left operand) := rfl

/-- The empty chain. -/
def empty : Chain := {}

/-- A chain is inhabited by the empty chain. -/
instance : Inhabited Chain := ⟨empty⟩

/-- Defer `junction` at priority `priority` with `operand` as its left side. The waiting junctions
that bind at least as tightly take `operand` as their right side first. -/
def push (c : Chain) (operand : Query) (junction : Junction) (priority : Nat) : Chain :=
  let done := c.pending.takeWhile (fun p => decide (priority ≤ p.priority))
  let rest := c.pending.dropWhile (fun p => decide (priority ≤ p.priority))
  { pending := ⟨fold done operand, junction, priority⟩ :: rest, joined := c.joined + 1 }

/-- Close every waiting junction, `operand` being the last expression read. -/
def complete (c : Chain) (operand : Query) : Query := fold c.pending operand

/-- Every push counts one more junction, whether it folds waiting junctions or not. -/
@[simp] theorem joined_push (c : Chain) (operand : Query) (j : Junction) (p : Nat) :
    (c.push operand j p).joined = c.joined + 1 := rfl

/-- With no junction waiting, completing gives the last operand. -/
@[simp] theorem complete_empty (operand : Query) : empty.complete operand = operand := rfl

end Chain

end SearchCriteria

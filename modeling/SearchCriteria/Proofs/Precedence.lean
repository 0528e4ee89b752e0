import SearchCriteria.Proofs.Climbing

/-!
# Deferred junctions build the tree of loosest splits

A reader gives its chain of deferred junctions a sequence of pushes, each an operand, a junction
and a priority, and completes the chain with one last operand. The sequence reads as an infix
expression e₁ j₁ e₂ … jₙ eₙ₊₁, and the tree it stands for splits it at its last junction of
lowest priority, the two sides read the same way (`Pending.splitTree`): higher priority binds
tighter, equal priorities associate to the left, and operands keep their order.

The main statement, `Chain.pushAll_complete_eq_splitTree`, says that the chain builds exactly
that tree, and that after the pushes the waiting junctions bind strictly tighter from the bottom
of the stack to its top and the chain has counted every push. The stack order is kept by each
push (`Chain.Ordered.push`); the tree follows the recursion of `splitTree`: the push of the
loosest junction folds all that waits below it into its left side, and the pushes after it stay
above it until the chain is completed.
-/

namespace SearchCriteria

namespace Chain

/-- Defer each junction of a sequence in turn, with its operand as the left side and its
priority. A push is given by the same three things a waiting junction holds. -/
def pushAll (c : Chain) (xs : List Pending) : Chain :=
  xs.foldl (fun c x => c.push x.left x.junction x.priority) c

/-- Pushing nothing leaves the chain as it is. -/
@[simp] theorem pushAll_nil (c : Chain) : c.pushAll [] = c := rfl

/-- The pushes of a sequence are made from its front. -/
@[simp] theorem pushAll_cons (c : Chain) (x : Pending) (xs : List Pending) :
    c.pushAll (x :: xs) = (c.push x.left x.junction x.priority).pushAll xs := rfl

/-- Pushing two sequences one after the other pushes their concatenation. -/
theorem pushAll_append (c : Chain) (xs ys : List Pending) :
    c.pushAll (xs ++ ys) = (c.pushAll xs).pushAll ys := by
  simp [pushAll, List.foldl_append]

/-- Every push is counted, whether its junction was folded since or still waits. -/
@[simp] theorem joined_pushAll (c : Chain) (xs : List Pending) :
    (c.pushAll xs).joined = c.joined + xs.length := by
  induction xs generalizing c with
  | nil => rfl
  | cons x xs ih =>
    rw [pushAll_cons, ih, joined_push, List.length_cons]
    omega

/-- The waiting junctions bind strictly tighter from the bottom of the stack to its top; the
list holds the top first. -/
def Ordered (c : Chain) : Prop :=
  c.pending.Pairwise (fun above below => below.priority < above.priority)

/-- The empty chain is ordered. -/
theorem empty_ordered : empty.Ordered := List.Pairwise.nil

/-- A push leaves below the new junction only junctions that bind looser than it, so the stack
stays ordered: the first junction left waiting is the one that stopped the folding, and the
others bind looser still. -/
theorem Ordered.push {c : Chain} (hc : c.Ordered) (e : Query) (j : Junction) (p : Nat) :
    (c.push e j p).Ordered := by
  have hrest : (c.pending.dropWhile (fun x => decide (p ≤ x.priority))).Pairwise
      (fun above below => below.priority < above.priority) :=
    hc.sublist (List.dropWhile_sublist _)
  refine List.pairwise_cons.2 ⟨?_, hrest⟩
  intro y hy
  generalize hrest' : c.pending.dropWhile (fun x => decide (p ≤ x.priority)) = rest at hy hrest
  obtain ⟨top, below, rfl⟩ : ∃ top below, rest = top :: below := List.exists_cons_of_ne_nil
    (List.ne_nil_of_mem hy)
  have htop : top.priority < p := by
    have hstop := List.head_dropWhile_not (fun x => decide (p ≤ x.priority))
      (l := c.pending) (by simp [hrest'])
    simp only [hrest', List.head_cons, decide_eq_false_iff_not, Nat.not_le] at hstop
    exact hstop
  rcases List.mem_cons.1 hy with rfl | hy
  · exact htop
  · exact Nat.lt_trans ((List.pairwise_cons.1 hrest).1 y hy) htop

/-- Any sequence of pushes keeps the stack ordered. -/
theorem Ordered.pushAll {c : Chain} (hc : c.Ordered) (xs : List Pending) :
    (c.pushAll xs).Ordered := by
  induction xs generalizing c with
  | nil => exact hc
  | cons x xs ih => exact ih (hc.push x.left x.junction x.priority)

/-- Every priority left waiting is one the chain already held or one of the pushes. -/
theorem pushAll_priority {P : Nat → Prop} {c : Chain} {xs : List Pending}
    (hc : ∀ y ∈ c.pending, P y.priority) (hxs : ∀ x ∈ xs, P x.priority) :
    ∀ y ∈ (c.pushAll xs).pending, P y.priority := by
  induction xs generalizing c with
  | nil => exact hc
  | cons x xs ih =>
    refine ih ?_ (fun x' hx' => hxs x' (List.mem_cons_of_mem x hx'))
    intro y hy
    rcases List.mem_cons.1 hy with rfl | hy
    · exact hxs x List.mem_cons_self
    · exact hc y ((List.dropWhile_sublist _).mem hy)

/-- A push that binds at most as tightly as every waiting junction folds them all into its left
side. -/
theorem push_of_le {c : Chain} {e : Query} {j : Junction} {p : Nat}
    (hle : ∀ y ∈ c.pending, p ≤ y.priority) :
    c.push e j p = ⟨[⟨c.complete e, j, p⟩], c.joined + 1⟩ := by
  have h := push_of_split (k := c.joined) (P := []) (e := e) (j := j) hle (by simp)
  simpa [complete] using h

/-- Cutting a list before the first element that fails a test ignores an element appended
after one that fails it. -/
theorem takeWhile_dropWhile_snoc {α : Type} {f : α → Bool} {b : α} (hb : f b = false)
    (l : List α) :
    (l ++ [b]).takeWhile f = l.takeWhile f ∧ (l ++ [b]).dropWhile f = l.dropWhile f ++ [b] := by
  induction l with
  | nil => simp [hb]
  | cons a l ih =>
    by_cases ha : f a = true
    · simp [ha, ih]
    · simp [ha]

/-- A junction at the bottom of the stack that binds looser than every later push stays there,
under what those pushes leave. -/
theorem pending_pushAll_bottom {b : Pending} {ys : List Pending}
    (hys : ∀ y ∈ ys, b.priority < y.priority) (S : List Pending) (k k' : Nat) :
    (pushAll ⟨S ++ [b], k⟩ ys).pending = (pushAll ⟨S, k'⟩ ys).pending ++ [b] := by
  induction ys generalizing S k k' with
  | nil => rfl
  | cons y ys ih =>
    have hb : (fun x : Pending => decide (y.priority ≤ x.priority)) b = false := by
      simpa using hys y List.mem_cons_self
    obtain ⟨htake, hdrop⟩ :=
      takeWhile_dropWhile_snoc (f := fun x : Pending => decide (y.priority ≤ x.priority)) hb S
    have hpush : (push ⟨S ++ [b], k⟩ y.left y.junction y.priority) =
        ⟨(push ⟨S, k'⟩ y.left y.junction y.priority).pending ++ [b], k + 1⟩ := by
      simp [push, htake, hdrop]
    rw [pushAll_cons, pushAll_cons, hpush]
    exact ih (fun y' hy' => hys y' (List.mem_cons_of_mem y hy')) _ _ _

end Chain

namespace Pending

/-- Split a non-empty sequence of junctions, `x` first, at its last junction of lowest priority:
the junctions before it, it, and the junctions after it. -/
def splitLoosest (x : Pending) : List Pending → List Pending × Pending × List Pending
  | [] => ([], x, [])
  | y :: ys =>
    match splitLoosest y ys with
    | (before, loosest, after) =>
      if x.priority < loosest.priority then ([], x, y :: ys) else (x :: before, loosest, after)

/-- The split keeps the sequence, and the junction it splits at is the last one of lowest
priority: no junction before it binds looser, every junction after it binds tighter. By
induction on the sequence: `x` is split at when it binds looser than every junction after it,
and otherwise the loosest junction of the rest is still the last of lowest priority. -/
theorem splitLoosest_spec {x : Pending} {xs before after : List Pending} {loosest : Pending}
    (h : splitLoosest x xs = (before, loosest, after)) :
    before ++ loosest :: after = x :: xs ∧ (∀ a ∈ before, loosest.priority ≤ a.priority) ∧
      ∀ a ∈ after, loosest.priority < a.priority := by
  induction xs generalizing x before loosest after with
  | nil =>
    simp only [splitLoosest, Prod.mk.injEq] at h
    obtain ⟨rfl, rfl, rfl⟩ := h
    simp
  | cons y ys ih =>
    simp only [splitLoosest] at h
    generalize hs : splitLoosest y ys = s at h
    obtain ⟨before', loosest', after'⟩ := s
    obtain ⟨heq, hbefore, hafter⟩ := ih hs
    simp only at h
    split at h
    · next hlt =>
      simp only [Prod.mk.injEq] at h
      obtain ⟨rfl, rfl, rfl⟩ := h
      refine ⟨rfl, by simp, ?_⟩
      intro a ha
      rw [← heq] at ha
      rcases List.mem_append.1 ha with ha | ha
      · exact Nat.lt_of_lt_of_le hlt (hbefore a ha)
      · rcases List.mem_cons.1 ha with rfl | ha
        · exact hlt
        · exact Nat.lt_trans hlt (hafter a ha)
    · next hge =>
      simp only [Prod.mk.injEq] at h
      obtain ⟨rfl, rfl, rfl⟩ := h
      refine ⟨by rw [List.cons_append, heq], ?_, hafter⟩
      intro a ha
      rcases List.mem_cons.1 ha with rfl | ha
      · exact Nat.le_of_not_lt hge
      · exact hbefore a ha

/-- Both sides of a split are shorter than the sequence, which makes the recursion of `splitTree`
terminate. -/
theorem length_splitLoosest {x : Pending} {xs before after : List Pending} {loosest : Pending}
    (h : splitLoosest x xs = (before, loosest, after)) :
    before.length < xs.length + 1 ∧ after.length < xs.length + 1 := by
  have hlen := congrArg List.length (splitLoosest_spec h).1
  simp only [List.length_append, List.length_cons] at hlen
  omega

/-- The tree of the infix sequence e₁ j₁ e₂ … jₙ eₙ₊₁, given as the pushes (eᵢ, jᵢ, pᵢ) and the
last operand: a single operand is itself, and a longer sequence is split at its last junction of
lowest priority, each side read the same way. -/
def splitTree : List Pending → Query → Query
  | [], last => last
  | x :: xs, last =>
    match _h : splitLoosest x xs with
    | (before, loosest, after) =>
      .join loosest.junction (splitTree before loosest.left) (splitTree after last)
termination_by xs => xs.length
decreasing_by
  all_goals
    simp only [List.length_cons]
    have := length_splitLoosest _h
    omega

end Pending

namespace Chain

/-- Completing the chain after the pushes builds the tree of loosest splits. The loosest push
folds everything pushed before it into its left side, and the pushes after it bind tighter, so
it waits below them to the end. -/
theorem complete_pushAll (xs : List Pending) (last : Query) :
    (empty.pushAll xs).complete last = Pending.splitTree xs last := by
  fun_induction Pending.splitTree xs last with
  | case1 last => rfl
  | case2 x xs last before loosest after hsplit ihbefore ihafter =>
    obtain ⟨heq, hbefore, hafter⟩ := Pending.splitLoosest_spec hsplit
    have hbottom : (empty.pushAll before).push loosest.left loosest.junction loosest.priority =
        ⟨[] ++ [⟨Pending.splitTree before loosest.left, loosest.junction, loosest.priority⟩],
          before.length + 1⟩ := by
      rw [push_of_le (pushAll_priority (by simp [empty]) hbefore), ihbefore, joined_pushAll]
      simp [empty]
    have hpending : (empty.pushAll (x :: xs)).pending =
        (empty.pushAll after).pending ++
          [⟨Pending.splitTree before loosest.left, loosest.junction, loosest.priority⟩] := by
      rw [← heq, pushAll_append, pushAll_cons, hbottom]
      exact pending_pushAll_bottom
        (b := ⟨Pending.splitTree before loosest.left, loosest.junction, loosest.priority⟩)
        hafter [] _ 0
    rw [complete, hpending, fold_append, fold_cons, fold_nil, ← complete, ihafter]

/-- A conjunction pushed before a disjunction is folded into the disjunction's left side. -/
example :
    (empty.pushAll [⟨.relational "a" (.presence true), .and, 2⟩,
        ⟨.relational "b" (.presence true), .or, 1⟩]).complete (.relational "c" (.presence true)) =
      .join .or (.join .and (.relational "a" (.presence true)) (.relational "b" (.presence true)))
        (.relational "c" (.presence true)) := by
  decide

/-- Any sequence of pushes onto an empty chain, completed by a last operand, builds the tree of
loosest splits, and after the pushes (so after every push of every sequence) the waiting
junctions bind strictly tighter from the bottom of the stack to its top and every push is
counted. -/
theorem pushAll_complete_eq_splitTree (xs : List Pending) (last : Query) :
    (empty.pushAll xs).Ordered ∧ (empty.pushAll xs).joined = xs.length ∧
      (empty.pushAll xs).complete last = Pending.splitTree xs last :=
  ⟨empty_ordered.pushAll xs, by simp [empty], complete_pushAll xs last⟩

end Chain

end SearchCriteria

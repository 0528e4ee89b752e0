import SearchCriteria.Reader.State

/-!
# Precedence climbing over tokens

Criteria text with its blanks dropped and each relational expression taken whole is a list of
tokens: relational expressions, junction keywords and parentheses. The reference reading of such
a list is precedence climbing: a disjunction of conjunctions of primaries, a primary being a
relational expression or a parenthesised disjunction, every repetition folded to the left.
`Climb` states it as a grammar whose derivations carry the tree.

A reader goes over the same tokens once (`Scope.readTokens`): it keeps the last relational
expression as its operand and defers each junction on a chain at the priority of the open depth.
The main statement, `Climb.readTokens`, says that after a phrase the grammar derives, the
junctions left on top of the chain fold the operand into exactly the derived tree. So the
grammar derives at most one tree from a token list (`Climb.unique`).
-/

namespace SearchCriteria

/-- A token of criteria text. -/
inductive Token where
  /-- A relational expression, with its property and its relation. -/
  | leaf (property : String) (relation : Relation)
  /-- A junction keyword. -/
  | junction (j : Junction)
  /-- An opening parenthesis. -/
  | openGroup
  /-- A closing parenthesis. -/
  | closeGroup
  deriving DecidableEq, Repr

namespace Token

/-- The token is a relational expression. -/
def isLeaf : Token → Bool
  | leaf _ _ => true
  | _ => false

/-- The token is a junction keyword. -/
def isJunction : Token → Bool
  | junction _ => true
  | _ => false

/-- The property of the first relational expression of a token list. -/
def firstProperty : List Token → Option String
  | [] => none
  | leaf p _ :: _ => some p
  | _ :: ts => firstProperty ts

/-- The open depth after reading a token list from depth `d`. -/
def depthAfter : Nat → List Token → Nat
  | d, [] => d
  | d, openGroup :: ts => depthAfter (d + 1) ts
  | d, closeGroup :: ts => depthAfter (d - 1) ts
  | d, _ :: ts => depthAfter d ts

/-- The deepest open depth met while reading a token list from depth `d`. -/
def peak : Nat → List Token → Nat
  | d, [] => d
  | d, openGroup :: ts => max d (peak (d + 1) ts)
  | d, closeGroup :: ts => max d (peak (d - 1) ts)
  | d, _ :: ts => max d (peak d ts)

/-- The depth after two token lists read one after the other is read off the second from the depth
after the first. -/
theorem depthAfter_append (d : Nat) (ts us : List Token) :
    depthAfter d (ts ++ us) = depthAfter (depthAfter d ts) us := by
  induction ts generalizing d with
  | nil => rfl
  | cons t ts ih => cases t <;> simp only [List.cons_append, depthAfter, ih]

/-- The depth a token list starts from is never above its peak. -/
theorem le_peak (d : Nat) (ts : List Token) : d ≤ peak d ts := by
  cases ts with
  | nil => exact Nat.le_refl d
  | cons t ts => cases t <;> simp only [peak, Nat.le_max_left]

/-- The deepest point of two token lists read one after the other is the deeper of their own. -/
theorem peak_append (d : Nat) (ts us : List Token) :
    peak d (ts ++ us) = max (peak d ts) (peak (depthAfter d ts) us) := by
  induction ts generalizing d with
  | nil => exact (Nat.max_eq_right (le_peak d us)).symm
  | cons t ts ih => cases t <;> simp only [List.cons_append, peak, depthAfter, ih, Nat.max_assoc]

/-- Once a token list names a first property, tokens after it do not change it. -/
theorem firstProperty_append_of_isSome {ts : List Token} (h : (firstProperty ts).isSome)
    (us : List Token) : firstProperty (ts ++ us) = firstProperty ts := by
  induction ts with
  | nil => simp [firstProperty] at h
  | cons t ts ih => cases t <;> simp_all [firstProperty]

end Token

/-- The fold of waiting junctions over a chain of two parts takes the upper part first. -/
theorem Chain.fold_append (N P : List Pending) (e : Query) :
    Chain.fold (N ++ P) e = Chain.fold P (Chain.fold N e) := by
  simp [Chain.fold, List.foldl_append]

/-- Deferring a junction folds exactly the waiting junctions that bind at least as tightly: when
those are the top of the chain, they all take the operand and the rest waits on. -/
theorem Chain.push_of_split {N P : List Pending} {k : Nat} {e : Query} {j : Junction} {p : Nat}
    (hN : ∀ x ∈ N, p ≤ x.priority) (hP : ∀ x ∈ P, x.priority < p) :
    Chain.push ⟨N ++ P, k⟩ e j p = ⟨⟨Chain.fold N e, j, p⟩ :: P, k + 1⟩ := by
  have htake : (N ++ P).takeWhile (fun x => decide (p ≤ x.priority)) = N := by
    rw [List.takeWhile_append_of_pos (by simpa using hN)]
    cases P with
    | nil => simp
    | cons x P => simp [List.takeWhile_cons_of_neg, Nat.not_le.2 (hP x (by simp))]
  have hdrop : (N ++ P).dropWhile (fun x => decide (p ≤ x.priority)) = P := by
    rw [List.dropWhile_append_of_pos (by simpa using hN)]
    cases P with
    | nil => simp
    | cons x P => simp [List.dropWhile_cons_of_neg, Nat.not_le.2 (hP x (by simp))]
  simp only [Chain.push, htake, hdrop]

/-- Read one token the way a reader does: a relational expression becomes the operand, a junction
is deferred with the operand as its left side at the priority of the open depth, and parentheses
only move the depth. -/
def Scope.readToken (x : Scope × Query) : Token → Scope × Query
  | .leaf p r => (x.1, .relational p r)
  | .junction j => ({ x.1 with chain := x.1.chain.push x.2 j (j.priority x.1.depth) }, x.2)
  | .openGroup => ({ x.1 with depth := x.1.depth + 1 }, x.2)
  | .closeGroup => ({ x.1 with depth := x.1.depth - 1 }, x.2)

/-- Read a token list, from a scope and an operand. -/
def Scope.readTokens (x : Scope × Query) (ts : List Token) : Scope × Query :=
  ts.foldl Scope.readToken x

namespace Scope

/-- Reading no token leaves the scope and the operand as they are. -/
@[simp] theorem readTokens_nil (x : Scope × Query) : readTokens x [] = x := rfl

/-- A token list is read one token at a time, from the front. -/
@[simp] theorem readTokens_cons (x : Scope × Query) (t : Token) (ts : List Token) :
    readTokens x (t :: ts) = readTokens (readToken x t) ts := rfl

/-- Reading two token lists one after the other reads the second from where the first left off. -/
@[simp] theorem readTokens_append (x : Scope × Query) (ts us : List Token) :
    readTokens x (ts ++ us) = readTokens (readTokens x ts) us := by
  simp [readTokens, List.foldl_append]

/-- The reader's depth follows the parentheses. -/
theorem readTokens_depth (x : Scope × Query) (ts : List Token) :
    (readTokens x ts).1.depth = Token.depthAfter x.1.depth ts := by
  induction ts generalizing x with
  | nil => rfl
  | cons t ts ih => cases t <;> simp [readToken, Token.depthAfter, ih]

/-- Every junction read is counted on the chain. -/
theorem readTokens_joined (x : Scope × Query) (ts : List Token) :
    (readTokens x ts).1.chain.joined = x.1.chain.joined + ts.countP Token.isJunction := by
  induction ts generalizing x with
  | nil => rfl
  | cons t ts ih =>
    cases t with
    | junction j =>
      simp [readToken, ih, Token.isJunction, List.countP_cons]
      omega
    | leaf p r | openGroup | closeGroup => simp [readToken, ih, Token.isJunction]

/-- A junction read where the chain splits into junctions that bind at least as tightly and
junctions that bind looser: the first fold into the operand, which waits as the junction's left
side above the second. -/
theorem readToken_junction_of_split {x : Scope × Query} {N P : List Pending} {j : Junction}
    (hpending : x.1.chain.pending = N ++ P) (hN : ∀ y ∈ N, j.priority x.1.depth ≤ y.priority)
    (hP : ∀ y ∈ P, y.priority < j.priority x.1.depth) :
    (readToken x (.junction j)).1.chain.pending =
        ⟨Chain.fold N x.2, j, j.priority x.1.depth⟩ :: P ∧
      (readToken x (.junction j)).1.depth = x.1.depth ∧ (readToken x (.junction j)).2 = x.2 := by
  have hchain : x.1.chain = ⟨N ++ P, x.1.chain.joined⟩ := by
    rw [← hpending]
  refine ⟨?_, rfl, rfl⟩
  simp only [readToken]
  rw [hchain, Chain.push_of_split hN hP]

end Scope

/-- The three levels of precedence climbing, loosest first. -/
inductive Level where
  /-- A disjunction of conjunctions. -/
  | disjunction
  /-- A conjunction of primaries. -/
  | conjunction
  /-- A relational expression, or a disjunction in parentheses. -/
  | primary
  deriving DecidableEq, Repr

namespace Level

/-- The level whose phrases a phrase of this level repeats. -/
def tighter : Level → Level
  | disjunction => conjunction
  | conjunction => primary
  | primary => primary

/-- The least priority that a junction of a phrase of this level at depth `d` may have: its own
junctions at this level, or only those inside its parentheses for a primary. -/
def floor : Level → Nat → Nat
  | disjunction, d => 3 * d + 1
  | conjunction, d => 3 * d + 2
  | primary, d => 3 * d + 3

end Level

/-- The level of the phrases that a junction repeats. -/
def Junction.level : Junction → Level
  | .and => .conjunction
  | .or => .disjunction

/-- The floor of a junction's level at a depth is the priority of the junction there. -/
theorem Junction.floor_level (j : Junction) (d : Nat) : j.level.floor d = j.priority d := by
  cases j <;> rfl

/-- One level tighter than a junction's, the floor is one above the junction's priority. -/
theorem Junction.floor_tighter (j : Junction) (d : Nat) :
    j.level.tighter.floor d = j.priority d + 1 := by
  cases j <;> simp [level, Level.tighter, Level.floor, Junction.priority]

/-- The tree that precedence climbing builds from a token list at a level. With `j.level` the
level of the junction `j`, the rules read or-expr := and-expr (or and-expr)* and
and-expr := primary (and primary)*, each repetition folded to the left, and
primary := relational | ( or-expr ). -/
inductive Climb : Level → List Token → Query → Prop
  /-- A relational expression is a primary. -/
  | leaf (p : String) (r : Relation) : Climb .primary [.leaf p r] (.relational p r)
  /-- A disjunction in parentheses is a primary. -/
  | group {ts : List Token} {q : Query} :
      Climb .disjunction ts q → Climb .primary (.openGroup :: ts ++ [.closeGroup]) q
  /-- One phrase of the tighter level is a repetition of it. -/
  | single {j : Junction} {ts : List Token} {q : Query} :
      Climb j.level.tighter ts q → Climb j.level ts q
  /-- A repetition extended by the junction and one more phrase, folded to the left. -/
  | join {j : Junction} {ts us : List Token} {l r : Query} :
      Climb j.level ts l → Climb j.level.tighter us r →
        Climb j.level (ts ++ .junction j :: us) (.join j l r)

/-- Reading a phrase that climbing derives, from a scope whose waiting junctions all bind looser
than the phrase's floor, keeps the depth and leaves on top of the chain junctions that bind at
least at the floor and fold the last operand into the derived tree. Inside parentheses every
waiting junction binds looser than the inner disjunction. A junction takes the left repetition,
whose junctions all bind at least as tightly, and the right phrase then starts above the junction
just deferred. -/
theorem Climb.readTokens {lvl : Level} {ts : List Token} {q : Query} (h : Climb lvl ts q) :
    ∀ (sc : Scope) (e : Query), (∀ x ∈ sc.chain.pending, x.priority < lvl.floor sc.depth) →
      (Scope.readTokens (sc, e) ts).1.depth = sc.depth ∧
        ∃ N, (Scope.readTokens (sc, e) ts).1.chain.pending = N ++ sc.chain.pending ∧
          (∀ x ∈ N, lvl.floor sc.depth ≤ x.priority) ∧
          Chain.fold N (Scope.readTokens (sc, e) ts).2 = q := by
  induction h with
  | leaf p r =>
    intro sc e _
    exact ⟨rfl, [], rfl, by simp, rfl⟩
  | group hq ih =>
    intro sc e hbelow
    have hinner : ∀ x ∈ sc.chain.pending,
        x.priority < Level.disjunction.floor ({ sc with depth := sc.depth + 1 } : Scope).depth := by
      intro x hx
      have := hbelow x hx
      simp only [Level.floor] at this ⊢
      omega
    obtain ⟨hdepth, N, hpending, hfloor, hfold⟩ := ih { sc with depth := sc.depth + 1 } e hinner
    refine ⟨?_, N, ?_, ?_, ?_⟩
    · simp only [List.cons_append, Scope.readTokens_cons, Scope.readTokens_append,
        Scope.readTokens_nil, Scope.readToken] at hdepth ⊢
      omega
    · simpa [Scope.readToken] using hpending
    · intro x hx
      have := hfloor x hx
      simp only [Level.floor] at this ⊢
      omega
    · simpa [Scope.readToken] using hfold
  | @single j ts q hq ih =>
    intro sc e hbelow
    have hlift : ∀ x ∈ sc.chain.pending, x.priority < j.level.tighter.floor sc.depth := by
      intro x hx
      have := hbelow x hx
      rw [Junction.floor_level] at this
      rw [Junction.floor_tighter]
      omega
    obtain ⟨hdepth, N, hpending, hfloor, hfold⟩ := ih sc e hlift
    refine ⟨hdepth, N, hpending, ?_, hfold⟩
    intro x hx
    have := hfloor x hx
    rw [Junction.floor_tighter] at this
    rw [Junction.floor_level]
    omega
  | @join j ts us l r hl hr ihl ihr =>
    intro sc e hbelow
    obtain ⟨hdepth₁, N₁, hpending₁, hfloor₁, hfold₁⟩ := ihl sc e hbelow
    have hsplit : Scope.readTokens (sc, e) (ts ++ .junction j :: us) =
        Scope.readTokens (Scope.readToken (Scope.readTokens (sc, e) ts) (.junction j)) us := by
      simp
    rw [hsplit]
    generalize Scope.readTokens (sc, e) ts = x₁ at hdepth₁ hpending₁ hfold₁
    have hN₁ : ∀ y ∈ N₁, j.priority x₁.1.depth ≤ y.priority := by
      intro y hy
      rw [hdepth₁, ← Junction.floor_level]
      exact hfloor₁ y hy
    have hP : ∀ y ∈ sc.chain.pending, y.priority < j.priority x₁.1.depth := by
      intro y hy
      rw [hdepth₁, ← Junction.floor_level]
      exact hbelow y hy
    obtain ⟨hpending₂, hdepth₂, -⟩ := Scope.readToken_junction_of_split hpending₁ hN₁ hP
    generalize Scope.readToken x₁ (.junction j) = x₂ at hpending₂ hdepth₂
    have hbelow₂ : ∀ y ∈ x₂.1.chain.pending, y.priority < j.level.tighter.floor x₂.1.depth := by
      intro y hy
      rw [hpending₂] at hy
      rw [hdepth₂, hdepth₁, Junction.floor_tighter]
      rcases List.mem_cons.1 hy with rfl | hy
      · simp [hdepth₁]
      · have := hbelow y hy
        rw [Junction.floor_level] at this
        omega
    obtain ⟨hdepth₃, N₂, hpending₃, hfloor₃, hfold₃⟩ := ihr x₂.1 x₂.2 hbelow₂
    refine ⟨by rw [hdepth₃, hdepth₂, hdepth₁], N₂ ++ [⟨l, j, j.priority sc.depth⟩], ?_, ?_, ?_⟩
    · rw [hpending₃, hpending₂, hfold₁, hdepth₁]
      simp
    · intro y hy
      rcases List.mem_append.1 hy with hy | hy
      · have := hfloor₃ y hy
        rw [hdepth₂, hdepth₁, Junction.floor_tighter] at this
        rw [Junction.floor_level]
        omega
      · simp only [List.mem_singleton] at hy
        subst hy
        exact Nat.le_of_eq (Junction.floor_level j sc.depth)
    · rw [Chain.fold_append, hfold₃, Chain.fold_cons, Chain.fold_nil]

/-- The query that the token reader builds from a token list: the last operand with every
junction still waiting folded in. -/
def Token.read (ts : List Token) : Query :=
  (Scope.readTokens ({}, .allResults) ts).1.chain.complete (Scope.readTokens ({}, .allResults) ts).2

/-- The token reader builds the tree that precedence climbing derives. -/
theorem Climb.read {ts : List Token} {q : Query} (h : Climb .disjunction ts q) :
    Token.read ts = q := by
  obtain ⟨-, N, hN, -, hfold⟩ := h.readTokens {} .allResults (by simp)
  simp only [List.append_nil] at hN
  rw [Token.read, Chain.complete, hN]
  exact hfold

/-- Precedence climbing derives at most one tree from a token list. -/
theorem Climb.unique {ts : List Token} {q q' : Query} (h : Climb .disjunction ts q)
    (h' : Climb .disjunction ts q') : q = q' := by
  rw [← h.read, ← h'.read]

end SearchCriteria

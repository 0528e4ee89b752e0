import SearchCriteria.Proofs.Canonical

/-!
# The canonical text has no parenthesis to spare

`Query.toText` puts a side of a junction in parentheses only where precedence climbing needs
them: around a disjunction under a conjunction, and around a right side with its parent's
junction. Counting groups shows that each of these pairs is needed. Every token list that climbs
to a query opens at least as many groups as the query's canonical tokens, and one more when it
stands for the query at a level tighter than the query's own, since then the whole list is a
group (`Climb.count_openGroup`).

Deleting one pair that the printer wrote (`Ungrouped`) leaves a text whose tokens open one group
fewer, so under no limits does it read back to the query (`Query.toText_groups_necessary`).
-/

namespace SearchCriteria

/-- A group around some tokens opens one more group exactly when it is written. -/
theorem Token.count_openGroup_group (grouped : Bool) (ts : List Token) :
    (Token.group grouped ts).count .openGroup =
      ts.count .openGroup + if grouped then 1 else 0 := by
  cases grouped <;> simp [Token.group]

/-- Two sides joined by a junction open the groups of both and one around each side that is
grouped. -/
theorem Token.count_openGroup_joined (j : Junction) (ga gb : Bool) (ts us : List Token) :
    (Token.group ga ts ++ .junction j :: Token.group gb us).count .openGroup =
      (ts.count .openGroup + if ga then 1 else 0) +
        (us.count .openGroup + if gb then 1 else 0) := by
  simp [List.count_append, Token.count_openGroup_group]

/-- The printer groups a disjunction under a conjunction and a right side with its parent's
junction, and nothing else. -/
theorem Junction.groups_eq_true_iff (j : Junction) (c : Query) (right : Bool) :
    j.groups c right = true ↔
      (j = .and ∧ c.junction? = some .or) ∨ (right = true ∧ c.junction? = some j) := by
  cases c with
  | join j' l r => cases j <;> cases j' <;> cases right <;> simp [Junction.groups]
  | allResults | relational => simp [Junction.groups, Query.junction?]

namespace Climb

/-- Every token list that climbs to a query opens at least as many groups as the query's
canonical tokens, and one more when it stands at a level that binds tighter than the query. By
induction on the climb: inside parentheses a list stands at the loosest level and owes no group
itself; one level looser, it owes a group only if it did before; and a join stands at its own
level, each side owing its group exactly where the printer writes one. -/
theorem count_openGroup {lvl : Level} {ts : List Token} {q : Query} (h : Climb lvl ts q) :
    q.tokens.count .openGroup + (if lvl.rank < q.level.rank then 1 else 0) ≤
      ts.count .openGroup := by
  induction h with
  | leaf p r => simp [Query.tokens, Query.level, Level.rank]
  | @group ts q _ ih =>
    have hextra : (if Level.disjunction.rank < q.level.rank then 1 else 0) = 0 :=
      if_neg (Nat.not_lt.2 (Level.rank_le_disjunction _))
    rw [hextra] at ih
    simp only [List.cons_append, List.count_cons, List.count_append]
    split <;> simp <;> omega
  | @single j ts q _ ih =>
    have htighter : j.level.tighter.rank + 1 = j.level.rank := by cases j <;> rfl
    split at ih <;> split <;> omega
  | @join j ts us l r _ _ ihl ihr =>
    have hown : ¬ j.level.rank < (Query.join j l r).level.rank := Nat.lt_irrefl _
    have hl : j.groups l false = decide (j.level.rank < l.level.rank) := by
      simp [Junction.groups_eq]
    have hr : j.groups r true = decide (j.level.tighter.rank < r.level.rank) := by
      simp [Junction.groups_eq]
    rw [if_neg hown, Nat.add_zero, Query.tokens, Token.count_openGroup_joined, hl, hr]
    simp [List.count_append]
    omega

end Climb

/-- The canonical text of a query with one pair of the printer's parentheses deleted: the pair
around a side of a join, or a pair inside one side. -/
inductive Ungrouped : Query → String → Prop
  /-- The pair around the left side. -/
  | left {j : Junction} {l r : Query} : j.groups l false = true →
      Ungrouped (.join j l r)
        (l.toText ++ " " ++ j.keyword ++ " " ++ parenthesize (j.groups r true) r.toText)
  /-- The pair around the right side. -/
  | right {j : Junction} {l r : Query} : j.groups r true = true →
      Ungrouped (.join j l r)
        (parenthesize (j.groups l false) l.toText ++ " " ++ j.keyword ++ " " ++ r.toText)
  /-- A pair inside the left side. -/
  | inLeft {j : Junction} {l r : Query} {t : String} : Ungrouped l t →
      Ungrouped (.join j l r)
        (parenthesize (j.groups l false) t ++ " " ++ j.keyword ++ " " ++
          parenthesize (j.groups r true) r.toText)
  /-- A pair inside the right side. -/
  | inRight {j : Junction} {l r : Query} {t : String} : Ungrouped r t →
      Ungrouped (.join j l r)
        (parenthesize (j.groups l false) l.toText ++ " " ++ j.keyword ++ " " ++
          parenthesize (j.groups r true) t)

/-- Deleting one pair of the printer's parentheses from the canonical text of a spellable query
deletes one group from its canonical tokens. -/
theorem Ungrouped.spells {q : Query} {t : String} (h : Ungrouped q t) (hq : q.Spellable) :
    ∃ n ts, Spells .expression n t.toList ts ∧
      ts.count .openGroup + 1 = q.tokens.count .openGroup := by
  induction h with
  | @left j l r hg =>
    have hk := (Query.spells_toText hq.1).joinText (Query.spells_toText hq.2) j false
      (j.groups r true)
    refine ⟨_, _, by simpa [parenthesize] using hk, ?_⟩
    rw [Query.tokens, Token.count_openGroup_joined, Token.count_openGroup_joined, hg]
    simp only [Bool.false_eq_true, if_false, if_true]
    omega
  | @right j l r hg =>
    have hk := (Query.spells_toText hq.1).joinText (Query.spells_toText hq.2) j
      (j.groups l false) false
    refine ⟨_, _, by simpa [parenthesize] using hk, ?_⟩
    rw [Query.tokens, Token.count_openGroup_joined, Token.count_openGroup_joined, hg]
    simp only [Bool.false_eq_true, if_false, if_true]
    omega
  | @inLeft j l r t _ ih =>
    obtain ⟨n, ts, hts, hcount⟩ := ih hq.1
    refine ⟨_, _, hts.joinText (Query.spells_toText hq.2) j (j.groups l false) (j.groups r true),
      ?_⟩
    rw [Query.tokens, Token.count_openGroup_joined, Token.count_openGroup_joined]
    omega
  | @inRight j l r t _ ih =>
    obtain ⟨n, ts, hts, hcount⟩ := ih hq.2
    refine ⟨_, _, (Query.spells_toText hq.1).joinText hts j (j.groups l false) (j.groups r true),
      ?_⟩
    rw [Query.tokens, Token.count_openGroup_joined, Token.count_openGroup_joined]
    omega

namespace Query

/-- Every pair of parentheses in the canonical text is needed. The printer writes a pair around
a disjunction under a conjunction and around a right side with its parent's junction, and
nowhere else; deleting any one of these pairs, at any depth, leaves a text that reads back to
the query under no limits. A text that read back would climb to the query, which is spellable
since a pair was deleted from a join, while opening one group fewer than the canonical tokens:
`Climb.count_openGroup` forbids that. -/
theorem toText_groups_necessary :
    (∀ (j : Junction) (c : Query) (right : Bool), j.groups c right = true ↔
      (j = .and ∧ c.junction? = some .or) ∨ (right = true ∧ c.junction? = some j)) ∧
    ∀ (q : Query) (t : String), Ungrouped q t →
      ∀ limits : Limits, Query.parse limits t ≠ .ok q := by
  refine ⟨Junction.groups_eq_true_iff, fun q t h limits hparse => ?_⟩
  have hq : q.Spellable := by
    rcases representable_of_parse hparse with rfl | ⟨hq, -⟩
    · cases h
    · exact hq
  have hlead : Lead t.toList := by
    rcases parse_sound hparse with ⟨rfl, -⟩ | ⟨hlead, -⟩
    · cases h
    · exact hlead
  obtain ⟨n, ts, hspells, hcount⟩ := h.spells hq
  have htext : Text n t.toList ts := ⟨[], _, [], Blanks.nil, hspells, Blanks.nil, by simp⟩
  have hfewer := (htext.climb_of_parse hlead hparse).count_openGroup
  omega

/-- The parentheses around a disjunction under a conjunction are needed: without them, the
canonical text of `(a or b) and c` reads back to it under no limits. -/
theorem or_under_and_needs_group :
    Ungrouped (.join .and (.join .or (.relational "a" (.presence true))
        (.relational "b" (.presence true))) (.relational "c" (.presence true)))
      ((Query.join .or (.relational "a" (.presence true))
          (.relational "b" (.presence true))).toText ++
        " " ++ Junction.and.keyword ++ " " ++
        parenthesize (Junction.and.groups (.relational "c" (.presence true)) true)
          (Query.relational "c" (.presence true)).toText) ∧
    Query.parse {}
      ((Query.join .or (.relational "a" (.presence true))
          (.relational "b" (.presence true))).toText ++
        " " ++ Junction.and.keyword ++ " " ++
        parenthesize (Junction.and.groups (.relational "c" (.presence true)) true)
          (Query.relational "c" (.presence true)).toText) ≠
      .ok (.join .and (.join .or (.relational "a" (.presence true))
        (.relational "b" (.presence true))) (.relational "c" (.presence true))) :=
  ⟨.left rfl, toText_groups_necessary.2 _ _ (.left rfl) {}⟩

/- Without its parentheses, the text of `(a or b) and c` reads as `a or (b and c)`. -/
example :
    Query.parse {} "a exists true or b exists true and c exists true" =
      .ok (.join .or (.relational "a" (.presence true))
        (.join .and (.relational "b" (.presence true)) (.relational "c" (.presence true)))) := by
  rfl

end Query

end SearchCriteria

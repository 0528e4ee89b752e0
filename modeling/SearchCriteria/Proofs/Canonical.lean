import SearchCriteria.Query.Text
import SearchCriteria.Proofs.Reading

/-!
# Canonical text reads back

`Query.toText` writes a query with the fewest parentheses. A query is representable under the
limits when criteria text can spell it at all: the wildcard, or joins over relational expressions
whose properties criteria text can write, the first not starting with an asterisk, within the
term limit, and with the parentheses of its canonical text nested within the nesting limit. The
main statement, `Query.parse_toText_iff`, says that the canonical text reads back to the query
exactly when the query is representable, and that every query the reader returns is.

The printed side goes through the tokens the printer writes (`Query.tokens`): the canonical text
derives them in the grammar (`Query.spells_toText`), and precedence climbing over them gives the
query back (`Query.climb_tokens`). The read side goes the other way: the tree that climbing
derives from tokens has their relational expressions as leaves, and its canonical text nests no
deeper than the tokens do (`Climb.depth_le`), since the printer groups a side exactly where
climbing needs a parenthesis (`Junction.groups_eq`).
-/

namespace SearchCriteria

/-- A token list, in parentheses when asked. -/
def Token.group (grouped : Bool) (ts : List Token) : List Token :=
  if grouped then .openGroup :: ts ++ [.closeGroup] else ts

/-- How loosely a level binds: primaries tightest, disjunctions loosest. -/
def Level.rank : Level → Nat
  | .primary => 0
  | .conjunction => 1
  | .disjunction => 2

/-- The disjunction is the loosest level. -/
theorem Level.rank_le_disjunction (lvl : Level) : lvl.rank ≤ Level.disjunction.rank := by
  cases lvl <;> decide

namespace Query

/-- Every leaf is a relational expression whose property criteria text can write. -/
def Spellable : Query → Prop
  | allResults => False
  | relational p _ => IsProperty p.toList
  | join _ l r => l.Spellable ∧ r.Spellable

/-- The property of the leftmost relational expression. -/
def firstProperty : Query → Option String
  | allResults => none
  | relational p _ => some p
  | join _ l _ => l.firstProperty

/-- The number of leaves. -/
def leafCount : Query → Nat
  | join _ l r => l.leafCount + r.leafCount
  | _ => 1

/-- The level of precedence climbing at which a query stands: a join at its junction's, anything
else as a primary. -/
def level : Query → Level
  | join j _ _ => j.level
  | _ => .primary

/-- How deeply the parentheses of the canonical text nest. -/
def textDepth : Query → Nat
  | join j l r =>
    max (l.textDepth + if j.groups l false then 1 else 0)
      (r.textDepth + if j.groups r true then 1 else 0)
  | _ => 0

/-- The tokens that the canonical text spells. -/
def tokens : Query → List Token
  | allResults => []
  | relational p r => [.leaf p r]
  | join j l r =>
    Token.group (j.groups l false) l.tokens ++ .junction j :: Token.group (j.groups r true) r.tokens

/-- A query that criteria text can spell under the limits: the wildcard, or joins over relational
expressions whose properties criteria text can write, the first not starting with an asterisk,
with at most `max 1 maxTerms` relational expressions, and with the parentheses of its canonical
text nested at most `maxNestingDepth` deep. -/
def Representable (limits : Limits) (q : Query) : Prop :=
  q = .allResults ∨
    (q.Spellable ∧ (∀ p, q.firstProperty = some p → p.toList.head? ≠ some '*') ∧
      q.leafCount ≤ max 1 limits.maxTerms ∧ q.textDepth ≤ limits.maxNestingDepth)

end Query

/-- The printer groups a side exactly when the side binds looser than climbing allows there: a
left side at the junction's own level, a right side one level tighter. -/
theorem Junction.groups_eq (j : Junction) (q : Query) (right : Bool) :
    j.groups q right =
      decide ((if right then j.level.tighter else j.level).rank < q.level.rank) := by
  cases q with
  | join j' l r => cases j <;> cases j' <;> cases right <;> rfl
  | allResults | relational => cases j <;> cases right <;> rfl

/-- The canonical text of a join nests its sides one deeper where they bind looser than their place
allows. -/
theorem Query.textDepth_join (j : Junction) (l r : Query) :
    (join j l r).textDepth =
      max (l.textDepth + if j.level.rank < l.level.rank then 1 else 0)
        (r.textDepth + if j.level.tighter.rank < r.level.rank then 1 else 0) := by
  simp [textDepth, Junction.groups_eq]

namespace Climb

/-- A phrase that climbs at one level climbs at every looser one. -/
theorem lift {lvl lvl' : Level} {ts : List Token} {q : Query} (h : Climb lvl ts q)
    (hrank : lvl.rank ≤ lvl'.rank) : Climb lvl' ts q := by
  have hconj : ∀ {ts q}, Climb .primary ts q → Climb .conjunction ts q :=
    fun h => single (j := .and) h
  have hdisj : ∀ {ts q}, Climb .conjunction ts q → Climb .disjunction ts q :=
    fun h => single (j := .or) h
  cases lvl <;> cases lvl' <;> simp only [Level.rank] at hrank
  all_goals first
    | exact h
    | exact hconj h
    | exact hdisj h
    | exact hdisj (hconj h)
    | omega

/-- The leftmost relational expression of the tokens is the tree's leftmost leaf. -/
theorem firstProperty_append {lvl : Level} {ts : List Token} {q : Query} (h : Climb lvl ts q)
    (us : List Token) : Token.firstProperty (ts ++ us) = q.firstProperty := by
  induction h generalizing us with
  | leaf p r => rfl
  | group _ ih => simpa [Token.firstProperty] using ih (.closeGroup :: us)
  | single _ ih => exact ih us
  | @join j ts vs l r _ _ ihl _ =>
    simpa [Query.firstProperty] using ihl (.junction j :: vs ++ us)

/-- The leftmost relational expression of a climbed token list is the tree's leftmost leaf. -/
theorem firstProperty {lvl : Level} {ts : List Token} {q : Query} (h : Climb lvl ts q) :
    Token.firstProperty ts = q.firstProperty := by
  simpa using h.firstProperty_append []

/-- The tree has one leaf for each relational expression of the tokens. -/
theorem countP_leaf {lvl : Level} {ts : List Token} {q : Query} (h : Climb lvl ts q) :
    ts.countP Token.isLeaf = q.leafCount := by
  induction h with
  | leaf => rfl
  | group _ ih => simp [Token.isLeaf, ih]
  | single _ ih => exact ih
  | join _ _ ihl ihr => simp [Token.isLeaf, Query.leafCount, ihl, ihr]

/-- The leaves of the tree are the relational expressions of the tokens. -/
theorem spellable {lvl : Level} {ts : List Token} {q : Query} (h : Climb lvl ts q)
    (hprop : ∀ p r, Token.leaf p r ∈ ts → IsProperty p.toList) : q.Spellable := by
  induction h with
  | leaf p r => exact hprop p r (by simp)
  | group _ ih => exact ih (fun p r hmem => hprop p r (by simp [hmem]))
  | single _ ih => exact ih hprop
  | join _ _ ihl ihr =>
    exact ⟨ihl (fun p r hmem => hprop p r (by simp [hmem])),
      ihr (fun p r hmem => hprop p r (by simp [hmem]))⟩

/-- A climbed phrase closes the parentheses it opens, and they nest at least as deep as the
canonical text of its tree, one deeper when the tree binds looser than the phrase's level: then
the phrase is a group. One level looser, a tree binds looser than the level only if it did
before; a join stands at its own level, so it is never one deeper than its phrase. -/
theorem depth_le {lvl : Level} {ts : List Token} {q : Query} (h : Climb lvl ts q) (d : Nat) :
    Token.depthAfter d ts = d ∧
      d + q.textDepth + (if lvl.rank < q.level.rank then 1 else 0) ≤ Token.peak d ts := by
  induction h generalizing d with
  | leaf p r => simp [Token.depthAfter, Token.peak, Query.textDepth, Query.level]
  | @group ts q _ ih =>
    obtain ⟨hafter, hpeak⟩ := ih (d + 1)
    have hextra : (if Level.disjunction.rank < q.level.rank then 1 else 0) = 0 :=
      if_neg (Nat.not_lt.2 (Level.rank_le_disjunction _))
    rw [hextra] at hpeak
    constructor
    · simp [Token.depthAfter, Token.depthAfter_append, hafter]
    · simp only [List.cons_append, Token.peak, Token.peak_append, hafter]
      split <;> omega
  | @single j ts q _ ih =>
    obtain ⟨hafter, hpeak⟩ := ih d
    have htighter : j.level.tighter.rank + 1 = j.level.rank := by cases j <;> rfl
    refine ⟨hafter, ?_⟩
    split at hpeak <;> split <;> omega
  | @join j ts us l r _ _ ihl ihr =>
    obtain ⟨hafter₁, hpeak₁⟩ := ihl d
    obtain ⟨hafter₂, hpeak₂⟩ := ihr d
    refine ⟨by simp [Token.depthAfter_append, hafter₁, Token.depthAfter, hafter₂], ?_⟩
    have hown : ¬ j.level.rank < (Query.join j l r).level.rank := Nat.lt_irrefl _
    rw [if_neg hown, Nat.add_zero, Query.textDepth_join, Token.peak_append, hafter₁]
    simp only [Token.peak]
    omega

end Climb

namespace Query

/-- The tokens of a spellable query climb back to it, at the query's own level: the printer groups
a side exactly when it binds looser than its place allows. -/
theorem climb_tokens {q : Query} (hq : q.Spellable) : Climb q.level q.tokens q := by
  induction q with
  | allResults => exact hq.elim
  | relational p r => exact .leaf p r
  | join j l r ihl ihr =>
    obtain ⟨hl, hr⟩ := hq
    have hside : ∀ (c : Query) (lvl : Level), Climb c.level c.tokens c →
        Climb lvl (Token.group (decide (lvl.rank < c.level.rank)) c.tokens) c := by
      intro c lvl hc
      by_cases hlt : lvl.rank < c.level.rank
      · simp only [hlt, decide_true, Token.group, if_true]
        exact (Climb.group (hc.lift (Level.rank_le_disjunction _))).lift (Nat.zero_le _)
      · simp only [hlt, decide_false, Token.group, Bool.false_eq_true, if_false]
        exact hc.lift (by omega)
    have hleft := hside l j.level (ihl hl)
    have hright := hside r j.level.tighter (ihr hr)
    have hgl : j.groups l false = decide (j.level.rank < l.level.rank) := by
      simp [Junction.groups_eq]
    have hgr : j.groups r true = decide (j.level.tighter.rank < r.level.rank) := by
      simp [Junction.groups_eq]
    rw [← hgl] at hleft
    rw [← hgr] at hright
    exact Climb.join hleft hright

end Query

/-- A separator after an expression still separates it when text comes before the expression. -/
theorem Separator.append_left {e sep : List Char} (h : Separator e sep) (hne : e ≠ [])
    (x : List Char) : Separator (x ++ e) sep := by
  rcases h with h | ⟨rfl, hclosed⟩
  · exact .inl h
  · exact .inr ⟨rfl, (EndsClosed.append_iff hne x).2 hclosed⟩

/-- A junction can join two expressions, not only an expression and a primary: the right
expression's primaries follow the left one by one. -/
theorem Spells.join_expression {f : Phrase} {n m : Nat} {e sep w s : List Char}
    {ts us : List Token} {j : Junction} (he : Spells .expression n e ts) (hsep : Separator e sep)
    (hw : Spacing w) (hs : Spells f m s us) :
    Spells .expression (max n m) (e ++ sep ++ j.keyword.toList ++ w ++ s)
      (ts ++ .junction j :: us) := by
  induction hs with
  | leaf hr => exact .junction he hsep hw (.leaf hr)
  | group hw₁ he' hw₂ => exact .junction he hsep hw (.group hw₁ he' hw₂)
  | primary _ ih => exact ih
  | @junction n' m' e' sep' w' s' ts' us' j' he' hsep' hw' hs' ih _ =>
    have hsep'' := hsep'.append_left he'.ne_nil (e ++ sep ++ j.keyword.toList ++ w)
    simpa [Nat.max_assoc, List.append_assoc] using Spells.junction ih hsep'' hw' hs'

/-- Parentheses put around a text are its first and last characters. -/
theorem parenthesize_toList (grouped : Bool) (s : String) :
    (parenthesize grouped s).toList = if grouped then '(' :: s.toList ++ [')'] else s.toList := by
  cases grouped <;> simp [parenthesize]

/-- A side in parentheses nests one deeper. -/
theorem Spells.parenthesize {n : Nat} {s : String} {ts : List Token}
    (h : Spells .expression n s.toList ts) (grouped : Bool) :
    Spells .expression (n + if grouped then 1 else 0) (parenthesize grouped s).toList
      (Token.group grouped ts) := by
  rw [parenthesize_toList]
  cases grouped with
  | false => simpa [Token.group] using h
  | true => simpa [Token.group] using Spells.primary (.group Blanks.nil h Blanks.nil)

/-- Two expressions joined as the printer joins them, each side in parentheses when asked. -/
theorem Spells.joinText {n m : Nat} {a b : String} {ts us : List Token}
    (ha : Spells .expression n a.toList ts) (hb : Spells .expression m b.toList us)
    (j : Junction) (ga gb : Bool) :
    Spells .expression (max (n + if ga then 1 else 0) (m + if gb then 1 else 0))
      (SearchCriteria.parenthesize ga a ++ " " ++ j.keyword ++ " " ++
        SearchCriteria.parenthesize gb b).toList
      (Token.group ga ts ++ .junction j :: Token.group gb us) := by
  have hsep : Separator (SearchCriteria.parenthesize ga a).toList [' '] :=
    .inl (Spacing.singleton rfl)
  have h := Spells.join_expression (j := j) (ha.parenthesize ga) hsep
    (Spacing.singleton (c := ' ') rfl) (hb.parenthesize gb)
  simpa [List.append_assoc] using h

/-- The written operand of a text relation is a quoted body standing for the operand. -/
theorem QuotedBody.escapeOperand (v : List Char) : QuotedBody (escapeOperand v) v := by
  induction v with
  | nil => exact .nil
  | cons c v ih =>
    by_cases hc : c = '"' ∨ c = '\\'
    · simpa [SearchCriteria.escapeOperand, hc] using QuotedBody.escape hc ih
    · simp only [not_or] at hc
      simpa [SearchCriteria.escapeOperand, hc] using QuotedBody.plain hc.1 hc.2 ih

namespace Query

/-- The canonical text of a relational expression is one. -/
theorem relational_toText {p : String} (r : Relation) (hp : IsProperty p.toList) :
    Relational (relational p r).toText.toList p r := by
  cases r with
  | text op v =>
    have hb := QuotedBody.escapeOperand v.toList
    simpa [toText, Relation.operandText, quoteOperand, Relation.operator] using
      (Relational.text hp (Spacing.singleton (c := ' ') rfl) (Spacing.singleton (c := ' ') rfl) hb :
        Relational _ p (.text op v))
  | presence value =>
    simpa [toText, Relation.operandText, Relation.operator] using
      (Relational.presence hp (Spacing.singleton (c := ' ') rfl) (Spacing.singleton (c := ' ') rfl) :
        Relational _ p (.presence value))

/-- The canonical text of a spellable query derives its tokens, nesting as deep as
`textDepth` says. -/
theorem spells_toText {q : Query} (hq : q.Spellable) :
    Spells .expression q.textDepth q.toText.toList q.tokens := by
  induction q with
  | allResults => exact hq.elim
  | relational p r => exact .primary (.leaf (relational_toText r hq))
  | join j l r ihl ihr =>
    obtain ⟨hl, hr⟩ := hq
    exact (ihl hl).joinText (ihr hr) j (j.groups l false) (j.groups r true)

/-- A representable query other than the wildcard reads back from its canonical text. -/
theorem parse_toText_of_spellable {limits : Limits} {q : Query} (hq : q.Spellable)
    (hstar : ∀ p, q.firstProperty = some p → p.toList.head? ≠ some '*')
    (hterms : q.leafCount ≤ max 1 limits.maxTerms) (hdepth : q.textDepth ≤ limits.maxNestingDepth) :
    Query.parse limits q.toText = .ok q := by
  have htext : Text q.textDepth q.toText.toList q.tokens :=
    ⟨[], _, [], Blanks.nil, spells_toText hq, Blanks.nil, by simp⟩
  have hclimb : Climb .disjunction q.tokens q :=
    (climb_tokens hq).lift (Level.rank_le_disjunction _)
  have hstarFree : StarFree q.tokens := by
    intro p hp
    rw [hclimb.firstProperty] at hp
    exact hstar p hp
  have hfits : Fits limits {} q.textDepth q.tokens :=
    htext.fits_iff.2 ⟨hdepth, by rw [hclimb.countP_leaf]; exact hterms⟩
  rw [htext.parse_eq hstarFree hfits, hclimb.read]

/-- Every query the reader returns is representable under the limits it read with: its canonical
text nests no deeper than the text that was read. -/
theorem representable_of_parse {limits : Limits} {s : String} {q : Query}
    (h : Query.parse limits s = .ok q) : q.Representable limits := by
  rcases Query.parse_sound h with ⟨hall, -⟩ | ⟨hlead, n, ts, ht⟩
  · exact .inl hall
  have hstar := ht.starFree hlead
  obtain ⟨hdepth, hterms⟩ := ht.fits_iff.1 (ht.fits_of_parse hstar h)
  have hclimb := ht.climb_of_parse hlead h
  obtain ⟨-, e, -, -, he, -, -⟩ := ht
  refine .inr ⟨hclimb.spellable (fun _ _ hmem => he.isProperty_of_mem hmem), ?_, ?_, ?_⟩
  · intro p hp
    rw [← hclimb.firstProperty] at hp
    exact hstar p hp
  · rw [← hclimb.countP_leaf]
    exact hterms
  · have hclimbed := (hclimb.depth_le 0).2
    have hread := (he.depth 0).2
    omega

/-- The canonical text of a query reads back to it exactly when the query is representable under
the limits, and every query the reader returns is representable, so printing what was read and
reading it again under the same limits gives the same query. -/
theorem parse_toText_iff (limits : Limits) :
    (∀ q : Query, Query.parse limits q.toText = .ok q ↔ q.Representable limits) ∧
      ∀ (s : String) (q : Query), Query.parse limits s = .ok q → q.Representable limits := by
  refine ⟨fun q => ⟨representable_of_parse, ?_⟩, fun _ _ => representable_of_parse⟩
  rintro (rfl | ⟨hq, hstar, hterms, hdepth⟩)
  · exact WildcardText.parse_eq ⟨[], [], Blanks.nil, Blanks.nil, rfl⟩
  · exact parse_toText_of_spellable hq hstar hterms hdepth

/-- Read with the default limits, a disjunction under a conjunction is representable, and its
canonical text, which puts the disjunction in parentheses, reads back to it. -/
theorem parse_grouped_representable :
    Query.parse {} "(a = \"x\" or b = \"y\") and c = \"z\"" =
        .ok (.join .and (.join .or (.relational "a" (.text .equals "x"))
          (.relational "b" (.text .equals "y"))) (.relational "c" (.text .equals "z"))) ∧
      Query.Representable {} (.join .and (.join .or (.relational "a" (.text .equals "x"))
          (.relational "b" (.text .equals "y"))) (.relational "c" (.text .equals "z"))) ∧
      Query.parse {} (Query.join .and (.join .or (.relational "a" (.text .equals "x"))
          (.relational "b" (.text .equals "y"))) (.relational "c" (.text .equals "z"))).toText =
        .ok (.join .and (.join .or (.relational "a" (.text .equals "x"))
          (.relational "b" (.text .equals "y"))) (.relational "c" (.text .equals "z"))) := by
  have h : Query.parse {} "(a = \"x\" or b = \"y\") and c = \"z\"" =
      .ok (.join .and (.join .or (.relational "a" (.text .equals "x"))
        (.relational "b" (.text .equals "y"))) (.relational "c" (.text .equals "z"))) := by
    rfl
  have hrep := (parse_toText_iff {}).2 _ _ h
  exact ⟨h, hrep, ((parse_toText_iff {}).1 _).2 hrep⟩

end Query

end SearchCriteria

import SearchCriteria.Syntax.Blank
import SearchCriteria.Limits.Basic
import SearchCriteria.Proofs.Climbing

/-!
# The grammar of criteria text

Criteria text is the wildcard `*` alone, or an expression with blanks around it. An expression
is a primary followed by junctions and primaries, E := P (S J W+ P)*, where a primary is a
relational expression R or a parenthesised expression ( W* E W* ), W is a blank, J a junction
keyword, and the separator S is blanks, or nothing when the text before it ends with a double
quote or a closing parenthesis. A relational expression is a property, blanks, an operator,
blanks and an operand: a double-quoted text for the text operators, true or false for exists.

`Spells` derives such text together with how deeply its parentheses nest and the tokens it
spells, and `Admissible` adds the rules that make text readable under the limits: the first
property does not start with an asterisk, parentheses nest at most as deep as allowed, and at
most `max 1 maxTerms` relational expressions are combined. The lemmas here are the facts about
derivations that both directions of the reader's correctness use: where the first property
starts, how many tokens of each kind a derivation spells, and that its tokens can be climbed.
-/

namespace SearchCriteria

/-- A run of blanks, possibly empty. -/
def Blanks (w : List Char) : Prop := ∀ c ∈ w, isBlank c = true

/-- A run of at least one blank. -/
def Spacing (w : List Char) : Prop := w ≠ [] ∧ Blanks w

/-- A property as criteria text writes it: a non-empty run of characters that are not blanks,
whose first character is not a parenthesis. -/
def IsProperty (p : List Char) : Prop :=
  p ≠ [] ∧ (∀ c ∈ p, isBlank c = false) ∧ p.head? ≠ some '(' ∧ p.head? ≠ some ')'

/-- The body of a double-quoted operand, with the text it stands for: a backslash escapes a
double quote or a backslash and nothing else, and neither stands unescaped. -/
inductive QuotedBody : List Char → List Char → Prop
  /-- The empty body. -/
  | nil : QuotedBody [] []
  /-- A character that stands for itself. -/
  | plain {c : Char} {b v : List Char} :
      c ≠ '"' → c ≠ '\\' → QuotedBody b v → QuotedBody (c :: b) (c :: v)
  /-- An escaped double quote or backslash. -/
  | escape {c : Char} {b v : List Char} :
      (c = '"' ∨ c = '\\') → QuotedBody b v → QuotedBody ('\\' :: c :: b) (c :: v)

/-- A relational expression with the property and relation it reads as: the property, blanks,
the operator, blanks, and a double-quoted operand for a text operator or true or false for
exists. -/
inductive Relational : List Char → String → Relation → Prop
  /-- A text operator and its double-quoted operand. -/
  | text {p : String} {op : TextOperator} {v : String} {w₁ w₂ b : List Char} :
      IsProperty p.toList → Spacing w₁ → Spacing w₂ → QuotedBody b v.toList →
      Relational (p.toList ++ w₁ ++ op.spelling.toList ++ w₂ ++ '"' :: b ++ ['"']) p (.text op v)
  /-- The presence test and its flag. -/
  | presence {p : String} {value : Bool} {w₁ w₂ : List Char} :
      IsProperty p.toList → Spacing w₁ → Spacing w₂ →
      Relational (p.toList ++ w₁ ++ Operator.presence.spelling.toList ++ w₂ ++
        (flagSpelling value).toList) p (.presence value)

/-- Text that ends with a double quote or a closing parenthesis. -/
def EndsClosed (e : List Char) : Prop := e.getLast? = some '"' ∨ e.getLast? = some ')'

/-- What may separate an expression from the junction after it: blanks, or nothing after a
double quote or a closing parenthesis. -/
def Separator (e sep : List Char) : Prop := Spacing sep ∨ (sep = [] ∧ EndsClosed e)

/-- The two phrases of the grammar. -/
inductive Phrase where
  /-- E: primaries joined by junctions. -/
  | expression
  /-- P: a relational expression or a parenthesised expression. -/
  | primary
  deriving DecidableEq, Repr

/-- Criteria text of a phrase, with the depth its parentheses nest to and the tokens it spells. -/
inductive Spells : Phrase → Nat → List Char → List Token → Prop
  /-- P := R. -/
  | leaf {s : List Char} {p : String} {r : Relation} :
      Relational s p r → Spells .primary 0 s [.leaf p r]
  /-- P := ( W* E W* ). -/
  | group {w₁ e w₂ : List Char} {n : Nat} {ts : List Token} :
      Blanks w₁ → Spells .expression n e ts → Blanks w₂ →
        Spells .primary (n + 1) ('(' :: w₁ ++ e ++ w₂ ++ [')']) (.openGroup :: ts ++ [.closeGroup])
  /-- E := P. -/
  | primary {n : Nat} {s : List Char} {ts : List Token} :
      Spells .primary n s ts → Spells .expression n s ts
  /-- E := E S J W+ P. -/
  | junction {n m : Nat} {e sep w s : List Char} {ts us : List Token} {j : Junction} :
      Spells .expression n e ts → Separator e sep → Spacing w → Spells .primary m s us →
        Spells .expression (max n m) (e ++ sep ++ j.keyword.toList ++ w ++ s)
          (ts ++ .junction j :: us)

/-- Criteria text that is one expression between blanks, nesting `n` deep, spelling `ts`. -/
def Text (n : Nat) (s : List Char) (ts : List Token) : Prop :=
  ∃ w₁ e w₂, Blanks w₁ ∧ Spells .expression n e ts ∧ Blanks w₂ ∧ s = w₁ ++ e ++ w₂

/-- Criteria text that is the wildcard between blanks. -/
def WildcardText (s : List Char) : Prop :=
  ∃ w₁ w₂, Blanks w₁ ∧ Blanks w₂ ∧ s = w₁ ++ '*' :: w₂

/-- The first relational expression of the tokens does not start with an asterisk. -/
def StarFree (ts : List Token) : Prop :=
  ∀ p, Token.firstProperty ts = some p → p.toList.head? ≠ some '*'

/-- Criteria text of the language that stays within the limits: the wildcard alone, or an
expression whose first property does not start with an asterisk, whose parentheses nest at most
`maxNestingDepth` deep and which has at most `max 1 maxTerms` relational expressions. -/
def Admissible (limits : Limits) (s : List Char) : Prop :=
  WildcardText s ∨ ∃ n ts, Text n s ts ∧ StarFree ts ∧ n ≤ limits.maxNestingDepth ∧
    ts.countP Token.isLeaf ≤ max 1 limits.maxTerms

/-- The first character that is neither a blank nor an opening parenthesis: where the first
property of criteria text starts. -/
def leadChar : List Char → Option Char
  | [] => none
  | c :: cs => if isBlank c = true ∨ c = '(' then leadChar cs else some c

/-- The empty run is a run of blanks. -/
theorem Blanks.nil : Blanks [] := by simp [Blanks]

/-- Two runs of blanks make one. -/
theorem Blanks.append {w w' : List Char} (h : Blanks w) (h' : Blanks w') : Blanks (w ++ w') := by
  intro c hc
  rcases List.mem_append.1 hc with hc | hc
  · exact h c hc
  · exact h' c hc

/-- A spacing is a run of blanks. -/
theorem Spacing.blanks {w : List Char} (h : Spacing w) : Blanks w := h.2

/-- A separator is a run of blanks, possibly empty. -/
theorem Separator.blanks {e sep : List Char} (h : Separator e sep) : Blanks sep := by
  rcases h with h | ⟨rfl, -⟩
  · exact h.blanks
  · exact Blanks.nil

/-- Blanks before a text do not move where its first property starts. -/
theorem leadChar_blanks_append {w : List Char} (hw : Blanks w) (x : List Char) :
    leadChar (w ++ x) = leadChar x := by
  induction w with
  | nil => rfl
  | cons c w ih =>
    have hc : isBlank c = true := hw c (by simp)
    simp only [List.cons_append, leadChar, hc, true_or, if_true]
    exact ih (fun d hd => hw d (by simp [hd]))

/-- An opening parenthesis before a text does not move where its first property starts. -/
theorem leadChar_cons_open (x : List Char) : leadChar ('(' :: x) = leadChar x := by
  simp [leadChar]

/-- Whether a text ends closed depends only on its last part, when that part is not empty. -/
theorem EndsClosed.append_iff {x : List Char} (hx : x ≠ []) (e : List Char) :
    EndsClosed (e ++ x) ↔ EndsClosed x := by
  have hlast : (e ++ x).getLast? = x.getLast? := by
    cases h : x.getLast? with
    | none => exact absurd (List.getLast?_eq_none_iff.1 h) hx
    | some a => simp [List.getLast?_append, h]
  simp only [EndsClosed, hlast]

/-- The property of a relational expression is one criteria text can write. -/
theorem Relational.isProperty {s : List Char} {p : String} {r : Relation} (h : Relational s p r) :
    IsProperty p.toList := by
  cases h with
  | text hp => exact hp
  | presence hp => exact hp

/-- A relational expression with a flag ends with the flag's last letter. -/
theorem Relational.not_endsClosed {s : List Char} {p : String} {value : Bool}
    (h : Relational s p (.presence value)) : ¬ EndsClosed s := by
  cases h
  cases value <;> simp [EndsClosed, flagSpelling, List.getLast?_append]

namespace Spells

/-- Every phrase has text. -/
theorem ne_nil {f : Phrase} {n : Nat} {s : List Char} {ts : List Token} (h : Spells f n s ts) :
    s ≠ [] := by
  induction h with
  | leaf hr =>
    cases hr with
    | text hp => simp
    | presence hp => simp [flagSpelling]; split <;> simp
  | group => simp
  | primary _ ih => exact ih
  | junction _ _ _ _ _ ih => simp [ih]

/-- The first property of a phrase starts at the first character of its text that is neither a
blank nor an opening parenthesis: a relational expression starts with its property, which starts
with neither. -/
theorem leadChar_append {f : Phrase} {n : Nat} {s : List Char} {ts : List Token}
    (h : Spells f n s ts) (rest : List Char) :
    ∃ p, Token.firstProperty ts = some p ∧ leadChar (s ++ rest) = p.toList.head? := by
  induction h generalizing rest with
  | @leaf s p r hr =>
    refine ⟨p, rfl, ?_⟩
    have hprop : IsProperty p.toList ∧ ∃ t, s = p.toList ++ t := by
      cases hr with
      | @text p op v w₁ w₂ b hp =>
        exact ⟨hp, w₁ ++ op.spelling.toList ++ w₂ ++ '"' :: b ++ ['"'], by simp⟩
      | @presence p value w₁ w₂ hp =>
        exact ⟨hp, w₁ ++ Operator.presence.spelling.toList ++ w₂ ++ (flagSpelling value).toList,
          by simp⟩
    obtain ⟨⟨hne, hblank, hopen, -⟩, t, rfl⟩ := hprop
    obtain ⟨c, cs, hcs⟩ := List.exists_cons_of_ne_nil hne
    rw [hcs] at hblank hopen ⊢
    have hc : isBlank c = false := hblank c (by simp)
    have hc' : c ≠ '(' := by simpa using hopen
    simp [leadChar, hc, hc']
  | @group w₁ e w₂ n ts hw₁ he hw₂ ih =>
    obtain ⟨p, hp, hlead⟩ := ih (w₂ ++ ')' :: rest)
    refine ⟨p, ?_, ?_⟩
    · show Token.firstProperty (ts ++ [.closeGroup]) = some p
      rw [Token.firstProperty_append_of_isSome (by simp [hp])]
      exact hp
    · simp only [List.cons_append, List.append_assoc, leadChar_cons_open,
        leadChar_blanks_append hw₁]
      exact hlead
  | primary _ ih => exact ih rest
  | @junction n m e sep w s ts us j he _ _ _ ih _ =>
    obtain ⟨p, hp, hlead⟩ := ih (sep ++ j.keyword.toList ++ w ++ s ++ rest)
    refine ⟨p, ?_, ?_⟩
    · rw [Token.firstProperty_append_of_isSome (by simp [hp])]
      exact hp
    · simpa [List.append_assoc] using hlead

/-- A phrase's first relational expression comes before anything after it. -/
theorem firstProperty_append {f : Phrase} {n : Nat} {s : List Char} {ts : List Token}
    (h : Spells f n s ts) (us : List Token) :
    Token.firstProperty (ts ++ us) = Token.firstProperty ts := by
  obtain ⟨p, hp, -⟩ := h.leadChar_append []
  exact Token.firstProperty_append_of_isSome (by simp [hp]) us

/-- A group's first relational expression is its expression's. -/
theorem firstProperty_group {n : Nat} {e : List Char} {ts : List Token}
    (h : Spells .expression n e ts) :
    Token.firstProperty (.openGroup :: ts ++ [.closeGroup]) = Token.firstProperty ts :=
  h.firstProperty_append [.closeGroup]

/-- A phrase that starts star-free tokens is star-free alone. -/
theorem starFree_of_append {f : Phrase} {n : Nat} {s : List Char} {ts us : List Token}
    (h : Spells f n s ts) (hstar : StarFree (ts ++ us)) : StarFree ts := by
  intro p hp
  exact hstar p (by rw [h.firstProperty_append, hp])

/-- The expression of a star-free group is star-free. -/
theorem starFree_group {n : Nat} {e : List Char} {ts : List Token} (h : Spells .expression n e ts)
    (hstar : StarFree (.openGroup :: ts ++ [.closeGroup])) : StarFree ts := by
  intro p hp
  exact hstar p (by rw [h.firstProperty_group, hp])

/-- A phrase has one more relational expression than junctions. -/
theorem countP_leaf {f : Phrase} {n : Nat} {s : List Char} {ts : List Token}
    (h : Spells f n s ts) : ts.countP Token.isLeaf = ts.countP Token.isJunction + 1 := by
  induction h with
  | leaf => rfl
  | group _ _ _ ih => simp [Token.isLeaf, Token.isJunction, ih]
  | primary _ ih => exact ih
  | junction _ _ _ _ ihe ihs =>
    simp [List.countP_cons, Token.isLeaf, Token.isJunction, ihe, ihs]
    omega

/-- A phrase closes every parenthesis it opens, and nests exactly as deep as its derivation
says. -/
theorem depth {f : Phrase} {n : Nat} {s : List Char} {ts : List Token} (h : Spells f n s ts)
    (d : Nat) : Token.depthAfter d ts = d ∧ Token.peak d ts = d + n := by
  induction h generalizing d with
  | leaf => simp [Token.depthAfter, Token.peak]
  | @group w₁ e w₂ n ts _ _ _ ih =>
    obtain ⟨hafter, hpeak⟩ := ih (d + 1)
    constructor
    · simp [Token.depthAfter, Token.depthAfter_append, hafter]
    · simp only [List.cons_append, Token.peak, Token.peak_append, hpeak, hafter]
      omega
  | primary _ ih => exact ih d
  | @junction n m e sep w s ts us j _ _ _ _ ihe ihs =>
    obtain ⟨hafter₁, hpeak₁⟩ := ihe d
    obtain ⟨hafter₂, hpeak₂⟩ := ihs d
    constructor
    · simp [Token.depthAfter_append, hafter₁, Token.depthAfter, hafter₂]
    · simp only [Token.peak_append, hafter₁, Token.peak, hpeak₁, hpeak₂]
      omega

/-- Every relational expression of a phrase has a property criteria text can write. -/
theorem isProperty_of_mem {f : Phrase} {n : Nat} {s : List Char} {ts : List Token}
    (h : Spells f n s ts) {p : String} {r : Relation} (hmem : Token.leaf p r ∈ ts) :
    IsProperty p.toList := by
  induction h with
  | leaf hr =>
    simp only [List.mem_singleton, Token.leaf.injEq] at hmem
    obtain ⟨rfl, rfl⟩ := hmem
    exact hr.isProperty
  | group _ _ _ ih => simp at hmem; exact ih hmem
  | primary _ ih => exact ih hmem
  | junction _ _ _ _ ihe ihs =>
    simp only [List.mem_append, List.mem_cons, reduceCtorEq, false_or] at hmem
    rcases hmem with hmem | hmem
    · exact ihe hmem
    · exact ihs hmem

end Spells

/-- A conjunction can follow the last disjunct of a disjunction: climbing extends it. -/
theorem Climb.extend_and {lvl : Level} {ts : List Token} {l : Query} (h : Climb lvl ts l)
    (hlvl : lvl ≠ .primary) {us : List Token} {r : Query} (hr : Climb .primary us r) :
    ∃ q, Climb lvl (ts ++ .junction .and :: us) q := by
  induction h with
  | leaf => exact absurd rfl hlvl
  | group => exact absurd rfl hlvl
  | @single j ts q hq ih =>
    cases j with
    | and => exact ⟨_, Climb.join (j := .and) (Climb.single hq) hr⟩
    | or =>
      obtain ⟨q', hq'⟩ := ih (by simp [Junction.level, Level.tighter])
      exact ⟨q', Climb.single (j := .or) hq'⟩
  | @join j ts vs l₁ r₁ hl hr₁ ihl ihr =>
    cases j with
    | and =>
      exact ⟨_, by simpa using Climb.join (j := .and) (Climb.join (j := .and) hl hr₁) hr⟩
    | or =>
      obtain ⟨r', hr'⟩ := ihr (by simp [Junction.level, Level.tighter])
      exact ⟨_, by simpa using Climb.join (j := .or) hl hr'⟩

/-- The tokens of every phrase can be climbed: an expression is a disjunction, a primary a
primary. -/
theorem Spells.climb {f : Phrase} {n : Nat} {s : List Char} {ts : List Token}
    (h : Spells f n s ts) :
    match f with
    | .expression => ∃ q, Climb .disjunction ts q
    | .primary => ∃ q, Climb .primary ts q := by
  induction h with
  | @leaf s p r _ => exact ⟨_, Climb.leaf p r⟩
  | group _ _ _ ih =>
    obtain ⟨q, hq⟩ := ih
    exact ⟨q, Climb.group hq⟩
  | primary _ ih =>
    obtain ⟨q, hq⟩ := ih
    exact ⟨q, Climb.single (j := .or) (Climb.single (j := .and) hq)⟩
  | @junction n m e sep w s ts us j _ _ _ _ ihe ihs =>
    obtain ⟨l, hl⟩ := ihe
    obtain ⟨r, hr⟩ := ihs
    cases j with
    | and => exact Climb.extend_and hl (by decide) hr
    | or => exact ⟨_, Climb.join (j := .or) hl (Climb.single (j := .and) hr)⟩

end SearchCriteria

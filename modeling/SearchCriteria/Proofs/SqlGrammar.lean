import SearchCriteria.Query.Sql

/-!
# SQL filters read back

`Query.toSql` writes every query, whether the reader built it or not, in a small grammar of
boolean SQL expressions:

    F := TRUE | (F AND F) | (F OR F) | I C L | strpos(I, L) > 0 | strpos(I, L) = 0
       | (I = L OR starts_with(I, L)) | I IS NOT NULL | I IS NULL

with the spaces as written, where `C` is one of six comparison symbols, `I` an identifier between
double quotes and `L` a literal between single quotes, each with its quote character doubled
inside. A derivation (`SqlFilter`) records the alternative taken at each node and the text each
identifier and literal stands for; `SqlFilter.Spells` says which text it derives.

The main statement, `Query.toSql_derivation_unique`, says that the text written for a query has
exactly one derivation and that it decodes to the query, so that the writer is injective and no
character of a property or an operand stands outside its identifier or literal. Uniqueness rests
on one decomposition lemma, `SqlFilter.Spells.unique`: two derivations whose texts agree up to
what follows them, where that is not a single quote, are the same derivation. A quoted token ends
at the first quote character that is not doubled, and the one place two alternatives begin alike,
a derivedFrom test against a disjunction whose left side is an equality, parts at starts_with,
which no filter begins with.
-/

namespace SearchCriteria

/-- The text between the quotes of a SQL quoted token with quote character `q`, with the text it
stands for: the quote character is written twice, every other character once. -/
inductive SqlBody (q : Char) : List Char → List Char → Prop
  /-- The empty body. -/
  | nil : SqlBody q [] []
  /-- A character other than the quote character stands for itself. -/
  | plain {c : Char} {b v : List Char} : c ≠ q → SqlBody q b v → SqlBody q (c :: b) (c :: v)
  /-- The quote character written twice stands for one. -/
  | doubled {b v : List Char} : SqlBody q b v → SqlBody q (q :: q :: b) (q :: v)

/-- A SQL quoted token standing for the text `v`: the quote character, a body, the quote
character again. Identifiers are quoted by a double quote, literals by a single one. -/
def SqlQuoted (q : Char) (t : List Char) (v : String) : Prop :=
  ∃ b, SqlBody q b v.toList ∧ t = q :: b ++ [q]

/-- The comparison symbols of the grammar. -/
inductive SqlComparison where
  /-- Written =. -/
  | eq
  /-- Written <>. -/
  | ne
  /-- Written <. -/
  | lt
  /-- Written <=. -/
  | le
  /-- Written >. -/
  | gt
  /-- Written >=. -/
  | ge
  deriving DecidableEq, Repr

namespace SqlComparison

/-- The symbol as written. -/
def symbol : SqlComparison → String
  | eq => "="
  | ne => "<>"
  | lt => "<"
  | le => "<="
  | gt => ">"
  | ge => ">="

/-- The text operator a symbol decodes to. -/
def operator : SqlComparison → TextOperator
  | eq => .equals
  | ne => .notEquals
  | lt => .lessThan
  | le => .lessOrEqual
  | gt => .greaterThan
  | ge => .greaterOrEqual

end SqlComparison

/-- A derivation in the grammar of SQL filters: the alternative taken at each node, with the text
that each identifier and literal stands for. -/
inductive SqlFilter where
  /-- TRUE. -/
  | always
  /-- A junction of two filters in parentheses. -/
  | junction (j : Junction) (left right : SqlFilter)
  /-- An identifier compared with a literal. -/
  | compare (column : String) (c : SqlComparison) (literal : String)
  /-- strpos(I, L) > 0. -/
  | contains (column literal : String)
  /-- strpos(I, L) = 0. -/
  | lacks (column literal : String)
  /-- (I = L OR starts_with(I, L)), with its two identifiers and two literals. -/
  | derived (column literal column' literal' : String)
  /-- I IS NOT NULL. -/
  | notNull (column : String)
  /-- I IS NULL. -/
  | isNull (column : String)
  deriving DecidableEq, Repr

namespace SqlFilter

/-- The word between the two filters of a junction, with its blanks. -/
def keyword : Junction → String
  | .and => " AND "
  | .or => " OR "

/-- The text a derivation derives: its terminals, and for each identifier and literal a quoted
token standing for its text. -/
inductive Spells : SqlFilter → List Char → Prop
  /-- TRUE. -/
  | always : Spells .always "TRUE".toList
  /-- Two filters in parentheses with the junction's word between them. -/
  | junction {j : Junction} {l r : SqlFilter} {tl tr : List Char} : Spells l tl → Spells r tr →
      Spells (.junction j l r) ('(' :: tl ++ (keyword j).toList ++ tr ++ [')'])
  /-- An identifier, a blank, a comparison symbol, a blank and a literal. -/
  | compare {i v : String} {c : SqlComparison} {ti tv : List Char} :
      SqlQuoted '"' ti i → SqlQuoted '\'' tv v →
      Spells (.compare i c v) (ti ++ ' ' :: c.symbol.toList ++ ' ' :: tv)
  /-- The identifier and the literal in strpos, tested to be positive. -/
  | contains {i v : String} {ti tv : List Char} : SqlQuoted '"' ti i → SqlQuoted '\'' tv v →
      Spells (.contains i v) ("strpos(".toList ++ ti ++ ", ".toList ++ tv ++ ") > 0".toList)
  /-- The identifier and the literal in strpos, tested to be zero. -/
  | lacks {i v : String} {ti tv : List Char} : SqlQuoted '"' ti i → SqlQuoted '\'' tv v →
      Spells (.lacks i v) ("strpos(".toList ++ ti ++ ", ".toList ++ tv ++ ") = 0".toList)
  /-- An equality or a starts_with test, in parentheses. -/
  | derived {i v i' v' : String} {ti tv ti' tv' : List Char} :
      SqlQuoted '"' ti i → SqlQuoted '\'' tv v → SqlQuoted '"' ti' i' → SqlQuoted '\'' tv' v' →
      Spells (.derived i v i' v')
        ('(' :: ti ++ " = ".toList ++ tv ++ " OR starts_with(".toList ++ ti' ++ ", ".toList ++
          tv' ++ "))".toList)
  /-- An identifier and IS NOT NULL. -/
  | notNull {i : String} {ti : List Char} : SqlQuoted '"' ti i →
      Spells (.notNull i) (ti ++ " IS NOT NULL".toList)
  /-- An identifier and IS NULL. -/
  | isNull {i : String} {ti : List Char} : SqlQuoted '"' ti i →
      Spells (.isNull i) (ti ++ " IS NULL".toList)

/-- The query a derivation stands for: each identifier is the property, each literal the operand,
the skeleton the relation or the junction. A derivedFrom test stands for a query only when its
second identifier repeats the first and its second literal is the first followed by a dot. -/
def decode : SqlFilter → Option Query
  | always => some .allResults
  | junction j l r => do return .join j (← l.decode) (← r.decode)
  | compare i c v => some (.relational i (.text c.operator v))
  | contains i v => some (.relational i (.text .contains v))
  | lacks i v => some (.relational i (.text .doesNotContain v))
  | derived i v i' v' =>
    if i' = i ∧ v' = v.push '.' then some (.relational i (.text .derivedFrom v)) else none
  | notNull i => some (.relational i (.presence true))
  | isNull i => some (.relational i (.presence false))

/-- The first character of every text a derivation derives. -/
def lead : SqlFilter → Char
  | always => 'T'
  | junction .. => '('
  | derived .. => '('
  | compare .. => '"'
  | notNull _ => '"'
  | isNull _ => '"'
  | contains .. => 's'
  | lacks .. => 's'

end SqlFilter

namespace SqlBody

variable {q : Char}

/-- A body ends at the first quote character that is not doubled: two bodies that are followed by
the quote character and then by anything but a second one are the same body. -/
theorem unique {b₁ b₂ v₁ v₂ r₁ r₂ : List Char} (h₁ : SqlBody q b₁ v₁) (h₂ : SqlBody q b₂ v₂)
    (h : b₁ ++ q :: r₁ = b₂ ++ q :: r₂) (hr₁ : r₁.head? ≠ some q) (hr₂ : r₂.head? ≠ some q) :
    b₁ = b₂ ∧ v₁ = v₂ := by
  induction h₁ generalizing b₂ v₂ with
  | nil =>
    cases h₂ with
    | nil => exact ⟨rfl, rfl⟩
    | plain hc _ => simp [Ne.symm hc] at h
    | doubled _ =>
      simp only [List.nil_append, List.cons_append, List.cons.injEq, true_and] at h
      simp [h] at hr₁
  | plain hc _ ih =>
    cases h₂ with
    | nil => simp [hc] at h
    | plain _ hb =>
      simp only [List.cons_append, List.cons.injEq] at h
      obtain ⟨rfl, h⟩ := h
      obtain ⟨rfl, rfl⟩ := ih hb h
      exact ⟨rfl, rfl⟩
    | doubled _ => simp [hc] at h
  | doubled _ ih =>
    cases h₂ with
    | nil =>
      simp only [List.nil_append, List.cons_append, List.cons.injEq, true_and] at h
      simp [← h] at hr₂
    | plain hc _ => simp [Ne.symm hc] at h
    | doubled hb =>
      simp only [List.cons_append, List.cons.injEq, true_and] at h
      obtain ⟨rfl, rfl⟩ := ih hb h
      exact ⟨rfl, rfl⟩

/-- Doubling the quote character writes a body standing for the text. -/
theorem doubleQuoteChar_body (v : List Char) : SqlBody q (doubleQuoteChar q v) v := by
  induction v with
  | nil => exact .nil
  | cons c v ih =>
    by_cases hc : c = q
    · subst hc
      simpa [doubleQuoteChar] using SqlBody.doubled ih
    · simpa [doubleQuoteChar, hc] using SqlBody.plain hc ih

end SqlBody

namespace SqlQuoted

variable {q : Char}

/-- A quoted token begins with its quote character. -/
theorem head {t : List Char} {v : String} (h : SqlQuoted q t v) : t.head? = some q := by
  obtain ⟨b, -, rfl⟩ := h
  rfl

/-- A quoted token followed by anything but its quote character is read in one way only. -/
theorem unique {t₁ t₂ r₁ r₂ : List Char} {v₁ v₂ : String} (h₁ : SqlQuoted q t₁ v₁)
    (h₂ : SqlQuoted q t₂ v₂) (h : t₁ ++ r₁ = t₂ ++ r₂) (hr₁ : r₁.head? ≠ some q)
    (hr₂ : r₂.head? ≠ some q) : t₁ = t₂ ∧ v₁ = v₂ ∧ r₁ = r₂ := by
  obtain ⟨b₁, hb₁, rfl⟩ := h₁
  obtain ⟨b₂, hb₂, rfl⟩ := h₂
  simp only [List.cons_append, List.append_assoc, List.nil_append, List.cons.injEq, true_and] at h
  obtain ⟨rfl, hv⟩ := hb₁.unique hb₂ h hr₁ hr₂
  refine ⟨rfl, String.toList_inj.1 hv, ?_⟩
  simpa using h

end SqlQuoted

/-- A property is written as a double-quoted token that stands for it. -/
theorem sqlIdentifier_quoted (p : String) : SqlQuoted '"' (sqlIdentifier p).toList p :=
  ⟨_, SqlBody.doubleQuoteChar_body p.toList, by simp [sqlIdentifier]⟩

/-- An operand is written as a single-quoted token that stands for it. -/
theorem sqlLiteral_quoted (v : String) : SqlQuoted '\'' (sqlLiteral v).toList v :=
  ⟨_, SqlBody.doubleQuoteChar_body v.toList, by simp [sqlLiteral]⟩

/-- A junction's word is read in one way only. -/
theorem SqlFilter.keyword_unique {j j' : Junction} {r r' : List Char}
    (h : (SqlFilter.keyword j).toList ++ r = (SqlFilter.keyword j').toList ++ r') :
    j = j' ∧ r = r' := by
  cases j <;> cases j' <;> simp [SqlFilter.keyword] at h ⊢ <;> exact h

/-- A junction's word begins with a space. -/
@[simp] theorem SqlFilter.head_keyword (j : Junction) :
    (SqlFilter.keyword j).toList.head? = some ' ' := by
  cases j <;> simp [SqlFilter.keyword]

/-- A comparison symbol followed by a blank is read in one way only. -/
theorem SqlComparison.symbol_unique {c c' : SqlComparison} {r r' : List Char}
    (h : c.symbol.toList ++ ' ' :: r = c'.symbol.toList ++ ' ' :: r') : c = c' ∧ r = r' := by
  cases c <;> cases c' <;> simp [SqlComparison.symbol] at h ⊢ <;> exact h

namespace SqlFilter.Spells

variable {d d₁ d₂ : SqlFilter} {t t₁ t₂ r₁ r₂ : List Char}

/-- The text of a derivation begins with the character its kind of filter begins with. -/
theorem head (h : d.Spells t) : t.head? = some d.lead := by
  cases h with
  | compare hi _ | notNull hi | isNull hi => simp [List.head?_append, hi.head, lead]
  | _ => simp [lead]

/-- Two derivations whose texts begin alike begin with the same character. -/
theorem lead_eq (h₁ : d₁.Spells t₁) (h₂ : d₂.Spells t₂) (h : t₁ ++ r₁ = t₂ ++ r₂) :
    d₁.lead = d₂.lead := by
  have hhead := congrArg List.head? h
  simpa [List.head?_append, h₁.head, h₂.head] using hhead

/-- No filter begins with starts_with, the second half of a derivedFrom test. -/
theorem ne_starts_with (h : d.Spells t) (r r' : List Char) :
    t ++ r ≠ "starts_with(".toList ++ r' := by
  intro heq
  have hhead := congrArg List.head? heq
  rw [List.head?_append, h.head] at hhead
  cases h <;> simp [lead] at hhead heq

/-- TRUE is the only derivation of its text. -/
theorem always_unique (h₁ : SqlFilter.always.Spells t₁) (h₂ : d.Spells t₂)
    (h : t₁ ++ r₁ = t₂ ++ r₂) : SqlFilter.always = d ∧ t₁ = t₂ := by
  have hlead := h₁.lead_eq h₂ h
  cases h₁
  cases h₂ <;> simp [lead] at hlead
  exact ⟨rfl, rfl⟩

/-- A comparison is the only derivation of its text, when what follows is not a single quote:
the identifier ends where its quotes close, then the symbol, then the literal. After the
identifier a symbol begins, where a null test would have IS. -/
theorem compare_unique {i v : String} {c : SqlComparison} (h₁ : (SqlFilter.compare i c v).Spells t₁)
    (h₂ : d.Spells t₂) (h : t₁ ++ r₁ = t₂ ++ r₂) (hr₁ : r₁.head? ≠ some '\'')
    (hr₂ : r₂.head? ≠ some '\'') : SqlFilter.compare i c v = d ∧ t₁ = t₂ := by
  have hlead := h₁.lead_eq h₂ h
  cases h₁ with
  | compare hi hv =>
    cases h₂ <;> simp [lead] at hlead <;> simp only [List.append_assoc, List.cons_append] at h
    case compare hi' hv' =>
      obtain ⟨rfl, rfl, hsymbol⟩ := hi.unique hi' h (by simp) (by simp)
      simp only [List.cons.injEq, true_and] at hsymbol
      obtain ⟨rfl, hliteral⟩ := SqlComparison.symbol_unique hsymbol
      obtain ⟨rfl, rfl, -⟩ := hv.unique hv' hliteral hr₁ hr₂
      exact ⟨rfl, rfl⟩
    case notNull hi' | isNull hi' =>
      obtain ⟨rfl, rfl, hrest⟩ := hi.unique hi' h (by simp) (by simp)
      cases c <;> simp [SqlComparison.symbol] at hrest

/-- A test that a column is not null is the only derivation of its text. -/
theorem notNull_unique {i : String} (h₁ : (SqlFilter.notNull i).Spells t₁) (h₂ : d.Spells t₂)
    (h : t₁ ++ r₁ = t₂ ++ r₂) (hr₁ : r₁.head? ≠ some '\'') (hr₂ : r₂.head? ≠ some '\'') :
    SqlFilter.notNull i = d ∧ t₁ = t₂ := by
  have hlead := h₁.lead_eq h₂ h
  cases h₂ <;> simp [lead] at hlead
  case compare hi' hv' => exact nomatch ((Spells.compare hi' hv').compare_unique h₁ h.symm hr₂ hr₁).1
  case notNull hi' =>
    cases h₁ with
    | notNull hi =>
      simp only [List.append_assoc] at h
      obtain ⟨rfl, rfl, -⟩ := hi.unique hi' h (by simp) (by simp)
      exact ⟨rfl, rfl⟩
  case isNull hi' =>
    cases h₁ with
    | notNull hi =>
      simp only [List.append_assoc] at h
      obtain ⟨rfl, rfl, hrest⟩ := hi.unique hi' h (by simp) (by simp)
      simp at hrest

/-- A test that a column is null is the only derivation of its text. -/
theorem isNull_unique {i : String} (h₁ : (SqlFilter.isNull i).Spells t₁) (h₂ : d.Spells t₂)
    (h : t₁ ++ r₁ = t₂ ++ r₂) (hr₁ : r₁.head? ≠ some '\'') (hr₂ : r₂.head? ≠ some '\'') :
    SqlFilter.isNull i = d ∧ t₁ = t₂ := by
  have hlead := h₁.lead_eq h₂ h
  cases h₂ <;> simp [lead] at hlead
  case compare hi' hv' => exact nomatch ((Spells.compare hi' hv').compare_unique h₁ h.symm hr₂ hr₁).1
  case notNull hi' => exact nomatch ((Spells.notNull hi').notNull_unique h₁ h.symm hr₂ hr₁).1
  case isNull hi' =>
    cases h₁ with
    | isNull hi =>
      simp only [List.append_assoc] at h
      obtain ⟨rfl, rfl, -⟩ := hi.unique hi' h (by simp) (by simp)
      exact ⟨rfl, rfl⟩

/-- A substring test is the only derivation of its text: the identifier and the literal end where
their quotes close, and the comparison with zero tells the two strpos tests apart. -/
theorem contains_unique {i v : String} (h₁ : (SqlFilter.contains i v).Spells t₁)
    (h₂ : d.Spells t₂) (h : t₁ ++ r₁ = t₂ ++ r₂) : SqlFilter.contains i v = d ∧ t₁ = t₂ := by
  have hlead := h₁.lead_eq h₂ h
  cases h₁ with
  | contains hi hv =>
    cases h₂ <;> simp [lead] at hlead <;> simp only [List.append_assoc] at h
    case contains hi' hv' =>
      obtain ⟨rfl, rfl, hliteral⟩ := hi.unique hi' (List.append_cancel_left h) (by simp) (by simp)
      obtain ⟨rfl, rfl, -⟩ := hv.unique hv' (List.append_cancel_left hliteral) (by simp) (by simp)
      exact ⟨rfl, rfl⟩
    case lacks hi' hv' =>
      obtain ⟨rfl, rfl, hliteral⟩ := hi.unique hi' (List.append_cancel_left h) (by simp) (by simp)
      obtain ⟨rfl, rfl, hrest⟩ :=
        hv.unique hv' (List.append_cancel_left hliteral) (by simp) (by simp)
      simp at hrest

/-- A test that a column lacks a substring is the only derivation of its text. -/
theorem lacks_unique {i v : String} (h₁ : (SqlFilter.lacks i v).Spells t₁) (h₂ : d.Spells t₂)
    (h : t₁ ++ r₁ = t₂ ++ r₂) : SqlFilter.lacks i v = d ∧ t₁ = t₂ := by
  have hlead := h₁.lead_eq h₂ h
  cases h₂ <;> simp [lead] at hlead
  case contains hi' hv' => exact nomatch ((Spells.contains hi' hv').contains_unique h₁ h.symm).1
  case lacks hi' hv' =>
    cases h₁ with
    | lacks hi hv =>
      simp only [List.append_assoc] at h
      obtain ⟨rfl, rfl, hliteral⟩ := hi.unique hi' (List.append_cancel_left h) (by simp) (by simp)
      obtain ⟨rfl, rfl, -⟩ := hv.unique hv' (List.append_cancel_left hliteral) (by simp) (by simp)
      exact ⟨rfl, rfl⟩

/-- A derivedFrom test is no junction. Read as one, its text would put the equality before OR on
the left, and on the right a filter beginning with starts_with. -/
theorem junction_ne_derived {j : Junction} {l r : SqlFilter} {i v i' v' : String}
    (h₁ : (SqlFilter.junction j l r).Spells t₁) (h₂ : (SqlFilter.derived i v i' v').Spells t₂) :
    t₁ ++ r₁ ≠ t₂ ++ r₂ := by
  intro h
  cases h₂ with
  | @derived _ _ _ _ ti tv ti' tv' hi hv hi' hv' =>
    cases h₁ with
    | @junction _ _ _ tl tr hl hr =>
      have hleft : (ti ++ ' ' :: SqlComparison.eq.symbol.toList ++ ' ' :: tv) ++
            (" OR starts_with(".toList ++ (ti' ++ (", ".toList ++ (tv' ++ ("))".toList ++ r₂))))) =
          tl ++ ((keyword j).toList ++ (tr ++ ')' :: r₁)) := by
        simpa [SqlComparison.symbol] using h.symm
      obtain ⟨-, hsame⟩ := (Spells.compare hi hv).compare_unique hl hleft (by simp) (by simp)
      rw [← hsame] at hleft
      have hword := List.append_cancel_left hleft
      cases j with
      | and => simp [keyword] at hword
      | or =>
        have hright : tr ++ ')' :: r₁ =
            "starts_with(".toList ++ (ti' ++ (", ".toList ++ (tv' ++ ("))".toList ++ r₂)))) := by
          simpa [keyword] using hword.symm
        exact hr.ne_starts_with _ _ hright

/-- A derivedFrom test is the only derivation of its text: its four quoted tokens are read one
after another, each ending where its quotes close. -/
theorem derived_unique {i v i' v' : String} (h₁ : (SqlFilter.derived i v i' v').Spells t₁)
    (h₂ : d.Spells t₂) (h : t₁ ++ r₁ = t₂ ++ r₂) : SqlFilter.derived i v i' v' = d ∧ t₁ = t₂ := by
  have hlead := h₁.lead_eq h₂ h
  cases h₂ <;> simp [lead] at hlead
  case junction hl hr => exact absurd h.symm (junction_ne_derived (.junction hl hr) h₁)
  case derived hi₂ hv₂ hi₂' hv₂' =>
    cases h₁ with
    | derived hi hv hi' hv' =>
      simp only [List.cons_append, List.append_assoc, List.cons.injEq, true_and] at h
      obtain ⟨rfl, rfl, h₃⟩ := hi.unique hi₂ h (by simp) (by simp)
      obtain ⟨rfl, rfl, h₄⟩ := hv.unique hv₂ (List.append_cancel_left h₃) (by simp) (by simp)
      obtain ⟨rfl, rfl, h₅⟩ := hi'.unique hi₂' (List.append_cancel_left h₄) (by simp) (by simp)
      obtain ⟨rfl, rfl, -⟩ := hv'.unique hv₂' (List.append_cancel_left h₅) (by simp) (by simp)
      exact ⟨rfl, rfl⟩

/-- Two derivations whose texts agree up to what follows them, when that is not a single quote,
are the same derivation of the same text. Of two junctions, the left filters end at the same
place, then the words agree, then the right filters. -/
theorem unique (h₁ : d₁.Spells t₁) (h₂ : d₂.Spells t₂) (h : t₁ ++ r₁ = t₂ ++ r₂)
    (hr₁ : r₁.head? ≠ some '\'') (hr₂ : r₂.head? ≠ some '\'') : d₁ = d₂ ∧ t₁ = t₂ := by
  induction d₁ generalizing d₂ t₁ t₂ r₁ r₂ with
  | always => exact h₁.always_unique h₂ h
  | compare => exact h₁.compare_unique h₂ h hr₁ hr₂
  | contains => exact h₁.contains_unique h₂ h
  | lacks => exact h₁.lacks_unique h₂ h
  | derived => exact h₁.derived_unique h₂ h
  | notNull => exact h₁.notNull_unique h₂ h hr₁ hr₂
  | isNull => exact h₁.isNull_unique h₂ h hr₁ hr₂
  | junction j l r ihl ihr =>
    have hlead := h₁.lead_eq h₂ h
    cases h₂ <;> simp [lead] at hlead
    case derived hi hv hi' hv' => exact absurd h (junction_ne_derived h₁ (.derived hi hv hi' hv'))
    case junction hl' hr' =>
      cases h₁ with
      | junction hl hr =>
        simp only [List.cons_append, List.append_assoc, List.nil_append, List.cons.injEq,
          true_and] at h
        obtain ⟨rfl, rfl⟩ := ihl hl hl' h (by simp) (by simp)
        obtain ⟨rfl, hright⟩ := keyword_unique (List.append_cancel_left h)
        obtain ⟨rfl, rfl⟩ := ihr hr hr' hright (by simp) (by simp)
        exact ⟨rfl, rfl⟩

/-- A text has at most one derivation. -/
theorem eq_of_spells (h₁ : d₁.Spells t) (h₂ : d₂.Spells t) : d₁ = d₂ := by
  have h : t ++ [] = t ++ [] := rfl
  exact (h₁.unique h₂ h (by simp) (by simp)).1

end SqlFilter.Spells

/-- The text written for a comparison derives the comparison. -/
theorem sqlCompare_spells (p v : String) (c : SqlComparison) :
    (SqlFilter.compare p c v).Spells (sqlCompare p c.symbol v).toList := by
  simpa [sqlCompare] using
    SqlFilter.Spells.compare (c := c) (sqlIdentifier_quoted p) (sqlLiteral_quoted v)

/-- The text written for a relational expression has a derivation that decodes to it. For
derivedFrom, the second identifier repeats the property and the second literal adds a dot to the
operand. -/
theorem Relation.toSql_spells (p : String) (r : Relation) :
    ∃ d : SqlFilter, d.Spells (r.toSql p).toList ∧ d.decode = some (.relational p r) := by
  have hi := sqlIdentifier_quoted p
  cases r with
  | presence present =>
    cases present with
    | true => exact ⟨.notNull p, by simpa [Relation.toSql] using SqlFilter.Spells.notNull hi, rfl⟩
    | false => exact ⟨.isNull p, by simpa [Relation.toSql] using SqlFilter.Spells.isNull hi, rfl⟩
  | text op v =>
    have hv := sqlLiteral_quoted v
    cases op with
    | equals => exact ⟨.compare p .eq v, sqlCompare_spells p v .eq, rfl⟩
    | notEquals => exact ⟨.compare p .ne v, sqlCompare_spells p v .ne, rfl⟩
    | lessThan => exact ⟨.compare p .lt v, sqlCompare_spells p v .lt, rfl⟩
    | lessOrEqual => exact ⟨.compare p .le v, sqlCompare_spells p v .le, rfl⟩
    | greaterThan => exact ⟨.compare p .gt v, sqlCompare_spells p v .gt, rfl⟩
    | greaterOrEqual => exact ⟨.compare p .ge v, sqlCompare_spells p v .ge, rfl⟩
    | contains =>
      exact ⟨.contains p v, by simpa [Relation.toSql] using SqlFilter.Spells.contains hi hv, rfl⟩
    | doesNotContain =>
      exact ⟨.lacks p v, by simpa [Relation.toSql] using SqlFilter.Spells.lacks hi hv, rfl⟩
    | derivedFrom =>
      refine ⟨.derived p v p (v.push '.'), ?_, by simp [SqlFilter.decode]⟩
      simpa [Relation.toSql] using
        SqlFilter.Spells.derived hi hv hi (sqlLiteral_quoted (v.push '.'))

/-- The text written for a query has a derivation that decodes to the query. -/
theorem Query.toSql_spells (q : Query) :
    ∃ d : SqlFilter, d.Spells q.toSql.toList ∧ d.decode = some q := by
  induction q with
  | allResults => exact ⟨.always, by simpa [Query.toSql] using SqlFilter.Spells.always, rfl⟩
  | relational p r => exact r.toSql_spells p
  | join j l r ihl ihr =>
    obtain ⟨dl, hl, hdl⟩ := ihl
    obtain ⟨dr, hr, hdr⟩ := ihr
    refine ⟨.junction j dl dr, ?_, by simp [SqlFilter.decode, hdl, hdr]⟩
    have hjunction := SqlFilter.Spells.junction (j := j) hl hr
    cases j <;> simpa [Query.toSql, Junction.sqlKeyword, SqlFilter.keyword] using hjunction

/-- The text written for a query has exactly one derivation in the grammar of SQL filters, and
that derivation decodes to the query. So two queries are written alike only when they are equal,
since both texts have the one derivation and it decodes to each query, and no character of a
property or an operand stands outside its quoted identifier or literal. -/
theorem Query.toSql_derivation_unique :
    (∀ q : Query, ∃ d : SqlFilter,
      (∀ d', d'.Spells q.toSql.toList ↔ d' = d) ∧ d.decode = some q) ∧
      ∀ q q' : Query, q.toSql = q'.toSql ↔ q = q' := by
  constructor
  · intro q
    obtain ⟨d, hd, hdecode⟩ := q.toSql_spells
    refine ⟨d, fun d' => ⟨fun hd' => hd'.eq_of_spells hd, ?_⟩, hdecode⟩
    rintro rfl
    exact hd
  · intro q q'
    refine ⟨fun h => ?_, fun h => h ▸ rfl⟩
    obtain ⟨d, hd, hdecode⟩ := q.toSql_spells
    obtain ⟨d', hd', hdecode'⟩ := q'.toSql_spells
    rw [h] at hd
    rw [hd.eq_of_spells hd', hdecode'] at hdecode
    exact (Option.some.inj hdecode).symm

example :
    (Query.relational "a" (.text .derivedFrom "x")).toSql =
      "(\"a\" = 'x' OR starts_with(\"a\", 'x.'))" := by
  decide

end SearchCriteria

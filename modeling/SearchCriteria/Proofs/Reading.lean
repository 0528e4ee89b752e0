import SearchCriteria.Proofs.Soundness

/-!
# What the reader accepts, and what it reads

The reader accepts exactly the criteria text of the grammar that stays within the limits
(`Query.parse_ok_iff_admissible`), and reads an accepted expression as the one tree that
precedence climbing builds from the tokens of the text, whichever derivation of the text gives
them (`Query.parse_eq_climb`). The two directions meet here: the reader accepts only text of the
grammar (`Query.parse_sound`), and it reads every derivation within the limits as the token
reader's tree (`Text.parse_eq`), which is the climbing tree (`Climb.read`).
-/

namespace SearchCriteria

variable {limits : Limits}

/-- In an expression that a reader has begun, the first property does not start with an
asterisk. -/
theorem Text.starFree {n : Nat} {s : List Char} {ts : List Token} (ht : Text n s ts)
    (hlead : Lead s) : StarFree ts := by
  obtain ⟨w₁, e, w₂, hw₁, he, -, rfl⟩ := ht
  obtain ⟨c, hc, hstar⟩ := hlead
  obtain ⟨p, hp, hfirst⟩ := he.leadChar_append w₂
  intro p' hp'
  rw [hp] at hp'
  cases hp'
  rw [List.append_assoc, leadChar_blanks_append hw₁, hfirst] at hc
  rw [hc]
  simpa using hstar

/-- The limits hold over a derivation exactly when its parentheses nest no deeper than allowed
and it has at most `max 1 maxTerms` relational expressions. -/
theorem Text.fits_iff {n : Nat} {s : List Char} {ts : List Token} (ht : Text n s ts) :
    Fits limits {} n ts ↔
      n ≤ limits.maxNestingDepth ∧ ts.countP Token.isLeaf ≤ max 1 limits.maxTerms := by
  obtain ⟨-, e, -, -, he, -, -⟩ := ht
  exact he.fits_iff

/-- Every derivation of an expression climbs to a tree. -/
theorem Text.climb {n : Nat} {s : List Char} {ts : List Token} (ht : Text n s ts) :
    ∃ q, Climb .disjunction ts q := by
  obtain ⟨-, e, -, -, he, -, -⟩ := ht
  exact he.climb

/-- A derivation of a text that the reader accepts stays within the limits. -/
theorem Text.fits_of_parse {n : Nat} {s : String} {ts : List Token} {q : Query}
    (ht : Text n s.toList ts) (hstar : StarFree ts) (h : Query.parse limits s = .ok q) :
    Fits limits {} n ts := by
  by_cases hfits : Fits limits {} n ts
  · exact hfits
  · obtain ⟨err, herr⟩ := ht.parse_error hstar hfits
    rw [h] at herr
    cases herr

/-- The reader accepts exactly the criteria text of the grammar within the limits: the wildcard
between blanks, or an expression between blanks whose first property does not start with an
asterisk, whose parentheses nest at most `maxNestingDepth` deep and which has at most
`max 1 maxTerms` relational expressions. -/
theorem Query.parse_ok_iff_admissible (limits : Limits) (s : String) :
    (∃ q, Query.parse limits s = .ok q) ↔ Admissible limits s.toList := by
  constructor
  · rintro ⟨q, h⟩
    rcases Query.parse_sound h with ⟨-, hwild⟩ | ⟨hlead, n, ts, ht⟩
    · exact .inl hwild
    · have hstar := ht.starFree hlead
      exact .inr ⟨n, ts, ht, hstar, ht.fits_iff.1 (ht.fits_of_parse hstar h)⟩
  · rintro (hwild | ⟨n, ts, ht, hstar, hdepth, hterms⟩)
    · exact ⟨_, hwild.parse_eq⟩
    · exact ⟨_, ht.parse_eq hstar (ht.fits_iff.2 ⟨hdepth, hterms⟩)⟩

/-- Under every derivation of a text the reader accepts, the tokens climb to the reader's
answer: that answer is what reading the derivation's tokens gives, and that is the climbing
tree. -/
theorem Text.climb_of_parse {n : Nat} {s : String} {ts : List Token} {q : Query}
    (ht : Text n s.toList ts) (hlead : Lead s.toList) (h : Query.parse limits s = .ok q) :
    Climb .disjunction ts q := by
  have hstar := ht.starFree hlead
  have hread := ht.parse_eq hstar (ht.fits_of_parse hstar h)
  rw [h] at hread
  obtain ⟨q₀, hclimb⟩ := ht.climb
  have hq₀ : q = q₀ := by
    cases hread
    exact hclimb.read
  rw [hq₀]
  exact hclimb

/-- An accepted text other than the wildcard has a derivation, and under every derivation the
reader's answer is the one tree that precedence climbing builds from the derivation's tokens:
disjunctions of conjunctions of primaries, each chain folded to the left. -/
theorem Query.parse_eq_climb {s : String} {q : Query} (h : Query.parse limits s = .ok q)
    (hq : q ≠ .allResults) :
    (∃ n ts, Text n s.toList ts) ∧
      ∀ n ts, Text n s.toList ts → ∀ q', Climb .disjunction ts q' ↔ q' = q := by
  rcases Query.parse_sound h with ⟨hall, -⟩ | ⟨hlead, n, ts, ht⟩
  · exact absurd hall hq
  refine ⟨⟨n, ts, ht⟩, fun n' ts' ht' q' => ?_⟩
  have hclimb := ht'.climb_of_parse hlead h
  constructor
  · intro hq'
    exact Climb.unique hq' hclimb
  · rintro rfl
    exact hclimb

/-- Read with the default limits, a conjunction after a disjunction binds tighter, and that tree
is the only one precedence climbing builds from the text. -/
theorem Query.parse_or_and_climb :
    Query.parse {} "a = \"x\" or b = \"y\" and c = \"z\"" =
        .ok (.join .or (.relational "a" (.text .equals "x"))
          (.join .and (.relational "b" (.text .equals "y"))
            (.relational "c" (.text .equals "z")))) ∧
      (∃ n ts, Text n "a = \"x\" or b = \"y\" and c = \"z\"".toList ts) ∧
      ∀ n ts, Text n "a = \"x\" or b = \"y\" and c = \"z\"".toList ts →
        ∀ q', Climb .disjunction ts q' ↔
          q' = .join .or (.relational "a" (.text .equals "x"))
            (.join .and (.relational "b" (.text .equals "y"))
              (.relational "c" (.text .equals "z"))) := by
  have h : Query.parse {} "a = \"x\" or b = \"y\" and c = \"z\"" =
      .ok (.join .or (.relational "a" (.text .equals "x"))
        (.join .and (.relational "b" (.text .equals "y"))
          (.relational "c" (.text .equals "z")))) := by
    rfl
  exact ⟨h, Query.parse_eq_climb h (by decide)⟩

end SearchCriteria

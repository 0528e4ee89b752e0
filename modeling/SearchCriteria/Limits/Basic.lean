/-!
# Reading limits

Two limits bound a reading of criteria text: how deeply parentheses may nest, and how many
relational expressions one query may combine with junctions. A junction chain of n expressions is
a tree n - 1 levels deep, so the second limit also bounds the depth of every tree that is read.
-/

namespace SearchCriteria

/-- The limits of one reading. -/
structure Limits where
  /-- The deepest parenthesis nesting accepted. -/
  maxNestingDepth : Nat := 64
  /-- The most relational expressions one query may combine. -/
  maxTerms : Nat := 1024
  deriving DecidableEq, Repr

/-- Limits are inhabited by the defaults. -/
instance : Inhabited Limits := ⟨{}⟩

end SearchCriteria

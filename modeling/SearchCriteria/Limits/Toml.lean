import SearchCriteria.Limits.Basic
import SearchCriteria.Toml.Document

/-!
# Limits files

Limits are kept in a TOML file with two keys of the root table, `max_nesting_depth` and
`max_terms`. A missing key keeps its default, other keys and tables are ignored, and each of the
two keys, when present, must be a non-negative integer. Writing the limits gives the two keys in
that order, one per line.
-/

namespace SearchCriteria

/-- Why a limits file is refused. -/
inductive LimitsError where
  /-- The file is not a TOML document. -/
  | toml (e : Toml.TomlError)
  /-- A limit that is not a non-negative integer. -/
  | notCount (key : String)
  deriving DecidableEq, Repr

namespace Limits

/-- The value of a limit in a root table, or `default` where the key is missing. -/
def countIn (root : Toml.Entries) (key : String) (default : Nat) : Except LimitsError Nat :=
  match root.lookup key with
  | none => .ok default
  | some (.integer n) => if 0 ≤ n then .ok n.toNat else .error (.notCount key)
  | some _ => .error (.notCount key)

/-- The limits that a TOML text sets. -/
def ofToml (text : String) : Except LimitsError Limits := do
  let root ← (Toml.parse text).mapError LimitsError.toml
  let depth ← countIn root "max_nesting_depth" 64
  let terms ← countIn root "max_terms" 1024
  return ⟨depth, terms⟩

/-- The limits of a file's text, or the defaults where there is no file. -/
def load : Option String → Except LimitsError Limits
  | none => .ok {}
  | some text => ofToml text

/-- The limits as TOML text. -/
def toToml (l : Limits) : String :=
  "max_nesting_depth = " ++ toString l.maxNestingDepth ++ "\nmax_terms = " ++
    toString l.maxTerms ++ "\n"

end Limits

end SearchCriteria

/-!
# Blanks

Criteria text separates its tokens by runs of six blank characters: space, horizontal tab,
line feed, vertical tab, form feed and carriage return. The class is the text format's own;
core's whitespace test knows only four of the six, and no character beyond ASCII is blank.
-/

namespace SearchCriteria

/-- The six characters that separate tokens of criteria text: tab, line feed, vertical tab,
form feed, carriage return and space. -/
def blanks : List Char := ['\t', '\n', '\x0b', '\x0c', '\r', ' ']

/-- A blank separates tokens of criteria text. -/
def isBlank (c : Char) : Bool := blanks.contains c

/-- A character is blank exactly when it is one of the six blanks. -/
@[simp] theorem isBlank_eq_true_iff (c : Char) : isBlank c = true ↔ c ∈ blanks := by
  simp [isBlank]

example : isBlank '\x0b' = true ∧ isBlank ' ' = true ∧ isBlank 'a' = false := by decide

end SearchCriteria

import SearchCriteria.Toml.Value

/-!
# TOML numbers, booleans and dates

A scalar that is not a string is written as one token: a run of letters, digits and the marks
`_ + - . :`. The token is then told apart by its shape. Integers are decimal, or hexadecimal,
octal or binary after a prefix; underscores stand only between digits; a decimal integer has no
leading zero; every integer fits in 64 bits. A float has a fraction, an exponent or both, or is
inf or nan with an optional sign, and a float too large for a double is refused. Dates and times
have fixed-width fields within their calendar ranges.
-/

namespace SearchCriteria.Toml

/-- A character that may stand in a scalar token. -/
def isTokenChar (c : Char) : Bool :=
  c.isAlphanum || c == '_' || c == '+' || c == '-' || c == '.' || c == ':'

/-- The digits of a run in which underscores stand only between two digits that satisfy
`digit`; none if the run is empty or breaks the rule. -/
def underscored (digit : Char → Bool) : List Char → Option (List Char)
  | [] => none
  | c :: cs => if digit c then go [c] cs else none
where
  /-- The digits after the first, most recent first in `acc`. -/
  go (acc : List Char) : List Char → Option (List Char)
    | [] => some acc.reverse
    | '_' :: c :: cs => if digit c then go (c :: acc) cs else none
    | c :: cs => if digit c then go (c :: acc) cs else none

/-- The value of decimal digits read in a base of at most ten. -/
def digitsValue (base : Nat) (ds : List Char) : Nat :=
  ds.foldl (fun acc c => acc * base + (c.toNat - '0'.toNat)) 0

/-- The digits of an unsigned decimal integer: no leading zero unless it is zero itself. -/
def decimalDigits (cs : List Char) : Option (List Char) := do
  let ds ← underscored Char.isDigit cs
  if ds.head? = some '0' ∧ cs ≠ ['0'] then none else some ds

/-- Split off an optional sign: whether it is a minus, and the rest. -/
def splitSign : List Char → Bool × List Char
  | '+' :: r => (false, r)
  | '-' :: r => (true, r)
  | cs => (false, cs)

/-- The integers of 64 bits: from -2^63 to 2^63 - 1. -/
def inInt64 (n : Int) : Bool := -9223372036854775808 ≤ n ∧ n < 9223372036854775808

/-- The value of an integer token, if the token has the shape of one. -/
def integerValue? (tok : List Char) : Option Int :=
  match tok with
  | '0' :: 'x' :: r => (underscored (fun c => c.isDigit || ('a' ≤ c && c ≤ 'f') ||
      ('A' ≤ c && c ≤ 'F')) r).map fun ds => (hexDigits ds : Int)
  | '0' :: 'o' :: r => (underscored (fun c => '0' ≤ c && c ≤ '7') r).map fun ds =>
      (digitsValue 8 ds : Int)
  | '0' :: 'b' :: r => (underscored (fun c => c == '0' || c == '1') r).map fun ds =>
      (digitsValue 2 ds : Int)
  | _ =>
    let (negative, r) := splitSign tok
    (decimalDigits r).map fun ds =>
      let n : Int := digitsValue 10 ds
      if negative then -n else n
where
  /-- The value of hexadecimal digits of either case. -/
  hexDigits (ds : List Char) : Nat :=
    ds.foldl (fun acc c => acc * 16 + hexDigit c) 0
  /-- The value of one hexadecimal digit. -/
  hexDigit (c : Char) : Nat :=
    if c.isDigit then c.toNat - '0'.toNat
    else if 'a' ≤ c ∧ c ≤ 'f' then c.toNat - 'a'.toNat + 10
    else c.toNat - 'A'.toNat + 10

/-- The decimal digits and the power of ten of a float token without sign, if the token has the
shape of a float with a fraction or an exponent. -/
def floatParts? (tok : List Char) : Option (List Char × Int) := do
  let isMark := fun c => c == '.' || c == 'e' || c == 'E'
  let whole ← decimalDigits (tok.takeWhile (fun c => !isMark c))
  match tok.dropWhile (fun c => !isMark c) with
  | '.' :: r =>
    let isExp := fun c => c == 'e' || c == 'E'
    let frac ← underscored Char.isDigit (r.takeWhile (fun c => !isExp c))
    match r.dropWhile (fun c => !isExp c) with
    | [] => some (whole ++ frac, -(frac.length : Int))
    | _ :: e => do
      let p ← exponent? e
      some (whole ++ frac, p - frac.length)
  | _ :: e => do
    let p ← exponent? e
    some (whole, p)
  | [] => none
where
  /-- The value of an exponent with an optional sign. -/
  exponent? (e : List Char) : Option Int :=
    let (negative, r) := splitSign e
    (underscored Char.isDigit r).map fun ds =>
      let n : Int := digitsValue 10 ds
      if negative then -n else n

/-- Whether the decimal `digits · 10 ^ power` rounds to infinity as a double: it is at least
halfway between the largest double and `2 ^ 1024`, that is at least `2 ^ 1024 - 2 ^ 970`. A value
of `size` significant digits lies in `[10 ^ (size + power - 1), 10 ^ (size + power))`, so the
number of its digits before the point decides all but the values near the threshold. -/
def overflowsDouble (digits : List Char) (power : Int) : Bool :=
  let m := digitsValue 10 digits
  let threshold := Nat.pow 2 1024 - Nat.pow 2 970
  if m = 0 then false
  else
    let magnitude := Int.ofNat (Nat.toDigits 10 m).length + power
    if magnitude ≤ 308 then false
    else if 310 ≤ magnitude then true
    else if 0 ≤ power then threshold ≤ m * Nat.pow 10 power.toNat
    else threshold * Nat.pow 10 (-power).toNat ≤ m

/-- Exactly `n` decimal digits, their value and the rest. -/
def fixedDigits : Nat → List Char → Option (Nat × List Char)
  | 0, cs => some (0, cs)
  | n + 1, c :: cs =>
    if c.isDigit then
      (fixedDigits n cs).map fun (v, rest) => (v + (c.toNat - '0'.toNat) * 10 ^ n, rest)
    else none
  | _ + 1, [] => none

/-- Whether a year is a leap year of the Gregorian calendar. -/
def isLeapYear (y : Nat) : Bool := y % 4 == 0 && (y % 100 != 0 || y % 400 == 0)

/-- The number of days of a month. -/
def daysInMonth (y m : Nat) : Nat :=
  if m = 2 then (if isLeapYear y then 29 else 28)
  else if m = 4 ∨ m = 6 ∨ m = 9 ∨ m = 11 then 30 else 31

/-- A date `YYYY-MM-DD` within the calendar, and the rest. -/
def readDate (cs : List Char) : Option (List Char) := do
  let (y, cs) ← fixedDigits 4 cs
  let cs ← match cs with
    | '-' :: r => some r
    | _ => none
  let (m, cs) ← fixedDigits 2 cs
  let cs ← match cs with
    | '-' :: r => some r
    | _ => none
  let (d, cs) ← fixedDigits 2 cs
  if 1 ≤ m ∧ m ≤ 12 ∧ 1 ≤ d ∧ d ≤ daysInMonth y m then some cs else none

/-- A time `HH:MM:SS` with an optional fraction of a second, and the rest. -/
def readTime (cs : List Char) : Option (List Char) := do
  let (h, cs) ← fixedDigits 2 cs
  let cs ← match cs with
    | ':' :: r => some r
    | _ => none
  let (m, cs) ← fixedDigits 2 cs
  let cs ← match cs with
    | ':' :: r => some r
    | _ => none
  let (s, cs) ← fixedDigits 2 cs
  if h ≤ 23 ∧ m ≤ 59 ∧ s ≤ 60 then
    match cs with
    | '.' :: r =>
      let frac := r.takeWhile Char.isDigit
      if frac.isEmpty then none else some (r.dropWhile Char.isDigit)
    | _ => some cs
  else none

/-- A time offset: Z, or a sign with hours and minutes. -/
def isOffset : List Char → Bool
  | ['Z'] | ['z'] => true
  | sign :: cs =>
    (sign == '+' || sign == '-') &&
      match fixedDigits 2 cs with
      | some (h, ':' :: r) =>
        match fixedDigits 2 r with
        | some (m, []) => h ≤ 23 && m ≤ 59
        | _ => false
      | _ => false
  | [] => false

/-- Whether a token is a date, a time, a date with a time, or a date with a time and an offset;
the date and the time are joined by T, t or (already replaced) a space. -/
def isDatetime (tok : List Char) : Bool :=
  match readDate tok with
  | some [] => true
  | some (t :: rest) =>
    (t == 'T' || t == 't') &&
      match readTime rest with
      | some [] => true
      | some offset => isOffset offset
      | none => false
  | none =>
    match readTime tok with
    | some [] => true
    | _ => false

/-- The value of a scalar token. -/
def scalarValue (tok : List Char) : Except TomlError Value :=
  if tok = "true".toList then .ok (.boolean true)
  else if tok = "false".toList then .ok (.boolean false)
  else if (splitSign tok).2 = "inf".toList ∨ (splitSign tok).2 = "nan".toList then .ok .float
  else if isDatetime tok then .ok .datetime
  else match integerValue? tok with
    | some n => if inInt64 n then .ok (.integer n) else .error .outOfRange
    | none =>
      let (negative, r) := splitSign tok
      match floatParts? r with
      | some (digits, power) =>
        if !negative && overflowsDouble digits power then .error .outOfRange else .ok .float
      | none => .error .malformed

end SearchCriteria.Toml

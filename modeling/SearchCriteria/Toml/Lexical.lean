import SearchCriteria.Toml.Value

/-!
# TOML lexical rules

Blanks, comments, line ends, keys and the four kinds of string. Every reader here takes the rest
of the text and returns what it read with the rest after it. Control characters other than tab
may stand in no comment and no string; a line ends with a line feed or a carriage return and a
line feed.
-/

namespace SearchCriteria.Toml

/-- Space and tab separate the parts of a line. -/
def isSpace (c : Char) : Bool := c == ' ' || c == '\t'

/-- Skip spaces and tabs. -/
def skipSpaces (cs : List Char) : List Char := cs.dropWhile isSpace

/-- A character that may stand in a comment or a string: tab, printable ASCII, or beyond ASCII. -/
def isTextChar (c : Char) : Bool := c == '\t' || (' ' ≤ c && c ≤ '~') || c.toNat ≥ 0x80

/-- Skip the body of a comment, up to the line end. -/
def skipComment : List Char → Except TomlError (List Char)
  | [] => .ok []
  | '\n' :: cs => .ok ('\n' :: cs)
  | '\r' :: cs => .ok ('\r' :: cs)
  | c :: cs => if isTextChar c then skipComment cs else .error .malformed

/-- The end of a line after its content: spaces, an optional comment, then a line end or the end
of the text. -/
def lineEnd (cs : List Char) : Except TomlError (List Char) := do
  let cs := skipSpaces cs
  let cs ← match cs with
    | '#' :: r => skipComment r
    | _ => pure cs
  match cs with
  | [] => pure []
  | '\n' :: r => pure r
  | '\r' :: '\n' :: r => pure r
  | _ => .error .malformed

/-- A character of a bare key: ASCII letter, digit, hyphen or underscore. -/
def isBareKeyChar (c : Char) : Bool := c.isAlphanum || c == '-' || c == '_'

/-- The value of a hexadecimal digit. -/
def hexValue? (c : Char) : Option Nat :=
  if '0' ≤ c ∧ c ≤ '9' then some (c.toNat - '0'.toNat)
  else if 'a' ≤ c ∧ c ≤ 'f' then some (c.toNat - 'a'.toNat + 10)
  else if 'A' ≤ c ∧ c ≤ 'F' then some (c.toNat - 'A'.toNat + 10)
  else none

/-- The character with the code point that hexadecimal digits spell, if it is a Unicode scalar
value. -/
def unicodeEscape? (digits : List Char) : Option Char := do
  let n ← digits.foldlM (fun acc c => (hexValue? c).map (acc * 16 + ·)) 0
  if n < 0xD800 ∨ (0xDFFF < n ∧ n ≤ 0x10FFFF) then some (Char.ofNat n) else none

/-- The character that a one-letter escape of a basic string stands for. -/
def simpleEscape? : Char → Option Char
  | 'b' => some '\x08'
  | 't' => some '\t'
  | 'n' => some '\n'
  | 'f' => some '\x0c'
  | 'r' => some '\r'
  | '"' => some '"'
  | '\\' => some '\\'
  | _ => none

/-- Read an escape after its backslash, then go on with `k` from the rest. -/
def withEscape (k : Char → List Char → Except TomlError (String × List Char)) : List Char → Except TomlError (String × List Char)
  | 'u' :: a :: b :: c :: d :: r =>
    match unicodeEscape? [a, b, c, d] with
    | some ch => k ch r
    | none => .error .malformed
  | 'U' :: a :: b :: c :: d :: e :: f :: g :: h :: r =>
    match unicodeEscape? [a, b, c, d, e, f, g, h] with
    | some ch => k ch r
    | none => .error .malformed
  | e :: r =>
    match simpleEscape? e with
    | some ch => k ch r
    | none => .error .malformed
  | [] => .error .malformed

/-- The body of a basic string after its opening quote, up to and without its closing quote. -/
def readBasic (acc : String) : List Char → Except TomlError (String × List Char)
  | [] => .error .malformed
  | '"' :: r => .ok (acc, r)
  | '\\' :: 'u' :: a :: b :: c :: d :: r =>
    match unicodeEscape? [a, b, c, d] with
    | some ch => readBasic (acc.push ch) r
    | none => .error .malformed
  | '\\' :: 'U' :: a :: b :: c :: d :: e :: f :: g :: h :: r =>
    match unicodeEscape? [a, b, c, d, e, f, g, h] with
    | some ch => readBasic (acc.push ch) r
    | none => .error .malformed
  | '\\' :: e :: r =>
    match simpleEscape? e with
    | some ch => readBasic (acc.push ch) r
    | none => .error .malformed
  | c :: r => if isTextChar c ∧ c ≠ '\\' then readBasic (acc.push c) r else .error .malformed

/-- The body of a literal string after its opening apostrophe. -/
def readLiteral (acc : String) : List Char → Except TomlError (String × List Char)
  | [] => .error .malformed
  | '\'' :: r => .ok (acc, r)
  | c :: r => if isTextChar c then readLiteral (acc.push c) r else .error .malformed

/-- Skip a line end at the start of a multi-line string. -/
def dropFirstNewline : List Char → List Char
  | '\n' :: r => r
  | '\r' :: '\n' :: r => r
  | cs => cs

/-- Skip blanks and line ends after a backslash that ends a line in a multi-line basic string;
none if no line end follows the blanks. -/
def joinLines (cs : List Char) : Option (List Char) :=
  match skipSpaces cs with
  | '\n' :: r => some (skipBlankLines r)
  | '\r' :: '\n' :: r => some (skipBlankLines r)
  | _ => none
where
  /-- Skip blanks and line ends. -/
  skipBlankLines : List Char → List Char
    | ' ' :: r => skipBlankLines r
    | '\t' :: r => skipBlankLines r
    | '\n' :: r => skipBlankLines r
    | '\r' :: '\n' :: r => skipBlankLines r
    | cs => cs

/-- The body of a multi-line string after its opening delimiter: three `q` close it, and up to two
more `q` right before the delimiter belong to the body. A backslash escapes only in basic strings,
where a backslash at the end of a line also joins it to the next non-blank character. Each
character read spends one unit of `fuel`. -/
def readMultiline (q : Char) (basic : Bool) : Nat → String → List Char → Except TomlError (String × List Char)
  | 0, _, _ => .error .malformed
  | _ + 1, _, [] => .error .malformed
  | fuel + 1, acc, c :: r =>
    if c = q then
      match r with
      | d :: e :: rest =>
        if d = q ∧ e = q then
          match rest with
          | f :: g :: rest' =>
            if f = q ∧ g = q then .ok ((acc.push q).push q, rest')
            else if f = q then .ok (acc.push q, g :: rest')
            else .ok (acc, f :: g :: rest')
          | [f] => if f = q then .ok (acc.push q, []) else .ok (acc, [f])
          | [] => .ok (acc, [])
        else readMultiline q basic fuel (acc.push c) r
      | _ => readMultiline q basic fuel (acc.push c) r
    else if c = '\\' ∧ basic then
      match joinLines r with
      | some rest => readMultiline q basic fuel acc rest
      | none => withEscape (fun ch rest => readMultiline q basic fuel (acc.push ch) rest) r
    else if c = '\n' then readMultiline q basic fuel (acc.push c) r
    else if c = '\r' then
      match r with
      | '\n' :: rest => readMultiline q basic fuel (acc.push '\n') rest
      | _ => .error .malformed
    else if isTextChar c then readMultiline q basic fuel (acc.push c) r
    else .error .malformed

/-- One part of a key: bare, or a single-line basic or literal string. -/
def readSimpleKey : List Char → Except TomlError (String × List Char)
  | '"' :: r => readBasic "" r
  | '\'' :: r => readLiteral "" r
  | cs =>
    let bare := cs.takeWhile isBareKeyChar
    if bare.isEmpty then .error .malformed else .ok (String.ofList bare, cs.dropWhile isBareKeyChar)

/-- The parts of a key joined by dots, blanks allowed around each dot; each part spends one unit
of `fuel`. -/
def readKey (fuel : Nat) (cs : List Char) : Except TomlError ((List String) × List Char) := do
  let (k, rest) ← readSimpleKey cs
  match fuel, skipSpaces rest with
  | fuel + 1, '.' :: more =>
    let (ks, rest) ← readKey fuel (skipSpaces more)
    pure (k :: ks, rest)
  | _, _ => pure ([k], rest)

/-- A key of one or more parts joined by dots, with fewer parts than the nesting limit. -/
def readDottedKey (cs : List Char) : Except TomlError ((List String) × List Char) := do
  let (ks, rest) ← readKey cs.length cs
  if nestingLimit ≤ ks.length then .error .tooDeep else pure (ks, rest)

end SearchCriteria.Toml

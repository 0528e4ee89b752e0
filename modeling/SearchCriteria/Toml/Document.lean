import SearchCriteria.Toml.Lexical
import SearchCriteria.Toml.Scalar

/-!
# Reading a TOML document

A document is a sequence of lines: blank lines and comments, key/value pairs, table headers
`[key]` and array-of-tables headers `[[key]]`. Pairs go into the table of the last header, or the
root table before any header. Values are strings, scalars, arrays (across lines, with comments,
a trailing comma allowed) and inline tables (on one line, no trailing comma).

Readers that nest spend one unit of `fuel` for each value they read; `Toml.parse` gives them one
unit per character of the text, more than any document can need. They count in `depth` the arrays
and inline tables around the value they read, which must stay below the nesting limit.
-/

namespace SearchCriteria.Toml

/-- Skip blanks, line ends and comments between the items of an array. A comment must end with a
line end; `inComment` tells whether one is open. -/
def skipTrivia (inComment : Bool) : List Char → Except TomlError (List Char)
  | [] => .ok []
  | c :: r =>
    if inComment then
      if c = '\n' then skipTrivia false r
      else if c = '\r' then
        match r with
        | '\n' :: rest => skipTrivia false rest
        | _ => .error .malformed
      else if isTextChar c then skipTrivia true r
      else .error .malformed
    else if isSpace c ∨ c = '\n' then skipTrivia false r
    else if c = '#' then skipTrivia true r
    else if c = '\r' then
      match r with
      | '\n' :: rest => skipTrivia false rest
      | _ => .error .malformed
    else .ok (c :: r)

/-- The scalar token at the start of the text. A date followed by a space and a time is one
token: the space joins them as T does. -/
def readScalar (cs : List Char) : Except TomlError (Value × List Char) :=
  let tok := cs.takeWhile isTokenChar
  let rest := cs.dropWhile isTokenChar
  let (tok, rest) := match readDate tok, rest with
    | some [], ' ' :: d :: e :: ':' :: more =>
      if d.isDigit ∧ e.isDigit then
        let time := (d :: e :: ':' :: more).takeWhile isTokenChar
        (tok ++ 'T' :: time, (d :: e :: ':' :: more).dropWhile isTokenChar)
      else (tok, rest)
    | _, _ => (tok, rest)
  if tok.isEmpty then .error .malformed
  else do
    let v ← scalarValue tok
    pure (v, rest)

/-- The last part of a dotted key and the parts before it. -/
def splitKey (path : List String) : List String × String := (path.dropLast, path.getLastD "")

mutual

/-- Read one value inside `depth` arrays and inline tables. -/
def readValue : Nat → Nat → List Char → Except TomlError (Value × List Char)
  | 0, _, _ => .error .malformed
  | fuel + 1, depth, cs =>
    match cs with
    | '"' :: '"' :: '"' :: r => do
      let (s, rest) ← readMultiline '"' true (r.length + 1) "" (dropFirstNewline r)
      pure (.string s, rest)
    | '"' :: r => do
      let (s, rest) ← readBasic "" r
      pure (.string s, rest)
    | '\'' :: '\'' :: '\'' :: r => do
      let (s, rest) ← readMultiline '\'' false (r.length + 1) "" (dropFirstNewline r)
      pure (.string s, rest)
    | '\'' :: r => do
      let (s, rest) ← readLiteral "" r
      pure (.string s, rest)
    | '[' :: r =>
      if nestingLimit ≤ depth + 1 then .error .tooDeep else readArray fuel (depth + 1) [] r
    | '{' :: r =>
      if nestingLimit ≤ depth + 1 then .error .tooDeep
      else match skipSpaces r with
        | '}' :: rest => .ok (.table .inline [], rest)
        | r => readInlinePairs fuel (depth + 1) [] r
    | cs => readScalar cs

/-- Read the items of an array after its opening bracket or after a comma; `acc` holds the items
read, the most recent first; the array is the `depth`-th around its items. -/
def readArray : Nat → Nat → List Value → List Char → Except TomlError (Value × List Char)
  | 0, _, _, _ => .error .malformed
  | fuel + 1, depth, acc, cs => do
    let cs ← skipTrivia false cs
    match cs with
    | ']' :: rest => pure (.array acc.reverse, rest)
    | _ =>
      let (v, rest) ← readValue fuel depth cs
      let rest ← skipTrivia false rest
      match rest with
      | ',' :: more => readArray fuel depth (v :: acc) more
      | ']' :: more => pure (.array (v :: acc).reverse, more)
      | _ => .error .malformed

/-- Read the pairs of an inline table from its first key or from the key after a comma; the table
is the `depth`-th around its values. -/
def readInlinePairs : Nat → Nat → Entries → List Char → Except TomlError (Value × List Char)
  | 0, _, _, _ => .error .malformed
  | fuel + 1, depth, es, cs => do
    let (path, rest) ← readDottedKey cs
    match skipSpaces rest with
    | '=' :: more =>
      let (v, rest) ← readValue fuel depth (skipSpaces more)
      let (pre, key) := splitKey path
      let es ← insertKey .inline .inline es pre key v
      match skipSpaces rest with
      | ',' :: more => readInlinePairs fuel depth es (skipSpaces more)
      | '}' :: more => pure (.table .inline es, more)
      | _ => .error .malformed
    | _ => .error .malformed

end

/-- Define the table of a header in the root table `root`: a new table, or one that deeper
headers only created on their way. -/
def defineTable (root : Entries) (path : List String) : Except TomlError Entries :=
  let (pre, key) := splitKey path
  modifyAt .header .header root pre fun _ es =>
    match es.lookup key with
    | none => .ok (es ++ [(key, .table .header [])])
    | some (.table .implicit inner) => .ok (es.set key (.table .header inner))
    | some _ => .error (.redefined key)

/-- Add a table to the array of tables of a header in the root table `root`. -/
def appendTable (root : Entries) (path : List String) : Except TomlError Entries :=
  let (pre, key) := splitKey path
  modifyAt .header .header root pre fun _ es =>
    match es.lookup key with
    | none => .ok (es ++ [(key, .tableArray [[]])])
    | some (.tableArray tables) => .ok (es.set key (.tableArray (tables ++ [[]])))
    | some _ => .error (.redefined key)

/-- Read the lines of a document into the root table `root`; `current` is the path of the table
that pairs go into. -/
def readLines : Nat → Entries → List String → List Char → Except TomlError Entries
  | 0, _, _, _ => .error .malformed
  | fuel + 1, root, current, cs =>
    match skipSpaces cs with
    | [] => .ok root
    | '\n' :: r => readLines fuel root current r
    | '\r' :: '\n' :: r => readLines fuel root current r
    | '#' :: r => do
      let rest ← lineEnd ('#' :: r)
      readLines fuel root current rest
    | '[' :: '[' :: r => do
      let (path, rest) ← readDottedKey (skipSpaces r)
      match skipSpaces rest with
      | ']' :: ']' :: more =>
        let root ← appendTable root path
        let rest ← lineEnd more
        readLines fuel root path rest
      | _ => .error .malformed
    | '[' :: r => do
      let (path, rest) ← readDottedKey (skipSpaces r)
      match skipSpaces rest with
      | ']' :: more =>
        let root ← defineTable root path
        let rest ← lineEnd more
        readLines fuel root path rest
      | _ => .error .malformed
    | line => do
      let (path, rest) ← readDottedKey line
      match skipSpaces rest with
      | '=' :: more =>
        let (v, rest) ← readValue (more.length + 1) 0 (skipSpaces more)
        let (pre, key) := splitKey path
        let root ← modifyAt .header .header root current fun kind es =>
          insertKey .dottedKey kind es pre key v
        let rest ← lineEnd rest
        readLines fuel root current rest
      | _ => .error .malformed

/-- The root table of a TOML document, or why the text is refused. A byte order mark may open
the text. -/
def parse (text : String) : Except TomlError Entries :=
  let cs := match text.toList with
    | '\uFEFF' :: r => r
    | cs => cs
  readLines (cs.length + 1) [] [] cs

end SearchCriteria.Toml

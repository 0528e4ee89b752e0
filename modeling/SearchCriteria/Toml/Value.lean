/-!
# TOML documents

The values of a TOML document and the rules by which tables are defined. A table is defined once:
by a header, by dotted keys, or as an inline table. A header may take over a table that an
earlier header only created on its way (an implicit table); dotted keys may extend only tables
that dotted keys created; an inline table, and every table written inside it, is closed once
written. An array of tables grows by one table at each of its headers, and a later header or key
that passes through it enters its last table.

Arrays and inline tables nest fewer than `nestingLimit` deep, and a key has fewer than
`nestingLimit` parts.
-/

namespace SearchCriteria.Toml

/-- Why a TOML text is refused. -/
inductive TomlError where
  /-- The text breaks the grammar. -/
  | malformed
  /-- A number out of the range of 64-bit integers, or a float too large. -/
  | outOfRange
  /-- A key or table defined twice, or a table extended against the rules. -/
  | redefined (key : String)
  /-- Arrays and inline tables nested, or a key of parts, as many as the nesting limit. -/
  | tooDeep
  deriving DecidableEq, Repr

/-- Values nest fewer levels deep than this, and keys have fewer parts. -/
def nestingLimit : Nat := 80

/-- How a table came to be, which decides how it may be extended. -/
inductive TableKind where
  /-- Defined by a header, or the root table. -/
  | header
  /-- Created on the way to a deeper header; a header of its own may still define it. -/
  | implicit
  /-- Created by a dotted key; further dotted keys may extend it. -/
  | dotted
  /-- Written as an inline table; closed. -/
  | inline
  /-- Created by a dotted key inside an inline table. -/
  | inlineDotted
  deriving DecidableEq, Repr

/-- A TOML value. Scalars keep what the library needs of them: the text of strings and the value
of integers and booleans. -/
inductive Value where
  /-- A string of any of the four kinds, escapes resolved. -/
  | string (s : String)
  /-- An integer of 64 bits. -/
  | integer (n : Int)
  /-- A float; its value is not needed. -/
  | float
  /-- true or false. -/
  | boolean (b : Bool)
  /-- A date, a time or both; the value is not needed. -/
  | datetime
  /-- An array written in brackets. -/
  | array (items : List Value)
  /-- A table, with how it came to be. -/
  | table (kind : TableKind) (entries : List (String × Value))
  /-- An array of tables, the tables in the order of their headers. -/
  | tableArray (tables : List (List (String × Value)))
  deriving Repr

/-- The entries of a table, in the order they were defined. -/
abbrev Entries := List (String × Value)

/-- Replace the value of a key that is present, or add it at the end. -/
def Entries.set (es : Entries) (k : String) (v : Value) : Entries :=
  if es.any (fun e => e.1 == k) then es.map (fun e => if e.1 == k then (k, v) else e)
  else es ++ [(k, v)]

/-- How a path of keys is walked. -/
inductive Walk where
  /-- The path of a table header, or of the table that keys are being added to. -/
  | header
  /-- The prefix of a dotted key in a document table. -/
  | dottedKey
  /-- The prefix of a dotted key inside an inline table: it may pass only tables that dotted
  keys of the same inline table created. -/
  | inline
  deriving DecidableEq, Repr

/-- The kind of the table that a walk creates where a key is missing. -/
def Walk.fresh : Walk → TableKind
  | .header => .implicit
  | .dottedKey => .dotted
  | .inline => .inlineDotted

/-- Whether a walk may enter a table of this kind. -/
def Walk.enters : Walk → TableKind → Bool
  | .header, k => k == .header || k == .implicit || k == .dotted
  | .dottedKey, k => k == .implicit || k == .dotted
  | .inline, k => k == .inlineDotted

/-- Apply `f` to the table at the end of `path`, walking from the table `es` of kind `kind`:
missing tables are created, an array of tables is entered at its last table, and a walk that
meets a value or a table it may not enter fails. -/
def modifyAt (w : Walk) (kind : TableKind) (es : Entries) :
    List String → (TableKind → Entries → Except TomlError Entries) → Except TomlError Entries
  | [], f => f kind es
  | k :: ks, f =>
    match es.lookup k with
    | none => do
      let inner ← modifyAt w w.fresh [] ks f
      return es.set k (.table w.fresh inner)
    | some (.table kind' inner) =>
      if w.enters kind' then do
        let inner ← modifyAt w kind' inner ks f
        return es.set k (.table kind' inner)
      else .error (.redefined k)
    | some (.tableArray tables) =>
      if w == .inline then .error (.redefined k)
      else match tables.getLast? with
        | none => .error (.redefined k)
        | some last => do
          let last ← modifyAt w .header last ks f
          return es.set k (.tableArray (tables.dropLast ++ [last]))
    | some _ => .error (.redefined k)

/-- Add `key = v` under the dotted prefix `path` to a table of kind `kind`: the table reached must
have been created by the same dotted keys exactly when the prefix is not empty, and the key must
be new there. -/
def insertKey (w : Walk) (kind : TableKind) (es : Entries) (path : List String) (key : String)
    (v : Value) : Except TomlError Entries :=
  modifyAt w kind es path fun kind' inner =>
    let dotted := kind' == .dotted || kind' == .inlineDotted
    if dotted == path.isEmpty then .error (.redefined key)
    else if inner.any (fun e => e.1 == key) then .error (.redefined key)
    else .ok (inner ++ [(key, v)])

end SearchCriteria.Toml

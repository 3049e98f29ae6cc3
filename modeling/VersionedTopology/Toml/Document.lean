/-
  VersionedTopology.Toml.Document

  Reading TOML texts.

  A text is read into the JSON value of its root table. Settings consist of
  strings, integers, truth values, arrays and tables; fractions, dates and arrays
  of tables have no use in them, and a text that holds one is refused like a
  malformed one.
-/

import VersionedTopology.Toml.Lexeme
import VersionedTopology.Toml.Table

namespace VersionedTopology.Toml

/-! ## Values -/

/-- A truth value or an integer. -/
def word : Reader Json := fun cs =>
  let w := cs.takeWhile isWordChar
  let rest := cs.drop w.length
  if w = ['t', 'r', 'u', 'e'] then some (.bool true, rest)
  else if w = ['f', 'a', 'l', 's', 'e'] then some (.bool false, rest)
  else (integer? w).map fun n => (.number (.int n), rest)

mutual

/-- A value; `fuel` bounds its parts. -/
def value : Nat → Reader Json
  | 0, _ => none
  | fuel + 1, cs =>
    match cs with
    | '[' :: cs => do
      let (items, cs) ← items fuel (← skipAll cs)
      some (.array items, cs)
    | '{' :: cs => do
      let (entries, cs) ← entries fuel [] (← skipAll cs)
      some (.object (Node.entriesToJson entries), cs)
    | c :: cs =>
      if c = '"' || c = single then (string (c :: cs)).map fun (s, cs) => (.string s, cs)
      else word (c :: cs)
    | [] => none

/-- The items of an array up to its end; a comma may stand after the last. -/
def items : Nat → Reader (List Json)
  | 0, _ => none
  | fuel + 1, cs =>
    match cs with
    | ']' :: cs => some ([], cs)
    | cs => do
      let (j, cs) ← value fuel cs
      match ← skipAll cs with
      | ',' :: cs =>
        let (js, cs) ← items fuel (← skipAll cs)
        some (j :: js, cs)
      | ']' :: cs => some ([j], cs)
      | _ => none

/-- The entries of a table in line up to its end; a comma may stand after the last. -/
def entries : Nat → Node.Entries → Reader Node.Entries
  | 0, _, _ => none
  | fuel + 1, es, cs =>
    match cs with
    | '}' :: cs => some (es, cs)
    | cs => do
      let (keys, cs) ← key (cs.length + 1) cs
      match cs with
      | '=' :: cs =>
        let (j, cs) ← value fuel (skipSpaces cs)
        let es ← Node.assign j keys es
        match ← skipAll cs with
        | ',' :: cs => entries fuel es (← skipAll cs)
        | '}' :: cs => some (es, cs)
        | _ => none
      | _ => none

end

/-! ## Documents -/

/-- The root table, and the path of the table that is open. -/
structure Progress where
  root : Node.Entries := []
  path : List String := []

/-- A header, after its opening bracket. -/
def header (p : Progress) (cs : List Char) : Option (Progress × List Char) := do
  let (path, cs) ← key (cs.length + 1) cs
  match cs with
  | ']' :: cs =>
    let root ← Node.openTable path p.root
    some (⟨root, path⟩, ← endLine cs)
  | _ => none

/-- A line that sets a key. -/
def assignment (p : Progress) (cs : List Char) : Option (Progress × List Char) := do
  let (keys, cs) ← key (cs.length + 1) cs
  match cs with
  | '=' :: cs =>
    let cs := skipSpaces cs
    let (j, cs) ← value (2 * cs.length + 2) cs
    let root ← Node.assignAt j keys p.path p.root
    some ({ p with root }, ← endLine cs)
  | _ => none

/-- Reads line after line; `fuel` bounds their number. -/
def lines : Nat → Progress → List Char → Option Progress
  | 0, _, _ => none
  | fuel + 1, p, cs => do
    match ← skipAll cs with
    | [] => some p
    | '[' :: cs =>
      let (p, cs) ← header p cs
      lines fuel p cs
    | cs =>
      let (p, cs) ← assignment p cs
      lines fuel p cs

/-- The root table of a text; a byte order mark may stand before it. -/
def ofText? (text : String) : Option Json :=
  let cs :=
    match text.toList with
    | c :: cs => if c.toNat = 0xFEFF then cs else c :: cs
    | [] => []
  (lines (cs.length + 1) {} cs).map fun p => .object (Node.entriesToJson p.root)

end VersionedTopology.Toml

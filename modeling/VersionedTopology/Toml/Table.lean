/-
  VersionedTopology.Toml.Table

  Tables that a TOML text builds up.

  No table may be defined twice. A header may only name a table that is not there
  or that came up as part of a longer header. A dotted key may pass through
  tables that no header has opened, and ends in one that dotted keys made. What
  is written in line is closed.
-/

import VersionedTopology.Json.Basic

namespace VersionedTopology.Toml

/-- How a table came up. -/
inductive Origin where
  /-- As part of a longer header. -/
  | implied
  /-- By its own header. -/
  | header
  /-- By a dotted key. -/
  | dotted
deriving DecidableEq, Repr, Inhabited

/-- A closed value, or a table that may still grow. -/
inductive Node where
  | value (json : Json)
  | table (origin : Origin) (entries : List (String × Node))
deriving Inhabited

namespace Node

/-- The entries of a table by name, in the order of the text. -/
abbrev Entries := List (String × Node)

/-- Replaces an entry in place, or adds it at the end. -/
def set (name : String) (node : Node) : Entries → Entries
  | [] => [(name, node)]
  | (n, v) :: rest => if n = name then (n, node) :: rest else (n, v) :: set name node rest

/-- Opens the table that a header names. -/
def openTable : List String → Entries → Option Entries
  | [], _ => none
  | [name], es =>
    match es.lookup name with
    | none => some (set name (.table .header []) es)
    | some (.table .implied inner) => some (set name (.table .header inner) es)
    | some _ => none
  | name :: path, es =>
    match es.lookup name with
    | none => (openTable path []).map fun inner => set name (.table .implied inner) es
    | some (.table origin inner) =>
      (openTable path inner).map fun inner => set name (.table origin inner) es
    | some (.value _) => none

/-- Sets a key of a table. -/
def assign (json : Json) : List String → Entries → Option Entries
  | [], _ => none
  | [name], es =>
    match es.lookup name with
    | none => some (es ++ [(name, .value json)])
    | some _ => none
  | name :: path, es =>
    match es.lookup name with
    | none => (assign json path []).map fun inner => set name (.table .dotted inner) es
    | some (.table origin inner) =>
      if origin = .dotted || (origin = .implied && path.length > 1) then
        (assign json path inner).map fun inner => set name (.table origin inner) es
      else none
    | some (.value _) => none

/-- Sets a key of the table at a path, which has been opened. -/
def assignAt (json : Json) (keys : List String) : List String → Entries → Option Entries
  | [], es => assign json keys es
  | name :: path, es =>
    match es.lookup name with
    | some (.table origin inner) =>
      (assignAt json keys path inner).map fun inner => set name (.table origin inner) es
    | _ => none

mutual

/-- The value of a node. -/
def toJson : Node → Json
  | .value j => j
  | .table _ es => .object (entriesToJson es)

def entriesToJson : List (String × Node) → List (String × Json)
  | [] => []
  | (name, n) :: rest => (name, toJson n) :: entriesToJson rest

end

end Node

end VersionedTopology.Toml

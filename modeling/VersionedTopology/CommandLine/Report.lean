/-
  VersionedTopology.CommandLine.Report

  What commands print.

  Results are printed for people, line by line, or as one JSON document.
-/

import VersionedTopology.Json.Printer
import VersionedTopology.Settings.Basic
import VersionedTopology.Wire.Constraint
import VersionedTopology.Wire.Diff
import VersionedTopology.Wire.Request

namespace VersionedTopology.CommandLine

/-- Lines, each with its end. -/
def lines (ls : List String) : String := String.join (ls.map fun l => l ++ "\n")

/-- A result for people and for programs. -/
structure Report where
  forPeople : List String
  json : Json
deriving Inhabited

/-- The text of a report. -/
def Report.text (r : Report) (jsonMode : Bool) : String :=
  lines (if jsonMode then [r.json.pretty] else r.forPeople)

namespace Report

/-- A neighbour of a version. -/
def neighborText : Option VersionNumber → String
  | none => "-"
  | some v => "v" ++ toString v

def resourceLines (r : Resource) : List String :=
  ("  " ++ r.id.text ++ if r.imported then " [imported]" else "") ::
    r.properties.toList.map fun (name, value) => "      " ++ name ++ " = " ++ value.compact

/-- A version with its neighbours. -/
def version (s : Snapshot) (p : Pointers) : Report :=
  { forPeople :=
      [s.key.text ++ " v" ++ toString s.version,
        "History: previous " ++ neighborText p.previous ++ " | next " ++ neighborText p.next, "",
        "Resources (" ++ toString s.resources.size ++ "):"] ++
      s.resources.values.flatMap resourceLines ++
      ["Edges (" ++ toString s.edges.size ++ "):"] ++
      (s.edges.keys.map fun l => "  " ++ l.text) ++
      (if s.issues.isEmpty then []
        else ("Configuration errors (" ++ toString s.issues.length ++ "):") ::
          s.issues.map fun i => "  " ++ i.text)
    json := .object [("version", s.toJson), ("previous", Json.orNull .ofNat p.previous),
      ("next", Json.orNull .ofNat p.next)] }

/-- A version made by applying constraints. -/
def applied (base : Snapshot) (s : Snapshot) : Report :=
  { forPeople := ["Applied: v" ++ toString base.version ++ " -> v" ++ toString s.version]
    json := s.toJson }

/-- A step that leads nowhere. -/
def nowhere (d : Direction) : Report :=
  { forPeople := ["No " ++ d.word ++ " version."]
    json := .object [("moved", .bool false), ("direction", .string d.word)] }

/-- A version that was made current. -/
def selected (s : Snapshot) : Report :=
  { forPeople := ["Selected " ++ s.key.text ++ " v" ++ toString s.version]
    json := .object [("version", .ofNat s.version)] }

/-- The constraints behind the current version of an environment. -/
def constraints (k : EnvironmentKey) (cs : List Constraint) : Report :=
  { forPeople := (k.text ++ " (" ++ toString cs.length ++ " constraints)") ::
      cs.map fun c => "  " ++ c.text
    json := Constraint.listToJson cs }

/-- A sign for what happened to an entry. -/
def sign : DiffStatus → String
  | .added => "+"
  | .removed => "-"
  | .changed => "~"

/-- One side of a changed property. -/
def sideText : Option Json → String
  | none => "-"
  | some v => v.compact

def rowLines (r : DiffRow) : List String :=
  ("  " ++ sign r.status ++ " " ++ r.key ++
      match r.badge with
      | none => ""
      | some badge => " (" ++ badge ++ ")") ::
    r.properties.map fun p =>
      "      " ++ p.property ++ ": " ++ sideText p.change.old ++ " -> " ++ sideText p.change.new

/-- What differs between two environments. -/
def diff (v : DiffView) : Report :=
  { forPeople := (v.source ++ " -> " ++ v.target) ::
      if v.rows.isEmpty then ["  (no differences)"] else v.rows.flatMap rowLines
    json := v.toJson }

/-- Whether two environments are the same. -/
def inSync (source target : String) (same : Bool) : Report :=
  { forPeople :=
      [if same then source ++ " and " ++ target ++ " are in sync"
        else source ++ " and " ++ target ++ " differ (run \x60archsync diff -s " ++ source ++
          " -t " ++ target ++ "\x60)"]
    json := (InSync.toJson ⟨same⟩) }

end Report

/-! ## Texts for people only -/

/-- The version of the program. -/
def programVersion : String := "0.4.2"

/-- What the server says before it starts. -/
def banner (s : ServerSettings) : List String :=
  [ "archsync development server v" ++ programVersion,
    "  Listening: http://" ++ s.address,
    "  Storage:   in-memory (lost on exit)",
    "",
    "Press Ctrl+C to stop" ]

/-- Said when a newer version is overwritten. -/
def overwriting (seen server : VersionNumber) : List String :=
  ["Server is at v" ++ toString server ++ ", this client last saw v" ++ toString seen ++
    "; overwriting."]

/-- Said when a newer version is in the way. -/
def overtaken (e : Error) : List String :=
  [ e.text,
    "Another client changed this environment. Re-run with --force to overwrite it." ]

end VersionedTopology.CommandLine

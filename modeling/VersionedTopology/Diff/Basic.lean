/-
  VersionedTopology.Diff.Basic

  The difference between two snapshots.

  A diff leads from a source to a target: `added` is what only the target has,
  `removed` what only the source has, and `changed` what both have with different
  properties. Only changed entries carry properties, and they always do; payloads
  that break this rule are refused. Edges are told apart by their endpoints, and
  neither metadata nor the imported mark counts.
-/

import VersionedTopology.Error

namespace VersionedTopology

/-- On which side an entry is. -/
inductive DiffStatus where
  | added
  | removed
  | changed
deriving DecidableEq, Repr, Inhabited

namespace DiffStatus

def label : DiffStatus → String
  | added => "Added"
  | removed => "Removed"
  | changed => "Changed"

/-- The status seen from the other side. -/
def flip : DiffStatus → DiffStatus
  | added => removed
  | removed => added
  | changed => changed

end DiffStatus

/-- The value of a property on either side; `none` where it is absent. -/
structure PropertyChange where
  old : Option Json
  new : Option Json
deriving DecidableEq, Repr, Inhabited

/-- One entry of a diff. -/
structure Difference where
  status : DiffStatus
  properties : Std.ExtTreeMap String PropertyChange := ∅
  target : Option TopologyId := none
deriving Inhabited

namespace Difference

/-- Whether exactly the changed entries carry properties. -/
def isConsistent (d : Difference) : Bool :=
  match d.status with
  | .changed => !d.properties.isEmpty
  | .added | .removed => d.properties.isEmpty

end Difference

/-- Entries by the written form of a resource or of an edge. -/
abbrev Differences := Std.ExtTreeMap String Difference

/-- What differs between two snapshots. -/
structure TopologyDiff where
  resources : Differences := ∅
  edges : Differences := ∅
deriving Inhabited

namespace TopologyDiff

/-! ## Computing a diff -/

/-- The properties that differ: first those of the target, then those that only the source has. -/
def propertyChanges (before after : Properties) : Std.ExtTreeMap String PropertyChange :=
  let changed := after.foldl (fun m name new =>
    let old := before[name]?
    if Json.SameOption old (some new) then m else m.insert name ⟨old, some new⟩) ∅
  before.foldl (fun m name old =>
    if after.contains name then m else m.insert name ⟨some old, none⟩) changed

/-- The entry of a resource of the target. -/
def resourceEntry (source : Resources) (id : TopologyId) (r : Resource) : Option Difference :=
  match source[id]? with
  | none => some { status := .added, target := some id }
  | some before =>
    let changes := propertyChanges before.properties r.properties
    if changes.isEmpty then none
    else some { status := .changed, properties := changes, target := some id }

def resourceEntries (source target : Resources) : Differences :=
  let present := target.foldl (fun m id r =>
    match resourceEntry source id r with
    | none => m
    | some d => m.insert id.text d) ∅
  source.foldl (fun m id _ =>
    if target.contains id then m
    else m.insert id.text { status := .removed, target := some id }) present

def edgeEntries (source target : EdgeSet) : Differences :=
  let added := target.foldl (fun m l _ =>
    if source.contains l then m else m.insert l.text { status := .added }) ∅
  source.foldl (fun m l _ =>
    if target.contains l then m else m.insert l.text { status := .removed }) added

/-- The diff from a source to a target. -/
def between (source target : Graph) : TopologyDiff :=
  ⟨resourceEntries source.resources target.resources, edgeEntries source.edges target.edges⟩

/-! ## Questions about a diff -/

def isEmpty (d : TopologyDiff) : Bool := d.resources.isEmpty && d.edges.isEmpty

def size (d : TopologyDiff) : Nat := d.resources.size + d.edges.size

/-- All entries, resources first, each by its written form. -/
def entries (d : TopologyDiff) : List (String × Difference) :=
  d.resources.toList ++ d.edges.toList

/-- Refuses a diff with an entry whose status and properties disagree. -/
def validate (d : TopologyDiff) : Except Error Unit :=
  match d.entries.find? fun e => !e.2.isConsistent with
  | none => .ok ()
  | some (key, e) =>
    .error (.transport ("malformed diff entry '" ++ key ++ "': status " ++ e.status.label ++
      " with " ++ toString e.properties.size ++ " changed properties"))

end TopologyDiff

end VersionedTopology

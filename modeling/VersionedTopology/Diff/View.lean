/-
  VersionedTopology.Diff.View

  A diff prepared for display between two named environments.

  Added and removed entries get a badge that says where the entry is; changed
  entries get a table of their properties. Resources come before edges, each in
  the order of their written forms.
-/

import VersionedTopology.Diff.Basic

namespace VersionedTopology

/-- What an entry is about. -/
inductive EntryKind where
  | resource
  | edge
deriving DecidableEq, Repr, Inhabited

/-- One property of a changed entry. -/
structure PropertyRow where
  property : String
  change : PropertyChange
deriving DecidableEq, Repr, Inhabited

/-- One entry for display. -/
structure DiffRow where
  kind : EntryKind
  key : String
  status : DiffStatus
  badge : Option String
  properties : List PropertyRow
deriving DecidableEq, Repr, Inhabited

/-- A diff for display. -/
structure DiffView where
  source : String
  target : String
  resources : List DiffRow
  edges : List DiffRow
deriving DecidableEq, Repr, Inhabited

/-- The row of an entry; badges name the target. -/
def DiffRow.of (kind : EntryKind) (key : String) (d : Difference) (target : String) : DiffRow :=
  match d.status with
  | .added => ⟨kind, key, .added, some ("only in " ++ target), []⟩
  | .removed => ⟨kind, key, .removed, some ("missing from " ++ target), []⟩
  | .changed => ⟨kind, key, .changed, none, d.properties.toList.map fun (p, c) => ⟨p, c⟩⟩

namespace TopologyDiff

/-- The diff between environments of the given names. -/
def view (d : TopologyDiff) (source target : String) : DiffView :=
  let rows (kind : EntryKind) (es : Differences) : List DiffRow :=
    es.toList.map fun (key, e) => DiffRow.of kind key e target
  ⟨source, target, rows .resource d.resources, rows .edge d.edges⟩

end TopologyDiff

/-- All rows, resources first. -/
def DiffView.rows (v : DiffView) : List DiffRow := v.resources ++ v.edges

end VersionedTopology

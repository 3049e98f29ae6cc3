/-
  VersionedTopology.Wire.Diff

  Diffs and their views as JSON.
-/

import VersionedTopology.Diff.View
import VersionedTopology.Wire.Graph

namespace VersionedTopology

open Decoder

def DiffStatus.word : DiffStatus → String
  | added => "added"
  | removed => "removed"
  | changed => "changed"

def DiffStatus.ofWord? (s : String) : Option DiffStatus :=
  [added, removed, changed].find? fun o => o.word = s

namespace PropertyChange

/-- Both sides are always written; a value that is absent is null. -/
def toJson (c : PropertyChange) : Json :=
  .object [("old", c.old.getD .null), ("new", c.new.getD .null)]

def fields : List (RecordField PropertyChange) :=
  [ field "old" .optional (option json) fun old c => { c with old },
    field "new" .optional (option json) fun new c => { c with new } ]

def decoder : Decoder PropertyChange := record fields ⟨none, none⟩ false

end PropertyChange

namespace Difference

def toJson (d : Difference) : Json :=
  .object ([("status", .string d.status.word)] ++
    (if d.properties.isEmpty then []
      else [("properties", .object (d.properties.toList.map fun (k, c) => (k, c.toJson)))]) ++
    Json.optionalMember "target" TopologyId.toJson d.target)

def propertiesDecoder : Decoder (Std.ExtTreeMap String PropertyChange) := fun src d =>
  (pairs .ok PropertyChange.decoder src d).map fun ms =>
    ms.foldl (fun m (k, c) => m.insert k c) ∅

def fields : List (RecordField Difference) :=
  [ field "status" .required (word DiffStatus.ofWord?) fun status d => { d with status },
    field "properties" .defaulted propertiesDecoder fun properties d => { d with properties },
    field "target" .defaulted (option TopologyId.decoder) fun target d => { d with target } ]

def decoder : Decoder Difference := record fields { status := .added } false

end Difference

def Differences.toJson (m : Differences) : Json :=
  .object (m.toList.map fun (k, d) => (k, d.toJson))

def Differences.decoder : Decoder Differences := fun src d =>
  (pairs .ok Difference.decoder src d).map fun ms => ms.foldl (fun m (k, e) => m.insert k e) ∅

namespace TopologyDiff

def toJson (d : TopologyDiff) : Json :=
  .object [("resources", d.resources.toJson), ("edges", d.edges.toJson)]

def fields : List (RecordField TopologyDiff) :=
  [ field "resources" .defaulted Differences.decoder fun resources d => { d with resources },
    field "edges" .defaulted Differences.decoder fun edges d => { d with edges } ]

def decoder : Decoder TopologyDiff := record fields {} false

end TopologyDiff

/-! ## Views -/

def EntryKind.word : EntryKind → String
  | resource => "resource"
  | edge => "edge"

def PropertyRow.toJson (r : PropertyRow) : Json :=
  .object [("property", .string r.property), ("old", r.change.old.getD .null),
    ("new", r.change.new.getD .null)]

def DiffRow.toJson (r : DiffRow) : Json :=
  .object ([("kind", .string r.kind.word), ("key", .string r.key),
      ("status", .string r.status.word)] ++
    Json.optionalMember "badge" .string r.badge ++
    (if r.properties.isEmpty then []
      else [("properties", .array (r.properties.map PropertyRow.toJson))]))

def DiffView.toJson (v : DiffView) : Json :=
  .object [("source", .string v.source), ("target", .string v.target),
    ("resources", .array (v.resources.map DiffRow.toJson)),
    ("edges", .array (v.edges.map DiffRow.toJson))]

end VersionedTopology

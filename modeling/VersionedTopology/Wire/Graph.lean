/-
  VersionedTopology.Wire.Graph

  Graphs as JSON.

  Each type has its written form and a decoder that accepts it. Maps come out in
  the order of their keys and sets in the order of their members; an absent
  optional member is left out. A decoder also accepts records with defaults left
  out and records written as arrays.
-/

import VersionedTopology.Json.Decode
import VersionedTopology.Topology.Graph

namespace VersionedTopology

open Decoder

/-- A member that is left out when it is absent. -/
def Json.optionalMember (name : String) (f : α → Json) : Option α → List (String × Json)
  | none => []
  | some a => [(name, f a)]

/-! ## Identifiers -/

def TopologyId.toJson (id : TopologyId) : Json := .string id.text

def TopologyId.decoder : Decoder TopologyId := parsed TopologyId.parse?

/-- An identifier as the name of a member. -/
def TopologyId.ofMemberName (s : String) : Except Failure TopologyId :=
  match parse? s with
  | some id => .ok id
  | none => .error (.shape (some s))

/-! ## Resources -/

def Properties.toJson (p : Properties) : Json := .object p.toList

def Properties.decoder : Decoder Properties := fun src d =>
  (pairs .ok json src d).map fun ms => ms.foldl (fun m (k, v) => m.insert k v) ∅

namespace Resource

def toJson (r : Resource) : Json :=
  .object [("id", r.id.toJson), ("properties", r.properties.toJson),
    ("imported", .bool r.imported)]

def fields : List (RecordField Resource) :=
  [ field "id" .required TopologyId.decoder fun id r => { r with id },
    field "properties" .defaulted Properties.decoder fun properties r => { r with properties },
    field "imported" .defaulted bool fun imported r => { r with imported } ]

def decoder : Decoder Resource := record fields { id := default } false

end Resource

def Resources.toJson (m : Resources) : Json :=
  .object (m.toList.map fun (id, r) => (id.text, r.toJson))

/-- The resources by the identifiers they are written under. -/
def Resources.decoder : Decoder Resources := fun src d =>
  (pairs TopologyId.ofMemberName Resource.decoder src d).map fun ms =>
    ms.foldl (fun m (k, r) => m.insert k r) ∅

/-! ## Edges -/

namespace Edge

def toJson (e : Edge) : Json :=
  .object ([("source", e.link.source.toJson), ("target", e.link.target.toJson)] ++
    Json.optionalMember "metadata" id e.metadata)

def fields : List (RecordField Edge) :=
  [ field "source" .required TopologyId.decoder fun source e =>
      { e with link := { e.link with source } },
    field "target" .required TopologyId.decoder fun target e =>
      { e with link := { e.link with target } },
    field "metadata" .defaulted (option json) fun metadata e => { e with metadata } ]

def decoder : Decoder Edge := record fields { link := default } false

end Edge

def EdgeSet.toJson (s : EdgeSet) : Json := .array (s.toEdges.map Edge.toJson)

/-- A set of edges; of equal edges the first stays. -/
def EdgeSet.decoder : Decoder EdgeSet := fun src d =>
  (list Edge.decoder src d).map EdgeSet.gather

/-! ## Issues -/

namespace Issue

def toJson (i : Issue) : Json :=
  .object (Json.optionalMember "resource" TopologyId.toJson i.resource ++
    Json.optionalMember "property" .string i.property ++ [("message", .string i.message)])

def fields : List (RecordField Issue) :=
  [ field "resource" .defaulted (option TopologyId.decoder) fun resource i => { i with resource },
    field "property" .defaulted (option string) fun property i => { i with property },
    field "message" .required string fun message i => { i with message } ]

def decoder : Decoder Issue := record fields ⟨none, none, ""⟩ false

end Issue

/-! ## Snapshots -/

namespace Snapshot

def toJson (s : Snapshot) : Json :=
  .object [("architecture_id", .string s.architecture), ("environment_id", .string s.environment),
    ("version", .ofNat s.version), ("resources", s.resources.toJson), ("edges", s.edges.toJson),
    ("config_errors", .array (s.issues.map Issue.toJson))]

def fields : List (RecordField Snapshot) :=
  [ field "architecture_id" .required string fun architecture s => { s with architecture },
    field "environment_id" .required string fun environment s => { s with environment },
    field "version" .required unsigned64 fun version s => { s with version },
    field "resources" .defaulted Resources.decoder fun resources s => { s with resources },
    field "edges" .defaulted EdgeSet.decoder fun edges s => { s with edges },
    field "config_errors" .defaulted (list Issue.decoder) fun issues s => { s with issues } ]

def decoder : Decoder Snapshot :=
  record fields { architecture := "", environment := "", version := 0 } false

end Snapshot

namespace EnvironmentKey

def toJson (k : EnvironmentKey) : Json :=
  .object [("architecture_id", .string k.architecture), ("environment_id", .string k.environment)]

def fields : List (RecordField EnvironmentKey) :=
  [ field "architecture_id" .required string fun architecture k => { k with architecture },
    field "environment_id" .required string fun environment k => { k with environment } ]

def decoder : Decoder EnvironmentKey := record fields ⟨"", ""⟩ false

end EnvironmentKey

end VersionedTopology

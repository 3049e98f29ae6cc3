/-
  VersionedTopology.Rehearsal.Report

  How a rehearsal reports what happens.

  Each call has one line in the log. Events, results and the visible state of a
  replica are written as JSON; a list of constraints that is too long to be
  looked at is given by its length.
-/

import VersionedTopology.Rehearsal.Basic
import VersionedTopology.Replica.Inspect
import VersionedTopology.Wire.Request

namespace VersionedTopology

open Decoder

/-! ## Calls -/

/-- The call in one line of the log. -/
def Backend.Call.text : Backend.Call → String
  | .fetch k none => "fetch " ++ k.text ++ " latest"
  | .fetch k (some v) => "fetch " ++ k.text ++ " v" ++ toString v
  | .neighbor k v d => "neighbor " ++ k.text ++ " v" ++ toString v ++ " " ++ d.word
  | .select k v => "select " ++ k.text ++ " v" ++ toString v
  | .apply k r =>
    "apply " ++ k.text ++ " v" ++ toString r.version ++
      (match r.expectedHead with
        | none => " forced"
        | some h => " head=v" ++ toString h) ++
      " n=" ++ toString r.constraints.length
  | .constraints k => "constraints " ++ k.text
  | .diff a s t => "diff " ++ a ++ " " ++ s ++ " " ++ t
  | .inSync a s t => "in_sync " ++ a ++ " " ++ s ++ " " ++ t

namespace Backend.Method

def word : Method → String
  | fetch => "fetch"
  | neighbor => "neighbor"
  | select => "select"
  | apply => "apply"
  | constraints => "constraints"
  | diff => "diff"
  | inSync => "in_sync"

def ofWord? (s : String) : Option Method :=
  [fetch, neighbor, select, apply, constraints, diff, inSync].find? fun m => m.word = s

/-- Reads what a successful call of a kind returns. -/
def decoder : (m : Method) → Decoder m.Value
  | fetch => Snapshot.decoder
  | neighbor => option unsigned64
  | select => fun _ _ => .ok ()
  | apply => Snapshot.decoder
  | constraints => list Constraint.decoder
  | diff => TopologyDiff.decoder
  | inSync => bool

end Backend.Method

/-! ## Events and results -/

def Event.toJson : Event → Json
  | .loaded v => .object [("event", .string "loaded"), ("version", .ofNat v)]
  | .navigated left reached d =>
    .object [("event", .string "navigated"), ("from", .ofNat left), ("to", .ofNat reached),
      ("direction", .string d.word)]
  | .applied base result d =>
    .object [("event", .string "applied"), ("from", .ofNat base), ("to", .ofNat result),
      ("diff", d.toJson)]
  | .batchDiscarded base n =>
    .object [("event", .string "batch_discarded"), ("base_version", .ofNat base),
      ("count", .ofNat n)]

def Outcome.toJson : Outcome → Json
  | .version s => s.toJson
  | .navigation n => .object [("moved", Json.orNull Snapshot.toJson n.snapshot?)]
  | .constraints cs => Constraint.listToJson cs

/-! ## The state of a replica -/

/-- More constraints than these are counted. -/
def Rehearsal.longList : Nat := 20

/-- Constraints by their texts, or their number if there are many. -/
def Rehearsal.listing (cs : List Constraint) : Json :=
  if cs.length > longList then .ofNat cs.length else Json.strings (cs.map Constraint.text)

/-- A confirmation; `listed` writes the refused constraints. -/
def Confirmation.toJson (listed : List Constraint → Json) : Confirmation → Json
  | .idle => .string "idle"
  | .resolving => .string "resolving"
  | .pending cs seen server =>
    .object [("pending", listed cs), ("local", .ofNat seen), ("remote", .ofNat server)]

/-- What the gate answers to its three questions. -/
def Gate.members (g : Gate) : List (String × Json) :=
  [("attempted", .bool g.attempted), ("will", .bool g.wouldOverwrite), ("can", .bool g.permitted)]

/-- The visible state of a replica. -/
def Replica.toJson (r : Replica) : Json :=
  .object ([("current", Json.orNull .ofNat (r.current.map fun s => s.version)),
    ("pointers", r.pointers.toJson), ("known_head", .ofNat r.knownHead),
    ("pending", Rehearsal.listing r.batch.constraints), ("can_apply", .bool r.canApply),
    ("conflict", r.gate.state.toJson Rehearsal.listing)] ++ r.gate.members)

end VersionedTopology

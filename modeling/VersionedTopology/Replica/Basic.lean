/-
  VersionedTopology.Replica.Basic

  The client's side of one environment.

  A replica holds the current version with its neighbours, the newest version it
  has seen, the batch of staged constraints, the mark that a submission is under
  way, the overwrite gate, and the inboxes of its subscribers. This module holds
  what a replica does without asking a version store.
-/

import VersionedTopology.Constraint.Batch
import VersionedTopology.Diff.Basic
import VersionedTopology.History.Pointers
import VersionedTopology.Replica.Gate

namespace VersionedTopology

/-! ## Events -/

/-- What subscribers are told. -/
inductive Event where
  /-- A version was loaded or selected. -/
  | loaded (version : VersionNumber)
  /-- A step through history. -/
  | navigated (left reached : VersionNumber) (direction : Direction)
  /-- A batch made a new version. -/
  | applied (base result : VersionNumber) (diff : TopologyDiff)
  /-- Staged constraints were dropped because another version was installed. -/
  | batchDiscarded (base : VersionNumber) (count : Nat)
deriving Inhabited

/-- The events that a subscriber has not taken yet, oldest first. -/
structure Inbox where
  id : Nat
  queue : List Event := []
deriving Inhabited

/-! ## The replica -/

/-- The client's side of one environment. -/
structure Replica where
  key : EnvironmentKey
  current : Option Snapshot := none
  pointers : Pointers := {}
  /-- The greatest version number installed so far. -/
  knownHead : VersionNumber := 0
  batch : Batch := {}
  /-- A submission has been claimed and has not ended. -/
  inFlight : Bool := false
  gate : Gate := {}
  inboxes : List Inbox := []
deriving Inhabited

/-- What a submission sends, as it was when the submission was claimed. -/
structure Claim where
  base : Snapshot
  knownHead : VersionNumber
  submitted : List Constraint
deriving Inhabited

namespace Replica

/-- A replica that has loaded nothing. -/
def new (key : EnvironmentKey) (canOverwrite : Bool) : Replica :=
  { key, gate := { permitted := canOverwrite } }

/-- Whether a snapshot belongs to the environment. -/
def owns (r : Replica) (s : Snapshot) : Bool := s.key = r.key

/-! ## Subscribers -/

/-- Opens an inbox. -/
def subscribe (r : Replica) (id : Nat) : Replica :=
  { r with inboxes := r.inboxes ++ [⟨id, []⟩] }

/-- Closes an inbox. -/
def unsubscribe (r : Replica) (id : Nat) : Replica :=
  { r with inboxes := r.inboxes.filter fun i => i.id ≠ id }

/-- Takes the events out of an inbox. -/
def drain (r : Replica) (id : Nat) : List Event × Replica :=
  ((r.inboxes.filter fun i => i.id = id).flatMap Inbox.queue,
    { r with inboxes := r.inboxes.map fun i => if i.id = id then { i with queue := [] } else i })

/-- Delivers an event to every inbox. -/
def emit (r : Replica) (e : Event) : Replica :=
  { r with inboxes := r.inboxes.map fun i => { i with queue := i.queue ++ [e] } }

/-! ## Installing a version -/

/-- Drops a batch that was staged on another version than the given one. -/
def discardForeign (r : Replica) (version : VersionNumber) : Replica :=
  match r.batch.base with
  | none => r
  | some base =>
    if base ≠ version && !r.batch.isEmpty then
      ({ r with batch := Batch.empty }).emit (.batchDiscarded base r.batch.size)
    else r

/-- A confirmation does not outlive its batch. -/
def dropOrphanedGate (r : Replica) : Replica :=
  if r.batch.isEmpty then { r with gate := r.gate.clear } else r

/-- Makes a snapshot the current version. -/
def install (r : Replica) (s : Snapshot) (p : Pointers) : Replica :=
  let r := (r.discardForeign s.version).dropOrphanedGate
  { r with knownHead := max r.knownHead s.version, current := some s, pointers := p }

/-- Installs the result of a submission. What was staged in the meantime and not submitted stays
staged, on the new version. -/
def installApplied (r : Replica) (claim : Claim) (s : Snapshot) : Replica :=
  let leftovers := r.batch.constraints.filter fun c =>
    !claim.submitted.any fun d => decide (Constraint.Same d c)
  let r := ({ r with batch := Batch.empty }).install s (Pointers.afterApply claim.base.version)
  let r := { r with
    gate := r.gate.reset
    batch := r.batch.stageAll s.version leftovers }
  r.emit (.applied claim.base.version s.version
    (TopologyDiff.between claim.base.toGraph s.toGraph))

/-! ## The batch -/

/-- Stages a constraint on the current version, and tells whether it replaced one with its key. -/
def stage (r : Replica) (c : Constraint) : Except Error (Bool × Replica) :=
  match r.current with
  | none => .error .notLoaded
  | some s =>
    match r.batch.stage s.version c with
    | .error e => .error e
    | .ok (replaced, b) => .ok (replaced, { r with batch := b })

/-- Drops all staged constraints, and tells how many there were. -/
def discard (r : Replica) : Nat × Replica :=
  (r.batch.size, { r with batch := Batch.empty, gate := r.gate.clear })

/-- Cancels a pending overwrite, and tells whether there was one. -/
def clearOverwrite (r : Replica) : Bool × Replica :=
  (r.gate.attempted, { r with gate := r.gate.clear })

/-- Whether an apply would get past its own checks. -/
def canApply (r : Replica) : Bool := !r.inFlight && !r.batch.isEmpty

/-! ## Submissions -/

/-- Claims the pipeline for one submission of the batch. -/
def claim (r : Replica) : Except Error (Claim × Replica) :=
  if r.inFlight then .error .applyInFlight
  else
    match r.current with
    | none => .error .notLoaded
    | some base =>
      if r.batch.isEmpty then .error .emptyBatch
      else .ok (⟨base, r.knownHead, r.batch.constraints⟩, { r with inFlight := true })

/-- Remembers that the server is ahead of a submission. -/
def recordStale (r : Replica) (c : Claim) (server : VersionNumber) : Replica :=
  { r with gate := r.gate.recordStale c.submitted c.knownHead server }

end Replica

end VersionedTopology

/-
  VersionedTopology.Constraint.Batch

  The constraints that one environment has staged and not yet submitted.

  A batch belongs to the version it was staged on. Staging on another version
  starts over; staging a key again drops the earlier constraint and appends the
  new one, so the order is that of the latest staging. A batch holds a limited
  number of keys; replacing one of them is always possible.
-/

import VersionedTopology.Constraint.Basic
import VersionedTopology.Error

namespace VersionedTopology

/-- The staged constraints in order of submission, and the version they were staged on. -/
structure Batch where
  base : Option VersionNumber := none
  constraints : List Constraint := []
deriving DecidableEq, Repr, Inhabited

namespace Batch

/-- How many keys a batch can hold. -/
def limit : Nat := 512

def empty : Batch := {}

def size (b : Batch) : Nat := b.constraints.length

def isEmpty (b : Batch) : Bool := b.constraints.isEmpty

/-- The constraints that count for a version: none when the batch belongs to another one. -/
def heldFor (b : Batch) (base : VersionNumber) : List Constraint :=
  if b.base = some base then b.constraints else []

/-- Stages a constraint on a version, and tells whether it replaced one with its key. A batch that
has no room for a new key stays as it is. -/
def stage (b : Batch) (base : VersionNumber) (c : Constraint) : Except Error (Bool × Batch) :=
  let held := b.heldFor base
  let kept := held.filter fun d => d.key ≠ c.key
  let replaced := kept.length ≠ held.length
  if !replaced && kept.length ≥ limit then .error (.batchFull limit)
  else .ok (replaced, ⟨some base, kept ++ [c]⟩)

/-- Stages one after another what still has room. -/
def stageAll (b : Batch) (base : VersionNumber) (cs : List Constraint) : Batch :=
  cs.foldl (fun b c =>
    match b.stage base c with
    | .ok (_, b') => b'
    | .error _ => b) b

end Batch

end VersionedTopology

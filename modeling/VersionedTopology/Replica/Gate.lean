/-
  VersionedTopology.Replica.Gate

  The confirmation in front of an overwrite.

  The server decides what is stale. The gate only remembers that an apply was
  refused as stale and that its user is being asked whether to overwrite the
  newer version. It waits in `pending` until the user cancels or confirms, and is
  `resolving` while the confirmed overwrite runs.
-/

import VersionedTopology.Constraint.Basic

namespace VersionedTopology

/-- Where the confirmation of an overwrite is. `pending` holds the refused batch, the newest
version the client had seen, and the version the server reported. -/
inductive Confirmation where
  | idle
  | pending (constraints : List Constraint) (seen server : VersionNumber)
  | resolving
deriving DecidableEq, Repr, Inhabited

/-- The confirmation, and whether the client may overwrite at all. -/
structure Gate where
  state : Confirmation := .idle
  permitted : Bool := false
deriving DecidableEq, Repr, Inhabited

namespace Gate

/-- An overwrite awaits confirmation. -/
def attempted (g : Gate) : Bool :=
  match g.state with
  | .pending .. => true
  | _ => false

/-- The server is ahead, so that a confirmed overwrite would lose newer work. -/
def wouldOverwrite (g : Gate) : Bool :=
  match g.state with
  | .pending _ seen server => server > seen
  | _ => false

/-- A refused apply starts the confirmation, or takes the place of an earlier one. -/
def recordStale (g : Gate) (cs : List Constraint) (seen server : VersionNumber) : Gate :=
  { g with state := .pending cs seen server }

/-- Cancels a pending confirmation, and nothing else. -/
def clear (g : Gate) : Gate := if g.attempted then { g with state := .idle } else g

/-- A pending confirmation is being acted on. -/
def beginResolve (g : Gate) : Gate := if g.attempted then { g with state := .resolving } else g

/-- Back to idle. -/
def reset (g : Gate) : Gate := { g with state := .idle }

end Gate

end VersionedTopology

/-
  VersionedTopology.Backend

  What the engine asks of a version store.

  A call names what is asked and fixes the type of its answer. Nothing is said
  about who answers: the ledger in memory, a server behind the network, or a
  script. Every call may fail.
-/

import VersionedTopology.Constraint.Basic
import VersionedTopology.Diff.Basic
import VersionedTopology.History.Pointers

namespace VersionedTopology

/-- A batch to be solved. Without an expected head the batch is applied whatever the server's
current version is. -/
structure ApplyRequest where
  version : VersionNumber
  expectedHead : Option VersionNumber
  constraints : List Constraint
deriving DecidableEq, Repr, Inhabited

/-- Whether the server is to skip its staleness check. -/
def ApplyRequest.isForced (r : ApplyRequest) : Bool := r.expectedHead.isNone

namespace Backend

/-- A question to a version store. -/
inductive Call where
  /-- A version, or the current one. -/
  | fetch (key : EnvironmentKey) (version : Option VersionNumber)
  /-- The number of a neighbour of a version. -/
  | neighbor (key : EnvironmentKey) (version : VersionNumber) (direction : Direction)
  /-- Makes a version the current one. -/
  | select (key : EnvironmentKey) (version : VersionNumber)
  /-- Solves a batch into a new version. -/
  | apply (key : EnvironmentKey) (request : ApplyRequest)
  /-- The constraints behind the current version. -/
  | constraints (key : EnvironmentKey)
  /-- What differs between the current versions of two environments. -/
  | diff (architecture source target : String)
  /-- Whether the current versions of two environments do not differ. -/
  | inSync (architecture source target : String)
deriving DecidableEq, Repr, Inhabited

/-- What a call returns when it succeeds. -/
@[reducible] def Call.Value : Call → Type
  | .fetch .. => Snapshot
  | .neighbor .. => Option VersionNumber
  | .select .. => Unit
  | .apply .. => Snapshot
  | .constraints .. => List Constraint
  | .diff .. => TopologyDiff
  | .inSync .. => Bool

/-- The answer to a call. -/
@[reducible] def Call.Answer (c : Call) : Type := Except Error c.Value

/-- The kinds of calls. -/
inductive Method where
  | fetch
  | neighbor
  | select
  | apply
  | constraints
  | diff
  | inSync
deriving DecidableEq, Repr, Inhabited

def Call.method : Call → Method
  | .fetch .. => .fetch
  | .neighbor .. => .neighbor
  | .select .. => .select
  | .apply .. => .apply
  | .constraints .. => .constraints
  | .diff .. => .diff
  | .inSync .. => .inSync

/-- What a successful call of a kind returns. -/
@[reducible] def Method.Value : Method → Type
  | .fetch => Snapshot
  | .neighbor => Option VersionNumber
  | .select => Unit
  | .apply => Snapshot
  | .constraints => List Constraint
  | .diff => TopologyDiff
  | .inSync => Bool

/-- The value of a call is that of its kind. -/
def Call.ofMethodValue : (c : Call) → c.method.Value → c.Value
  | .fetch .., v => v
  | .neighbor .., v => v
  | .select .., v => v
  | .apply .., v => v
  | .constraints .., v => v
  | .diff .., v => v
  | .inSync .., v => v

end Backend

end VersionedTopology

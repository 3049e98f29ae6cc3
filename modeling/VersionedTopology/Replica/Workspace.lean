/-
  VersionedTopology.Replica.Workspace

  The replicas of one client, and comparisons between environments.

  A workspace has one replica for each environment, made when it is first asked
  for, so everything that edits one environment shares one batch and one
  pipeline. Comparisons only read: they ask for the diff of two environments'
  current versions and refuse one that contradicts itself.
-/

import VersionedTopology.Backend
import VersionedTopology.Diff.View
import VersionedTopology.Replica.Basic

namespace VersionedTopology

/-- One replica for each environment that was asked for. -/
structure Workspace where
  canOverwrite : Bool := true
  replicas : Std.ExtTreeMap EnvironmentKey Replica := ∅
deriving Inhabited

namespace Workspace

/-- The replica of an environment, if it was asked for before. -/
def replica? (w : Workspace) (key : EnvironmentKey) : Option Replica := w.replicas[key]?

/-- Makes sure that an environment has its replica. -/
def ensure (w : Workspace) (key : EnvironmentKey) : Workspace :=
  { w with replicas := w.replicas.insertIfNew key (Replica.new key w.canOverwrite) }

/-- Replaces the state of an environment's replica. -/
def put (w : Workspace) (key : EnvironmentKey) (r : Replica) : Workspace :=
  { w with replicas := w.replicas.insert key r }

/-- The environments that have a replica, in order. -/
def environments (w : Workspace) : List EnvironmentKey := w.replicas.keys

end Workspace

namespace Comparison

/-- The diff between the current versions of two environments, if it is consistent. -/
def diff [Monad m] (ask : (c : Backend.Call) → m c.Answer) (architecture source target : String) :
    m (Except Error TopologyDiff) := do
  match ← ask (.diff architecture source target) with
  | .error e => pure (.error e)
  | .ok d =>
    match d.validate with
    | .error e => pure (.error e)
    | .ok () => pure (.ok d)

/-- Whether the current versions of two environments do not differ. -/
def inSync [Monad m] (ask : (c : Backend.Call) → m c.Answer)
    (architecture source target : String) : m (Except Error Bool) :=
  ask (.inSync architecture source target)

/-- The diff prepared for display under the names of the environments. -/
def view [Monad m] (ask : (c : Backend.Call) → m c.Answer) (architecture source target : String) :
    m (Except Error DiffView) := do
  match ← diff ask architecture source target with
  | .error e => pure (.error e)
  | .ok d => pure (.ok (d.view source target))

end Comparison

end VersionedTopology

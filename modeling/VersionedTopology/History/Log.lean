/-
  VersionedTopology.History.Log

  The log of one environment's versions.

  Every entry records the version it was computed from, its parent. The previous
  version is the parent; the next one is the newest entry whose parent is the
  version, so a branch made later hides the older way ahead and history stays a
  line for whoever walks it.
-/

import VersionedTopology.Backend

namespace VersionedTopology

/-- A recorded version: its snapshot, the version it was computed from, and the constraints that
led from there. -/
structure LogEntry where
  snapshot : Snapshot
  parent : Option VersionNumber
  constraints : List Constraint
deriving Inhabited

/-- All versions of one environment, the greatest number ever given out, and the current one. -/
structure VersionLog where
  entries : Std.ExtTreeMap VersionNumber LogEntry := ∅
  head : VersionNumber := 0
  current : VersionNumber := 0
deriving Inhabited

namespace VersionLog

def isEmpty (l : VersionLog) : Bool := l.entries.isEmpty

def entryAt? (l : VersionLog) (v : VersionNumber) : Option LogEntry := l.entries[v]?

/-- Records a version as head and current. -/
def push (l : VersionLog) (e : LogEntry) : VersionLog :=
  { entries := l.entries.insert e.snapshot.version e
    head := e.snapshot.version
    current := e.snapshot.version }

/-- The newest version computed from the given one. -/
def child? (l : VersionLog) (v : VersionNumber) : Option VersionNumber :=
  l.entries.foldl (fun found n e => if e.parent = some v then some n else found) none

/-- The neighbour of a recorded version. -/
def neighbor (l : VersionLog) (v : VersionNumber) (e : LogEntry) : Direction →
    Option VersionNumber
  | .previous => e.parent
  | .next => l.child? v

/-- How a walk from a version along its parents ends. -/
inductive Walk where
  /-- At a version without parent; the entries are listed oldest first. -/
  | root (entries : List LogEntry)
  /-- At a number that is not recorded. -/
  | missing (version : VersionNumber)
  /-- Never. -/
  | endless
deriving Inhabited

/-- Walks `fuel` steps at most; `newer` are the entries passed so far, oldest first. -/
def walk (l : VersionLog) : Nat → VersionNumber → List LogEntry → Walk
  | 0, _, _ => .endless
  | fuel + 1, v, newer =>
    match l.entryAt? v with
    | none => .missing v
    | some e =>
      match e.parent with
      | none => .root (e :: newer)
      | some p => l.walk fuel p (e :: newer)

/-- The walk from the current version. One that takes more steps than there are versions passes
one of them again, and then never ends. -/
def lineage (l : VersionLog) : Walk := l.walk (l.entries.size + 1) l.current []

end VersionLog

end VersionedTopology

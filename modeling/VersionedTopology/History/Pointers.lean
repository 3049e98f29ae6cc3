/-
  VersionedTopology.History.Pointers

  The two neighbours of a version in the history of its environment.

  History is a line as far as a client can see: it steps to the previous or the
  next version, one at a time. Applying constraints makes a new version with
  nothing ahead of it; stepping leaves the version it came from on the other side.
-/

import VersionedTopology.Topology.Graph

namespace VersionedTopology

/-- Which neighbour of a version. -/
inductive Direction where
  | previous
  | next
deriving DecidableEq, Repr, Inhabited

namespace Direction

def word : Direction → String
  | previous => "previous"
  | next => "next"

def ofWord? (s : String) : Option Direction :=
  if s = "previous" then some previous else if s = "next" then some next else none

def opposite : Direction → Direction
  | previous => next
  | next => previous

end Direction

/-- The neighbours of the current version, by number. -/
structure Pointers where
  previous : Option VersionNumber := none
  next : Option VersionNumber := none
deriving DecidableEq, Repr, Inhabited

namespace Pointers

/-- Right after an apply: the base is behind and nothing is ahead. -/
def afterApply (base : VersionNumber) : Pointers := ⟨some base, none⟩

/-- After a step away from `left`; `far` is the next neighbour in the same direction. -/
def afterStep (direction : Direction) (left : VersionNumber) (far : Option VersionNumber) :
    Pointers :=
  match direction with
  | .previous => ⟨far, some left⟩
  | .next => ⟨some left, far⟩

/-- The neighbour in a direction. -/
def get (p : Pointers) : Direction → Option VersionNumber
  | .previous => p.previous
  | .next => p.next

end Pointers

/-- The outcome of a step: the version moved to, or that there is none. -/
inductive Navigation where
  | moved (snapshot : Snapshot)
  | unavailable
deriving Inhabited

/-- The version moved to. -/
def Navigation.snapshot? : Navigation → Option Snapshot
  | moved s => some s
  | unavailable => none

end VersionedTopology

/-
  VersionedTopology.Http.Route

  What the server can be asked for.

  Every path but the health check addresses an environment, as
  `/architecture/A/environment/E`, with one more segment for its neighbours, its
  constraints and its comparisons. Names are coded in the path. A name may be
  empty unless it ends the path.
-/

import VersionedTopology.History.Pointers
import VersionedTopology.Http.Percent

namespace VersionedTopology.Http

/-- What is asked of an environment. -/
inductive Aspect where
  /-- A version of it. -/
  | versions
  /-- The neighbour of a version. -/
  | neighbor (direction : Direction)
  /-- The constraints behind its current version. -/
  | constraints
  /-- What differs from another environment. -/
  | diff
  /-- Whether nothing differs from another environment. -/
  | inSync
deriving DecidableEq, Repr, Inhabited

namespace Aspect

/-- The segments after the environment. -/
def tail : Aspect → List String
  | versions => []
  | neighbor d => [d.word]
  | constraints => ["constraints"]
  | diff => ["diff"]
  | inSync => ["insync"]

def ofTail? (segments : List String) : Option Aspect :=
  [versions, neighbor .next, neighbor .previous, constraints, diff, inSync].find?
    fun a => a.tail = segments

/-- The methods that are understood. -/
def methods : Aspect → List String
  | versions => ["GET", "HEAD", "POST", "PUT"]
  | constraints => ["GET", "HEAD", "POST"]
  | _ => ["GET", "HEAD"]

end Aspect

/-- A path that the server knows; names are still coded. -/
inductive Route where
  | health
  | environment (architecture name : String) (aspect : Aspect)
deriving DecidableEq, Repr, Inhabited

namespace Route

/-- The route of a path. -/
def ofPath? (path : String) : Option Route :=
  if path = "/health" then some .health
  else
    match (Text.split '/' path.toList).map String.ofList with
    | "" :: "architecture" :: a :: "environment" :: e :: rest =>
      if rest.isEmpty && e.isEmpty then none
      else (Aspect.ofTail? rest).map (.environment a e)
    | _ => none

/-- The methods that are understood. -/
def methods : Route → List String
  | health => ["GET", "HEAD"]
  | environment _ _ aspect => aspect.methods

end Route

end VersionedTopology.Http

/-
  VersionedTopology.Settings.Basic

  What can be set about the client and the development server, and the values
  that hold when nothing is set.
-/

import VersionedTopology.Constraint.Solve
import VersionedTopology.Text.Unsigned

namespace VersionedTopology

/-- How the client reaches the server. -/
structure ClientSettings where
  baseUrl : String := "http://127.0.0.1:8080"
  apiKey : Option String := none
  timeoutSeconds : Nat := 30
  /-- Whether the client may force an apply over a newer version. -/
  canOverwrite : Bool := true
deriving DecidableEq, Repr, Inhabited

/-- The development server. -/
structure ServerSettings where
  host : String := "127.0.0.1"
  port : Nat := 8080
  /-- Requests per second; zero sets no limit. -/
  rateLimit : Nat := 100
  /-- The origins that may read answers; `none` stands for those of the local host. -/
  corsOrigins : Option (List String) := none
  /-- The key that requests have to bear. -/
  apiKey : Option String := none
  /-- The property names allowed for each kind of resource. -/
  schema : Schema := {}
deriving Inhabited

/-- All settings. -/
structure Settings where
  client : ClientSettings := {}
  server : ServerSettings := {}
deriving Inhabited

/-- Where the server listens. -/
def ServerSettings.address (s : ServerSettings) : String := s.host ++ ":" ++ toString s.port

end VersionedTopology

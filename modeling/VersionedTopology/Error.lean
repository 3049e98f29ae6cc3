/-
  VersionedTopology.Error

  What can go wrong, by cause.

  Every failure can be met where it arises. `text` is the one place where a
  cause is put into words, `kind` the coarse class that picks its treatment.
-/

import VersionedTopology.Topology.Graph

namespace VersionedTopology

/-- Coarse classes of failures. `usage` failures are refused before anything is sent. -/
inductive ErrorKind where
  | notFound
  | staleVersion
  | config
  | transport
  | usage
deriving DecidableEq, Repr

/-- A failure of the engine. -/
inductive Error where
  /-- There is no such environment, or no such version of it. -/
  | notFound (architecture environment : String) (version : Option VersionNumber)
  /-- The server has moved past the newest version that the client has seen. -/
  | staleVersion (seen server : VersionNumber)
  /-- Constraints are invalid against the graph or its schema. -/
  | config (issues : List Issue)
  /-- The network failed, or an answer was unusable. -/
  | transport (reason : String)
  | applyInFlight
  | emptyBatch
  | notLoaded
  | batchFull (limit : Nat)
  | noOverwritePending
  | overwriteNotPermitted
  | invalidTopologyId (written : String)
  /-- A file, a flag or another input of the user is unusable. -/
  | invalidInput (reason : String)
deriving DecidableEq, Repr, Inhabited

namespace Error

def kind : Error → ErrorKind
  | notFound .. => .notFound
  | staleVersion .. => .staleVersion
  | config _ => .config
  | transport _ => .transport
  | _ => .usage

/-- The message for an identifier that cannot be parsed. -/
def badIdText (written : String) : String :=
  "Invalid topology id '" ++ written ++ "': expected provider:type:name"

/-- A version as it is named in messages. -/
def versionText : Option VersionNumber → String
  | none => "latest"
  | some v => "v" ++ toString v

def text : Error → String
  | notFound a e v => "No such state: " ++ a ++ "/" ++ e ++ " (" ++ versionText v ++ ")"
  | staleVersion seen server =>
    "Stale version: client last saw v" ++ toString seen ++ ", server is at v" ++ toString server
  | config issues => "Configuration rejected: " ++ "; ".intercalate (issues.map Issue.text)
  | transport reason => "Transport error: " ++ reason
  | applyInFlight => "An apply is already in flight for this environment"
  | emptyBatch => "No staged constraints to apply"
  | notLoaded => "No environment version loaded"
  | batchFull limit => "Pending batch is full (" ++ toString limit ++ " constraints)"
  | noOverwritePending => "No overwrite is awaiting confirmation"
  | overwriteNotPermitted => "Overwriting a newer version is not permitted"
  | invalidTopologyId written => badIdText written
  | invalidInput reason => "Invalid input: " ++ reason

end Error

/-- The environment does not exist, or has no such version. -/
def EnvironmentKey.notFound (k : EnvironmentKey) (version : Option VersionNumber) : Error :=
  .notFound k.architecture k.environment version

end VersionedTopology

/-
  VersionedTopology.CommandLine.Session

  What a running command acts on.

  A command prints results, tells and logs what happens on the way, and sends
  requests. All of that is kept when it fails. What it tells and what it logs go
  the same way and stay in order.
-/

import VersionedTopology.Http.Network
import VersionedTopology.Replica.Task
import VersionedTopology.Trace.Entry

namespace VersionedTopology.CommandLine

/-- What is put beside the results. -/
inductive Message where
  | told (line : String)
  | logged (entry : Trace.Entry)
deriving DecidableEq, Repr, Inhabited

/-- The network, and what was printed so far. -/
structure Session where
  network : Http.Network
  /-- The results. -/
  printed : String := ""
  /-- What was told and logged, in order. -/
  messages : List Message := []
deriving Inhabited

/-- The lines that were told. -/
def Session.told (s : Session) : List String :=
  s.messages.filterMap fun
    | .told line => some line
    | .logged _ => none

/-- A running command. -/
abbrev Run := ExceptT Error (StateM Session)

namespace Run

def print (text : String) : Run Unit := modify fun s => { s with printed := s.printed ++ text }

def put (m : Message) : Run Unit := modify fun s => { s with messages := s.messages ++ [m] }

def tell (ls : List String) : Run Unit := ls.forM fun l => put (.told l)

def log (level : Trace.Level) (origin : Trace.Origin) (message : String) : Run Unit :=
  put (.logged ⟨level, origin, message⟩)

/-- Carries a request through the network of a session. -/
def exchange (o : Http.Outgoing) : StateM Session Http.Delivery := fun s =>
  let (d, network) := Http.Network.exchange o s.network
  (d, { s with network })

/-- Asks the server. -/
def ask (c : Http.Client) (call : Backend.Call) : StateM Session call.Answer := c.ask exchange call

/-- Runs an operation of a replica. -/
def perform (c : Http.Client) (r : Replica) (o : Operation) :
    Run (Replica × Except Error Outcome) :=
  ExceptT.lift (r.perform (ask c) o)

/-- Runs an operation of a replica and ends with its failure. -/
def succeed (c : Http.Client) (r : Replica) (o : Operation) : Run (Replica × Outcome) := do
  match ← perform c r o with
  | (r, .ok outcome) => pure (r, outcome)
  | (_, .error e) => throw e

/-- Runs an operation that ends with a version. -/
def reach (c : Http.Client) (r : Replica) (o : Operation) : Run (Replica × Snapshot) := do
  match ← succeed c r o with
  | (r, .version s) => pure (r, s)
  | _ => throw .notLoaded

end Run

end VersionedTopology.CommandLine

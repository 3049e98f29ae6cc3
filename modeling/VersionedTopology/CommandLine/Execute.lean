/-
  VersionedTopology.CommandLine.Execute

  Running commands.

  First the settings are gathered: the defaults, the settings file, the
  environment variables, and the flags, each over the ones before. Then every
  command but the server needs the name of an architecture and a usable base
  URL, and works on a replica of its own.
-/

import VersionedTopology.CommandLine.Files
import VersionedTopology.CommandLine.Invocation
import VersionedTopology.CommandLine.Report
import VersionedTopology.CommandLine.Session
import VersionedTopology.Http.Announce
import VersionedTopology.Replica.Workspace
import VersionedTopology.Settings.Environment
import VersionedTopology.Settings.Wire

namespace VersionedTopology.CommandLine

/-- How a command ends that does not fail. -/
inductive Ending where
  | done
  /-- A server is up. -/
  | serving
deriving DecidableEq, Repr, Inhabited

/-! ## Settings -/

/-- The settings file that is used when there is one and none is named. -/
def settingsFile : String := "archsync.toml"

namespace Invocation

/-- The settings in the file, or the defaults. -/
def fileSettings (i : Invocation) (files : Files) : Except Error Settings :=
  match i.config with
  | some path => (files.readText path).bind Settings.ofToml
  | none =>
    if files.isFile settingsFile then (files.readText settingsFile).bind Settings.ofToml
    else .ok {}

/-- The settings under the flags. -/
def withFlags (i : Invocation) (s : Settings) : Settings :=
  { client := { s.client with
      baseUrl := i.url.getD s.client.baseUrl
      apiKey := i.apiKey.or s.client.apiKey }
    server := { s.server with apiKey := i.apiKey.or s.server.apiKey } }

/-- The settings of a command. -/
def settings (i : Invocation) (files : Files) (env : Variables) : Except Error Settings :=
  (i.fileSettings files).map fun s => i.withFlags (s.withVariables env)

end Invocation

/-! ## The server -/

/-- Starts a server, with the snapshots of a file when one is given. -/
def serve (files : Files) (quiet : Bool) (s : ServerSettings) (seed : Option String) :
    Run Ending := do
  match seed with
  | none => pure ()
  | some path =>
    let snapshots ← MonadExcept.ofExcept (files.readJson (Decoder.list Snapshot.decoder) path)
    let _ ← MonadExcept.ofExcept ((Http.Server.new s).seed snapshots)
    Run.log .info .commands ("Seeded " ++ toString snapshots.length ++ " version(s) from " ++ path)
  if !quiet then Run.print (lines (banner s))
  (Http.announce s).forM fun e => Run.put (.logged e)
  if (← get).network.isTaken s.port then
    throw (.transport ("bind " ++ s.address ++ " failed: Address already in use (os error 98)"))
  Run.log .info .server ("archsync development server listening on " ++ s.address)
  pure .serving

/-! ## The client -/

/-- A client, and a replica of one environment. -/
structure Connection where
  client : Http.Client
  replica : Replica
  jsonMode : Bool
deriving Inhabited

/-- Gets ready to talk about an environment. -/
def connect (s : ClientSettings) (i : Invocation) : Run Connection := do
  match i.architecture with
  | none => throw (.invalidInput "--architecture is required")
  | some architecture =>
    let client ← MonadExcept.ofExcept (Http.Client.ofSettings s)
    let key : EnvironmentKey := ⟨architecture, i.environment⟩
    Run.log .debug .workspace ("Opening store for " ++ key.text)
    pure ⟨client, Replica.new key s.canOverwrite, i.jsonMode⟩

namespace Connection

def report (c : Connection) (r : Report) : Run Unit := Run.print (r.text c.jsonMode)

/-- Prints a version. -/
def print (c : Connection) (version : Option VersionNumber) : Run Unit := do
  let (r, s) ← Run.reach c.client c.replica (.load version)
  c.report (.version s r.pointers)

/-- Stages constraints one after another, counting those that replace another one. -/
def stageAll (r : Replica) (cs : List Constraint) : Except Error (Replica × Nat) :=
  cs.foldlM (fun (r, replaced) c =>
    (r.stage c).map fun (again, r) => (r, if again then replaced + 1 else replaced)) (r, 0)

/-- Submits the staged constraints; over a newer version only when forced. -/
def submit (c : Connection) (r : Replica) (force : Bool) : Run Outcome := do
  match ← Run.perform c.client r (.apply false) with
  | (_, .ok outcome) => pure outcome
  | (r, .error e) =>
    match e with
    | .staleVersion seen server =>
      if force then
        Run.tell (overwriting seen server)
        return (← Run.succeed c.client r .confirm).2
      Run.tell (overtaken e)
    | .config issues => Run.tell (issues.map fun i => "  " ++ i.text)
    | _ => pure ()
    throw e

/-- Applies a file of constraints to the current version. -/
def apply (c : Connection) (files : Files) (file : String) (force : Bool) : Run Unit := do
  let cs ← MonadExcept.ofExcept (files.readJson (Decoder.list Constraint.decoder) file)
  let (r, base) ← Run.reach c.client c.replica (.load none)
  let (r, replaced) ← MonadExcept.ofExcept (stageAll r cs)
  Run.log .info .commands ("Staged " ++ toString r.batch.size ++ " constraint(s) on v" ++
    toString base.version ++ " (" ++ toString replaced ++ " coalesced)")
  match ← c.submit r force with
  | .version s => c.report (.applied base s)
  | _ => throw .notLoaded

/-- Goes to a neighbour of a version, and makes it current on the server when told so. -/
def step (c : Connection) (d : Direction) (version : Option VersionNumber) (select : Bool) :
    Run Unit := do
  let (r, _) ← Run.reach c.client c.replica (.load version)
  match ← Run.succeed c.client r (.step d) with
  | (r, .navigation (.moved s)) =>
    let r ← if select then (·.1) <$> Run.reach c.client r (.select s.version) else pure r
    c.report (.version s r.pointers)
  | _ => c.report (.nowhere d)

/-- Makes a version current on the server. -/
def select (c : Connection) (version : VersionNumber) : Run Unit := do
  let (_, s) ← Run.reach c.client c.replica (.select version)
  c.report (.selected s)

/-- Prints the constraints behind the current version. -/
def constraints (c : Connection) : Run Unit := do
  match ← Run.succeed c.client c.replica .listConstraints with
  | (_, .constraints cs) => c.report (.constraints c.replica.key cs)
  | _ => throw .notLoaded

/-- Prints what differs between two environments. -/
def diff (c : Connection) (source target : String) : Run Unit := do
  let v ← ExceptT.mk (Comparison.view (Run.ask c.client) c.replica.key.architecture source target)
  c.report (.diff v)

/-- Tells whether two environments are the same. -/
def inSync (c : Connection) (source target : String) : Run Unit := do
  let same ←
    ExceptT.mk (Comparison.inSync (Run.ask c.client) c.replica.key.architecture source target)
  c.report (.inSync source target same)

end Connection

/-! ## Commands -/

/-- Runs a command with its settings. -/
def Invocation.run (i : Invocation) (files : Files) (s : Settings) : Run Ending := do
  let client (f : Connection → Run Unit) : Run Ending := do
    f (← connect s.client i)
    pure .done
  match i.command with
  | .serve host port seed =>
    serve files i.quiet
      { s.server with host := host.getD s.server.host, port := port.getD s.server.port } seed
  | .print version => client fun c => c.print version
  | .apply file force => client fun c => c.apply files file force
  | .step d version select => client fun c => c.step d version select
  | .select version => client fun c => c.select version
  | .diff source target => client fun c => c.diff source target
  | .inSync source target => client fun c => c.inSync source target
  | .constraints => client fun c => c.constraints

/-- Gathers the settings and runs the command. -/
def Invocation.execute (i : Invocation) (files : Files) (env : Variables) : Run Ending := do
  let s ← MonadExcept.ofExcept (i.settings files env)
  (Settings.warnings env).forM fun w => Run.log .warn .settings w
  i.run files s

end VersionedTopology.CommandLine

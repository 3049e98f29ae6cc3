/-
  VersionedTopology.History.Ledger

  The version store of record.

  A ledger keeps one log for each environment, checks submissions against the
  current version, and solves them. A rejected request leaves every log as it
  is; only the count of batches that reached the solver moves.
-/

import VersionedTopology.Constraint.Solve
import VersionedTopology.History.Log

namespace VersionedTopology

/-- The logs of all environments. -/
structure Ledger where
  logs : Std.ExtTreeMap EnvironmentKey VersionLog := ∅
  schema : Schema := {}
  /-- Number of batches that reached the solver. -/
  submissions : Nat := 0
deriving Inhabited

namespace Ledger

/-- How many constraints one submission may hold. -/
def maxSubmission : Nat := 2048

def log? (l : Ledger) (key : EnvironmentKey) : Option VersionLog := l.logs[key]?

/-- The ledger with another log for an environment. -/
def withLog (l : Ledger) (key : EnvironmentKey) (log : VersionLog) : Ledger :=
  { l with logs := l.logs.insert key log }

/-- The log of an environment, and an entry of it. -/
def find (l : Ledger) (key : EnvironmentKey) (version : VersionNumber) :
    Except Error (VersionLog × LogEntry) :=
  match l.log? key with
  | none => .error (key.notFound (some version))
  | some log =>
    match log.entryAt? version with
    | none => .error (key.notFound (some version))
    | some e => .ok (log, e)

/-! ## Changes -/

/-- Appends a snapshot as head and current version. Its number has to be greater than that of every
version recorded before. -/
def seed (l : Ledger) (s : Snapshot) : Except Error Ledger :=
  let log := (l.log? s.key).getD {}
  if !log.isEmpty && s.version ≤ log.head then .error (.staleVersion s.version log.head)
  else
    let parent := if log.isEmpty then none else some log.current
    .ok (l.withLog s.key (log.push ⟨s, parent, []⟩))

/-- Starts an environment at version 1. -/
def create (l : Ledger) (key : EnvironmentKey) (resources : List Resource) (edges : List Edge) :
    Except Error (Snapshot × Ledger) :=
  if l.logs.contains key then .error (.invalidInput (key.text ++ " already exists"))
  else
    let s : Snapshot :=
      { architecture := key.architecture, environment := key.environment, version := 1
        resources := Resources.collect resources, edges := EdgeSet.collect edges }
    match l.seed s with
    | .ok l => .ok (s, l)
    | .error e => .error e

/-- Makes a recorded version the current one. -/
def setCurrent (l : Ledger) (key : EnvironmentKey) (version : VersionNumber) :
    Except Error Ledger :=
  match l.find key version with
  | .error e => .error e
  | .ok (log, _) => .ok (l.withLog key { log with current := version })

/-- Solves a batch and records the result. The count of solved batches moves also when the solver
rejects the batch. -/
def submit (l : Ledger) (key : EnvironmentKey) (request : ApplyRequest) :
    Ledger × Except Error Snapshot :=
  match l.find key request.version with
  | .error e => (l, .error e)
  | .ok (log, base) =>
    if request.expectedHead.any fun expected => log.current > expected then
      (l, .error (.staleVersion (request.expectedHead.getD 0) log.current))
    else if request.constraints.length > maxSubmission then
      (l, .error (.config [⟨none, none,
        "batch of " ++ toString request.constraints.length ++
          " constraints exceeds the limit of " ++ toString maxSubmission⟩]))
    else
      let l := { l with submissions := l.submissions + 1 }
      match solve base.snapshot request.constraints l.schema with
      | .error e => (l, .error e)
      | .ok s =>
        let s := { s with version := VersionNumber.next log.head }
        (l.withLog key (log.push ⟨s, some request.version, request.constraints⟩), .ok s)

/-! ## Questions -/

/-- A version of an environment, or its current one. -/
def get (l : Ledger) (key : EnvironmentKey) (version : Option VersionNumber) :
    Except Error Snapshot :=
  match l.log? key with
  | none => .error (key.notFound version)
  | some log =>
    let v := version.getD log.current
    match log.entryAt? v with
    | none => .error (key.notFound (some v))
    | some e => .ok e.snapshot

/-- The neighbour of a version. -/
def neighbor (l : Ledger) (key : EnvironmentKey) (version : VersionNumber)
    (direction : Direction) : Except Error (Option VersionNumber) :=
  match l.find key version with
  | .error e => .error e
  | .ok (log, e) => .ok (log.neighbor version e direction)

/-- The constraints recorded along the parents of the current version, oldest first. -/
def history (l : Ledger) (key : EnvironmentKey) : Except Error (List Constraint) :=
  match l.log? key with
  | none => .error (key.notFound none)
  | some log =>
    match log.lineage with
    | .root entries => .ok (entries.flatMap LogEntry.constraints)
    | .missing v => .error (key.notFound (some v))
    | .endless => .error (.transport ("the history of " ++ key.text ++ " never ends"))

/-- What differs between the current versions of two environments of an architecture. -/
def diff (l : Ledger) (architecture source target : String) : Except Error TopologyDiff :=
  match l.get ⟨architecture, source⟩ none with
  | .error e => .error e
  | .ok s =>
    match l.get ⟨architecture, target⟩ none with
    | .error e => .error e
    | .ok t => .ok (TopologyDiff.between s.toGraph t.toGraph)

/-! ## As a backend -/

/-- Answers a call. -/
def answer (l : Ledger) : (c : Backend.Call) → Ledger × c.Answer
  | .fetch key version => (l, l.get key version)
  | .neighbor key version direction => (l, l.neighbor key version direction)
  | .select key version =>
    match l.setCurrent key version with
    | .ok l' => (l', .ok ())
    | .error e => (l, .error e)
  | .apply key request => l.submit key request
  | .constraints key => (l, l.history key)
  | .diff architecture source target => (l, l.diff architecture source target)
  | .inSync architecture source target =>
    (l, (l.diff architecture source target).map TopologyDiff.isEmpty)

end Ledger

end VersionedTopology

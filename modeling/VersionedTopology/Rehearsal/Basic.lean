/-
  VersionedTopology.Rehearsal.Basic

  Replicas over one ledger, under a script.

  A rehearsal owns a ledger, a workspace and replicas of their own. Every call to
  the ledger is noted. Calls of gated kinds pause the operation that makes them,
  so that others can run in between, and a scripted result can take the place of
  the ledger's answer. This makes every interleaving of several clients'
  operations playable, step by step.
-/

import VersionedTopology.History.Ledger
import VersionedTopology.Replica.Task
import VersionedTopology.Replica.Workspace

namespace VersionedTopology

namespace Rehearsal

/-- Which replica: the workspace's for an environment, or one of its own. -/
inductive Handle where
  | shared (key : EnvironmentKey)
  | own (index : Nat)
deriving DecidableEq, Repr, Inhabited

/-- A result that takes the place of the next answer to a call of its kind. -/
structure Scripted where
  method : Backend.Method
  result : Except Error method.Value

/-- A paused operation. -/
structure Paused where
  handle : Handle
  task : Task
deriving Inhabited

/-- A subscriber's inbox. -/
structure Subscription where
  handle : Handle
  inbox : Nat
deriving DecidableEq, Repr, Inhabited

end Rehearsal

/-- The stage of a rehearsal. -/
structure Rehearsal where
  ledger : Ledger := {}
  workspace : Workspace := {}
  /-- The replicas of their own. -/
  own : List Replica := []
  /-- Names that replicas go by. -/
  names : List (String × Rehearsal.Handle) := []
  tasks : List (String × Rehearsal.Paused) := []
  subscriptions : List (String × Rehearsal.Subscription) := []
  inboxes : Nat := 0
  gated : List Backend.Method := []
  script : List Rehearsal.Scripted := []
  /-- The calls made, in order. -/
  calls : List Backend.Call := []

namespace Rehearsal

/-- Replaces what goes by a name. -/
def assign (name : String) (a : α) (xs : List (String × α)) : List (String × α) :=
  (name, a) :: xs.filter fun x => x.1 ≠ name

/-! ## Replicas -/

def replica? (z : Rehearsal) : Handle → Option Replica
  | .shared key => z.workspace.replica? key
  | .own i => z.own[i]?

def put (z : Rehearsal) (h : Handle) (r : Replica) : Rehearsal :=
  match h with
  | .shared key => { z with workspace := z.workspace.put key r }
  | .own i => { z with own := z.own.set i r }

/-- Opens a replica of its own under a name. -/
def openOwn (z : Rehearsal) (name : String) (key : EnvironmentKey) (canOverwrite : Bool) :
    Rehearsal :=
  { z with
    own := z.own ++ [Replica.new key canOverwrite]
    names := assign name (.own z.own.length) z.names }

/-- Opens the workspace's replica of an environment under a name, and lists the names that it went
by before. -/
def openShared (z : Rehearsal) (name : String) (key : EnvironmentKey) :
    List String × Rehearsal :=
  let same := z.names.filter fun n => n.2 = .shared key
  ((same.map Prod.fst).mergeSort fun a b => (compare a b).isLE,
    { z with
      workspace := z.workspace.ensure key
      names := assign name (.shared key) z.names })

/-! ## Calls -/

/-- Notes a call. -/
def note (z : Rehearsal) (c : Backend.Call) : Rehearsal := { z with calls := z.calls ++ [c] }

/-- Takes the first scripted result for a call out of the script. -/
def takeScripted (c : Backend.Call) : List Scripted → Option (c.Answer × List Scripted)
  | [] => none
  | s :: rest =>
    if h : s.method = c.method then
      some ((h ▸ s.result).map c.ofMethodValue, rest)
    else (takeScripted c rest).map fun (a, rest) => (a, s :: rest)

/-- The answer to a call: the next scripted one, else the ledger's. -/
def answer (z : Rehearsal) (c : Backend.Call) : Rehearsal × c.Answer :=
  match takeScripted c z.script with
  | some (a, rest) => ({ z with script := rest }, a)
  | none =>
    let (l, a) := z.ledger.answer c
    ({ z with ledger := l }, a)

/-- A call that nothing pauses. -/
def ask (c : Backend.Call) : StateM Rehearsal c.Answer := fun z =>
  let (z, a) := (z.note c).answer c
  (a, z)

/-! ## Operations -/

/-- Answers the call that a task waits for, and runs on to the next gated call or to the end. -/
def resume (z : Rehearsal) (h : Handle) (r : Replica) (t : Task) : Rehearsal × Progress :=
  let (z, a) := z.answer (t.call r.key)
  match _h : r.resume t a with
  | (r', .finished result) => (z.put h r', .finished result)
  | (r', .waiting t') =>
    let c := t'.call r'.key
    let z := (z.put h r').note c
    if z.gated.contains c.method then (z, .waiting t') else z.resume h r' t'
termination_by t.callsLeft
decreasing_by exact Replica.resume_callsLeft (by rw [_h])

/-- Starts an operation and runs it to its first gated call or to the end. -/
def start (z : Rehearsal) (h : Handle) (r : Replica) (o : Operation) : Rehearsal × Progress :=
  match r.start o with
  | (r, .finished result) => (z.put h r, .finished result)
  | (r, .waiting t) =>
    let c := t.call r.key
    let z := (z.put h r).note c
    if z.gated.contains c.method then (z, .waiting t) else z.resume h r t

/-- Runs an operation from start to end, whatever is gated. -/
def perform (z : Rehearsal) (h : Handle) (r : Replica) (o : Operation) :
    Rehearsal × Except Error Outcome :=
  let ((r, result), z) := (r.perform ask o).run z
  (z.put h r, result)

/-- Starts an operation as a task of the given name, which is kept while it is paused. -/
def startTask (z : Rehearsal) (name : String) (h : Handle) (r : Replica) (o : Operation) :
    Rehearsal × Progress :=
  match z.start h r o with
  | (z, .waiting t) => ({ z with tasks := assign name ⟨h, t⟩ z.tasks }, .waiting t)
  | done => done

/-- Resumes a paused task. -/
def resumeTask (z : Rehearsal) (name : String) (p : Paused) (r : Replica) :
    Rehearsal × Progress :=
  let z := { z with tasks := z.tasks.filter fun t => t.1 ≠ name }
  match z.resume p.handle r p.task with
  | (z, .waiting t) => ({ z with tasks := assign name ⟨p.handle, t⟩ z.tasks }, .waiting t)
  | done => done

/-- Drops a paused task. -/
def cancelTask (z : Rehearsal) (name : String) (p : Paused) (r : Replica) : Rehearsal :=
  { z.put p.handle (r.cancel p.task) with tasks := z.tasks.filter fun t => t.1 ≠ name }

/-! ## Subscribers -/

/-- Subscribes to a replica under a name. -/
def subscribe (z : Rehearsal) (name : String) (h : Handle) (r : Replica) : Rehearsal :=
  { z.put h (r.subscribe z.inboxes) with
    subscriptions := assign name ⟨h, z.inboxes⟩ z.subscriptions
    inboxes := z.inboxes + 1 }

end Rehearsal

end VersionedTopology

/-
  VersionedTopology.Replica.Task

  Operations of a replica that ask a version store.

  An operation runs in stages. Between two stages it waits for the answer to one
  call, and anything may happen to the replica in the meantime, so what it needs
  later is part of the task. `start` runs an operation to its first call, `resume`
  from an answer to the next call or to the end, and `cancel` ends it at a call.
  However a submission ends, the pipeline is released, and a confirmed one takes
  the gate back to idle.
-/

import VersionedTopology.Backend
import VersionedTopology.Replica.Basic

namespace VersionedTopology

/-- An operation that asks a version store. -/
inductive Operation where
  /-- Makes a version current in the replica; `none` is the server's current one. -/
  | load (version : Option VersionNumber)
  /-- Makes a version current on the server, and loads it. -/
  | select (version : VersionNumber)
  /-- Moves to a neighbour. -/
  | step (direction : Direction)
  /-- Asks for the constraints behind the server's current version. -/
  | listConstraints
  /-- Submits the batch, without staleness check when forced. -/
  | apply (force : Bool)
  /-- Submits the batch over a newer version, as its user confirmed. -/
  | confirm
deriving DecidableEq, Repr, Inhabited

/-- What an operation returns. -/
inductive Outcome where
  | version (s : Snapshot)
  | navigation (n : Navigation)
  | constraints (cs : List Constraint)
deriving Inhabited

/-- How a batch is submitted. -/
inductive Manner where
  | checked
  | forced
  | confirmed
deriving DecidableEq, Repr, Inhabited

/-- The request of a submission. Only a checked one tells the server what the client has seen. -/
def Manner.request (m : Manner) (c : Claim) : ApplyRequest :=
  { version := c.base.version
    expectedHead := if m = .checked then some c.knownHead else none
    constraints := c.submitted }

/-- An operation that waits for an answer. -/
inductive Task where
  /-- Before the version of a load. -/
  | loadFetch (version : Option VersionNumber)
  /-- Before the previous neighbour of the version fetched by a load. -/
  | loadPrevious (fetched : Snapshot)
  /-- Before the next neighbour of the version fetched by a load. -/
  | loadNext (fetched : Snapshot) (previous : Option VersionNumber)
  /-- Before the server has moved its current version. -/
  | selecting (version : VersionNumber)
  /-- Before the version that a step goes to. -/
  | stepFetch (direction : Direction) (left target : VersionNumber)
  /-- Before the neighbour on the far side of the version a step goes to. -/
  | stepFar (direction : Direction) (left target : VersionNumber) (fetched : Snapshot)
  | listing
  /-- Before the server's current version, which decides whether to submit. -/
  | checking (claim : Claim)
  /-- Before the result of a submission. -/
  | submitting (claim : Claim) (manner : Manner)
deriving Inhabited

namespace Task

/-- The call whose answer a task waits for. -/
@[reducible] def call (key : EnvironmentKey) : Task → Backend.Call
  | loadFetch v => .fetch key v
  | loadPrevious s => .neighbor key s.version .previous
  | loadNext s _ => .neighbor key s.version .next
  | selecting v => .select key v
  | stepFetch _ _ t => .fetch key (some t)
  | stepFar d _ t _ => .neighbor key t d
  | listing => .constraints key
  | checking _ => .fetch key none
  | submitting c m => .apply key (m.request c)

/-- How many answers a task waits for at most. -/
def callsLeft : Task → Nat
  | selecting _ => 4
  | loadFetch _ => 3
  | loadPrevious _ => 2
  | stepFetch .. => 2
  | checking _ => 2
  | _ => 1

end Task

/-- Where an operation is: waiting for an answer, or at its end. -/
inductive Progress where
  | waiting (task : Task)
  | finished (result : Except Error Outcome)
deriving Inhabited

namespace Replica

/-- Ends a submission: the pipeline is free, and the gate of a confirmed one is idle. -/
def release (r : Replica) (m : Manner) : Replica :=
  let r := { r with inFlight := false }
  if m = .confirmed then { r with gate := r.gate.reset } else r

/-- Refuses an answer for another environment or another version than the one asked for. -/
def checkFetched (r : Replica) (version : Option VersionNumber) (s : Snapshot) :
    Except Error Snapshot :=
  if !r.owns s then
    .error (.transport ("requested " ++ r.key.text ++ " but received " ++ s.key.text))
  else
    match version with
    | none => .ok s
    | some v =>
      if s.version ≠ v then
        .error (.transport ("requested v" ++ toString v ++ " but received v" ++ toString s.version))
      else .ok s

/-- Starts an operation and runs it to its first call. -/
def start (r : Replica) : Operation → Replica × Progress
  | .load v => (r, .waiting (.loadFetch v))
  | .select v => (r, .waiting (.selecting v))
  | .step d =>
    match r.current, r.pointers.get d with
    | some s, some t => (r, .waiting (.stepFetch d s.version t))
    | _, _ => (r, .finished (.ok (.navigation .unavailable)))
  | .listConstraints => (r, .waiting .listing)
  | .apply force =>
    match r.claim with
    | .error e => (r, .finished (.error e))
    | .ok (c, r) => (r, .waiting (if force then .submitting c .forced else .checking c))
  | .confirm =>
    if !r.gate.attempted then (r, .finished (.error .noOverwritePending))
    else if !r.gate.permitted then (r, .finished (.error .overwriteNotPermitted))
    else
      match r.claim with
      | .error e => (r, .finished (.error e))
      | .ok (c, r) =>
        ({ r with gate := r.gate.beginResolve }, .waiting (.submitting c .confirmed))

/-- A submission that the server's state has overtaken. -/
def refuseStale (r : Replica) (c : Claim) (m : Manner) (server : VersionNumber) :
    Replica × Progress :=
  ((r.recordStale c server).release m, .finished (.error (.staleVersion c.knownHead server)))

/-- Takes the answer of a submission. -/
def settle (r : Replica) (c : Claim) (m : Manner) : Except Error Snapshot → Replica × Progress
  | .ok s =>
    if !r.owns s || s.version ≤ c.knownHead then
      (r.release m, .finished (.error (.transport ("non-monotonic apply result: v" ++
        toString s.version ++ " after v" ++ toString c.knownHead))))
    else ((r.installApplied c s).release m, .finished (.ok (.version s)))
  | .error (.staleVersion _ server) => r.refuseStale c m server
  | .error e => (r.release m, .finished (.error e))

/-- Runs a task on from the answer it waited for. -/
def resume (r : Replica) : (t : Task) → (t.call r.key).Answer → Replica × Progress
  | .loadFetch v, a =>
    match a.bind (r.checkFetched v) with
    | .error e => (r, .finished (.error e))
    | .ok s => (r, .waiting (.loadPrevious s))
  | .loadPrevious s, a =>
    match a with
    | .error e => (r, .finished (.error e))
    | .ok previous => (r, .waiting (.loadNext s previous))
  | .loadNext s previous, a =>
    match a with
    | .error e => (r, .finished (.error e))
    | .ok next =>
      ((r.install s ⟨previous, next⟩).emit (.loaded s.version), .finished (.ok (.version s)))
  | .selecting v, a =>
    match a with
    | .error e => (r, .finished (.error e))
    | .ok () => (r, .waiting (.loadFetch (some v)))
  | .stepFetch d left target, a =>
    match a.bind (r.checkFetched (some target)) with
    | .error e => (r, .finished (.error e))
    | .ok s => (r, .waiting (.stepFar d left target s))
  | .stepFar d left target s, a =>
    match a with
    | .error e => (r, .finished (.error e))
    | .ok far =>
      ((r.install s (Pointers.afterStep d left far)).emit (.navigated left target d),
        .finished (.ok (.navigation (.moved s))))
  | .listing, a => (r, .finished (a.map .constraints))
  | .checking c, a =>
    match a with
    | .error e => (r.release .checked, .finished (.error e))
    | .ok s =>
      if s.version > c.knownHead then r.refuseStale c .checked s.version
      else (r, .waiting (.submitting c .checked))
  | .submitting c m, a => r.settle c m a

/-- Ends a task where it waits. -/
def cancel (r : Replica) : Task → Replica
  | .checking _ => r.release .checked
  | .submitting _ m => r.release m
  | _ => r

/-- The result of a finished operation leaves no task. -/
theorem settle_finished (r : Replica) (c : Claim) (m : Manner) (a : Except Error Snapshot)
    (t : Task) : (r.settle c m a).2 ≠ .waiting t := by
  unfold settle refuseStale
  split <;> (try split) <;> simp

/-- Every answer brings a task nearer to its end. -/
theorem resume_callsLeft {r : Replica} {t : Task} {a : (t.call r.key).Answer} {t' : Task}
    (h : (r.resume t a).2 = .waiting t') : t'.callsLeft < t.callsLeft := by
  cases t with
  | submitting c m => exact absurd h (settle_finished r c m a t')
  | listing => simp [resume] at h
  | checking c =>
    simp only [resume] at h
    split at h
    · simp at h
    · split at h
      · simp [refuseStale] at h
      · cases h; simp [Task.callsLeft]
  | _ =>
    simp only [resume] at h
    split at h
    · simp at h
    · cases h <;> simp [Task.callsLeft]

/-- Runs a task to its end, asking for each answer. -/
def run [Monad m] (ask : (c : Backend.Call) → m c.Answer) (r : Replica) (t : Task) :
    m (Replica × Except Error Outcome) := do
  let a ← ask (t.call r.key)
  match _h : r.resume t a with
  | (r', .finished result) => pure (r', result)
  | (r', .waiting t') => run ask r' t'
termination_by t.callsLeft
decreasing_by exact resume_callsLeft (by rw [_h])

/-- Runs an operation from start to end. -/
def perform [Monad m] (ask : (c : Backend.Call) → m c.Answer) (r : Replica) (o : Operation) :
    m (Replica × Except Error Outcome) :=
  match r.start o with
  | (r, .finished result) => pure (r, result)
  | (r, .waiting t) => r.run ask t

end Replica

end VersionedTopology

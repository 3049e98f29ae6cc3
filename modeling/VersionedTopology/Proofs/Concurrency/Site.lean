/-
  VersionedTopology.Proofs.Concurrency.Site

  A replica with all the operations that it has open.

  A site takes one turn after another: its user stages or discards constraints or
  starts an operation, the version store takes up the call of an open operation, the
  answer reaches the replica, or an open operation is abandoned. Between two calls of
  one operation, and between the store's answer and its arrival, any other turns may
  come. What the store answers is part of the turn, so the runs of a site are its runs
  over every store, and over stores that other clients change.
-/

import Mathlib.Data.List.Induction
import Mathlib.Logic.Function.Basic
import VersionedTopology.Proofs.Replica.Transition

namespace VersionedTopology

/-- What a version store answers at one moment. -/
abbrev Backend.Oracle := (c : Backend.Call) → c.Answer

/-- An open operation. Its call is on the way to the store, or the store has taken it up and the
answer is on the way back. -/
structure Flight where
  task : Task
  /-- The store as it was when it took up the call. -/
  answeredBy : Option Backend.Oracle := none

/-- A replica and its open operations by name. -/
structure Site where
  replica : Replica
  flights : Nat → Option Flight := fun _ => none

/-- What is left open of an operation. -/
def Progress.flight? : Progress → Option Flight
  | .waiting t => some ⟨t, none⟩
  | .finished _ => none

theorem Progress.flight?_eq_some {p : Progress} {f : Flight} (h : p.flight? = some f) :
    ∃ t, p = .waiting t ∧ f = ⟨t, none⟩ := by
  cases p with
  | waiting t => exact ⟨t, rfl, (Option.some.inj h).symm⟩
  | finished result => exact absurd h (by simp [flight?])

namespace Site

/-- A site that has loaded nothing and opened nothing. -/
def new (key : EnvironmentKey) (canOverwrite : Bool) : Site :=
  { replica := Replica.new key canOverwrite }

/-- What can happen at a site. -/
inductive Move where
  | stage (c : Constraint)
  | discard
  | clearOverwrite
  | subscribe (inbox : Nat)
  | unsubscribe (inbox : Nat)
  | drain (inbox : Nat)
  /-- Starts an operation under a name that is free. -/
  | start (name : Nat) (o : Operation)
  /-- The store takes up the call of an open operation. -/
  | serve (name : Nat)
  /-- The answer to the call of an open operation arrives. -/
  | deliver (name : Nat)
  /-- An open operation is abandoned where it waits. -/
  | drop (name : Nat)

/-- The name of the operation that a move starts, takes on or ends. -/
def Move.operation? : Move → Option Nat
  | .start name _ => some name
  | .serve name => some name
  | .deliver name => some name
  | .drop name => some name
  | _ => none

/-- A move, and what the store would answer at that moment. -/
structure Turn where
  move : Move
  store : Backend.Oracle

/-- What a move makes of the operation that it starts or takes on. -/
def outcome? (s : Site) : Move → Option (Replica × Progress)
  | .start name o =>
    match s.flights name with
    | none => some (s.replica.start o)
    | some _ => none
  | .deliver name =>
    match s.flights name with
    | some ⟨t, some store⟩ => some (s.replica.resume t (store (t.call s.replica.key)))
    | _ => none
  | _ => none

/-- The version that a move makes current. -/
def installed? (s : Site) (m : Move) : Option Snapshot :=
  (s.outcome? m).bind fun out => out.2.installed?

/-- The site with an open operation replaced or ended. -/
def put (s : Site) (name : Nat) (f : Option Flight) : Site :=
  { s with flights := Function.update s.flights name f }

/-- The site after an operation has come to its next call or to its end. -/
def follow (s : Site) (name : Nat) : Option (Replica × Progress) → Site
  | some (r, p) => { s.put name p.flight? with replica := r }
  | none => s

/-- The site after a turn. A move that does not apply changes nothing. -/
def step (s : Site) (t : Turn) : Site :=
  match t.move with
  | .stage c =>
    match s.replica.stage c with
    | .ok (_, r) => { s with replica := r }
    | .error _ => s
  | .discard => { s with replica := s.replica.discard.2 }
  | .clearOverwrite => { s with replica := s.replica.clearOverwrite.2 }
  | .subscribe inbox => { s with replica := s.replica.subscribe inbox }
  | .unsubscribe inbox => { s with replica := s.replica.unsubscribe inbox }
  | .drain inbox => { s with replica := (s.replica.drain inbox).2 }
  | .start name o => s.follow name (s.outcome? (.start name o))
  | .serve name =>
    match s.flights name with
    | some ⟨task, none⟩ => s.put name (some ⟨task, some t.store⟩)
    | _ => s
  | .deliver name => s.follow name (s.outcome? (.deliver name))
  | .drop name =>
    match s.flights name with
    | some f => { s.put name none with replica := s.replica.cancel f.task }
    | none => s

/-- The site after a list of turns. -/
def run (s : Site) (ts : List Turn) : Site := ts.foldl step s

/-- The versions that a list of turns makes current, in order. -/
def installs (s : Site) : List Turn → List Snapshot
  | [] => []
  | t :: ts => (s.installed? t.move).toList ++ (s.step t).installs ts

/-! ## Runs -/

@[simp] theorem run_nil (s : Site) : s.run [] = s := rfl

@[simp] theorem run_cons (s : Site) (t : Turn) (ts : List Turn) :
    s.run (t :: ts) = (s.step t).run ts := rfl

theorem run_append (s : Site) (ts us : List Turn) : s.run (ts ++ us) = (s.run ts).run us :=
  List.foldl_append

@[simp] theorem run_concat (s : Site) (ts : List Turn) (t : Turn) :
    s.run (ts ++ [t]) = (s.run ts).step t := by
  rw [run_append, run_cons, run_nil]

theorem installs_append (s : Site) (ts us : List Turn) :
    s.installs (ts ++ us) = s.installs ts ++ (s.run ts).installs us := by
  induction ts generalizing s with
  | nil => rfl
  | cons t ts ih => simp [installs, ih, List.append_assoc]

theorem installs_concat (s : Site) (ts : List Turn) (t : Turn) :
    s.installs (ts ++ [t]) = s.installs ts ++ ((s.run ts).installed? t.move).toList := by
  rw [installs_append]
  simp [installs]

/-! ## What one turn does -/

theorem outcome?_start {s : Site} {name : Nat} {o : Operation} {r : Replica} {p : Progress}
    (h : s.outcome? (.start name o) = some (r, p)) :
    s.flights name = none ∧ Replica.Started s.replica o r p := by
  simp only [outcome?] at h
  split at h
  · rename_i hfree
    have hstarted := s.replica.started o
    rw [Option.some.inj h] at hstarted
    exact ⟨hfree, hstarted⟩
  · exact absurd h (by simp)

theorem outcome?_deliver {s : Site} {name : Nat} {r : Replica} {p : Progress}
    (h : s.outcome? (.deliver name) = some (r, p)) :
    ∃ task store, s.flights name = some ⟨task, some store⟩ ∧
      Replica.Resumed s.replica task (store (task.call s.replica.key)) r p := by
  simp only [outcome?] at h
  split at h
  · rename_i task store hflight
    have hresumed := s.replica.resumed task (store (task.call s.replica.key))
    rw [Option.some.inj h] at hresumed
    exact ⟨task, store, hflight, hresumed⟩
  · exact absurd h (by simp)

/-- What a turn leads to. -/
inductive Change (s : Site) : Turn → Site → Prop
  | staged (store : Backend.Oracle) (c : Constraint) (replaced : Bool) (r : Replica)
      (h : s.replica.stage c = .ok (replaced, r)) :
      Change s ⟨.stage c, store⟩ { s with replica := r }
  | unstaged (store : Backend.Oracle) (c : Constraint) (e : Error)
      (h : s.replica.stage c = .error e) : Change s ⟨.stage c, store⟩ s
  | discarded (store : Backend.Oracle) :
      Change s ⟨.discard, store⟩ { s with replica := s.replica.discard.2 }
  | cancelled (store : Backend.Oracle) :
      Change s ⟨.clearOverwrite, store⟩ { s with replica := s.replica.clearOverwrite.2 }
  | subscribed (store : Backend.Oracle) (inbox : Nat) :
      Change s ⟨.subscribe inbox, store⟩ { s with replica := s.replica.subscribe inbox }
  | unsubscribed (store : Backend.Oracle) (inbox : Nat) :
      Change s ⟨.unsubscribe inbox, store⟩ { s with replica := s.replica.unsubscribe inbox }
  | drained (store : Backend.Oracle) (inbox : Nat) :
      Change s ⟨.drain inbox, store⟩ { s with replica := (s.replica.drain inbox).2 }
  /-- A move that does not apply to the operation that it names. -/
  | ignored (store : Backend.Oracle) (m : Move) (name : Nat) (hm : m.operation? = some name)
      (hout : s.outcome? m = none) (hdrop : m = .drop name → s.flights name = none) :
      Change s ⟨m, store⟩ s
  | started (store : Backend.Oracle) (name : Nat) (o : Operation) (r : Replica) (p : Progress)
      (hfree : s.flights name = none) (hout : s.outcome? (.start name o) = some (r, p))
      (h : Replica.Started s.replica o r p) :
      Change s ⟨.start name o, store⟩ { s.put name p.flight? with replica := r }
  | served (store : Backend.Oracle) (name : Nat) (task : Task)
      (hflight : s.flights name = some ⟨task, none⟩) :
      Change s ⟨.serve name, store⟩ (s.put name (some ⟨task, some store⟩))
  | delivered (store : Backend.Oracle) (name : Nat) (task : Task) (answered : Backend.Oracle)
      (r : Replica) (p : Progress) (hflight : s.flights name = some ⟨task, some answered⟩)
      (hout : s.outcome? (.deliver name) = some (r, p))
      (h : Replica.Resumed s.replica task (answered (task.call s.replica.key)) r p) :
      Change s ⟨.deliver name, store⟩ { s.put name p.flight? with replica := r }
  | dropped (store : Backend.Oracle) (name : Nat) (f : Flight)
      (hflight : s.flights name = some f) :
      Change s ⟨.drop name, store⟩
        { s.put name none with replica := s.replica.cancel f.task }

theorem change (s : Site) (t : Turn) : Change s t (s.step t) := by
  obtain ⟨move, store⟩ := t
  cases move with
  | stage c =>
    simp only [step]
    cases h : s.replica.stage c with
    | ok staged => exact .staged store c staged.1 staged.2 h
    | error e => exact .unstaged store c e h
  | discard => exact .discarded store
  | clearOverwrite => exact .cancelled store
  | subscribe inbox => exact .subscribed store inbox
  | unsubscribe inbox => exact .unsubscribed store inbox
  | drain inbox => exact .drained store inbox
  | start name o =>
    simp only [step]
    cases hout : s.outcome? (.start name o) with
    | none => exact .ignored store _ name rfl hout (by simp)
    | some out =>
      obtain ⟨hfree, hstarted⟩ := outcome?_start hout
      exact .started store name o out.1 out.2 hfree hout hstarted
  | serve name =>
    simp only [step]
    split
    · rename_i task hflight
      exact .served store name task hflight
    · exact .ignored store _ name rfl rfl (by simp)
  | deliver name =>
    simp only [step]
    cases hout : s.outcome? (.deliver name) with
    | none => exact .ignored store _ name rfl hout (by simp)
    | some out =>
      obtain ⟨task, answered, hflight, hresumed⟩ := outcome?_deliver hout
      exact .delivered store name task answered out.1 out.2 hflight hout hresumed
  | drop name =>
    simp only [step]
    cases hflight : s.flights name with
    | none => exact .ignored store _ name rfl rfl fun _ => hflight
    | some f => exact .dropped store name f hflight

/-- Only an answer makes a version current. -/
theorem installed?_eq_some {s : Site} {m : Move} {v : Snapshot} (h : s.installed? m = some v) :
    ∃ name task store r p, m = .deliver name ∧ s.flights name = some ⟨task, some store⟩ ∧
      s.outcome? m = some (r, p) ∧ p.installed? = some v ∧
      Replica.Resumed s.replica task (store (task.call s.replica.key)) r p := by
  simp only [installed?, Option.bind_eq_some_iff] at h
  obtain ⟨⟨r, p⟩, hout, hv⟩ := h
  cases m with
  | start name o =>
    obtain ⟨-, -, -, -, hnone⟩ := (outcome?_start hout).2.frame
    simp only [hnone] at hv
    exact absurd hv (by simp)
  | deliver name =>
    obtain ⟨task, store, hflight, hresumed⟩ := outcome?_deliver hout
    exact ⟨name, task, store, r, p, rfl, hflight, hout, hv, hresumed⟩
  | _ => exact absurd hout (by simp [outcome?])

/-- A turn changes the replica by an operation, or in a way that touches neither the environment
nor the current version. -/
theorem step_frame (s : Site) (t : Turn) :
    (s.step t).replica.key = s.replica.key ∧
      (s.step t).replica.current = (s.installed? t.move).or s.replica.current ∧
      (s.step t).replica.knownHead =
        (s.installed? t.move).elim s.replica.knownHead
          fun v => max s.replica.knownHead v.version := by
  have hchange := s.change t
  generalize s.step t = s' at hchange ⊢
  cases hchange with
  | staged store c replaced r h =>
    obtain ⟨-, b, -, -, rfl⟩ := Replica.stage_ok h
    exact ⟨rfl, rfl, rfl⟩
  | ignored store m name hm hout hdrop => simp [installed?, hout]
  | started store name o r p hfree hout h =>
    obtain ⟨hkey, hcurrent, hknown, -, hnone⟩ := h.frame
    simp [installed?, hout, hkey, hcurrent, hknown, hnone]
  | delivered store name task answered r p hflight hout h =>
    simp [installed?, hout, h.key, h.current, h.knownHead]
  | dropped store name f hflight =>
    -- an abandoned submission releases the pipeline, which nothing here depends on
    obtain ⟨-, h⟩ | ⟨c, m, -, h⟩ := s.replica.cancel_eq f.task <;>
      simp [h, installed?, outcome?]
  | _ => exact ⟨rfl, rfl, rfl⟩

@[simp] theorem step_key (s : Site) (t : Turn) : (s.step t).replica.key = s.replica.key :=
  (step_frame s t).1

theorem step_current (s : Site) (t : Turn) :
    (s.step t).replica.current = (s.installed? t.move).or s.replica.current :=
  (step_frame s t).2.1

theorem step_knownHead (s : Site) (t : Turn) :
    (s.step t).replica.knownHead =
      (s.installed? t.move).elim s.replica.knownHead
        fun v => max s.replica.knownHead v.version :=
  (step_frame s t).2.2

@[simp] theorem run_key (s : Site) (ts : List Turn) :
    (s.run ts).replica.key = s.replica.key := by
  induction ts generalizing s with
  | nil => rfl
  | cons t ts ih => rw [run_cons, ih, step_key]

end Site
end VersionedTopology

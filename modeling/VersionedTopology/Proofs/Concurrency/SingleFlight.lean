/-
  VersionedTopology.Proofs.Concurrency.SingleFlight

  One submission at a time.

  A submission takes the pipeline when it claims the batch and gives it back when it
  ends, in whichever way it ends. So at most one submission is open, the mark of the
  replica is set exactly while one is, and the gate is being resolved exactly while that
  one is a confirmed overwrite. Whoever tries to submit in the meantime is refused, and
  nothing happens.
-/

import VersionedTopology.Proofs.Concurrency.Underway
import VersionedTopology.Proofs.Replica.Effect

namespace VersionedTopology
namespace Site

/-- The pipeline is held by the submission of that name and manner, or by none: no other submission
is open, and mark and gate agree with it. -/
structure Held (s : Site) (holder : Option (Nat × Manner)) : Prop where
  submits : ∀ name m, (∃ c, s.submission? name = some (c, m)) ↔ holder = some (name, m)
  flag : s.replica.inFlight = holder.isSome
  gate : s.replica.gate.state = .resolving ↔ ∃ name, holder = some (name, .confirmed)

theorem submission?_put (s : Site) (r : Replica) (name n : Nat) (f : Option Flight) :
    ({ s.put name f with replica := r } : Site).submission? n =
      if n = name then f.bind fun f => f.task.submission? else s.submission? n := by
  simp only [submission?, flights_put]
  split <;> rfl

/-! ## How the pipeline changes hands -/

section hands

variable {s s' : Site} {holder : Option (Nat × Manner)} {name : Nat} {c : Claim} {m : Manner}

theorem Held.congr (h : s.Held holder) (hsub : ∀ n, s'.submission? n = s.submission? n)
    (hflag : s'.replica.inFlight = s.replica.inFlight)
    (hgate : s'.replica.gate.state = .resolving ↔ s.replica.gate.state = .resolving) :
    s'.Held holder where
  submits := by intro n k; rw [hsub]; exact h.submits n k
  flag := hflag.trans h.flag
  gate := hgate.trans h.gate

/-- An operation that submits nothing leaves the pipeline to its holder. -/
theorem Held.put (h : s.Held holder) {r : Replica} {f : Option Flight}
    (hsub : (f.bind fun f => f.task.submission?) = s.submission? name)
    (hflag : r.inFlight = s.replica.inFlight)
    (hgate : r.gate.state = .resolving ↔ s.replica.gate.state = .resolving) :
    ({ s.put name f with replica := r } : Site).Held holder := by
  refine h.congr ?_ hflag hgate
  intro n
  rw [submission?_put]
  split
  · rename_i hn
    rw [hn, hsub]
  · rfl

/-- A submission takes a free pipeline. -/
theorem Held.take (h : s.Held none) {r : Replica} {f : Flight}
    (hsub : f.task.submission? = some (c, m)) (hflag : r.inFlight = true)
    (hgate : r.gate.state = .resolving ↔ m = .confirmed) :
    ({ s.put name (some f) with replica := r } : Site).Held (some (name, m)) where
  submits := by
    intro n k
    rw [submission?_put]
    by_cases hn : n = name
    · simp [hn, hsub]
    · -- nobody else has held it
      rw [if_neg hn, h.submits]
      simp [Ne.symm hn]
  flag := hflag
  gate := by rw [hgate]; simp

/-- The holder gives the pipeline back. -/
theorem Held.giveBack (h : s.Held holder) (hsub : s.submission? name = some (c, m)) {r : Replica}
    (hflag : r.inFlight = false) (hgate : r.gate.state ≠ .resolving) :
    ({ s.put name none with replica := r } : Site).Held none where
  submits := by
    intro n k
    have hholder := (h.submits name m).mp ⟨c, hsub⟩
    rw [submission?_put]
    by_cases hn : n = name
    · simp [hn]
    · rw [if_neg hn, h.submits, hholder]
      simp [Ne.symm hn]
  flag := hflag
  gate := by simp [hgate]

/-- A confirmed overwrite is resolved by its end, and during any other submission nothing is being
resolved. -/
theorem Held.not_resolving (h : s.Held holder) (hsub : s.submission? name = some (c, m)) :
    (s.replica.release m).gate.state ≠ .resolving := by
  rw [Ne, Replica.release_resolving, h.gate, (h.submits name m).mp ⟨c, hsub⟩]
  rintro ⟨hm, n, hn⟩
  exact hm (congrArg Prod.snd (Option.some.inj hn))

end hands

/-! ## One turn, and a whole run -/

theorem held_new (key : EnvironmentKey) (canOverwrite : Bool) :
    (Site.new key canOverwrite).Held none where
  submits := by intro name m; simp [Site.submission?, new]
  flag := rfl
  gate := by simp [new, Replica.new]

/-- Only a free pipeline can be claimed. -/
theorem Held.free_of_claim {s : Site} {holder : Option (Nat × Manner)} (h : s.Held holder)
    {c : Claim} {r : Replica} (hclaim : s.replica.claim = .ok (c, r)) :
    s.Held none ∧ s.replica.gate.state ≠ .resolving := by
  have hfree := h.flag.symm.trans (Replica.claim_ok hclaim).1
  obtain rfl : holder = none := by simpa using hfree
  refine ⟨h, ?_⟩
  rw [Ne, h.gate]
  simp

theorem Held.started {s : Site} {holder : Option (Nat × Manner)} {name : Nat} {o : Operation}
    {r : Replica} {p : Progress} (h : s.Held holder) (hfree : s.flights name = none)
    (hstarted : Replica.Started s.replica o r p) :
    ∃ holder', ({ s.put name p.flight? with replica := r } : Site).Held holder' := by
  have hnone := submission?_of_free hfree
  cases hstarted with
  | asked o t _ _ hclaim _ => exact ⟨holder, h.put (hclaim.trans hnone.symm) rfl Iff.rfl⟩
  | ended o result _ => exact ⟨holder, h.put hnone.symm rfl Iff.rfl⟩
  | claimed force c r' hclaim =>
    obtain ⟨hidle, hgate⟩ := h.free_of_claim hclaim
    obtain ⟨-, -, -, -, -, rfl⟩ := Replica.claim_ok hclaim
    cases force with
    | false => exact ⟨_, hidle.take (c := c) (m := .checked) rfl rfl (by simp [hgate])⟩
    | true => exact ⟨_, hidle.take (c := c) (m := .forced) rfl rfl (by simp [hgate])⟩
  | confirmed c r' hattempted _ hclaim =>
    obtain ⟨hidle, -⟩ := h.free_of_claim hclaim
    obtain ⟨-, -, -, -, -, rfl⟩ := Replica.claim_ok hclaim
    exact ⟨_, hidle.take (c := c) (m := .confirmed) rfl rfl
      (by simp [Gate.beginResolve_state hattempted])⟩

theorem Held.delivered {s : Site} {holder : Option (Nat × Manner)} {name : Nat} {task : Task}
    {answered : Backend.Oracle} {r : Replica} {p : Progress} (h : s.Held holder)
    (hflight : s.flights name = some ⟨task, some answered⟩)
    (hresumed : Replica.Resumed s.replica task (answered (task.call s.replica.key)) r p) :
    ∃ holder', ({ s.put name p.flight? with replica := r } : Site).Held holder' := by
  have hsub := submission?_of_flight hflight
  generalize answered (task.call s.replica.key) = a at hresumed
  cases hresumed with
  | failed e ht => exact ⟨holder, h.put (hsub.trans ht).symm rfl Iff.rfl⟩
  | listed cs => exact ⟨holder, h.put hsub.symm rfl Iff.rfl⟩
  | loaded v p n => exact ⟨holder, h.put hsub.symm (by simp) (by simp)⟩
  | stepped d left target v far => exact ⟨holder, h.put hsub.symm (by simp) (by simp)⟩
  -- a submission ends, and whatever else it does, it releases the pipeline
  | stale c m server ht _ =>
    refine ⟨none, h.giveBack (hsub.trans ht) (by simp) ?_⟩
    rw [Ne, Replica.release_resolving]
    simp [Gate.recordStale]
  | rejected c m e ht _ _ =>
    exact ⟨none, h.giveBack (hsub.trans ht) (by simp) (h.not_resolving (hsub.trans ht))⟩
  | applied c m v _ _ =>
    refine ⟨none, h.giveBack hsub (by simp) ?_⟩
    rw [Ne, Replica.release_resolving]
    simp
  | _ => exact ⟨holder, h.put hsub.symm rfl Iff.rfl⟩

theorem Held.step {s : Site} {holder : Option (Nat × Manner)} (h : s.Held holder) (t : Turn) :
    ∃ holder', (s.step t).Held holder' := by
  have hchange := s.change t
  generalize s.step t = s' at hchange ⊢
  cases hchange with
  | staged store c replaced r hstage =>
    obtain ⟨-, b, -, -, rfl⟩ := Replica.stage_ok hstage
    exact ⟨holder, h.congr (fun _ => rfl) rfl Iff.rfl⟩
  | discarded store =>
    exact ⟨holder, h.congr (fun _ => rfl) rfl (by simp [Replica.discard])⟩
  | cancelled store =>
    exact ⟨holder, h.congr (fun _ => rfl) rfl (by simp [Replica.clearOverwrite])⟩
  | started store name o r p hfree _ hstarted => exact h.started hfree hstarted
  | served store name task hflight =>
    have hsub := submission?_of_flight hflight
    exact ⟨holder, h.put (r := s.replica) hsub.symm rfl Iff.rfl⟩
  | delivered store name task answered r p hflight _ hresumed => exact h.delivered hflight hresumed
  | dropped store name f hflight =>
    have hsub := submission?_of_flight hflight
    obtain ⟨hnone, heq⟩ | ⟨c, m, hsome, heq⟩ := s.replica.cancel_eq f.task
    · rw [heq]
      exact ⟨holder, h.put (hsub.trans hnone).symm rfl Iff.rfl⟩
    · rw [heq]
      exact ⟨none, h.giveBack (hsub.trans hsome) (by simp) (h.not_resolving (hsub.trans hsome))⟩
  | _ => exact ⟨holder, h.congr (fun _ => rfl) rfl Iff.rfl⟩

theorem held_run (key : EnvironmentKey) (canOverwrite : Bool) (ts : List Turn) :
    ∃ holder, ((Site.new key canOverwrite).run ts).Held holder := by
  induction ts using List.reverseRecOn with
  | nil => exact ⟨none, held_new key canOverwrite⟩
  | append_singleton ts t ih =>
    obtain ⟨holder, h⟩ := ih
    rw [run_concat]
    exact h.step t

/-! ## Submissions by their start -/

/-- A submission that an operation has started after the first part of a run, and that is open at
the end of the run. -/
def Submitting (s : Site) (ts before : List Turn) (name : Nat) (o : Operation) : Prop :=
  o.manner?.isSome ∧ ∃ after, ts = before ++ after ∧ Underway (s.run before) name o after

/-- What is open has been started by an operation that submits in that manner. -/
theorem exists_submission_iff {key : EnvironmentKey} {canOverwrite : Bool} {ts : List Turn}
    {name : Nat} {m : Manner} :
    (∃ c, ((Site.new key canOverwrite).run ts).submission? name = some (c, m)) ↔
      ∃ before o, (Site.new key canOverwrite).Submitting ts before name o ∧
        o.manner? = some m := by
  constructor
  · rintro ⟨c, hc⟩
    obtain ⟨f, hf, hsub⟩ := Option.bind_eq_some_iff.mp hc
    obtain ⟨before, after, o, rfl, h⟩ := exists_underway hf
    obtain ⟨f', hf', -, hmanner⟩ := h.flight
    rw [← run_append, hf, Option.some.injEq] at hf'
    subst hf'
    have ho : o.manner? = some m := by rw [← hmanner, hsub]; rfl
    exact ⟨before, o, ⟨by simp [ho], after, rfl, h⟩, ho⟩
  · rintro ⟨before, o, ⟨-, after, rfl, h⟩, ho⟩
    obtain ⟨c, -, -, hc⟩ := h.exists_claim ho
    exact ⟨c, by rw [run_append]; exact hc⟩

theorem Submitting.exists_manner {s : Site} {ts before : List Turn} {name : Nat} {o : Operation}
    (h : s.Submitting ts before name o) : ∃ m, o.manner? = some m :=
  Option.isSome_iff_exists.mp h.1

theorem manner?_eq_confirmed {o : Operation} : o.manner? = some .confirmed ↔ o = .confirm := by
  cases o with
  | apply force => cases force <;> simp [Operation.manner?]
  | _ => simp [Operation.manner?]

section pipeline

variable {key : EnvironmentKey} {canOverwrite : Bool} {ts before before' : List Turn}
  {name name' : Nat} {o o' : Operation} {holder : Option (Nat × Manner)}

/-- Who submits holds the pipeline. -/
theorem Submitting.holder_eq {m : Manner}
    (hsub : (Site.new key canOverwrite).Submitting ts before name o)
    (h : ((Site.new key canOverwrite).run ts).Held holder) (ho : o.manner? = some m) :
    holder = some (name, m) :=
  (h.submits _ _).mp (exists_submission_iff.mpr ⟨_, _, hsub, ho⟩)

/-- Who holds the pipeline submits. -/
theorem Held.exists_submitting {m : Manner}
    (h : ((Site.new key canOverwrite).run ts).Held (some (name, m))) :
    ∃ before o, (Site.new key canOverwrite).Submitting ts before name o ∧ o.manner? = some m :=
  exists_submission_iff.mp ((h.submits name m).mpr rfl)

/-- One holder, so one name, and a name is taken only once. -/
theorem Submitting.unique (hsub : (Site.new key canOverwrite).Submitting ts before name o)
    (hsub' : (Site.new key canOverwrite).Submitting ts before' name' o') :
    before = before' ∧ name = name' ∧ o = o' := by
  obtain ⟨holder, h⟩ := held_run key canOverwrite ts
  obtain ⟨m, ho⟩ := hsub.exists_manner
  obtain ⟨m', ho'⟩ := hsub'.exists_manner
  have heq := (hsub.holder_eq h ho).symm.trans (hsub'.holder_eq h ho')
  obtain ⟨rfl, -⟩ := Prod.mk.inj (Option.some.inj heq)
  obtain ⟨-, after, hts, hunderway⟩ := hsub
  obtain ⟨-, after', hts', hunderway'⟩ := hsub'
  obtain ⟨rfl, rfl⟩ := hunderway.unique hunderway' (hts.symm.trans hts')
  exact ⟨rfl, rfl, rfl⟩

/-- The pipeline is taken while a submission is open. -/
theorem inFlight_run_iff :
    ((Site.new key canOverwrite).run ts).replica.inFlight = true ↔
      ∃ before name o, (Site.new key canOverwrite).Submitting ts before name o := by
  obtain ⟨holder, h⟩ := held_run key canOverwrite ts
  rw [h.flag]
  constructor
  · intro hsome
    obtain ⟨⟨name, m⟩, rfl⟩ := Option.isSome_iff_exists.mp hsome
    obtain ⟨before, o, hsub, -⟩ := h.exists_submitting
    exact ⟨before, name, o, hsub⟩
  · rintro ⟨before, name, o, hsub⟩
    obtain ⟨m, ho⟩ := hsub.exists_manner
    simp [hsub.holder_eq h ho]

/-- The gate is being resolved while a confirmed overwrite is open. -/
theorem resolving_run_iff :
    ((Site.new key canOverwrite).run ts).replica.gate.state = .resolving ↔
      ∃ before name, (Site.new key canOverwrite).Submitting ts before name .confirm := by
  obtain ⟨holder, h⟩ := held_run key canOverwrite ts
  rw [h.gate]
  constructor
  · rintro ⟨name, rfl⟩
    obtain ⟨before, o, hsub, ho⟩ := h.exists_submitting
    rw [manner?_eq_confirmed] at ho
    exact ⟨before, name, ho ▸ hsub⟩
  · rintro ⟨before, name, hsub⟩
    exact ⟨name, hsub.holder_eq h rfl⟩

/-- A request is out only with an open submission. -/
theorem Held.of_request {f : Flight} {key' : EnvironmentKey} {request : ApplyRequest}
    {s : Site} (h : s.Held holder) (hf : s.flights name = some f)
    (hcall : f.task.call key = .apply key' request) : ∃ m, holder = some (name, m) := by
  obtain ⟨task, answeredBy⟩ := f
  cases task with
  | submitting c m => exact ⟨m, (h.submits name m).mp ⟨c, submission?_of_flight hf⟩⟩
  | _ => exact absurd hcall (by simp [Task.call])

end pipeline

/-! ## Being refused -/

/-- A refused operation leaves nothing behind. -/
theorem step_start_refused {s : Site} {name : Nat} {o : Operation} {store : Backend.Oracle}
    {e : Error} (h : s.replica.start o = (s.replica, .finished (.error e))) :
    s.step ⟨.start name o, store⟩ = s := by
  simp only [Site.step]
  cases hfree : s.flights name with
  | none =>
    rw [outcome?_start_of_free o hfree, h]
    simp only [follow, put, Progress.flight?]
    rw [← hfree, Function.update_eq_self]
  | some f => simp [outcome?, hfree, follow]

/-- While the pipeline is taken, no claim gets through. -/
theorem start_of_inFlight {r : Replica} (h : r.inFlight = true) :
    (∀ force, r.start (.apply force) = (r, .finished (.error .applyInFlight))) ∧
    r.start .confirm = (r, .finished (.error
      (if r.gate.attempted = false then .noOverwritePending
        else if r.gate.permitted = false then .overwriteNotPermitted else .applyInFlight))) := by
  have hclaim : r.claim = .error .applyInFlight := by simp [Replica.claim, h]
  constructor
  · intro force
    simp [Replica.start, hclaim]
  · simp only [Replica.start, hclaim]
    cases r.gate.attempted <;> cases r.gate.permitted <;> rfl

/-- **Single flight.** At every point of every run the pipeline is marked as taken exactly when a
submission is open, that is, when an apply or a confirmed overwrite has claimed the batch and has
neither ended nor been dropped since; there is at most one, so at most one batch is out with the
store. The gate is being resolved exactly when the open submission is a confirmed overwrite; when
none is open, the pipeline is free and nothing is being resolved. Whoever tries to submit while the
pipeline is taken gets an error without any call, and the site stays as it is. -/
theorem single_flight (key : EnvironmentKey) (canOverwrite : Bool) (ts : List Turn) :
    let s₀ := Site.new key canOverwrite
    let s := s₀.run ts
    (s.replica.inFlight = true ↔ ∃ before name o, s₀.Submitting ts before name o) ∧
    (∀ before name o before' name' o', s₀.Submitting ts before name o →
      s₀.Submitting ts before' name' o' → before = before' ∧ name = name' ∧ o = o') ∧
    (∀ name f key' request name' f' key'' request', s.flights name = some f →
      f.task.call key = .apply key' request → s.flights name' = some f' →
      f'.task.call key = .apply key'' request' → name = name') ∧
    (s.replica.gate.state = .resolving ↔ ∃ before name, s₀.Submitting ts before name .confirm) ∧
    ((¬ ∃ before name o, s₀.Submitting ts before name o) →
      s.replica.inFlight = false ∧ s.replica.gate.state ≠ .resolving) ∧
    (s.replica.inFlight = true → ∀ name store,
      (∀ force,
        s.replica.start (.apply force) = (s.replica, .finished (.error .applyInFlight)) ∧
        s.step ⟨.start name (.apply force), store⟩ = s) ∧
      s.replica.start .confirm = (s.replica, .finished (.error
        (if s.replica.gate.attempted = false then .noOverwritePending
          else if s.replica.gate.permitted = false then .overwriteNotPermitted
          else .applyInFlight))) ∧
      s.step ⟨.start name .confirm, store⟩ = s) := by
  intro s₀ s
  refine ⟨inFlight_run_iff, fun _ _ _ _ _ _ hsub hsub' => hsub.unique hsub', ?_,
    resolving_run_iff, ?_, ?_⟩
  · intro name f key' request name' f' key'' request' hf hcall hf' hcall'
    obtain ⟨holder, h⟩ := held_run key canOverwrite ts
    obtain ⟨m, hm⟩ := h.of_request hf hcall
    obtain ⟨m', hm'⟩ := h.of_request hf' hcall'
    exact congrArg Prod.fst (Option.some.inj (hm.symm.trans hm'))
  · intro hnone
    refine ⟨Bool.eq_false_iff.mpr fun hset => hnone (inFlight_run_iff.mp hset), ?_⟩
    intro hresolving
    obtain ⟨before, name, hsub⟩ := resolving_run_iff.mp hresolving
    exact hnone ⟨before, name, .confirm, hsub⟩
  · intro htaken name store
    obtain ⟨happly, hconfirm⟩ := start_of_inFlight htaken
    exact ⟨fun force => ⟨happly force, step_start_refused (happly force)⟩, hconfirm,
      step_start_refused hconfirm⟩

end Site
end VersionedTopology

/-
  VersionedTopology.Proofs.Concurrency.Invariant

  What holds of a replica at every point of every run.

  Whatever the store answers and however the operations of a site overlap, the batch
  belongs to the current version, the current version belongs to the environment, and
  the newest number seen is that of an installed version. What is sent to the
  store is the batch as it was when its submission was claimed.
-/

import VersionedTopology.Proofs.Concurrency.Flight
import VersionedTopology.Proofs.Replica.Effect

namespace VersionedTopology
namespace Site

/-! ## Coherence along a run -/

/-- The replica is coherent, and what its open operations have fetched belongs to its
environment. -/
structure Coherent (s : Site) : Prop where
  replica : s.replica.Coherent
  fetched : ∀ name f v, s.flights name = some f → f.task.fetched? = some v →
    v.key = s.replica.key

theorem coherent_new (key : EnvironmentKey) (canOverwrite : Bool) :
    (Site.new key canOverwrite).Coherent where
  replica := Replica.coherent_new key canOverwrite
  fetched := by intro name f v h; exact absurd h (by simp [new])

/-- What a started operation does to a replica keeps it coherent. -/
theorem coherent_started {r r' : Replica} {o : Operation} {p : Progress} (h : r.Coherent)
    (hstarted : Replica.Started r o r' p) : r'.Coherent := by
  obtain ⟨hkey, hcurrent, -, hbatch, -⟩ := hstarted.frame
  exact h.congr hkey hcurrent hbatch

/-- What an answer does to a replica keeps it coherent, if the fetched version is the
environment's own. -/
theorem coherent_resumed {r r' : Replica} {t : Task} {a : (t.call r.key).Answer} {p : Progress}
    (h : r.Coherent) (hfetched : ∀ v, t.fetched? = some v → v.key = r.key)
    (hresumed : Replica.Resumed r t a r' p) : r'.Coherent := by
  -- only the ways that install a version change batch or current version
  cases hresumed with
  | loaded s p n =>
    exact (h.install (hfetched s rfl) ⟨p, n⟩).congr rfl rfl rfl
  | stepped d left _ s far =>
    exact (h.install (hfetched s rfl) (Pointers.afterStep d left far)).congr rfl rfl rfl
  | stale c m server _ =>
    exact h.congr (by simp) (by simp) (by simp)
  | rejected c m _ _ =>
    exact h.congr (by simp) (by simp) (by simp)
  | applied c m s howned _ =>
    exact (h.installApplied c howned).congr (by simp) (by simp) (by simp)
  | _ => exact h

/-- An operation goes on with a version of the environment. -/
theorem fetched?_resumed {r r' : Replica} {t next : Task} {a : (t.call r.key).Answer}
    (hfetched : ∀ v, t.fetched? = some v → v.key = r.key)
    (h : Replica.Resumed r t a r' (.waiting next)) :
    ∀ v, next.fetched? = some v → v.key = r.key := by
  intro v hv
  cases h with
  | fetched _ s howned _ => exact Option.some.inj hv ▸ howned
  | previous s _ => exact hfetched v hv
  | reached _ _ _ s howned _ => exact Option.some.inj hv ▸ howned
  | _ => exact absurd hv (by simp [Task.fetched?])

theorem fetched?_started {r r' : Replica} {o : Operation} {t : Task}
    (h : Replica.Started r o r' (.waiting t)) : t.fetched? = none := by
  cases h with
  | asked _ _ _ hfetched _ _ => exact hfetched
  | claimed force c _ _ => cases force <;> rfl
  | confirmed c _ _ _ _ => rfl

theorem Coherent.step_replica {s : Site} (h : s.Coherent) (t : Turn) :
    (s.step t).replica.Coherent := by
  have hchange := s.change t
  generalize s.step t = s' at hchange ⊢
  cases hchange with
  | staged store c replaced r hstage => exact h.replica.stage hstage
  | discarded store => exact h.replica.discard
  | started store name o r p _ _ hstarted => exact coherent_started h.replica hstarted
  | delivered store name task answered r p hflight _ hresumed =>
    exact coherent_resumed h.replica (fun v => h.fetched name _ v hflight) hresumed
  | dropped store name f hflight =>
    obtain ⟨-, heq⟩ | ⟨c, m, -, heq⟩ := s.replica.cancel_eq f.task
    · exact h.replica.congr (by simp [heq]) (by simp [heq]) (by simp [heq])
    · exact h.replica.congr (by simp [heq]) (by simp [heq]) (by simp [heq])
  | _ => exact h.replica.congr rfl rfl rfl

theorem Coherent.step {s : Site} (h : s.Coherent) (t : Turn) : (s.step t).Coherent where
  replica := h.step_replica t
  fetched := by
    intro name f v hf hv
    rw [step_key]
    cases origin hf with
    | kept _ hkept => exact h.fetched name f v hkept hv
    | served task _ hasked => exact h.fetched name _ v hasked hv
    | started o r task _ hstarted =>
      rw [fetched?_started hstarted] at hv
      exact absurd hv (by simp)
    | resumed task next store r _ hanswered hresumed =>
      exact fetched?_resumed (fun v => h.fetched name _ v hanswered) hresumed v hv

theorem Coherent.run {s : Site} (h : s.Coherent) (ts : List Turn) : (s.run ts).Coherent := by
  induction ts generalizing s with
  | nil => exact h
  | cons t ts ih => exact ih (h.step t)

/-! ## The newest number seen -/

/-- The current version is the one that was installed last. -/
theorem run_current (s : Site) (ts : List Turn) :
    (s.run ts).replica.current = (s.installs ts).getLast?.or s.replica.current := by
  induction ts using List.reverseRecOn with
  | nil => rfl
  | append_singleton ts t ih =>
    rw [run_concat, step_current, ih, installs_concat]
    cases (s.run ts).installed? t.move <;> simp

/-- A current version never goes away. -/
theorem isSome_current_run {s : Site} (h : s.replica.current.isSome) (ts : List Turn) :
    (s.run ts).replica.current.isSome := by
  rw [run_current]
  cases (s.installs ts).getLast? with
  | none => exact h
  | some v => rfl

theorem knownHead_le_run (s : Site) (ts : List Turn) :
    s.replica.knownHead ≤ (s.run ts).replica.knownHead := by
  induction ts generalizing s with
  | nil => exact Nat.le_refl _
  | cons t ts ih =>
    have hstep : s.replica.knownHead ≤ (s.step t).replica.knownHead := by
      rw [step_knownHead]
      cases s.installed? t.move with
      | none => exact Nat.le_refl _
      | some v => exact Nat.le_max_left _ _
    exact Nat.le_trans hstep (ih (s.step t))

/-- No installed version is newer than the newest number seen. -/
theorem installs_le_knownHead {s : Site} {ts : List Turn} {v : Snapshot}
    (h : v ∈ s.installs ts) : v.version ≤ (s.run ts).replica.knownHead := by
  induction ts generalizing s with
  | nil => exact absurd h (by simp [installs])
  | cons t ts ih =>
    simp only [installs, List.mem_append, Option.mem_toList] at h
    obtain hnow | hlater := h
    · have hstep : v.version ≤ (s.step t).replica.knownHead := by
        rw [step_knownHead, hnow]
        exact Nat.le_max_right _ _
      exact Nat.le_trans hstep (knownHead_le_run _ ts)
    · exact ih hlater

/-- The newest number seen, if it has moved at all, is that of an installed version. -/
theorem knownHead_eq_or_installs (s : Site) (ts : List Turn) :
    (s.run ts).replica.knownHead = s.replica.knownHead ∨
      ∃ v ∈ s.installs ts, v.version = (s.run ts).replica.knownHead := by
  induction ts using List.reverseRecOn with
  | nil => exact .inl rfl
  | append_singleton ts t ih =>
    rw [run_concat, step_knownHead, installs_concat]
    cases hnow : (s.run ts).installed? t.move with
    | none => simpa using ih
    | some w =>
      simp only [Option.elim, Option.toList, List.mem_append, List.mem_singleton]
      -- the newer of the version that is installed now and the newest one before
      by_cases hle : (s.run ts).replica.knownHead ≤ w.version
      · exact .inr ⟨w, .inr rfl, (Nat.max_eq_right hle).symm⟩
      · rw [Nat.max_eq_left (Nat.le_of_not_le hle)]
        obtain heq | ⟨v, hv, heq⟩ := ih
        · exact .inl heq
        · exact .inr ⟨v, .inl hv, heq⟩

/-- A replica that has a current version has seen its newest number on a version that it
installed. -/
theorem exists_installed_knownHead {key : EnvironmentKey} {canOverwrite : Bool} {ts : List Turn}
    {v : Snapshot} (h : ((Site.new key canOverwrite).run ts).replica.current = some v) :
    ∃ w ∈ (Site.new key canOverwrite).installs ts,
      w.version = ((Site.new key canOverwrite).run ts).replica.knownHead := by
  obtain hzero | hinstalled := knownHead_eq_or_installs (Site.new key canOverwrite) ts
  · -- the current version was installed, and no number is below zero
    have hlast : ((Site.new key canOverwrite).installs ts).getLast? = some v := by
      rw [run_current] at h
      simpa [new, Replica.new] using h
    have hmem := List.mem_of_getLast? hlast
    have hle := installs_le_knownHead hmem
    have hzero' : ((Site.new key canOverwrite).run ts).replica.knownHead = 0 := hzero
    rw [hzero'] at hle ⊢
    exact ⟨v, hmem, Nat.le_zero.mp hle⟩
  · exact hinstalled

/-! ## Who may overwrite -/

theorem permitted_step (s : Site) (t : Turn) :
    (s.step t).replica.gate.permitted = s.replica.gate.permitted := by
  have hchange := s.change t
  generalize s.step t = s' at hchange ⊢
  cases hchange with
  | staged store c replaced r hstage =>
    obtain ⟨-, b, -, -, rfl⟩ := Replica.stage_ok hstage
    rfl
  | discarded store => simp [Replica.discard]
  | cancelled store => simp [Replica.clearOverwrite]
  | started store name o r p _ _ hstarted =>
    cases hstarted with
    | claimed force c r' hclaim => obtain ⟨-, -, -, -, -, rfl⟩ := Replica.claim_ok hclaim; rfl
    | confirmed c r' _ _ hclaim =>
      obtain ⟨-, -, -, -, -, rfl⟩ := Replica.claim_ok hclaim
      simp
    | _ => rfl
  | delivered store name task answered r p _ _ hresumed =>
    generalize answered (task.call s.replica.key) = a at hresumed
    cases hresumed <;> simp [Gate.recordStale]
  | dropped store name f hflight =>
    obtain ⟨-, heq⟩ | ⟨c, m, -, heq⟩ := s.replica.cancel_eq f.task <;> simp [heq]
  | _ => rfl

/-- A site may overwrite if it was opened so. -/
theorem permitted_run (key : EnvironmentKey) (canOverwrite : Bool) (ts : List Turn) :
    ((Site.new key canOverwrite).run ts).replica.gate.permitted = canOverwrite := by
  induction ts using List.reverseRecOn with
  | nil => rfl
  | append_singleton ts t ih => rw [run_concat, permitted_step, ih]

/-! ## What is sent -/

/-- An apply gets as far as a call exactly when the batch can be claimed. -/
theorem start_apply_waiting (r : Replica) (force : Bool) :
    (∃ t, (r.start (.apply force)).2 = .waiting t) ↔ ∃ c r', r.claim = .ok (c, r') := by
  simp only [Replica.start]
  cases r.claim with
  | error e => simp
  | ok claimed => exact ⟨fun _ => ⟨claimed.1, claimed.2, rfl⟩, fun _ => ⟨_, rfl⟩⟩

/-- A request that is out is the batch as it was when the submission started: on its base version,
and with the newest number seen at that time unless it is forced. -/
theorem exists_request {key : EnvironmentKey} {canOverwrite : Bool} {ts : List Turn} {name : Nat}
    {f : Flight} {key' : EnvironmentKey} {request : ApplyRequest}
    (h : ((Site.new key canOverwrite).run ts).flights name = some f)
    (hcall : f.task.call key = .apply key' request) :
    ∃ before u after, ts = before ++ u :: after ∧
      ∃ o claim claimed, u.move = .start name o ∧
        ((Site.new key canOverwrite).run before).replica.claim = .ok (claim, claimed) ∧
        request = ⟨claim.base.version,
          if o = .apply false then some claim.knownHead else none, claim.submitted⟩ := by
  obtain ⟨task, answeredBy⟩ := f
  cases task with
  | submitting c m =>
    obtain ⟨before, u, after, hts, ⟨o, hmove, hmanner⟩, claimed, hclaim⟩ := exists_claim h rfl
    refine ⟨before, u, after, hts, o, c, claimed, hmove, hclaim, ?_⟩
    -- the operation fixes the manner, and the manner the expected head
    simp only [Task.call, Backend.Call.apply.injEq] at hcall
    rw [← hcall.2]
    cases o with
    | apply force => cases force <;> cases hmanner <;> rfl
    | confirm => cases hmanner; rfl
    | _ => exact absurd hmanner (by simp [Operation.manner?])
  | _ => exact absurd hcall (by simp [Task.call])

/-! ## The whole -/

/-- **The invariants of a replica.** At every point of every run the batch has a base exactly when
it is not empty, and then the base is the number of the current version; its keys differ
and it holds at most 512 constraints; the current version is the last installed one, belongs to
the environment and never goes away; the newest number seen is that of the greatest installed
version and never decreases. So the replica can apply exactly when starting an apply gets as far
as a call, staging keeps every constraint with another key, and each request that is out carries
the batch as it was claimed, with the newest number seen at that time unless it is forced. -/
theorem replica_invariants (key : EnvironmentKey) (canOverwrite : Bool) (ts : List Turn) :
    let s₀ := Site.new key canOverwrite
    let r := (s₀.run ts).replica
    (r.batch.base.isSome ↔ r.batch.constraints ≠ []) ∧
    (r.batch.constraints ≠ [] →
      ∃ s, r.current = some s ∧ r.batch.base = some s.version) ∧
    (r.batch.constraints.map Constraint.key).Nodup ∧
    r.batch.constraints.length ≤ 512 ∧
    (∀ s, r.current = some s → s.key = key) ∧
    r.current = (s₀.installs ts).getLast? ∧
    (∀ us, r.current.isSome → (s₀.run (ts ++ us)).replica.current.isSome) ∧
    (∀ us, r.knownHead ≤ (s₀.run (ts ++ us)).replica.knownHead) ∧
    (∀ v ∈ s₀.installs ts, v.version ≤ r.knownHead) ∧
    (s₀.installs ts = [] ∧ r.knownHead = 0 ∨ ∃ v ∈ s₀.installs ts, v.version = r.knownHead) ∧
    (∀ force, r.canApply = true ↔ ∃ t, (r.start (.apply force)).2 = .waiting t) ∧
    (∀ c replaced r', r.stage c = .ok (replaced, r') →
      r'.batch.constraints = Batch.others r.batch.constraints c ++ [c]) ∧
    (∀ name f key' request, (s₀.run ts).flights name = some f →
      f.task.call key = .apply key' request →
      key' = key ∧ 1 ≤ request.constraints.length ∧ request.constraints.length ≤ 512 ∧
      (request.constraints.map Constraint.key).Nodup ∧
      ∃ before u after, ts = before ++ u :: after ∧ ∃ o, u.move = .start name o ∧
        (s₀.run before).replica.batch = ⟨some request.version, request.constraints⟩ ∧
        request.expectedHead =
          if o = .apply false then some (s₀.run before).replica.knownHead else none) := by
  intro s₀ r
  have hrun : ∀ us, (s₀.run us).replica.Coherent :=
    fun us => ((coherent_new key canOverwrite).run us).replica
  have h : r.Coherent := hrun ts
  refine ⟨h.batch.based, ?_, h.batch.distinct, h.batch.bounded, ?_, ?_, ?_, ?_,
    fun v hv => installs_le_knownHead hv, ?_, ?_, ?_, ?_⟩
  · -- a batch that is not empty belongs to the current version
    intro hfull
    obtain ⟨base, hbase⟩ := Option.isSome_iff_exists.mp (h.batch.based.mpr hfull)
    obtain ⟨s, hs, -⟩ := h.rooted base hbase
    exact ⟨s, hs, h.base_eq hs hfull⟩
  · -- the current version belongs to the environment
    intro s hs
    rw [h.owned s hs]
    exact run_key s₀ ts
  · -- it is the last one that was installed
    have hlast := run_current s₀ ts
    rwa [show s₀.replica.current = none from rfl, Option.or_none] at hlast
  · -- it never goes away
    intro us hsome
    obtain ⟨v, hv⟩ := Option.isSome_iff_exists.mp hsome
    rw [run_append, run_current, hv]
    cases ((s₀.run ts).installs us).getLast? <;> rfl
  · intro us
    rw [run_append]
    exact knownHead_le_run _ us
  · -- the newest number seen is that of an installed version
    obtain hzero | hinstalled := knownHead_eq_or_installs s₀ ts
    · by_cases hnone : s₀.installs ts = []
      · exact .inl ⟨hnone, hzero⟩
      · right
        obtain ⟨v, hv⟩ := List.exists_mem_of_ne_nil _ hnone
        have hle : v.version ≤ r.knownHead := installs_le_knownHead hv
        have hzero' : r.knownHead = 0 := hzero
        rw [hzero'] at hle ⊢
        exact ⟨v, hv, Nat.le_zero.mp hle⟩
    · exact .inr hinstalled
  · intro force
    rw [h.canApply_iff, start_apply_waiting]
  · intro c replaced r' hstage
    obtain ⟨s, -, rfl, -⟩ := h.stage_batch hstage
    rfl
  · -- what is sent was claimed from a coherent replica
    intro name f key' request hflight hcall
    obtain ⟨before, u, after, hts, o, claim, claimed, hmove, hclaim, rfl⟩ :=
      exists_request hflight hcall
    obtain ⟨-, hcurrent, hknown, hsubmitted, hfull, -⟩ := Replica.claim_ok hclaim
    have hbefore := hrun before
    have hbase := hbefore.base_eq hcurrent (hsubmitted ▸ hfull)
    refine ⟨?_, List.length_pos_iff.mpr hfull, hsubmitted ▸ hbefore.batch.bounded,
      hsubmitted ▸ hbefore.batch.distinct, before, u, after, hts, o, hmove, ?_, ?_⟩
    · cases htask : f.task <;> simp_all [Task.call]
    · rw [← hbase, ← hsubmitted]
    · rw [hknown]

end Site
end VersionedTopology

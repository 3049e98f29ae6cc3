/-
  VersionedTopology.Proofs.Replica.Coherent

  What every change of a replica preserves.

  A replica is coherent when its batch is well formed and belongs to its current
  version, and when that version belongs to the replica's environment. Each change
  that an operation makes is described once, field by field, and keeps a coherent
  replica coherent. Installing a version drops the batch unless the batch was
  staged on a version of that number; installing the result of a submission keeps
  what was staged and not sent, on the new version.
-/

import VersionedTopology.Proofs.Replica.Batch
import VersionedTopology.Replica.Task

namespace VersionedTopology

/-- The constraints of a batch that a submission has not sent. -/
def Claim.unsent (c : Claim) (b : Batch) : List Constraint :=
  b.constraints.filter fun d => !c.submitted.any fun e => decide (Constraint.Same e d)

theorem Claim.unsent_sublist (c : Claim) (b : Batch) : (c.unsent b).Sublist b.constraints :=
  List.filter_sublist

theorem Claim.mem_unsent {c : Claim} {b : Batch} {d : Constraint} :
    d ∈ c.unsent b ↔ d ∈ b.constraints ∧ ∀ e ∈ c.submitted, ¬ Constraint.Same e d := by
  simp [Claim.unsent]

namespace Replica

/-! ## Fields that a change leaves alone -/

section fields

variable (r : Replica) (e : Event) (s : Snapshot) (p : Pointers) (m : Manner) (c : Claim)
  (server : VersionNumber)

@[simp] theorem emit_key : (r.emit e).key = r.key := rfl
@[simp] theorem emit_current : (r.emit e).current = r.current := rfl
@[simp] theorem emit_knownHead : (r.emit e).knownHead = r.knownHead := rfl
@[simp] theorem emit_batch : (r.emit e).batch = r.batch := rfl

@[simp] theorem release_key : (r.release m).key = r.key := by
  simp only [release]; split <;> rfl
@[simp] theorem release_current : (r.release m).current = r.current := by
  simp only [release]; split <;> rfl
@[simp] theorem release_knownHead : (r.release m).knownHead = r.knownHead := by
  simp only [release]; split <;> rfl
@[simp] theorem release_batch : (r.release m).batch = r.batch := by
  simp only [release]; split <;> rfl

@[simp] theorem recordStale_key : (r.recordStale c server).key = r.key := rfl
@[simp] theorem recordStale_current : (r.recordStale c server).current = r.current := rfl
@[simp] theorem recordStale_knownHead : (r.recordStale c server).knownHead = r.knownHead := rfl
@[simp] theorem recordStale_batch : (r.recordStale c server).batch = r.batch := rfl

theorem discardForeign_frame (v : VersionNumber) :
    (r.discardForeign v).key = r.key ∧ (r.discardForeign v).current = r.current ∧
      (r.discardForeign v).knownHead = r.knownHead := by
  simp only [discardForeign]
  split
  · exact ⟨rfl, rfl, rfl⟩
  · split <;> exact ⟨rfl, rfl, rfl⟩

theorem dropOrphanedGate_frame :
    r.dropOrphanedGate.key = r.key ∧ r.dropOrphanedGate.knownHead = r.knownHead ∧
      r.dropOrphanedGate.batch = r.batch := by
  simp only [dropOrphanedGate]
  split <;> exact ⟨rfl, rfl, rfl⟩

/-! ## Installing -/

@[simp] theorem install_key : (r.install s p).key = r.key := by
  simp only [install]
  rw [(dropOrphanedGate_frame _).1, (discardForeign_frame _ _).1]

@[simp] theorem install_current : (r.install s p).current = some s := rfl

@[simp] theorem install_knownHead :
    (r.install s p).knownHead = max r.knownHead s.version := by
  simp only [install]
  rw [(dropOrphanedGate_frame _).2.1, (discardForeign_frame _ _).2.2]

@[simp] theorem installApplied_key : (r.installApplied c s).key = r.key :=
  install_key { r with batch := Batch.empty } s (Pointers.afterApply c.base.version)

@[simp] theorem installApplied_current : (r.installApplied c s).current = some s := rfl

@[simp] theorem installApplied_knownHead :
    (r.installApplied c s).knownHead = max r.knownHead s.version :=
  install_knownHead { r with batch := Batch.empty } s (Pointers.afterApply c.base.version)

end fields

/-- Installing a version keeps the batch only if it was staged on that number. -/
theorem install_batch {r : Replica} (h : r.batch.WellFormed) (s : Snapshot) (p : Pointers) :
    (r.install s p).batch =
      if r.batch.base = some s.version then r.batch else Batch.empty := by
  have hdrop : (r.install s p).batch = (r.discardForeign s.version).batch :=
    (dropOrphanedGate_frame _).2.2
  rw [hdrop]
  cases hbase : r.batch.base with
  | none =>
    rw [if_neg (by simp), ← h.eq_empty hbase]
    simp [discardForeign, hbase]
  | some base =>
    -- a batch with a base is not empty, so only the number decides
    have hfull : r.batch.isEmpty = false := by
      have hne := h.based.mp (by simp [hbase])
      simpa [Batch.isEmpty] using hne
    by_cases heq : base = s.version
    · simp [discardForeign, hbase, heq]
    · simp [discardForeign, hbase, heq, hfull]

/-- Installing the result of a submission keeps exactly what was not sent. -/
theorem installApplied_batch {r : Replica} (h : r.batch.WellFormed) (c : Claim) (s : Snapshot) :
    (r.installApplied c s).batch =
      ⟨if c.unsent r.batch = [] then none else some s.version, c.unsent r.batch⟩ := by
  -- the batch is emptied first, so installing drops nothing
  have hempty : (({ r with batch := Batch.empty } : Replica).install s
      (Pointers.afterApply c.base.version)).batch = Batch.empty := by
    rw [install_batch (r := { r with batch := Batch.empty }) Batch.wellFormed_empty]
    split <;> rfl
  have hsub := c.unsent_sublist r.batch
  calc (r.installApplied c s).batch
      = (({ r with batch := Batch.empty } : Replica).install s
          (Pointers.afterApply c.base.version)).batch.stageAll s.version (c.unsent r.batch) := rfl
    _ = Batch.empty.stageAll s.version (c.unsent r.batch) := by rw [hempty]
    _ = _ := Batch.stageAll_empty (h.distinct.sublist (hsub.map _))
          (Nat.le_trans hsub.length_le h.bounded)

/-! ## Staging -/

/-- Staging changes the batch, and nothing else. -/
theorem stage_ok {r r' : Replica} {c : Constraint} {replaced : Bool}
    (h : r.stage c = .ok (replaced, r')) :
    ∃ s b, r.current = some s ∧ r.batch.stage s.version c = .ok (replaced, b) ∧
      r' = { r with batch := b } := by
  simp only [stage] at h
  split at h
  · exact absurd h (by simp)
  · rename_i s hs
    split at h
    · exact absurd h (by simp)
    · rename_i b hb
      simp only [Except.ok.injEq, Prod.mk.injEq] at h
      obtain ⟨rfl, rfl⟩ := h
      exact ⟨s, b, hs, hb, rfl⟩

/-! ## Coherence -/

/-- The batch belongs to the current version, and the current version to the environment. -/
structure Coherent (r : Replica) : Prop where
  batch : r.batch.WellFormed
  rooted : ∀ base, r.batch.base = some base → ∃ s, r.current = some s ∧ s.version = base
  owned : ∀ s, r.current = some s → s.key = r.key

theorem coherent_new (key : EnvironmentKey) (canOverwrite : Bool) :
    (Replica.new key canOverwrite).Coherent where
  batch := Batch.wellFormed_empty
  rooted := by intro base h; exact absurd h (by simp [Replica.new])
  owned := by intro s h; exact absurd h (by simp [Replica.new])

/-- Coherence does not depend on subscribers, gate, pipeline and pointers. -/
theorem Coherent.congr {r r' : Replica} (h : r.Coherent) (hkey : r'.key = r.key)
    (hcurrent : r'.current = r.current) (hbatch : r'.batch = r.batch) : r'.Coherent where
  batch := hbatch ▸ h.batch
  rooted := by rw [hbatch, hcurrent]; exact h.rooted
  owned := by rw [hcurrent, hkey]; exact h.owned

/-- A replica without staged constraints is coherent if it owns its version. -/
theorem coherent_of_empty {r : Replica} (hbatch : r.batch = Batch.empty)
    (howned : ∀ s, r.current = some s → s.key = r.key) : r.Coherent where
  batch := hbatch ▸ Batch.wellFormed_empty
  rooted := by intro base h; rw [hbatch] at h; exact absurd h (by simp [Batch.empty])
  owned := howned

theorem Coherent.discard {r : Replica} (h : r.Coherent) : r.discard.2.Coherent :=
  coherent_of_empty rfl h.owned

/-- A batch that is not empty belongs to the current version. -/
theorem Coherent.exists_current {r : Replica} (h : r.Coherent) (hfull : r.batch.constraints ≠ []) :
    ∃ s, r.current = some s ∧ r.batch.base = some s.version := by
  obtain ⟨base, hbase⟩ := Option.isSome_iff_exists.mp (h.batch.based.mpr hfull)
  obtain ⟨s, hs, hversion⟩ := h.rooted base hbase
  exact ⟨s, hs, by rw [hbase, hversion]⟩

/-- The base of a non-empty batch is the number of the current version. -/
theorem Coherent.base_eq {r : Replica} (h : r.Coherent) {s : Snapshot}
    (hs : r.current = some s) (hfull : r.batch.constraints ≠ []) :
    r.batch.base = some s.version := by
  obtain ⟨s', hs', hbase⟩ := h.exists_current hfull
  rw [hs, Option.some.injEq] at hs'
  rw [hbase, hs']

/-- All constraints of a batch count for the current version. -/
theorem Coherent.heldFor_eq {r : Replica} (h : r.Coherent) {s : Snapshot}
    (hs : r.current = some s) : r.batch.heldFor s.version = r.batch.constraints := by
  simp only [Batch.heldFor]
  by_cases hfull : r.batch.constraints = []
  · rw [hfull]; split <;> rfl
  · rw [if_pos (h.base_eq hs hfull)]

/-- Staging appends the constraint to those with other keys. -/
theorem Coherent.stage_batch {r r' : Replica} (h : r.Coherent) {c : Constraint} {replaced : Bool}
    (hstage : r.stage c = .ok (replaced, r')) :
    ∃ s, r.current = some s ∧
      r' = { r with batch := ⟨some s.version, Batch.others r.batch.constraints c ++ [c]⟩ } ∧
      r.batch.stage s.version c = .ok (replaced, r'.batch) := by
  obtain ⟨s, b, hs, hb, rfl⟩ := stage_ok hstage
  refine ⟨s, hs, ?_, hb⟩
  rw [Batch.stage_ok hb, h.heldFor_eq hs]

theorem Coherent.stage {r r' : Replica} (h : r.Coherent) {c : Constraint} {replaced : Bool}
    (hstage : r.stage c = .ok (replaced, r')) : r'.Coherent := by
  obtain ⟨s, hs, rfl, hbatch⟩ := h.stage_batch hstage
  refine ⟨h.batch.stage hbatch, ?_, h.owned⟩
  intro base hbase
  simp only [Option.some.injEq] at hbase
  exact ⟨s, hs, hbase⟩

theorem Coherent.install {r : Replica} (h : r.Coherent) {s : Snapshot} (hs : s.key = r.key)
    (p : Pointers) : (r.install s p).Coherent := by
  have howned : ∀ s', (r.install s p).current = some s' → s'.key = (r.install s p).key := by
    intro s' hs'
    simp only [install_current, Option.some.injEq] at hs'
    rw [← hs', hs, install_key]
  -- the batch was staged on this number, or is gone
  by_cases hbase : r.batch.base = some s.version
  · have hbatch : (r.install s p).batch = r.batch := by
      rw [install_batch h.batch, if_pos hbase]
    refine ⟨hbatch ▸ h.batch, ?_, howned⟩
    intro base hb
    rw [hbatch, hbase, Option.some.injEq] at hb
    exact ⟨s, rfl, hb⟩
  · refine coherent_of_empty ?_ howned
    rw [install_batch h.batch, if_neg hbase]

theorem Coherent.installApplied {r : Replica} (h : r.Coherent) (c : Claim) {s : Snapshot}
    (hs : s.key = r.key) : (r.installApplied c s).Coherent := by
  have hsub := c.unsent_sublist r.batch
  have hbatch := installApplied_batch h.batch c s
  refine ⟨?_, ?_, ?_⟩
  · rw [hbatch]
    refine ⟨?_, h.batch.distinct.sublist (hsub.map _), Nat.le_trans hsub.length_le h.batch.bounded⟩
    by_cases hnil : c.unsent r.batch = [] <;> simp [hnil]
  · intro base hb
    rw [hbatch] at hb
    by_cases hnil : c.unsent r.batch = []
    · exact absurd hb (by simp [hnil])
    · simp only [if_neg hnil, Option.some.injEq] at hb
      exact ⟨s, rfl, hb⟩
  · intro s' hs'
    simp only [installApplied_current, Option.some.injEq] at hs'
    rw [← hs', hs, installApplied_key]

/-! ## Claims -/

/-- A claim captures the current version, the newest number seen, and the whole batch. -/
theorem claim_ok {r r' : Replica} {c : Claim} (h : r.claim = .ok (c, r')) :
    r.inFlight = false ∧ r.current = some c.base ∧ r.knownHead = c.knownHead ∧
      r.batch.constraints = c.submitted ∧ c.submitted ≠ [] ∧ r' = { r with inFlight := true } := by
  simp only [claim] at h
  split at h
  · exact absurd h (by simp)
  · rename_i hfree
    split at h
    · exact absurd h (by simp)
    · rename_i base hbase
      split at h
      · exact absurd h (by simp)
      · rename_i hfull
        simp only [Except.ok.injEq, Prod.mk.injEq] at h
        obtain ⟨rfl, rfl⟩ := h
        exact ⟨by simpa using hfree, hbase, rfl, rfl, by simpa using hfull, rfl⟩

/-- A coherent replica can apply exactly when it can claim its batch. -/
theorem Coherent.canApply_iff {r : Replica} (h : r.Coherent) :
    r.canApply = true ↔ ∃ c r', r.claim = .ok (c, r') := by
  constructor
  · intro hcan
    simp only [canApply, Bool.and_eq_true, Bool.not_eq_true'] at hcan
    obtain ⟨hfree, hfull⟩ := hcan
    have hne : r.batch.constraints ≠ [] := by
      intro hnil
      rw [Batch.isEmpty_iff.mpr hnil] at hfull
      exact absurd hfull (by simp)
    obtain ⟨s, hs, -⟩ := h.exists_current hne
    exact ⟨⟨s, r.knownHead, r.batch.constraints⟩, { r with inFlight := true },
      by simp [claim, hfree, hs, hfull]⟩
  · rintro ⟨c, r', hclaim⟩
    obtain ⟨hfree, -, -, hsubmitted, hne, -⟩ := claim_ok hclaim
    rw [← hsubmitted] at hne
    simp [canApply, hfree, Batch.isEmpty, hne]

end Replica
end VersionedTopology

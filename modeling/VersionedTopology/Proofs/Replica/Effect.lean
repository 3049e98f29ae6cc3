/-
  VersionedTopology.Proofs.Replica.Effect

  What each change makes of the pointers, the pipeline, the gate and the inboxes.

  Releasing a submission frees the pipeline and, after a confirmed one, resets the gate.
  Installing a version cancels a confirmation that is left without a batch, but never
  one that is being acted on. Installing the result of a submission resets the gate and
  tells the subscribers exactly one thing: which version was made from which.
-/

import VersionedTopology.Proofs.Replica.Coherent

namespace VersionedTopology

/-! ## The gate -/

namespace Gate

variable (g : Gate)

@[simp] theorem reset_state : g.reset.state = .idle := rfl
@[simp] theorem reset_attempted : g.reset.attempted = false := rfl
@[simp] theorem reset_permitted : g.reset.permitted = g.permitted := rfl

@[simp] theorem recordStale_attempted (cs : List Constraint) (seen server : VersionNumber) :
    (g.recordStale cs seen server).attempted = true := rfl

/-- Only a confirmation that nobody has acted on yet awaits anything. -/
theorem attempted_iff {g : Gate} :
    g.attempted = true ↔ ∃ cs seen server, g.state = .pending cs seen server := by
  simp only [attempted]
  split <;> simp_all

@[simp] theorem clear_attempted : g.clear.attempted = false := by
  simp only [clear]
  split
  · rfl
  · rename_i h
    simpa using h

@[simp] theorem clear_permitted : g.clear.permitted = g.permitted := by
  simp only [clear]
  split <;> rfl

/-- Cancelling does not touch a confirmation that is being acted on. -/
@[simp] theorem clear_resolving : g.clear.state = .resolving ↔ g.state = .resolving := by
  simp only [clear]
  split
  · rename_i h
    obtain ⟨cs, seen, server, hstate⟩ := attempted_iff.mp h
    simp [hstate]
  · rfl

theorem beginResolve_state {g : Gate} (h : g.attempted = true) :
    g.beginResolve.state = .resolving := by
  simp [beginResolve, h]

@[simp] theorem beginResolve_permitted : g.beginResolve.permitted = g.permitted := by
  simp only [beginResolve]
  split <;> rfl

theorem attempted_eq_false_of_resolving {g : Gate} (h : g.state = .resolving) :
    g.attempted = false := by
  simp [attempted, h]

end Gate

namespace Replica

section effects

variable (r : Replica) (e : Event) (s : Snapshot) (p : Pointers) (m : Manner) (c : Claim)
  (server : VersionNumber)

@[simp] theorem emit_pointers : (r.emit e).pointers = r.pointers := rfl
@[simp] theorem emit_inFlight : (r.emit e).inFlight = r.inFlight := rfl
@[simp] theorem emit_gate : (r.emit e).gate = r.gate := rfl

/-! ## Ending a submission -/

@[simp] theorem release_inFlight : (r.release m).inFlight = false := by
  simp only [release]; split <;> rfl
@[simp] theorem release_pointers : (r.release m).pointers = r.pointers := by
  simp only [release]; split <;> rfl
@[simp] theorem release_inboxes : (r.release m).inboxes = r.inboxes := by
  simp only [release]; split <;> rfl

theorem release_gate :
    (r.release m).gate = if m = .confirmed then r.gate.reset else r.gate := by
  simp only [release]; split <;> rfl

theorem release_resolving :
    (r.release m).gate.state = .resolving ↔ m ≠ .confirmed ∧ r.gate.state = .resolving := by
  rw [release_gate]
  by_cases hm : m = .confirmed <;> simp [hm]

@[simp] theorem release_permitted : (r.release m).gate.permitted = r.gate.permitted := by
  rw [release_gate]; split <;> rfl

@[simp] theorem recordStale_pointers : (r.recordStale c server).pointers = r.pointers := rfl
@[simp] theorem recordStale_inboxes : (r.recordStale c server).inboxes = r.inboxes := rfl
@[simp] theorem recordStale_gate :
    (r.recordStale c server).gate = r.gate.recordStale c.submitted c.knownHead server := rfl

/-! ## Installing -/

theorem discardForeign_gate (v : VersionNumber) :
    (r.discardForeign v).gate = r.gate ∧ (r.discardForeign v).inFlight = r.inFlight := by
  simp only [discardForeign]
  split
  · exact ⟨rfl, rfl⟩
  · split <;> exact ⟨rfl, rfl⟩

@[simp] theorem install_pointers : (r.install s p).pointers = p := rfl

@[simp] theorem install_inFlight : (r.install s p).inFlight = r.inFlight := by
  have hdrop : (r.install s p).inFlight = (r.discardForeign s.version).inFlight := by
    simp only [install, dropOrphanedGate]
    split <;> rfl
  rw [hdrop, (discardForeign_gate r s.version).2]

/-- A confirmation is cancelled exactly when its batch is gone. -/
theorem install_gate :
    (r.install s p).gate =
      if (r.install s p).batch.isEmpty then r.gate.clear else r.gate := by
  have hbatch : (r.install s p).batch = (r.discardForeign s.version).batch :=
    (dropOrphanedGate_frame _).2.2
  rw [hbatch, ← (discardForeign_gate r s.version).1]
  simp only [install, dropOrphanedGate]
  split <;> rfl

@[simp] theorem install_resolving :
    (r.install s p).gate.state = .resolving ↔ r.gate.state = .resolving := by
  rw [install_gate]
  split <;> simp

@[simp] theorem install_permitted : (r.install s p).gate.permitted = r.gate.permitted := by
  rw [install_gate]
  split <;> simp

@[simp] theorem installApplied_pointers :
    (r.installApplied c s).pointers = Pointers.afterApply c.base.version := rfl

@[simp] theorem installApplied_gate_state : (r.installApplied c s).gate.state = .idle := rfl

@[simp] theorem installApplied_permitted :
    (r.installApplied c s).gate.permitted = r.gate.permitted :=
  install_permitted { r with batch := Batch.empty } s (Pointers.afterApply c.base.version)

/-- The subscribers learn of the new version, and of nothing else: there is no batch left that could
be reported as dropped. -/
theorem installApplied_inboxes :
    (r.installApplied c s).inboxes = (r.emit (.applied c.base.version s.version
      (TopologyDiff.between c.base.toGraph s.toGraph))).inboxes := by
  have hempty : (({ r with batch := Batch.empty } : Replica).discardForeign s.version) =
      { r with batch := Batch.empty } := rfl
  have hinboxes : (({ r with batch := Batch.empty } : Replica).install s
      (Pointers.afterApply c.base.version)).inboxes = r.inboxes := by
    simp only [install, hempty, dropOrphanedGate]
    split <;> rfl
  simp only [installApplied, emit, hinboxes]

end effects

end Replica
end VersionedTopology

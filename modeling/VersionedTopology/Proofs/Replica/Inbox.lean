/-
  VersionedTopology.Proofs.Replica.Inbox

  What subscribers are told.

  A change of a replica puts the same events into every inbox. Only an answer that makes a
  version current does so: it reports that version, and right before it the batch that
  was dropped on the way, if there was one. What a replica does and what it returns depends
  on no inbox, so a replica without any goes through the same states.
-/

import VersionedTopology.Proofs.Replica.Effect
import VersionedTopology.Proofs.Replica.Transition

namespace VersionedTopology

/-- The number of the version that an event reports to have become current. -/
def Event.reached? : Event → Option VersionNumber
  | .loaded v => some v
  | .navigated _ reached _ => some reached
  | .applied _ result _ => some result
  | .batchDiscarded .. => none

/-- The inbox with further events at its end. -/
def Inbox.push (i : Inbox) (es : List Event) : Inbox := { i with queue := i.queue ++ es }

@[simp] theorem Inbox.push_nil (i : Inbox) : i.push [] = i := by
  simp [push]

@[simp] theorem Inbox.push_push (i : Inbox) (es fs : List Event) :
    (i.push es).push fs = i.push (es ++ fs) := by
  simp [push]

/-- How a task reports the version that it makes current. -/
def Task.report? : Task → Snapshot → Option Event
  | .loadNext _ _, v => some (.loaded v.version)
  | .stepFar d left target _, _ => some (.navigated left target d)
  | .submitting c _, v => some (.applied c.base.version v.version
      (TopologyDiff.between c.base.toGraph v.toGraph))
  | _, _ => none

/-- A step has fetched the version that it goes to. -/
def Task.Aimed : Task → Prop
  | .stepFar _ _ target s => s.version = target
  | _ => True

namespace Replica

/-! ## Delivery -/

@[simp] theorem emit_inboxes (r : Replica) (e : Event) :
    (r.emit e).inboxes = r.inboxes.map (·.push [e]) := rfl

/-- What is told of a batch that is there before a change and gone after it. -/
def dropNotice (r r' : Replica) : List Event :=
  if r.batch.isEmpty || !r'.batch.isEmpty then []
  else r.batch.base.toList.map fun base => .batchDiscarded base r.batch.size

/-- A batch that is not empty has a base, which the notice names with the number of constraints. -/
theorem dropNotice_of_dropped {r r' : Replica} (h : r.batch.WellFormed)
    (hfull : r.batch.constraints ≠ []) (hgone : r'.batch.constraints = []) :
    ∃ base, r.batch.base = some base ∧
      r.dropNotice r' = [.batchDiscarded base r.batch.constraints.length] := by
  obtain ⟨base, hbase⟩ := Option.isSome_iff_exists.mp (h.based.mpr hfull)
  refine ⟨base, hbase, ?_⟩
  have hempty : r'.batch.isEmpty = true := Batch.isEmpty_iff.mpr hgone
  have hnonempty : r.batch.isEmpty = false := by simpa [Batch.isEmpty] using hfull
  simp [dropNotice, hempty, hnonempty, hbase, Batch.size]

theorem dropNotice_of_kept {r r' : Replica}
    (h : r.batch.constraints = [] ∨ r'.batch.constraints ≠ []) : r.dropNotice r' = [] := by
  rw [dropNotice, if_pos]
  obtain hempty | hkept := h
  · simp [Batch.isEmpty, hempty]
  · simp [Batch.isEmpty, hkept]

/-- Installing a version reports a batch that it drops. -/
theorem install_inboxes {r : Replica} (h : r.batch.WellFormed) (s : Snapshot) (p : Pointers) :
    (r.install s p).inboxes = r.inboxes.map (·.push (r.dropNotice (r.install s p))) := by
  have hgate : (r.install s p).inboxes = (r.discardForeign s.version).inboxes := by
    simp only [install, dropOrphanedGate]
    split <;> rfl
  have hbatch := install_batch h s p
  rw [hgate]
  cases hbase : r.batch.base with
  | none =>
    have hempty : r.batch.isEmpty = true := by rw [h.eq_empty hbase]; rfl
    simp [discardForeign, hbase, dropNotice, hempty]
  | some base =>
    have hfull : r.batch.isEmpty = false := by
      have hne := h.based.mp (by simp [hbase])
      simpa [Batch.isEmpty] using hne
    by_cases heq : base = s.version
    · -- the batch was staged on this number and stays
      rw [hbase, if_pos (by rw [heq])] at hbatch
      simp [discardForeign, hbase, heq, dropNotice, hbatch, hfull]
    · rw [hbase, if_neg (by simpa using heq)] at hbatch
      have hgone : (r.install s p).batch.isEmpty = true := by rw [hbatch]; rfl
      simp [discardForeign, hbase, heq, hfull, dropNotice, hgone]

/-- What is told when an answer takes a task on: nothing, or the version that becomes current, after
a batch that was dropped for it. The result of a submission drops nothing. -/
def told (r : Replica) (t : Task) (r' : Replica) (p : Progress) : List Event :=
  match p.installed? with
  | none => []
  | some v => (if t.submission?.isSome then [] else r.dropNotice r') ++ (t.report? v).toList

theorem Resumed.inboxes {r r' : Replica} {t : Task} {a : (t.call r.key).Answer} {p : Progress}
    (h : Resumed r t a r' p) (hr : r.batch.WellFormed) :
    r'.inboxes = r.inboxes.map (·.push (r.told t r' p)) := by
  cases h with
  | loaded s p n =>
    simp [told, Progress.installed?, Task.submission?, Task.report?, install_inboxes hr,
      dropNotice]
  | stepped d left target s far =>
    simp [told, Progress.installed?, Navigation.snapshot?, Task.submission?, Task.report?,
      install_inboxes hr, dropNotice]
  | applied c m s howned hnewer =>
    simp [told, Progress.installed?, Task.submission?, Task.report?, installApplied_inboxes]
  | _ => simp [told, Progress.installed?]

/-- A task that makes a version current reports the number of that version. -/
theorem Resumed.report {r r' : Replica} {t : Task} {a : (t.call r.key).Answer} {p : Progress}
    {v : Snapshot} (h : Resumed r t a r' p) (ht : t.Aimed) (hv : p.installed? = some v) :
    ∃ e, t.report? v = some e ∧ e.reached? = some v.version := by
  cases h with
  | loaded s p n => exact ⟨_, rfl, rfl⟩
  | stepped d left target s far =>
    obtain rfl := Option.some.inj hv
    exact ⟨_, rfl, congrArg some ht.symm⟩
  | applied c m s howned hnewer => exact ⟨_, rfl, rfl⟩
  | _ => exact absurd hv (by simp [Progress.installed?])

/-- A step goes on with the version that it goes to. -/
theorem Resumed.aimed {r r' : Replica} {t next : Task} {a : (t.call r.key).Answer}
    (h : Resumed r t a r' (.waiting next)) : next.Aimed := by
  cases h with
  | reached d left target s howned hversion => exact hversion
  | _ => trivial

theorem Started.aimed {r r' : Replica} {o : Operation} {t : Task}
    (h : Started r o r' (.waiting t)) : t.Aimed := by
  cases h with
  | asked o t ho hfetched hclaim hselect =>
    cases t with
    | stepFar d left target s => exact absurd hfetched (by simp [Task.fetched?])
    | _ => trivial
  | claimed force c r' h => cases force <;> trivial
  | confirmed c r' hattempted hpermitted h => trivial

theorem Started.inboxes {r r' : Replica} {o : Operation} {p : Progress} (h : Started r o r' p) :
    r'.inboxes = r.inboxes := by
  cases h with
  | claimed force c r' h =>
    obtain ⟨-, -, -, -, -, rfl⟩ := claim_ok h
    rfl
  | confirmed c r' hattempted hpermitted h =>
    obtain ⟨-, -, -, -, -, rfl⟩ := claim_ok h
    rfl
  | _ => rfl

theorem cancel_inboxes (r : Replica) (t : Task) : (r.cancel t).inboxes = r.inboxes := by
  obtain ⟨-, h⟩ | ⟨c, m, -, h⟩ := r.cancel_eq t <;> simp [h]

/-! ## Without subscribers -/

/-- The replica without any inbox. -/
def mute (r : Replica) : Replica := { r with inboxes := [] }

@[simp] theorem mute_mute (r : Replica) : r.mute.mute = r.mute := rfl
@[simp] theorem mute_key (r : Replica) : r.mute.key = r.key := rfl
@[simp] theorem mute_batch (r : Replica) : r.mute.batch = r.batch := rfl
@[simp] theorem emit_mute (r : Replica) (e : Event) : (r.emit e).mute = r.mute := rfl
@[simp] theorem mute_emit (r : Replica) (e : Event) : r.mute.emit e = r.mute := rfl

theorem release_mute (r : Replica) (m : Manner) : r.mute.release m = (r.release m).mute := by
  cases m <;> rfl

theorem recordStale_mute (r : Replica) (c : Claim) (server : VersionNumber) :
    r.mute.recordStale c server = (r.recordStale c server).mute := rfl

theorem claim_mute (r : Replica) :
    r.mute.claim = r.claim.map fun x => (x.1, x.2.mute) := by
  cases hflight : r.inFlight with
  | true => simp [claim, mute, hflight, Except.map]
  | false =>
    cases hcurrent : r.current with
    | none => simp [claim, mute, hflight, hcurrent, Except.map]
    | some base => cases hempty : r.batch.isEmpty <;>
        simp [claim, mute, hflight, hcurrent, hempty, Except.map]

theorem discardForeign_mute (r : Replica) (v : VersionNumber) :
    r.mute.discardForeign v = (r.discardForeign v).mute := by
  cases hbase : r.batch.base with
  | none => simp [discardForeign, hbase]
  | some base =>
    by_cases hdrop : (decide (base ≠ v) && !r.batch.isEmpty) = true
    · simp only [discardForeign, mute_batch, hbase, hdrop]
      rfl
    · simp only [discardForeign, mute_batch, hbase, hdrop]
      rfl

theorem dropOrphanedGate_mute (r : Replica) :
    r.mute.dropOrphanedGate = r.dropOrphanedGate.mute := by
  by_cases hempty : r.batch.isEmpty = true
  · simp only [dropOrphanedGate, mute_batch, hempty]
    rfl
  · simp only [dropOrphanedGate, mute_batch, hempty]
    rfl

theorem install_mute (r : Replica) (s : Snapshot) (p : Pointers) :
    r.mute.install s p = (r.install s p).mute := by
  simp only [install, discardForeign_mute, dropOrphanedGate_mute]
  rfl

theorem installApplied_mute (r : Replica) (c : Claim) (s : Snapshot) :
    r.mute.installApplied c s = (r.installApplied c s).mute := by
  have hinstall := install_mute { r with batch := Batch.empty } s
    (Pointers.afterApply c.base.version)
  simp only [mute] at hinstall
  simp only [installApplied, mute, hinstall]
  rfl

theorem start_mute (r : Replica) (o : Operation) :
    r.mute.start o = ((r.start o).1.mute, (r.start o).2) := by
  cases o with
  | step d =>
    cases hcurrent : r.current with
    | none => simp [start, mute, hcurrent]
    | some s => cases hget : r.pointers.get d <;> simp [start, mute, hcurrent, hget]
  | apply force =>
    cases hclaim : r.claim <;> simp [start, claim_mute, hclaim, Except.map]
  | confirm =>
    have hgate : r.mute.gate = r.gate := rfl
    cases hattempted : r.gate.attempted with
    | false => simp [start, hgate, hattempted]
    | true =>
      cases hpermitted : r.gate.permitted with
      | false => simp [start, hgate, hattempted, hpermitted]
      | true =>
        cases hclaim : r.claim with
        | error e => simp [start, claim_mute, hgate, hattempted, hpermitted, hclaim, Except.map]
        | ok x =>
          simp only [start, claim_mute, hgate, hattempted, hpermitted, hclaim, Except.map]
          rfl
  | _ => rfl

theorem resume_mute (r : Replica) (t : Task) (a : (t.call r.key).Answer) :
    r.mute.resume t a = ((r.resume t a).1.mute, (r.resume t a).2) := by
  have hcheck : r.mute.checkFetched = r.checkFetched := rfl
  cases t with
  | loadFetch v => cases h : a.bind (r.checkFetched v) <;> simp [resume, hcheck, h]
  | stepFetch d left target =>
    cases h : a.bind (r.checkFetched (some target)) <;> simp [resume, hcheck, h]
  | loadNext s p => cases a <;> simp [resume, install_mute]
  | stepFar d left target s => cases a <;> simp [resume, install_mute]
  | listing => rfl
  | checking c =>
    cases a with
    | error e => simp only [resume, release_mute]
    | ok s =>
      by_cases hstale : s.version > c.knownHead
      · simp only [resume, refuseStale, if_pos hstale, recordStale_mute, release_mute]
      · simp only [resume, if_neg hstale]
  | submitting c m =>
    cases a with
    | ok s =>
      have howns : r.mute.owns s = r.owns s := rfl
      by_cases hunusable : (!r.owns s || decide (s.version ≤ c.knownHead)) = true
      · simp only [resume, settle, howns, if_pos hunusable, release_mute]
      · simp only [resume, settle, howns, if_neg hunusable, installApplied_mute, release_mute]
    | error e =>
      cases e with
      | staleVersion seen server =>
        simp only [resume, settle, refuseStale, recordStale_mute, release_mute]
      | _ => simp only [resume, settle, release_mute]
  | _ => cases a <;> rfl

theorem cancel_mute (r : Replica) (t : Task) : r.mute.cancel t = (r.cancel t).mute := by
  cases t with
  | checking c => exact release_mute r .checked
  | submitting c m => exact release_mute r m
  | _ => rfl

theorem stage_mute (r : Replica) (c : Constraint) :
    r.mute.stage c = (r.stage c).map fun x => (x.1, x.2.mute) := by
  cases hcurrent : r.current with
  | none => simp [stage, mute, hcurrent, Except.map]
  | some s =>
    cases hstage : r.batch.stage s.version c <;> simp [stage, mute, hcurrent, hstage, Except.map]

end Replica
end VersionedTopology

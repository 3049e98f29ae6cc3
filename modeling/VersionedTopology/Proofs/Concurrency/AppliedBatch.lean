/-
  VersionedTopology.Proofs.Concurrency.AppliedBatch

  What is staged after a submission has succeeded.

  While a submission is under way its user may stage, replace and discard constraints,
  and load other versions. When the result arrives, exactly those constraints leave the
  batch that have been submitted as they are now; the others stay in their order, on the
  new version. A constraint that took the place of a submitted one in the meantime is
  not among those submitted, so it stays as well.
-/

import VersionedTopology.Proofs.Concurrency.FailedOperation
import VersionedTopology.Proofs.Concurrency.Invariant

namespace VersionedTopology

/-! ## The same constraint -/

namespace Constraint

theorem Same.refl (c : Constraint) : Same c c := by
  cases c <;> simp [Same]

/-- Constraints that are the same are about the same. -/
theorem Same.key_eq {c d : Constraint} (h : Same c d) : c.key = d.key := by
  cases c with
  | property o t p v =>
    cases d with
    | property o' t' p' v' =>
      obtain ⟨-, rfl, rfl, -⟩ := h
      rfl
    | _ => exact absurd h (by simp [Same])
  | edge o s t =>
    cases d with
    | edge o' s' t' =>
      obtain ⟨-, rfl, rfl⟩ := h
      rfl
    | _ => exact absurd h (by simp [Same])
  | node o n r =>
    cases d with
    | node o' n' r' =>
      obtain ⟨-, rfl, -⟩ := h
      rfl
    | _ => exact absurd h (by simp [Same])

end Constraint

theorem Claim.unsent_eq (c : Claim) (b : Batch) :
    c.unsent b = b.constraints.filter fun d => ∀ e ∈ c.submitted, ¬ Constraint.Same e d := by
  refine List.filter_congr fun d _ => ?_
  rw [Bool.eq_iff_iff]
  simp

/-- A constraint that has the key of a submitted one and is not the same has not been sent, if the
keys of what was submitted differ. -/
theorem Claim.mem_unsent_of_key_eq {c : Claim} {b : Batch} {d e : Constraint}
    (hdistinct : (c.submitted.map Constraint.key).Nodup) (hd : d ∈ b.constraints)
    (he : e ∈ c.submitted) (hkey : d.key = e.key) (hne : ¬ Constraint.Same e d) :
    d ∈ c.unsent b := by
  refine Claim.mem_unsent.mpr ⟨hd, ?_⟩
  intro e' he' hsame
  -- only one submitted constraint has that key
  have heq : e' = e :=
    List.inj_on_of_nodup_map hdistinct he' he (hsame.key_eq.trans hkey)
  exact hne (heq ▸ hsame)

namespace Site

/-- A submission that ends with a version has installed it as the result of its request. -/
theorem Underway.applied {s : Site} {name : Nat} {o : Operation} {ts : List Turn} {t : Turn}
    {v : Snapshot} (h : Underway s name o ts) (ho : o.manner?.isSome)
    (hend : (s.run ts).ending? name t.move = some (.returned (.version v))) :
    ∃ c m r store, s.replica.claim = .ok (c, r) ∧
      (s.run ts).flights name = some ⟨.submitting c m, some store⟩ ∧
      ((s.run ts).step t).replica = ((s.run ts).replica.installApplied c v).release m := by
  obtain ⟨m, hm⟩ := Option.isSome_iff_exists.mp ho
  obtain ⟨⟨task, answeredBy⟩, hf, hsub, hmanner⟩ := h.flight
  rw [hm, Option.map_eq_some_iff] at hmanner
  obtain ⟨⟨c, m'⟩, hc, rfl⟩ := hmanner
  obtain ⟨-, r, hclaim⟩ := Replica.submission?_eq_some.mp (hsub.symm.trans hc)
  obtain ⟨store, p, hanswered, hp, hresumed⟩ | ⟨hdropped, -⟩ := (change _ t).ended hf hend
  · obtain rfl : answeredBy = some store := hanswered
    generalize ((s.run ts).step t).replica = r' at hresumed ⊢
    generalize store (task.call (s.run ts).replica.key) = a at hresumed
    -- of all ways out only the accepted result returns a version with a claim
    cases hresumed with
    | applied c' m'' v' howned hnewer =>
      obtain ⟨rfl, rfl⟩ := Prod.mk.inj (Option.some.inj hc)
      obtain rfl : v' = v := by simpa [Progress.ending?] using hp
      exact ⟨c', m'', r, store, hclaim, hf, rfl⟩
    | loaded => exact absurd hc (by simp [Task.submission?])
    | _ => exact absurd hp (by simp [Progress.ending?])
  · exact absurd hdropped (by simp)

/-- **A successful apply loses no staged edit.** When an apply or a confirmed overwrite that was
started with the batch `S` on the version `base` ends with the version `v`, its request was for
`S` on `base`, and of the constraints that are staged by then exactly those are dropped that
are the same as one of `S`: the others stay in their order, on `v`, and the batch has no base if
none are left. So nothing submitted stays staged, and what was staged in its place in the meantime
does. The version is current, the base is behind it and nothing ahead, the gate is idle, and each
subscriber is told once that `v` was made from `base`, with the diff, and told nothing else. -/
theorem applied_keeps_unsent {key : EnvironmentKey} {canOverwrite : Bool}
    {before ts : List Turn} {t : Turn} {name : Nat} {o : Operation} {v : Snapshot}
    (h : Underway ((Site.new key canOverwrite).run before) name o ts)
    (ho : o.manner?.isSome)
    (hend : (((Site.new key canOverwrite).run before).run ts).ending? name t.move =
      some (.returned (.version v))) :
    let s₀ := (Site.new key canOverwrite).run before
    let s := s₀.run ts
    let S := s₀.replica.batch.constraints
    let B := s.replica.batch.constraints
    let r := (s.step t).replica
    ∃ base, s₀.replica.current = some base ∧
      (∃ f request, s.flights name = some f ∧ f.task.call key = .apply key request ∧
        request.version = base.version ∧ request.constraints = S) ∧
      r.batch.constraints = B.filter (fun d => ∀ c ∈ S, ¬ Constraint.Same c d) ∧
      r.batch.base = (if r.batch.constraints = [] then none else some v.version) ∧
      (∀ c ∈ S, c ∉ r.batch.constraints) ∧
      (∀ c ∈ S, ∀ d ∈ B, d.key = c.key → ¬ Constraint.Same c d → d ∈ r.batch.constraints) ∧
      r.current = some v ∧ r.pointers = ⟨some base.version, none⟩ ∧ r.gate.state = .idle ∧
      r.inboxes = s.replica.inboxes.map fun i =>
        { i with queue := i.queue ++ [.applied base.version v.version
          (TopologyDiff.between base.toGraph v.toGraph)] } := by
  intro s₀ s S B r
  obtain ⟨c, m, claimed, store, hclaim, hflight, hr⟩ := h.applied ho hend
  obtain ⟨-, hbase, -, hsubmitted, -, -⟩ := Replica.claim_ok hclaim
  have hS : S = c.submitted := hsubmitted
  have hstart := ((coherent_new key canOverwrite).run before).replica
  have hs : s.replica.Coherent := by
    have hrun := ((coherent_new key canOverwrite).run (before ++ ts)).replica
    rwa [run_append] at hrun
  have hdistinct : (c.submitted.map Constraint.key).Nodup := hS ▸ hstart.batch.distinct
  have hbatch : r.batch = ⟨if c.unsent s.replica.batch = [] then none else some v.version,
      c.unsent s.replica.batch⟩ := by
    rw [show r = (s.replica.installApplied c v).release m from hr, Replica.release_batch,
      Replica.installApplied_batch hs.batch]
  have hkept : r.batch.constraints = c.unsent s.replica.batch := by rw [hbatch]
  refine ⟨c.base, hbase, ⟨_, m.request c, hflight, rfl, rfl, hS.symm⟩, ?_, ?_, ?_, ?_, ?_⟩
  · rw [hkept, Claim.unsent_eq, hS]
  · rw [hkept, hbatch]
  · intro e he hmem
    rw [hkept, Claim.mem_unsent] at hmem
    exact hmem.2 e (hS ▸ he) (.refl e)
  · intro e he d hd hkey hne
    rw [hkept]
    exact Claim.mem_unsent_of_key_eq hdistinct hd (hS ▸ he) hkey hne
  · rw [show r = (s.replica.installApplied c v).release m from hr]
    refine ⟨by simp, by simp [Pointers.afterApply], ?_, ?_⟩
    · rw [Replica.release_gate]
      split <;> rfl
    · rw [Replica.release_inboxes, Replica.installApplied_inboxes]
      rfl

/-- The turns of an apply whose result is on its way, while the client replaces the submitted
constraint and stages another one. -/
def restaging : List Turn :=
  [⟨.start 1 (.apply false), Fleet.untouched⟩, ⟨.serve 1, Fleet.untouched⟩,
    ⟨.deliver 1, Fleet.untouched⟩, ⟨.serve 1, Fleet.untouched⟩,
    ⟨.stage (.node .adopt ⟨"aws", "db", "orders"⟩ none), Fleet.untouched⟩,
    ⟨.stage (.addResource ⟨"aws", "db", "users"⟩), Fleet.untouched⟩]

theorem applied_keeps_unsent_restaging :
    ∃ v, Underway (prepared false) 1 (.apply false) restaging ∧
      (Operation.apply false).manner?.isSome ∧
      ((prepared false).run restaging).ending? 1 (.deliver 1) = some (.returned (.version v)) ∧
      v.version = 2 ∧
      .node .adopt ⟨"aws", "db", "orders"⟩ none ∈ (((prepared false).run restaging).step
        ⟨.deliver 1, Fleet.untouched⟩).replica.batch.constraints := by
  have hunderway : Underway (prepared false) 1 (.apply false) restaging :=
    .lasting ⟨.stage (.addResource ⟨"aws", "db", "users"⟩), Fleet.untouched⟩
      (.lasting ⟨.stage (.node .adopt ⟨"aws", "db", "orders"⟩ none), Fleet.untouched⟩
        (.lasting ⟨.serve 1, Fleet.untouched⟩
          (.lasting ⟨.deliver 1, Fleet.untouched⟩
            (.lasting ⟨.serve 1, Fleet.untouched⟩
              (.started Fleet.untouched rfl rfl) rfl) rfl) rfl) rfl) rfl
  obtain ⟨v, hend, hversion⟩ : ∃ v, ((prepared false).run restaging).ending? 1 (.deliver 1) =
      some (.returned (.version v)) ∧ v.version = 2 := ⟨_, rfl, rfl⟩
  have hmanner : (Operation.apply false).manner?.isSome := rfl
  obtain ⟨base, -, -, -, -, -, hrestaged, -⟩ := applied_keeps_unsent
    (t := ⟨.deliver 1, Fleet.untouched⟩) hunderway hmanner hend
  have hS : (prepared false).replica.batch.constraints =
      [.addResource ⟨"aws", "db", "orders"⟩] := rfl
  have hB : ((prepared false).run restaging).replica.batch.constraints =
      [.node .adopt ⟨"aws", "db", "orders"⟩ none, .addResource ⟨"aws", "db", "users"⟩] := rfl
  refine ⟨v, hunderway, hmanner, hend, hversion,
    hrestaged (.addResource ⟨"aws", "db", "orders"⟩) ?_ _ ?_ rfl ?_⟩
  · change _ ∈ (prepared false).replica.batch.constraints
    rw [hS]
    simp
  · change _ ∈ ((prepared false).run restaging).replica.batch.constraints
    rw [hB]
    simp
  · decide

end Site
end VersionedTopology

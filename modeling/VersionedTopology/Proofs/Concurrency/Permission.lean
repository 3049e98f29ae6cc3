/-
  VersionedTopology.Proofs.Concurrency.Permission

  What a site does that may not overwrite.

  Two operations lead to requests without an expected head: a confirmed overwrite and a
  forced apply. The permission is asked for where an overwrite is confirmed, so without it no
  confirmed overwrite is ever open. A forced apply does not ask for it, and its request goes
  out all the same. So the ledger can let such a site past a newer version, but only for
  a forced apply.
-/

import VersionedTopology.Proofs.Concurrency.LostUpdate
import VersionedTopology.Proofs.Concurrency.SingleFlight

namespace VersionedTopology

/-- A confirmation that gets as far as a call is permitted. -/
theorem Replica.Started.permitted_of_confirm {r r' : Replica} {o : Operation} {t : Task}
    (h : Started r o r' (.waiting t)) (ho : o = .confirm) : r.gate.permitted = true := by
  cases h with
  | asked _ _ hmanner =>
    subst ho
    exact absurd hmanner (by simp [Operation.manner?])
  | claimed force c _ _ => exact absurd ho (by simp)
  | confirmed c _ _ hpermitted _ => exact hpermitted

namespace Site

section requests

variable {s : Site} {name : Nat} {o : Operation} {ts before : List Turn}

/-- A request without an expected head is that of a submission which is not checked. -/
theorem exists_unchecked_request_iff {key : EnvironmentKey} :
    (∃ f key' request, s.flights name = some f ∧ f.task.call key = .apply key' request ∧
      request.expectedHead = none) ↔
      ∃ c m, s.submission? name = some (c, m) ∧ m ≠ .checked := by
  constructor
  · rintro ⟨⟨task, answeredBy⟩, key', request, hf, hcall, hunchecked⟩
    cases task with
    | submitting c m =>
      refine ⟨c, m, submission?_of_flight hf, ?_⟩
      rintro rfl
      simp only [Task.call, Backend.Call.apply.injEq] at hcall
      rw [← hcall.2] at hunchecked
      exact absurd hunchecked (by simp [Manner.request])
    | _ => exact absurd hcall (by simp [Task.call])
  · rintro ⟨c, m, hsub, hm⟩
    obtain ⟨⟨task, answeredBy⟩, hf, htask⟩ := Option.bind_eq_some_iff.mp hsub
    cases task with
    | submitting c' m' =>
      obtain ⟨rfl, rfl⟩ := Prod.mk.inj (Option.some.inj htask)
      exact ⟨_, key, m'.request c', hf, rfl, if_neg hm⟩
    | checking c' =>
      -- before its check nothing is submitted yet
      obtain ⟨-, rfl⟩ := Prod.mk.inj (Option.some.inj htask)
      exact absurd rfl hm
    | _ => exact absurd htask (by simp [Task.submission?])

/-- A confirmed overwrite has been permitted. -/
theorem Underway.permitted (h : Underway s name o ts) (ho : o = .confirm) :
    s.replica.gate.permitted = true := by
  induction h with
  | started store hfree hlasts =>
    have hout := outcome?_start_of_free o hfree
    have hwaits : (s.replica.start o).2.ending? = none := by
      simpa [ending?, Move.operation?, hout] using hlasts
    obtain ⟨t, ht⟩ := Progress.ending?_eq_none hwaits
    have hstarted := s.replica.started o
    rw [ht] at hstarted
    exact hstarted.permitted_of_confirm ho
  | lasting t h hlasts ih => exact ih

/-- Without permission no overwrite is confirmed. -/
theorem Submitting.ne_confirm {key : EnvironmentKey}
    (h : (Site.new key false).Submitting ts before name o) : o ≠ .confirm := by
  intro ho
  obtain ⟨-, after, -, hunderway⟩ := h
  have hpermitted := hunderway.permitted ho
  rw [permitted_run] at hpermitted
  exact absurd hpermitted (by simp)

/-- Without permission, what is submitted without check is a forced apply. -/
theorem exists_forced_iff {key : EnvironmentKey} :
    (∃ c m, ((Site.new key false).run ts).submission? name = some (c, m) ∧ m ≠ .checked) ↔
      ∃ before, (Site.new key false).Submitting ts before name (.apply true) := by
  constructor
  · rintro ⟨c, m, hsub, hm⟩
    obtain ⟨before, o, hsubmitting, hmanner⟩ := exists_submission_iff.mp ⟨c, hsub⟩
    cases o with
    | apply force =>
      cases force with
      | false => exact absurd (Option.some.inj hmanner).symm hm
      | true => exact ⟨before, hsubmitting⟩
    | confirm => exact absurd rfl hsubmitting.ne_confirm
    | _ => exact absurd hmanner (by simp [Operation.manner?])
  · rintro ⟨before, hsubmitting⟩
    obtain ⟨c, hsub⟩ := exists_submission_iff.mpr ⟨before, .apply true, hsubmitting, rfl⟩
    exact ⟨c, .forced, hsub, by simp⟩

/-- What an operation submits, it has been started for. -/
theorem Submitting.exists_start (h : s.Submitting ts before name o) :
    ∃ t ∈ ts, t.move = .start name o := by
  obtain ⟨-, after, rfl, hunderway⟩ := h
  obtain ⟨store, rest, rfl⟩ := hunderway.head
  exact ⟨⟨.start name o, store⟩, by simp, rfl⟩

end requests

end Site

namespace Fleet

/-- **Overwriting without permission.** At every point of every run of a site that may not
overwrite, whatever the store answers, no confirmed overwrite is open, and a request without an
expected head is out exactly where a forced apply is; so there is none as long as no forced apply
has been started. When the ledger of a fleet accepts a submission of such a site while its
current version is beyond the newest number that the site has seen, it is that of a forced
apply. -/
theorem unpermitted_forces_iff {ι : Type} [DecidableEq ι] (schema : Schema)
    (keys : ι → EnvironmentKey) (permitted : ι → Bool) {i : ι} (hi : permitted i = false) :
    let s₀ := Site.new (keys i) (permitted i)
    let z₀ := Fleet.new schema keys permitted
    (∀ ts before name, ¬ s₀.Submitting ts before name .confirm) ∧
    (∀ ts name, (∃ f key request, (s₀.run ts).flights name = some f ∧
        f.task.call (keys i) = .apply key request ∧ request.expectedHead = none) ↔
      ∃ before, s₀.Submitting ts before name (.apply true)) ∧
    (∀ ts, (∀ t ∈ ts, ∀ name, t.move ≠ .start name (.apply true)) →
      ∀ name f key request, (s₀.run ts).flights name = some f →
        f.task.call (keys i) = .apply key request → request.expectedHead ≠ none) ∧
    (∀ ms name c m s, (z₀.run ms).accepted? i name = some (c, m, s) →
      ∃ log, (z₀.run ms).ledger.log? (keys i) = some log ∧
        (((z₀.run ms).sites i).replica.knownHead < log.current →
          ∃ before, s₀.Submitting (z₀.turns i ms) before name (.apply true))) := by
  rw [hi]
  intro s₀ z₀
  have hforced : ∀ ts name, (∃ f key request, (s₀.run ts).flights name = some f ∧
        f.task.call (keys i) = .apply key request ∧ request.expectedHead = none) ↔
      ∃ before, s₀.Submitting ts before name (.apply true) :=
    fun ts name => Site.exists_unchecked_request_iff.trans Site.exists_forced_iff
  refine ⟨fun ts before name h => h.ne_confirm rfl, hforced, ?_, ?_⟩
  · intro ts hnever name f key request hf hcall hunchecked
    obtain ⟨before, h⟩ := (hforced ts name).mp ⟨f, key, request, hf, hcall, hunchecked⟩
    obtain ⟨t, ht, hmove⟩ := h.exists_start
    exact hnever t ht name hmove
  · intro ms name c m s haccepted
    obtain ⟨hflight, hsubmit⟩ := accepted?_eq_some_iff.mp haccepted
    rw [run_new_key] at hsubmit
    obtain ⟨log, base, hlog, -, hfresh, -⟩ := Ledger.submit_ok (Prod.ext rfl hsubmit)
    have hsite : (z₀.run ms).sites i = s₀.run (z₀.turns i ms) := by
      have h := run_new_sites schema keys permitted i ms
      rwa [hi] at h
    refine ⟨log, hlog, ?_⟩
    intro hbehind
    rw [hsite] at hflight hbehind
    refine Site.exists_forced_iff.mp ⟨c, m, Site.submission?_of_flight hflight, ?_⟩
    -- a checked request names a number that the site has seen, and the current version is beyond it
    rintro rfl
    obtain ⟨before, u, after, hturns, -, claimed, hclaim⟩ := Site.exists_claim hflight rfl
    obtain ⟨-, -, hknown, -⟩ := Replica.claim_ok hclaim
    have hseen : c.knownHead ≤ (s₀.run (z₀.turns i ms)).replica.knownHead := by
      rw [← hknown, hturns, Site.run_append]
      exact Site.knownHead_le_run _ _
    have hle : log.current ≤ c.knownHead := hfresh c.knownHead rfl
    exact absurd hbehind (Nat.not_lt.mpr (Nat.le_trans hle hseen))

/-- Of two clients that apply in turn, the second one has seen what the first one made. -/
theorem unpermitted_forces_iff_inTurn :
    ∃ c s log, (pair.run inTurn).accepted? true 1 = some (c, .checked, s) ∧
      (pair.run inTurn).ledger.log? shop = some log ∧
      ¬ ((pair.run inTurn).sites true).replica.knownHead < log.current := by
  obtain ⟨c, s, haccepted⟩ : ∃ c s,
      (pair.run inTurn).accepted? true 1 = some (c, .checked, s) := ⟨_, _, rfl⟩
  obtain ⟨-, hforced, -, hfleet⟩ :=
    unpermitted_forces_iff (i := true) {} (fun _ => shop) (fun _ : Bool => false) rfl
  obtain ⟨log, hlog, hbehind⟩ := hfleet inTurn 1 c .checked s haccepted
  refine ⟨c, s, log, haccepted, hlog, ?_⟩
  intro hlt
  obtain ⟨f, key, request, hf, hcall, hnone⟩ := (hforced _ 1).mpr (hbehind hlt)
  -- but the request that is out names an expected head
  have hflight := (accepted?_eq_some_iff.mp haccepted).1
  have hsite : (pair.run inTurn).sites true =
      (Site.new shop false).run (pair.turns true inTurn) := run_new_sites ..
  rw [hsite] at hflight
  obtain rfl := Option.some.inj (hflight.symm.trans hf)
  simp only [Task.call, Backend.Call.apply.injEq] at hcall
  rw [← hcall.2] at hnone
  exact absurd hnone (by simp [Manner.request])

/-- A client stages a constraint on version 1, another one makes version 2, and the first one
applies by force. -/
def defying : List (Move Bool) :=
  preparing ++ [.direct (.submit shop ⟨1, some 1, [.addResource ⟨"aws", "db", "users"⟩]⟩),
    .site false (.start 1 (.apply true))]

/-- The client may not overwrite, but its request names no expected head, and the ledger accepts it
while the current version is one that the client has never seen. -/
theorem unpermitted_overwrites :
    (∀ ms, ((pair.run ms).sites false).replica.gate.permitted = false) ∧
    ∃ f request c m s log, ((pair.run defying).sites false).flights 1 = some f ∧
      f.task.call shop = .apply shop request ∧ request.expectedHead = none ∧
      (pair.run defying).accepted? false 1 = some (c, m, s) ∧
      (pair.run defying).ledger.log? shop = some log ∧
      ((pair.run defying).sites false).replica.knownHead < log.current := by
  refine ⟨?_, _, _, _, _, _, _, rfl, rfl, rfl, rfl, rfl, by decide⟩
  intro ms
  have hsite : (pair.run ms).sites false = (Site.new shop false).run (pair.turns false ms) :=
    run_new_sites ..
  rw [hsite, Site.permitted_run]

end Fleet
end VersionedTopology

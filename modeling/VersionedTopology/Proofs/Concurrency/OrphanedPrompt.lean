/-
  VersionedTopology.Proofs.Concurrency.OrphanedPrompt

  When a pending confirmation is left without a batch.

  A confirmation asks whether to submit the batch over a newer version, so without a
  batch there is nothing to confirm. Installing a version and discarding the batch both
  cancel a confirmation that loses its batch. But a submission may be refused as stale
  when the batch that it has claimed is gone already: it was discarded, or another version
  was installed, while the answer was on its way. Then the confirmation starts without a
  batch, and stays so until something is staged, the confirmation is cancelled, or a
  version is installed. It comes about in no other way.
-/

import VersionedTopology.Proofs.Concurrency.CarriedBatch
import VersionedTopology.Proofs.Concurrency.SingleFlight

namespace VersionedTopology
namespace Replica

/-- A confirmation is pending, and nothing is staged. -/
def Orphaned (r : Replica) : Prop := r.gate.attempted = true ∧ r.batch.constraints = []

/-! ## What one change does to a pending confirmation -/

theorem not_orphaned {r : Replica} (h : r.gate.attempted = false) : ¬ r.Orphaned := by
  rintro ⟨hattempted, -⟩
  exact absurd hattempted (by simp [h])

theorem Orphaned.congr {r r' : Replica} (hgate : r'.gate = r.gate) (hbatch : r'.batch = r.batch) :
    r'.Orphaned ↔ r.Orphaned := by
  rw [Orphaned, Orphaned, hgate, hbatch]

/-- Installing a version cancels a confirmation together with its batch. -/
theorem not_orphaned_install (r : Replica) (s : Snapshot) (p : Pointers) :
    ¬ (r.install s p).Orphaned := by
  rintro ⟨hattempted, hnil⟩
  rw [install_gate, if_pos (Batch.isEmpty_iff.mpr hnil), Gate.clear_attempted] at hattempted
  exact absurd hattempted (by simp)

/-- Only the end of a confirmed overwrite touches the gate, and while that is being resolved no
confirmation is pending. -/
theorem orphaned_release {r : Replica} {m : Manner}
    (h : m = .confirmed → r.gate.attempted = false) :
    (r.release m).Orphaned ↔ r.Orphaned := by
  by_cases hm : m = .confirmed
  · have hreset : (r.release m).gate.attempted = false := by
      rw [release_gate, if_pos hm, Gate.reset_attempted]
    exact iff_of_false (not_orphaned hreset) (not_orphaned (h hm))
  · exact Orphaned.congr (by rw [release_gate, if_neg hm]) (release_batch r m)

theorem orphaned_refused {r : Replica} {c : Claim} {m : Manner} {server : VersionNumber} :
    ((r.recordStale c server).release m).Orphaned ↔
      m ≠ .confirmed ∧ r.batch.constraints = [] := by
  by_cases hm : m = .confirmed
  · have hreset : ((r.recordStale c server).release m).gate.attempted = false := by
      rw [release_gate, if_pos hm, Gate.reset_attempted]
    exact iff_of_false (not_orphaned hreset) (by simp [hm])
  · rw [Orphaned, release_gate, if_neg hm, release_batch]
    simp [hm]

/-- On a version that is loaded, something can be staged in an empty batch. -/
theorem Orphaned.exists_stage {r : Replica} (h : r.Orphaned) (hloaded : r.current.isSome)
    (c : Constraint) : ∃ staged, r.stage c = .ok staged := by
  obtain ⟨s, hs⟩ := Option.isSome_iff_exists.mp hloaded
  have hheld : r.batch.heldFor s.version = [] :=
    List.sublist_nil.mp (h.2 ▸ r.batch.heldFor_sublist s.version)
  have hroom : r.batch.stage s.version c = .ok (false, ⟨some s.version, [c]⟩) := by
    simp [Batch.stage_eq, hheld, Batch.others, Batch.limit]
  refine ⟨(false, { r with batch := ⟨some s.version, [c]⟩ }), ?_⟩
  simp only [stage, hs, hroom]

/-- Starting an operation neither leaves a confirmation without batch nor helps one that is. -/
theorem Started.orphaned {r r' : Replica} {o : Operation} {p : Progress} (h : Started r o r' p) :
    r'.Orphaned ↔ r.Orphaned := by
  cases h with
  | asked => rfl
  | ended => rfl
  | claimed force c r' hclaim =>
    obtain ⟨-, -, -, -, -, rfl⟩ := claim_ok hclaim
    rfl
  | confirmed c r' hattempted _ hclaim =>
    obtain ⟨-, -, -, hsubmitted, hfull, rfl⟩ := claim_ok hclaim
    -- nothing is pending any more, and before there was something to claim
    refine iff_of_false (not_orphaned ?_) fun h => hfull (hsubmitted.symm.trans h.2)
    exact Gate.attempted_eq_false_of_resolving (Gate.beginResolve_state hattempted)

/-- An answer leaves a confirmation without batch if it refuses an unconfirmed submission while
nothing is staged, or if there was one before and the answer installs nothing. -/
theorem Resumed.orphaned {r r' : Replica} {t : Task} {a : (t.call r.key).Answer} {p : Progress}
    (h : Resumed r t a r' p)
    (hconfirmed : ∀ c, t.submission? = some (c, .confirmed) → r.gate.attempted = false) :
    r'.Orphaned ↔
      (∃ c m server, t.submission? = some (c, m) ∧ m ≠ .confirmed ∧
        t.refusal? r.key a = some server ∧ r.batch.constraints = []) ∨
      (r.Orphaned ∧ p.installed? = none) := by
  have hgate : ∀ {c m}, t.submission? = some (c, m) → m = .confirmed → r.gate.attempted = false :=
    fun ht hm => hconfirmed _ (hm ▸ ht)
  cases h with
  | loaded s p n =>
    refine iff_of_false (not_orphaned_install r s ⟨p, n⟩) ?_
    simp [Task.submission?, Progress.installed?]
  | stepped d left target s far =>
    refine iff_of_false (not_orphaned_install r s (Pointers.afterStep d left far)) ?_
    simp [Task.submission?, Progress.installed?, Navigation.snapshot?]
  | checked c s hseen =>
    simp [Task.refusal?, Progress.installed?, Nat.not_lt.mpr hseen]
  | stale c m server ht hserver =>
    rw [orphaned_refused, ht, hserver]
    constructor
    · rintro ⟨hm, hnil⟩
      exact .inl ⟨c, m, server, rfl, hm, rfl, hnil⟩
    · rintro (⟨c', m', server', hsub, hm, -, hnil⟩ | ⟨⟨hattempted, hnil⟩, -⟩)
      · obtain ⟨-, rfl⟩ := Prod.mk.inj (Option.some.inj hsub)
        exact ⟨hm, hnil⟩
      · refine ⟨fun hm => ?_, hnil⟩
        exact absurd hattempted (by simp [hgate ht hm])
  | rejected c m e ht hserver _ =>
    rw [orphaned_release (hgate ht), hserver]
    simp [Progress.installed?]
  | applied c m s _ _ =>
    have hidle : ((r.installApplied c s).release m).gate.attempted = false := by
      rw [release_gate]
      split <;> rfl
    refine iff_of_false (not_orphaned hidle) ?_
    simp [Task.refusal?, Progress.installed?]
  | failed e ht => simp [ht, Progress.installed?]
  | _ => simp [Task.submission?, Progress.installed?]

/-- An answer empties the batch by installing a version: the result of what was staged, or a version
of another number. -/
theorem Resumed.emptied {r r' : Replica} {t : Task} {a : (t.call r.key).Answer} {p : Progress}
    (h : Resumed r t a r' p) (hr : r.Coherent) (hfull : r.batch.constraints ≠ [])
    (hnil : r'.batch.constraints = []) :
    ∃ Y, p.installed? = some Y ∧
      (t.submission?.isSome ∨ ∀ X, r.current = some X → Y.version ≠ X.version) := by
  have hother : ∀ v p, (r.install v p).batch.constraints = [] →
      ∀ X, r.current = some X → v.version ≠ X.version := by
    intro v p hgone X hX heq
    rw [install_batch hr.batch, hr.base_eq hX hfull, heq, if_pos rfl] at hgone
    exact hfull hgone
  cases h with
  | loaded v q n => exact ⟨v, rfl, .inr (hother v ⟨q, n⟩ hnil)⟩
  | stepped d left target v far =>
    exact ⟨v, rfl, .inr (hother v (Pointers.afterStep d left far) hnil)⟩
  | applied c m v _ _ => exact ⟨v, rfl, .inl rfl⟩
  | stale c m server _ _ => exact absurd (by simpa using hnil) hfull
  | rejected c m e _ _ _ => exact absurd (by simpa using hnil) hfull
  | _ => exact absurd hnil hfull

theorem claim_eq_emptyBatch (r : Replica) :
    r.claim = .error .emptyBatch ↔
      r.inFlight = false ∧ r.current.isSome ∧ r.batch.constraints = [] := by
  rw [← Batch.isEmpty_iff]
  simp only [claim]
  cases r.inFlight <;> cases r.current <;> cases r.batch.isEmpty <;> simp

/-- A confirmed overwrite fails for want of a batch exactly when its confirmation has none. -/
theorem start_confirm_emptyBatch (r : Replica) :
    (r.start .confirm).2 = .finished (.error .emptyBatch) ↔
      r.Orphaned ∧ r.gate.permitted = true ∧ r.inFlight = false ∧ r.current.isSome := by
  cases hattempted : r.gate.attempted with
  | false => simp [start, Orphaned, hattempted]
  | true =>
    cases hpermitted : r.gate.permitted with
    | false => simp [start, hattempted, hpermitted]
    | true =>
      -- the gate lets it through, and the claim decides
      have hstart : (r.start .confirm).2 = .finished (.error .emptyBatch) ↔
          r.claim = .error .emptyBatch := by
        simp only [start, hattempted, hpermitted]
        cases r.claim <;> simp
      rw [hstart, claim_eq_emptyBatch]
      constructor
      · rintro ⟨hfree, hloaded, hnil⟩
        exact ⟨⟨hattempted, hnil⟩, rfl, hfree, hloaded⟩
      · rintro ⟨⟨-, hnil⟩, -, hfree, hloaded⟩
        exact ⟨hfree, hloaded, hnil⟩

end Replica

namespace Site

/-! ## Since when -/

/-- `P` held of a turn of the run, and `Q` has held of every turn since. -/
def Since (P Q : List Turn → Turn → Prop) (ts : List Turn) : Prop :=
  ∃ before u after, ts = before ++ u :: after ∧ P before u ∧
    ∀ us t vs, after = us ++ t :: vs → Q (before ++ u :: us) t

theorem not_since_nil {P Q : List Turn → Turn → Prop} : ¬ Since P Q [] := by
  rintro ⟨before, u, after, hts, -⟩
  exact absurd hts (by simp)

theorem since_concat {P Q : List Turn → Turn → Prop} {ts : List Turn} {t : Turn} :
    Since P Q (ts ++ [t]) ↔ P ts t ∨ (Since P Q ts ∧ Q ts t) := by
  constructor
  · rintro ⟨before, u, after, hts, hp, hq⟩
    obtain ⟨rfl, rfl, -⟩ | ⟨after, rfl, rfl⟩ := split_concat hts
    · exact .inl hp
    · refine .inr ⟨⟨before, u, after, rfl, hp, ?_⟩, hq after t [] rfl⟩
      rintro us v vs rfl
      exact hq us v (vs ++ [t]) (by simp)
  · rintro (hp | ⟨⟨before, u, after, rfl, hp, hq⟩, hlast⟩)
    · exact ⟨ts, t, [], rfl, hp, by simp⟩
    · refine ⟨before, u, after ++ [t], by simp, hp, ?_⟩
      intro us v vs heq
      obtain ⟨rfl, rfl, -⟩ | ⟨vs, -, rfl⟩ := split_concat heq
      · exact hlast
      · exact hq us v vs rfl

/-! ## One turn, and a whole run -/

/-- An answer arrives that refuses an unconfirmed submission as stale, and nothing is staged any
more. -/
def AsksTooLate (s : Site) (m : Move) : Prop :=
  ∃ name task store c manner server, m = .deliver name ∧
    s.flights name = some ⟨task, some store⟩ ∧ task.submission? = some (c, manner) ∧
    manner ≠ .confirmed ∧
    task.refusal? s.replica.key (store (task.call s.replica.key)) = some server ∧
    s.replica.batch.constraints = []

/-- Whether a move ends a confirmation without batch: by staging something, by cancelling the
confirmation, or by installing a version. -/
def settles (s : Site) : Move → Bool
  | .stage _ => true
  | .discard => true
  | .clearOverwrite => true
  | m => (s.installed? m).isSome

theorem asksTooLate_deliver {s : Site} {name : Nat} {task : Task} {store : Backend.Oracle}
    (h : s.flights name = some ⟨task, some store⟩) :
    s.AsksTooLate (.deliver name) ↔
      ∃ c manner server, task.submission? = some (c, manner) ∧ manner ≠ .confirmed ∧
        task.refusal? s.replica.key (store (task.call s.replica.key)) = some server ∧
        s.replica.batch.constraints = [] := by
  constructor
  · rintro ⟨_, task', store', c, manner, server, hmove, hflight, hcases⟩
    obtain rfl := Move.deliver.inj hmove
    obtain ⟨rfl, heq⟩ := Flight.mk.inj (Option.some.inj (h.symm.trans hflight))
    obtain rfl := Option.some.inj heq
    exact ⟨c, manner, server, hcases⟩
  · rintro ⟨c, manner, server, hcases⟩
    exact ⟨name, task, store, c, manner, server, rfl, h, hcases⟩

/-- A move that concerns an operation can end a confirmation without batch by installing a version
only. -/
theorem settles_of_operation {s : Site} {m : Move} {name : Nat} (h : m.operation? = some name) :
    s.settles m = (s.installed? m).isSome := by
  cases m with
  | stage | discard | clearOverwrite => exact absurd h (by simp [Move.operation?])
  | _ => rfl

/-- While a confirmed overwrite is open, no confirmation is pending. -/
theorem Held.attempted_eq_false {s : Site} {holder : Option (Nat × Manner)} (h : s.Held holder)
    {name : Nat} {f : Flight} {c : Claim} (hf : s.flights name = some f)
    (hsub : f.task.submission? = some (c, .confirmed)) : s.replica.gate.attempted = false := by
  refine Gate.attempted_eq_false_of_resolving (h.gate.mpr ⟨name, ?_⟩)
  exact (h.submits name _).mp ⟨c, (submission?_of_flight hf).trans hsub⟩

theorem orphaned_step {s : Site} {holder : Option (Nat × Manner)} (h : s.Held holder)
    (hloaded : s.replica.Orphaned → s.replica.current.isSome) (t : Turn) :
    (s.step t).replica.Orphaned ↔
      s.AsksTooLate t.move ∨ (s.replica.Orphaned ∧ s.settles t.move = false) := by
  have hchange := s.change t
  generalize s.step t = s' at hchange ⊢
  cases hchange with
  | staged store c replaced r hstage =>
    obtain ⟨v, b, -, hb, rfl⟩ := Replica.stage_ok hstage
    refine iff_of_false ?_ (by simp [AsksTooLate, settles])
    rintro ⟨-, hnil⟩
    simp [Batch.stage_ok hb] at hnil
  | unstaged store c e hstage =>
    -- nothing is refused by an empty batch
    refine iff_of_false (fun horphaned => ?_) (by simp [AsksTooLate, settles])
    obtain ⟨staged, hok⟩ := horphaned.exists_stage (hloaded horphaned) c
    exact absurd (hok.symm.trans hstage) (by simp)
  | discarded store =>
    refine iff_of_false (Replica.not_orphaned ?_) (by simp [AsksTooLate, settles])
    simp [Replica.discard]
  | cancelled store =>
    refine iff_of_false (Replica.not_orphaned ?_) (by simp [AsksTooLate, settles])
    simp [Replica.clearOverwrite]
  | ignored store m name hm hout hdrop =>
    have hnot : ¬ s.AsksTooLate m := by
      rintro ⟨name, task, answered, -, -, -, rfl, hflight, -⟩
      simp [outcome?, hflight] at hout
    simp [hnot, settles_of_operation hm, installed?, hout]
  | started store name o r p hfree hout hstarted =>
    obtain ⟨-, -, -, -, hnone⟩ := hstarted.frame
    rw [hstarted.orphaned]
    simp [AsksTooLate, settles, installed?, hout, hnone]
  | served store name task hflight => simp [put, AsksTooLate, settles, installed?, outcome?]
  | delivered store name task answered r p hflight hout hresumed =>
    rw [hresumed.orphaned fun c => h.attempted_eq_false hflight, asksTooLate_deliver hflight]
    simp [settles, installed?, hout]
  | dropped store name f hflight =>
    have hsame : (s.replica.cancel f.task).Orphaned ↔ s.replica.Orphaned := by
      obtain ⟨-, heq⟩ | ⟨c, m, hsub, heq⟩ := s.replica.cancel_eq f.task
      · rw [heq]
      · rw [heq]
        exact Replica.orphaned_release fun hm => h.attempted_eq_false hflight (hm ▸ hsub)
    rw [hsame]
    simp [AsksTooLate, settles, installed?, outcome?]
  | subscribed | unsubscribed | drained =>
    refine (Replica.Orphaned.congr (r := s.replica) rfl rfl).trans ?_
    simp [AsksTooLate, settles, installed?, outcome?]

/-- Who submits has loaded a version. -/
theorem isSome_current_of_submission {key : EnvironmentKey} {canOverwrite : Bool} {ts : List Turn}
    {name : Nat} {f : Flight} {c : Claim} {m : Manner}
    (hf : ((Site.new key canOverwrite).run ts).flights name = some f)
    (hsub : f.task.submission? = some (c, m)) :
    ((Site.new key canOverwrite).run ts).replica.current.isSome := by
  obtain ⟨before, u, after, rfl, -, claimed, hclaim⟩ := exists_claim hf hsub
  rw [run_append]
  refine isSome_current_run ?_ _
  rw [(Replica.claim_ok hclaim).2.1]
  rfl

theorem isSome_current_of_orphaned {key : EnvironmentKey} {canOverwrite : Bool} {ts : List Turn}
    (h : ((Site.new key canOverwrite).run ts).replica.Orphaned) :
    ((Site.new key canOverwrite).run ts).replica.current.isSome := by
  induction ts using List.reverseRecOn with
  | nil => exact absurd h (Replica.not_orphaned rfl)
  | append_singleton ts t ih =>
    obtain ⟨holder, hheld⟩ := held_run key canOverwrite ts
    rw [run_concat, orphaned_step hheld ih] at h
    rw [run_append]
    refine isSome_current_run ?_ [t]
    obtain ⟨name, task, store, c, m, server, -, hflight, hsub, -⟩ | ⟨horphaned, -⟩ := h
    · exact isSome_current_of_submission hflight hsub
    · exact ih horphaned

theorem orphaned_run (key : EnvironmentKey) (canOverwrite : Bool) (ts : List Turn) :
    ((Site.new key canOverwrite).run ts).replica.Orphaned ↔
      Since (fun before u => ((Site.new key canOverwrite).run before).AsksTooLate u.move)
        (fun before t => ((Site.new key canOverwrite).run before).settles t.move = false) ts := by
  induction ts using List.reverseRecOn with
  | nil => exact iff_of_false (Replica.not_orphaned rfl) not_since_nil
  | append_singleton ts t ih =>
    obtain ⟨holder, hheld⟩ := held_run key canOverwrite ts
    rw [run_concat, orphaned_step hheld isSome_current_of_orphaned, since_concat, ih]

/-! ## How a claimed batch goes -/

/-- A batch goes when it is discarded, when it has been submitted, or when a version of another
number is installed. -/
theorem emptied_step {s : Site} (h : s.Coherent) {t : Turn}
    (hfull : s.replica.batch.constraints ≠ [])
    (hnil : (s.step t).replica.batch.constraints = []) :
    t.move = .discard ∨ ∃ Y, s.installed? t.move = some Y ∧
      ((s.settled? t.move).isSome ∨
        ∀ X, s.replica.current = some X → Y.version ≠ X.version) := by
  have hkept : (s.step t).replica.batch ≠ s.replica.batch := by
    intro heq
    exact hfull (heq ▸ hnil)
  have hchange := s.change t
  generalize s.step t = s' at hchange hnil hkept
  cases hchange with
  | staged store c replaced r hstage =>
    obtain ⟨v, b, -, hb, rfl⟩ := Replica.stage_ok hstage
    simp [Batch.stage_ok hb] at hnil
  | discarded store => exact .inl rfl
  | started store name o r p _ _ hstarted =>
    obtain ⟨-, -, -, hbatch, -⟩ := hstarted.frame
    exact absurd hbatch hkept
  | delivered store name task answered r p hflight hout hresumed =>
    obtain ⟨Y, hY, hcases⟩ := hresumed.emptied h.replica hfull hnil
    refine .inr ⟨Y, by simp [installed?, hout, hY], ?_⟩
    simpa [settled?, hflight] using hcases
  | dropped store name f hflight =>
    refine absurd ?_ hkept
    obtain ⟨-, heq⟩ | ⟨c, m, -, heq⟩ := s.replica.cancel_eq f.task <;> simp [heq]
  | _ => exact absurd rfl hkept

/-- A claimed batch that is gone has gone in some turn while the submission was underway. -/
theorem Underway.exists_emptied {s : Site} {name : Nat} {o : Operation} {ts : List Turn} {c : Claim}
    {r : Replica} (h : Underway s name o ts) (hclaim : s.replica.claim = .ok (c, r))
    (hnil : (s.run ts).replica.batch.constraints = []) :
    ∃ us t vs, ts = us ++ t :: vs ∧ Underway s name o us ∧
      (s.run us).ending? name t.move = none ∧ (s.run us).replica.batch.constraints ≠ [] ∧
      ((s.run us).step t).replica.batch.constraints = [] := by
  induction h with
  | started store hfree hlasts =>
    -- starting an operation does not touch the batch
    obtain ⟨-, -, -, hsubmitted, hfull, -⟩ := Replica.claim_ok hclaim
    obtain ⟨-, -, -, hbatch, -⟩ := (s.replica.started o).frame
    simp only [run_cons, run_nil, step, outcome?_start_of_free o hfree, follow, hbatch] at hnil
    exact absurd (hsubmitted.symm.trans hnil) hfull
  | @lasting ts t h hlasts ih =>
    by_cases hgone : (s.run ts).replica.batch.constraints = []
    · obtain ⟨us, u, vs, rfl, hcases⟩ := ih hgone
      exact ⟨us, u, vs ++ [t], by simp, hcases⟩
    · rw [run_concat] at hnil
      exact ⟨ts, t, [], rfl, h, hlasts, hgone, hnil⟩

/-- While a submission lasts, no other one installs a result. -/
theorem settled?_of_lasting {key : EnvironmentKey} {canOverwrite : Bool} {ts : List Turn}
    {name : Nat} {c : Claim} {m : Manner} {move : Move} {v : Snapshot}
    (hopen : ((Site.new key canOverwrite).run ts).submission? name = some (c, m))
    (hlasts : ((Site.new key canOverwrite).run ts).ending? name move = none)
    (hv : ((Site.new key canOverwrite).run ts).installed? move = some v) :
    ((Site.new key canOverwrite).run ts).settled? move = none := by
  obtain ⟨other, task, store, r, p, rfl, hflight, hout, hp, -⟩ := installed?_eq_some hv
  cases hsub : task.submission? with
  | none => simp [settled?, hflight, hsub]
  | some d =>
    -- both hold the pipeline, and the other one ends
    obtain ⟨holder, hheld⟩ := held_run key canOverwrite ts
    have hholder := (hheld.submits name m).mp ⟨c, hopen⟩
    have hholder' := (hheld.submits other d.2).mp ⟨d.1, (submission?_of_flight hflight).trans hsub⟩
    obtain ⟨rfl, -⟩ := Prod.mk.inj (Option.some.inj (hholder.symm.trans hholder'))
    simp only [ending?, Move.operation?, if_pos, hout, Option.bind_some] at hlasts
    obtain ⟨next, rfl⟩ := Progress.ending?_eq_none hlasts
    exact absurd hp (by simp [Progress.installed?])

/-- While a submission is underway, its batch goes by being discarded or by installing a version of
another number: no other submission can take it. -/
theorem exists_emptied {key : EnvironmentKey} {canOverwrite : Bool} {ts : List Turn} {name : Nat}
    {f : Flight} {c : Claim} {m : Manner}
    (hf : ((Site.new key canOverwrite).run ts).flights name = some f)
    (hsub : f.task.submission? = some (c, m))
    (hnil : ((Site.new key canOverwrite).run ts).replica.batch.constraints = []) :
    ∃ before o, (Site.new key canOverwrite).Submitting ts before name o ∧
      ∃ us t vs, ts = us ++ t :: vs ∧ (Site.new key canOverwrite).Submitting us before name o ∧
        ((Site.new key canOverwrite).run us).replica.batch.constraints ≠ [] ∧
        (((Site.new key canOverwrite).run us).step t).replica.batch.constraints = [] ∧
        (t.move = .discard ∨ ∃ X Y, ((Site.new key canOverwrite).run us).replica.current = some X ∧
          ((Site.new key canOverwrite).run us).installed? t.move = some Y ∧
          Y.version ≠ X.version) := by
  obtain ⟨before, o, ⟨ho, after, rfl, h⟩, hm⟩ :=
    exists_submission_iff.mp ⟨c, (submission?_of_flight hf).trans hsub⟩
  obtain ⟨c', r, hclaim, -⟩ := h.exists_claim hm
  rw [run_append] at hnil
  obtain ⟨us, t, vs, rfl, hus, hlasts, hfull, hgone⟩ := h.exists_emptied hclaim hnil
  rw [← run_append] at hlasts hfull hgone
  have hcoherent := (coherent_new key canOverwrite).run (before ++ us)
  refine ⟨before, o, ⟨ho, _, rfl, h⟩, before ++ us, t, vs, by simp, ⟨ho, us, rfl, hus⟩, hfull,
    hgone, ?_⟩
  obtain hdiscard | ⟨Y, hY, hsettled | hother⟩ := emptied_step hcoherent hfull hgone
  · exact .inl hdiscard
  · obtain ⟨e, -, -, he⟩ := hus.exists_claim hm
    rw [← run_append] at he
    exact absurd (settled?_of_lasting he hlasts hY) (by rwa [Option.isSome_iff_ne_none] at hsettled)
  · obtain ⟨X, hX, -⟩ := hcoherent.replica.exists_current hfull
    exact .inr ⟨X, Y, hX, hY, hother X hX⟩

/-- **A pending confirmation without a batch.** At every point of every run a confirmation is
pending while nothing is staged exactly when an answer has refused an unconfirmed submission as
stale after its batch had gone, and since then nothing has been staged, the confirmation has not
been cancelled, and no version has been installed. The batch had gone in a turn while the submission
was underway: it was discarded, or a version of another number than the current one was installed. A
confirmed overwrite fails for want of a batch exactly when a confirmation is pending without one,
the client may overwrite, and the pipeline is free. -/
theorem prompt_without_batch_iff (key : EnvironmentKey) (canOverwrite : Bool) (ts : List Turn) :
    let s₀ := Site.new key canOverwrite
    let s := s₀.run ts
    ((s.replica.gate.attempted = true ∧ s.replica.batch.constraints = []) ↔
      Since (fun before u => (s₀.run before).AsksTooLate u.move)
        (fun before t => (s₀.run before).settles t.move = false) ts) ∧
    (∀ m, s.AsksTooLate m → ∃ name before o, m = .deliver name ∧
      s₀.Submitting ts before name o ∧
      ∃ us t vs, ts = us ++ t :: vs ∧ s₀.Submitting us before name o ∧
        (s₀.run us).replica.batch.constraints ≠ [] ∧
        ((s₀.run us).step t).replica.batch.constraints = [] ∧
        (t.move = .discard ∨ ∃ X Y, (s₀.run us).replica.current = some X ∧
          (s₀.run us).installed? t.move = some Y ∧ Y.version ≠ X.version)) ∧
    ((s.replica.start .confirm).2 = .finished (.error .emptyBatch) ↔
      canOverwrite = true ∧ s.replica.inFlight = false ∧
        s.replica.gate.attempted = true ∧ s.replica.batch.constraints = []) := by
  intro s₀ s
  refine ⟨orphaned_run key canOverwrite ts, ?_, ?_⟩
  · rintro m ⟨name, task, store, c, manner, server, rfl, hflight, hsub, -, -, hnil⟩
    obtain ⟨before, o, hcases⟩ := exists_emptied hflight hsub hnil
    exact ⟨name, before, o, rfl, hcases⟩
  · rw [Replica.start_confirm_emptyBatch, permitted_run key canOverwrite ts]
    constructor
    · rintro ⟨⟨hattempted, hnil⟩, hpermitted, hfree, -⟩
      exact ⟨hpermitted, hfree, hattempted, hnil⟩
    · rintro ⟨hpermitted, hfree, horphaned⟩
      exact ⟨horphaned, hpermitted, hfree, isSome_current_of_orphaned horphaned⟩

/-- The turns of an apply whose batch is discarded before the store refuses it. -/
def abandoning : List Turn :=
  [⟨.start 1 (.apply false), Fleet.untouched⟩, ⟨.serve 1, Fleet.untouched⟩,
    ⟨.deliver 1, Fleet.untouched⟩, ⟨.serve 1, Fleet.overtaking⟩, ⟨.discard, Fleet.overtaking⟩,
    ⟨.deliver 1, Fleet.overtaking⟩]

/-- A client that may overwrite is asked to confirm an overwrite, has nothing staged, and is refused
when it confirms. -/
theorem prompt_left_without_batch :
    ((prepared true).run abandoning).replica.gate.state =
        .pending [.addResource ⟨"aws", "db", "orders"⟩] 1 2 ∧
      ((prepared true).run abandoning).replica.batch.constraints = [] ∧
      ((prepared true).run abandoning).replica.inFlight = false ∧
      (((prepared true).run abandoning).replica.start .confirm).2 =
        .finished (.error .emptyBatch) :=
  ⟨rfl, rfl, rfl, rfl⟩

end Site
end VersionedTopology

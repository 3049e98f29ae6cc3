/-
  VersionedTopology.Proofs.Concurrency.FailedOperation

  What an operation leaves behind that does not succeed.

  An operation that ends with an error, or that is dropped, has not touched what the
  replica holds: the version and its neighbours, the newest number seen, the batch, and
  the inboxes. One that submits nothing has not touched the replica at all. A submission
  has taken the pipeline and given it back, and may leave a trace on the gate. A refusal
  because the server is ahead leaves a confirmation pending, with what was claimed and the
  two numbers of the error; a confirmed overwrite leaves the gate idle; and everything
  else leaves it as it was, even if the store answers the question for its current
  version with an error that calls the client stale.
-/

import VersionedTopology.Proofs.Concurrency.Fleet
import VersionedTopology.Proofs.Concurrency.Underway
import VersionedTopology.Proofs.Replica.Effect

namespace VersionedTopology
namespace Replica

/-- Two replicas hold the same and have told their subscribers the same. -/
structure Intact (r r' : Replica) : Prop where
  current : r'.current = r.current
  pointers : r'.pointers = r.pointers
  knownHead : r'.knownHead = r.knownHead
  batch : r'.batch = r.batch
  inboxes : r'.inboxes = r.inboxes

theorem Intact.refl (r : Replica) : r.Intact r := ⟨rfl, rfl, rfl, rfl, rfl⟩

theorem intact_release (r : Replica) (m : Manner) : r.Intact (r.release m) :=
  ⟨by simp, by simp, by simp, by simp, by simp⟩

theorem intact_recordStale (r : Replica) (c : Claim) (server : VersionNumber) :
    r.Intact (r.recordStale c server) :=
  ⟨rfl, rfl, rfl, rfl, rfl⟩

theorem Intact.trans {r r' r'' : Replica} (h : r.Intact r') (h' : r'.Intact r'') :
    r.Intact r'' :=
  ⟨h'.current.trans h.current, h'.pointers.trans h.pointers, h'.knownHead.trans h.knownHead,
    h'.batch.trans h.batch, h'.inboxes.trans h.inboxes⟩

/-! ## The start -/

section start

variable {r r' : Replica} {o : Operation} {p : Progress}

theorem Started.intact (h : Started r o r' p) : r.Intact r' := by
  cases h with
  | asked | ended => exact .refl _
  | claimed force c _ hclaim =>
    obtain ⟨-, -, -, -, -, rfl⟩ := claim_ok hclaim
    exact ⟨rfl, rfl, rfl, rfl, rfl⟩
  | confirmed c _ _ _ hclaim =>
    obtain ⟨-, -, -, -, -, rfl⟩ := claim_ok hclaim
    exact ⟨rfl, rfl, rfl, rfl, rfl⟩

/-- An operation that does not submit, or that is refused, changes nothing when it is started. -/
theorem Started.eq_self (h : Started r o r' p) (hidle : o.manner? = none ∨ p.ending?.isSome) :
    r' = r := by
  cases h with
  | asked | ended => rfl
  | claimed force =>
    obtain h | h := hidle
    · cases force <;> exact absurd h (by simp [Operation.manner?])
    · exact absurd h (by simp [Progress.ending?])
  | confirmed =>
    obtain h | h := hidle
    · exact absurd h (by simp [Operation.manner?])
    · exact absurd h (by simp [Progress.ending?])

/-- Only a confirmed overwrite moves the gate when it is started. -/
theorem Started.gate (h : Started r o r' p) (ho : o ≠ .confirm) : r'.gate = r.gate := by
  cases h with
  | asked | ended => rfl
  | claimed force c _ hclaim =>
    obtain ⟨-, -, -, -, -, rfl⟩ := claim_ok hclaim
    rfl
  | confirmed => exact absurd rfl ho

theorem claim_error {e : Error} (h : r.claim = .error e) : e.kind = .usage := by
  simp only [claim] at h
  split at h
  · exact Except.error.inj h ▸ rfl
  · split at h
    · exact Except.error.inj h ▸ rfl
    · split at h
      · exact Except.error.inj h ▸ rfl
      · exact absurd h (by simp)

/-- What is refused without any call is refused for the way the replica is used. -/
theorem start_failed {e : Error} (h : (r.start o).2.ending? = some (.failed e)) :
    e.kind = .usage := by
  cases o with
  | apply force =>
    simp only [start] at h
    cases hclaim : r.claim with
    | ok x => exact absurd h (by simp [hclaim, Progress.ending?])
    | error e' =>
      simp only [hclaim, Progress.ending?, Option.some.injEq, Ending.failed.injEq] at h
      exact h ▸ claim_error hclaim
  | confirm =>
    simp only [start] at h
    split at h
    · exact Ending.failed.inj (Option.some.inj h) ▸ rfl
    · split at h
      · exact Ending.failed.inj (Option.some.inj h) ▸ rfl
      · cases hclaim : r.claim with
        | ok x => exact absurd h (by simp [hclaim, Progress.ending?])
        | error e' =>
          simp only [hclaim, Progress.ending?, Option.some.injEq, Ending.failed.injEq] at h
          exact h ▸ claim_error hclaim
  | step d =>
    simp only [start] at h
    split at h <;> exact absurd h (by simp [Progress.ending?])
  | _ => exact absurd h (by simp [start, Progress.ending?])

end start

/-! ## The end -/

/-- How an operation that is not successful ends: without a trace, with a stale claim on record, or
with a failure for another reason. -/
theorem Resumed.failed_cases {r r' : Replica} {t : Task} {a : (t.call r.key).Answer}
    {p : Progress} {e : Error} (h : Resumed r t a r' p) (hp : p.ending? = some (.failed e)) :
    (t.submission? = none ∧ r' = r) ∨ ∃ c m, t.submission? = some (c, m) ∧
      ((∃ server, t.refusal? r.key a = some server ∧ e = .staleVersion c.knownHead server ∧
        r' = (r.recordStale c server).release m) ∨
      (t.refusal? r.key a = none ∧ (a = .error e ∨ e.kind ≠ .staleVersion) ∧
        r' = r.release m)) := by
  cases h with
  | failed e' ht => exact .inl ⟨ht, rfl⟩
  | stale c m server ht hserver =>
    obtain rfl := Ending.failed.inj (Option.some.inj hp)
    exact .inr ⟨c, m, ht, .inl ⟨server, hserver, rfl, rfl⟩⟩
  | rejected c m e' ht hserver he =>
    obtain rfl := Ending.failed.inj (Option.some.inj hp)
    exact .inr ⟨c, m, ht, .inr ⟨hserver, he, rfl⟩⟩
  | _ => exact absurd hp (by simp [Progress.ending?])

end Replica

namespace Site

/-- Something holds of the replica before and after each turn that concerns an operation. -/
def OwnTurns (s : Site) (name : Nat) (ts : List Turn) (P : Replica → Replica → Prop) : Prop :=
  ∀ us t vs, ts = us ++ t :: vs → t.move.operation? = some name →
    P (s.run us).replica ((s.run us).step t).replica

section life

variable {s : Site} {name : Nat} {o : Operation} {ts : List Turn} {e : Ending}

/-- The first turn of an operation starts it. -/
theorem started_of_free {t : Turn} (hfree : s.flights name = none)
    (hmove : t.move = .start name o) :
    Replica.Started s.replica o (s.step t).replica (s.replica.start o).2 ∧
      s.ending? name t.move = (s.replica.start o).2.ending? := by
  have hout := outcome?_start_of_free o hfree
  obtain ⟨move, store⟩ := t
  obtain rfl : move = .start name o := hmove
  constructor
  · simp only [step, hout, follow]
    exact s.replica.started o
  · simp [ending?, Move.operation?, hout]

/-- An operation that is underway has got as far as a call. -/
theorem Underway.exists_waiting (h : Underway s name o ts) :
    ∃ t, (s.replica.start o).2 = .waiting t := by
  induction h with
  | started store hfree hlasts =>
    have hstart := (started_of_free (t := ⟨.start name o, store⟩) hfree rfl).2
    exact Progress.ending?_eq_none (hstart.symm.trans hlasts)
  | lasting _ _ _ ih => exact ih

theorem OwnTurns.concat {t : Turn} {P : Replica → Replica → Prop} (h : s.OwnTurns name ts P)
    (hlast : t.move.operation? = some name →
      P (s.run ts).replica ((s.run ts).step t).replica) : s.OwnTurns name (ts ++ [t]) P := by
  intro us u vs hts hm
  obtain ⟨rfl, rfl, -⟩ | ⟨vs, -, rfl⟩ := split_concat hts
  · exact hlast hm
  · exact h us u vs rfl hm

theorem ownTurns_nil {P : Replica → Replica → Prop} : s.OwnTurns name [] P := by
  intro us t vs hts
  exact absurd hts (by simp)

/-- What holds of the start of an operation, and whenever nothing changes, holds of its turns as
long as it is underway. -/
theorem Underway.ownTurns {P : Replica → Replica → Prop} (h : Underway s name o ts)
    (hfirst : ∀ r p, Replica.Started s.replica o r p → P s.replica r) (hsame : ∀ r, P r r) :
    s.OwnTurns name ts P := by
  induction h with
  | started store hfree hlasts =>
    exact ownTurns_nil.concat fun _ => hfirst _ _ (started_of_free hfree rfl).1
  | lasting t h hlasts ih =>
    refine ih.concat fun hm => ?_
    obtain ⟨f, hf, -⟩ := h.flight
    obtain ⟨-, -, -, hquiet⟩ := (change _ t).flights_of_lasting hf hlasts
    rw [hquiet hm]
    exact hsame _

theorem Life.ownTurns {P : Replica → Replica → Prop} (h : Life s name o ts e)
    (hfirst : ∀ r p, Replica.Started s.replica o r p → P s.replica r) (hsame : ∀ r, P r r)
    (hlast : ∀ us t, Underway s name o us → (s.run us).ending? name t.move = some e →
      P (s.run us).replica ((s.run us).step t).replica) : s.OwnTurns name ts P := by
  cases h with
  | atOnce store e hfree hend =>
    exact ownTurns_nil.concat fun _ => hfirst _ _ (started_of_free hfree rfl).1
  | later t e h hend => exact (h.ownTurns hfirst hsame).concat fun _ => hlast _ t h hend

/-- How an operation ends that does not succeed. -/
theorem Underway.ended {t : Turn} (h : Underway s name o ts)
    (hend : (s.run ts).ending? name t.move = some e) (hfailed : ∀ v, e ≠ .returned v) :
    (o.manner? = none ∧ ((s.run ts).step t).replica = (s.run ts).replica) ∨
    ∃ c m r, o.manner? = some m ∧ s.replica.claim = .ok (c, r) ∧
      ((∃ server, e = .failed (.staleVersion c.knownHead server) ∧
        ((s.run ts).step t).replica = ((s.run ts).replica.recordStale c server).release m) ∨
      (((s.run ts).step t).replica = (s.run ts).replica.release m ∧
        ∀ seen server, e = .failed (.staleVersion seen server) →
          ∃ store, (s.run ts).flights name = some ⟨.checking c, some store⟩ ∧
            store (.fetch (s.run ts).replica.key none) = .error (.staleVersion seen server))) := by
  obtain ⟨⟨task, answeredBy⟩, hf, hsub, hmanner⟩ := h.flight
  -- without a submission the operation is none that submits; with one it has claimed it
  have hnone : task.submission? = none → o.manner? = none := fun hn => by
    rw [← hmanner, hn]
    rfl
  have hsome : ∀ {c m}, task.submission? = some (c, m) →
      o.manner? = some m ∧ ∃ r, s.replica.claim = .ok (c, r) := fun hs =>
    Replica.submission?_eq_some.mp (hsub.symm.trans hs)
  obtain ⟨store, p, hanswered, hp, hresumed⟩ | ⟨rfl, hcancel⟩ := (change _ t).ended hf hend
  · obtain rfl : answeredBy = some store := hanswered
    cases e with
    | returned v => exact absurd rfl (hfailed v)
    | dropped => exact absurd hp p.ending?_ne_dropped
    | failed e =>
      obtain ⟨hn, hsame⟩ | ⟨c, m, hs, hcases⟩ := hresumed.failed_cases hp
      · exact .inl ⟨hnone hn, hsame⟩
      · obtain ⟨ho, r, hclaim⟩ := hsome hs
        refine .inr ⟨c, m, r, ho, hclaim, ?_⟩
        obtain ⟨server, -, rfl, hafter⟩ | ⟨hserver, he, hafter⟩ := hcases
        · exact .inl ⟨server, rfl, hafter⟩
        · refine .inr ⟨hafter, ?_⟩
          rintro seen server heq
          obtain rfl := Ending.failed.inj heq
          obtain ha | hkind := he
          · obtain rfl := Task.checking_of_staleVersion hs hserver ha
            exact ⟨store, hf, ha⟩
          · exact absurd rfl hkind
  · obtain ⟨hn, heq⟩ | ⟨c, m, hs, heq⟩ := (s.run ts).replica.cancel_eq task
    · exact .inl ⟨hnone hn, hcancel.trans heq⟩
    · obtain ⟨ho, r, hclaim⟩ := hsome hs
      exact .inr ⟨c, m, r, ho, hclaim, .inr ⟨hcancel.trans heq, by simp⟩⟩

/-- An operation that does not succeed leaves what the replica holds intact, in each of its
turns. -/
theorem Life.intact (h : Life s name o ts e) (hfailed : ∀ v, e ≠ .returned v) :
    s.OwnTurns name ts Replica.Intact := by
  refine h.ownTurns (fun _ _ hstarted => hstarted.intact) Replica.Intact.refl ?_
  intro us t hunderway hend
  obtain ⟨-, hsame⟩ | ⟨c, m, r, -, -, ⟨server, -, hafter⟩ | ⟨hafter, -⟩⟩ :=
    hunderway.ended hend hfailed
  · exact hsame ▸ .refl _
  · exact hafter ▸ (Replica.intact_recordStale _ c server).trans (Replica.intact_release _ m)
  · exact hafter ▸ Replica.intact_release _ m

/-- An operation that submits nothing and does not succeed leaves the replica as it is. -/
theorem Life.unchanged (h : Life s name o ts e) (hfailed : ∀ v, e ≠ .returned v)
    (ho : o.manner? = none) : s.OwnTurns name ts fun r r' => r' = r := by
  refine h.ownTurns (fun _ _ hstarted => hstarted.eq_self (.inl ho)) (fun _ => rfl) ?_
  intro us t hunderway hend
  obtain ⟨-, hsame⟩ | ⟨c, m, r, hm, -⟩ := hunderway.ended hend hfailed
  · exact hsame
  · exact absurd (ho.symm.trans hm) (by simp)

/-- A submission that does not succeed has given the pipeline back. -/
theorem Life.inFlight (h : Life s name o ts e) (hfailed : ∀ v, e ≠ .returned v)
    (ho : o.manner?.isSome) : (s.run ts).replica.inFlight = s.replica.inFlight := by
  cases h with
  | atOnce store e hfree hend =>
    obtain ⟨hstarted, hp⟩ := started_of_free (t := ⟨.start name o, store⟩) hfree rfl
    rw [run_cons, run_nil, hstarted.eq_self (.inr (by rw [← hp, hend]; rfl))]
  | later t e h hend =>
    rw [run_concat]
    obtain ⟨hn, -⟩ | ⟨c, m, r, -, hclaim, hcases⟩ := h.ended hend hfailed
    · exact absurd ho (by simp [hn])
    · -- the pipeline was free when it was claimed
      rw [(Replica.claim_ok hclaim).1]
      obtain ⟨server, -, hafter⟩ | ⟨hafter, -⟩ := hcases <;> simp [hafter]

/-- The trace that an apply leaves on the gate. -/
theorem Life.gate_of_apply {us : List Turn} {t : Turn} {force : Bool}
    (h : Life s name (.apply force) (us ++ [t]) e) (hfailed : ∀ v, e ≠ .returned v) :
    s.OwnTurns name us (fun r r' => r'.gate = r.gate) ∧
    ((∃ c r server, s.replica.claim = .ok (c, r) ∧
        e = .failed (.staleVersion c.knownHead server) ∧
        ((s.run us).step t).replica.gate.state = .pending c.submitted c.knownHead server) ∨
      (((s.run us).step t).replica.gate = (s.run us).replica.gate ∧
        ∀ seen server, e = .failed (.staleVersion seen server) →
          ∃ c store, (s.run us).flights name = some ⟨.checking c, some store⟩ ∧
            store (.fetch s.replica.key none) = .error (.staleVersion seen server))) := by
  generalize hts : us ++ [t] = ts at h
  cases h with
  | atOnce store e hfree hend =>
    obtain ⟨rfl, heq⟩ := List.append_inj' (hts.trans (List.nil_append _).symm) rfl
    obtain rfl := List.singleton_inj.mp heq
    obtain ⟨hstarted, hp⟩ := started_of_free (t := ⟨.start name (.apply force), store⟩) hfree rfl
    refine ⟨ownTurns_nil, .inr ⟨?_, ?_⟩⟩
    · rw [run_nil, hstarted.eq_self (.inr (by rw [← hp, hend]; rfl))]
    · -- nothing was asked, so nothing could be stale
      rintro seen server rfl
      exact absurd (Replica.start_failed (hp.symm.trans hend)) (by simp [Error.kind])
  | later u e h hend =>
    obtain ⟨rfl, heq⟩ := List.append_inj' hts rfl
    obtain rfl := List.singleton_inj.mp heq
    refine ⟨h.ownTurns (fun _ _ hstarted => hstarted.gate (by simp)) (fun _ => rfl), ?_⟩
    obtain ⟨hn, -⟩ | ⟨c, m, r, hm, hclaim, hcases⟩ := h.ended hend hfailed
    · cases force <;> exact absurd hn (by simp [Operation.manner?])
    · have hne : m ≠ .confirmed := by
        rintro rfl
        cases force <;> exact absurd hm (by simp [Operation.manner?])
      obtain ⟨server, rfl, hafter⟩ | ⟨hafter, hanswer⟩ := hcases
      · refine .inl ⟨c, r, server, hclaim, rfl, ?_⟩
        rw [hafter, Replica.release_gate, if_neg hne]
        rfl
      · refine .inr ⟨by rw [hafter, Replica.release_gate, if_neg hne], ?_⟩
        intro seen server heq
        obtain ⟨store, hflight, hstore⟩ := hanswer seen server heq
        exact ⟨c, store, hflight, by rw [← run_key s us]; exact hstore⟩

/-- The trace that a confirmed overwrite leaves on the gate. -/
theorem Life.gate_of_confirm (h : Life s name .confirm ts e) (hfailed : ∀ v, e ≠ .returned v) :
    (∀ result, (s.replica.start .confirm).2 = .finished result →
      (s.run ts).replica = s.replica) ∧
    (∀ task, (s.replica.start .confirm).2 = .waiting task →
      (s.run ts).replica.gate.state = .idle) := by
  cases h with
  | atOnce store e hfree hend =>
    obtain ⟨hstarted, hp⟩ := started_of_free (t := ⟨.start name .confirm, store⟩) hfree rfl
    refine ⟨fun _ _ => hstarted.eq_self (.inr (by rw [← hp, hend]; rfl)), ?_⟩
    intro task htask
    rw [htask, hend] at hp
    exact absurd hp (by simp [Progress.ending?])
  | later t e h hend =>
    obtain ⟨task, htask⟩ := h.exists_waiting
    refine ⟨fun result hresult => absurd (htask.symm.trans hresult) (by simp), ?_⟩
    intro _ _
    rw [run_concat]
    obtain ⟨hn, -⟩ | ⟨c, m, r, hm, -, hcases⟩ := h.ended hend hfailed
    · exact absurd hn (by simp [Operation.manner?])
    · obtain rfl := Option.some.inj hm
      obtain ⟨server, -, hafter⟩ | ⟨hafter, -⟩ := hcases <;>
        simp [hafter, Replica.release_gate]

end life

/-- **What an operation leaves that does not succeed.** An operation that ends with an error, or
that is dropped, has changed none of the current version, its neighbours, the newest number seen,
the batch and the inboxes in any of its turns, whatever else happened meanwhile. One that submits
nothing has not changed the replica in any way, and a submission has given the pipeline back. An
apply has left the gate as it was, with one exception: when the server is ahead of its claim, a
confirmation is pending for what it claimed, with the two numbers of its error. That is so whenever
its error calls the client stale, unless this error is what the store answered to the question for
its current version. A confirmed overwrite that is refused at its start changes nothing, and one
that has made its claim leaves the gate idle. -/
theorem failed_leaves_intact {key : EnvironmentKey} {canOverwrite : Bool} {before ts : List Turn}
    {name : Nat} {o : Operation} {e : Ending}
    (h : Life ((Site.new key canOverwrite).run before) name o ts e)
    (hfailed : ∀ v, e ≠ .returned v) :
    let s := (Site.new key canOverwrite).run before
    s.OwnTurns name ts Replica.Intact ∧
    (o.manner? = none → s.OwnTurns name ts fun r r' => r' = r) ∧
    (o.manner?.isSome → (s.run ts).replica.inFlight = s.replica.inFlight) ∧
    (∀ force us t, o = .apply force → ts = us ++ [t] →
      s.OwnTurns name us (fun r r' => r'.gate = r.gate) ∧
      ((∃ c r server, s.replica.claim = .ok (c, r) ∧
          e = .failed (.staleVersion c.knownHead server) ∧
          (s.run ts).replica.gate.state = .pending c.submitted c.knownHead server) ∨
        ((s.run ts).replica.gate = (s.run us).replica.gate ∧
          ∀ seen server, e = .failed (.staleVersion seen server) →
            ∃ c store, (s.run us).flights name = some ⟨.checking c, some store⟩ ∧
              store (.fetch key none) = .error (.staleVersion seen server)))) ∧
    (o = .confirm →
      (∀ result, (s.replica.start .confirm).2 = .finished result →
        (s.run ts).replica = s.replica) ∧
      (∀ task, (s.replica.start .confirm).2 = .waiting task →
        (s.run ts).replica.gate.state = .idle)) := by
  intro s
  refine ⟨h.intact hfailed, h.unchanged hfailed, h.inFlight hfailed, ?_, ?_⟩
  · rintro force us t rfl rfl
    have hkey : s.replica.key = key := run_key (Site.new key canOverwrite) before
    rw [run_concat, ← hkey]
    exact h.gate_of_apply hfailed
  · rintro rfl
    exact h.gate_of_confirm hfailed

/-- The turns of an apply that ends with the answer to its first call. -/
def asking (store : Backend.Oracle) : List Turn :=
  [⟨.start 1 (.apply false), store⟩, ⟨.serve 1, store⟩, ⟨.deliver 1, store⟩]

theorem failed_leaves_intact_overtaken :
    Life (prepared false) 1 (.apply false) (asking Fleet.overtaking) (.failed (.staleVersion 1 2)) ∧
      (∀ v, Ending.failed (.staleVersion 1 2) ≠ .returned v) ∧
      (prepared false).OwnTurns 1 (asking Fleet.overtaking) Replica.Intact ∧
      ((prepared false).run (asking Fleet.overtaking)).replica.gate.state =
        .pending [.addResource ⟨"aws", "db", "orders"⟩] 1 2 := by
  have hlife : Life (prepared false) 1 (.apply false) (asking Fleet.overtaking)
      (.failed (.staleVersion 1 2)) :=
    .later ⟨.deliver 1, Fleet.overtaking⟩ _
      (.lasting ⟨.serve 1, Fleet.overtaking⟩ (.started Fleet.overtaking rfl rfl) rfl) rfl
  have hfailed : ∀ v, Ending.failed (.staleVersion 1 2) ≠ .returned v := by simp
  obtain ⟨hintact, -⟩ := failed_leaves_intact (e := .failed (.staleVersion 1 2)) hlife hfailed
  exact ⟨hlife, hfailed, hintact, rfl⟩

/-- A store that tells every client that it is stale, whatever it asks. -/
def contradicting : Backend.Oracle := fun _ => .error (.staleVersion 7 9)

/-- An apply can end with an error that calls the client stale and leave no confirmation pending: it
has passed on the answer to its question for the current version. -/
theorem stale_check_passed_on :
    Life (prepared false) 1 (.apply false) (asking contradicting) (.failed (.staleVersion 7 9)) ∧
      ((prepared false).run (asking contradicting)).replica.gate.state = .idle ∧
      ((prepared false).run (asking contradicting)).replica.batch.constraints =
        [.addResource ⟨"aws", "db", "orders"⟩] :=
  ⟨.later ⟨.deliver 1, contradicting⟩ _
    (.lasting ⟨.serve 1, contradicting⟩ (.started contradicting rfl rfl) rfl) rfl, rfl, rfl⟩

end Site
end VersionedTopology

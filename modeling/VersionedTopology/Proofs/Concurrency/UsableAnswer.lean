/-
  VersionedTopology.Proofs.Concurrency.UsableAnswer

  Answers that a replica can use.

  A replica ends an operation with a failure of transport if the call has failed so, or if
  it cannot use the answer: a version of another environment or with another number than the
  one asked for, or a result that is not newer than what its submission had seen. A ledger
  has no failures of transport, what it answers with belongs to the environment and has the
  number that was asked for, and a result is newer than all that its site has installed. So
  over a ledger no operation ends that way.
-/

import VersionedTopology.Proofs.Concurrency.FailedOperation
import VersionedTopology.Proofs.Concurrency.LateResult
import VersionedTopology.Proofs.History.Lineage

namespace VersionedTopology

/-- The solver only ever finds constraints invalid. -/
theorem kind_of_solve_error {base : Snapshot} {cs : List Constraint} {schema : Schema} {e : Error}
    (h : solve base cs schema = .error e) : e.kind = .config := by
  simp only [solve] at h
  split at h
  · exact absurd h (by simp)
  · exact Except.error.inj h ▸ rfl

namespace Ledger

/-! ## The errors of a ledger -/

section errors

variable {l : Ledger} {key : EnvironmentKey} {e : Error}

theorem kind_of_find_error {v : VersionNumber} (h : l.find key v = .error e) :
    e.kind = .notFound := by
  simp only [find] at h
  split at h
  · exact Except.error.inj h ▸ rfl
  · split at h
    · exact Except.error.inj h ▸ rfl
    · exact absurd h (by simp)

theorem kind_of_get_error {v : Option VersionNumber} (h : l.get key v = .error e) :
    e.kind = .notFound := by
  simp only [get] at h
  split at h
  · exact Except.error.inj h ▸ rfl
  · split at h
    · exact Except.error.inj h ▸ rfl
    · exact absurd h (by simp)

theorem kind_of_neighbor_error {v : VersionNumber} {d : Direction}
    (h : l.neighbor key v d = .error e) : e.kind = .notFound := by
  simp only [neighbor] at h
  split at h
  · rename_i hfind
    exact Except.error.inj h ▸ kind_of_find_error hfind
  · exact absurd h (by simp)

theorem kind_of_setCurrent_error {v : VersionNumber} (h : l.setCurrent key v = .error e) :
    e.kind = .notFound := by
  simp only [setCurrent] at h
  split at h
  · rename_i hfind
    exact Except.error.inj h ▸ kind_of_find_error hfind
  · exact absurd h (by simp)

theorem kind_of_submit_error {request : ApplyRequest} (h : (l.submit key request).2 = .error e) :
    e.kind ≠ .transport := by
  simp only [submit] at h
  split at h
  · rename_i hfind
    rw [← Except.error.inj h, kind_of_find_error hfind]
    simp
  · split at h
    · exact Except.error.inj h ▸ by simp [Error.kind]
    · split at h
      · exact Except.error.inj h ▸ by simp [Error.kind]
      · split at h
        · rename_i hsolve
          rw [← Except.error.inj h, kind_of_solve_error hsolve]
          simp
        · exact absurd h (by simp)

/-- Below the top every history ends. -/
theorem kind_of_history_error (hl : l.WellFormed) (htop : l.BelowTop key)
    (h : l.history key = .error e) : e.kind = .notFound := by
  simp only [history] at h
  split at h
  · exact Except.error.inj h ▸ rfl
  · rename_i log hlog
    obtain ⟨path, -, hlineage⟩ :=
      VersionLog.exists_lineage_of_lt_top (hl key log hlog) (htop log hlog)
    rw [hlineage] at h
    exact absurd h (by simp)

/-- The version that is found belongs to the environment, under the number that was asked for. -/
theorem get_ok (hl : l.WellFormed) {v : Option VersionNumber} {s : Snapshot}
    (h : l.get key v = .ok s) : s.key = key ∧ ∀ n, v = some n → s.version = n := by
  simp only [get] at h
  split at h
  · exact absurd h (by simp)
  · rename_i log hlog
    split at h
    · exact absurd h (by simp)
    · rename_i x hx
      obtain rfl := Except.ok.inj h
      refine ⟨(hl key log hlog).owned _ x hx, ?_⟩
      rintro n rfl
      exact (hl key log hlog).numbered _ x hx

end errors

end Ledger

namespace Replica

/-! ## What a replica makes of its answers -/

/-- A version in an answer is one that the replica accepts. -/
def Usable (r : Replica) : (t : Task) → (t.call r.key).Answer → Prop
  | .loadFetch v, a => ∀ s : Snapshot, a = .ok s → s.key = r.key ∧ ∀ n, v = some n → s.version = n
  | .stepFetch _ _ target, a => ∀ s : Snapshot, a = .ok s → s.key = r.key ∧ s.version = target
  | .submitting c _, a => ∀ s : Snapshot, a = .ok s → s.key = r.key ∧ c.knownHead < s.version
  | _, _ => True

theorem checkFetched_eq {r : Replica} {v : Option VersionNumber} {s : Snapshot}
    (hkey : s.key = r.key) (hversion : ∀ n, v = some n → s.version = n) :
    r.checkFetched v s = .ok s := by
  cases v with
  | none => simp [checkFetched, owns, hkey]
  | some n => simp [checkFetched, owns, hkey, hversion n rfl]

/-- An accepted result is installed. -/
theorem settle_ok {r : Replica} {c : Claim} {s : Snapshot} (m : Manner) (hkey : s.key = r.key)
    (hnewer : c.knownHead < s.version) :
    r.settle c m (.ok s) = ((r.installApplied c s).release m, .finished (.ok (.version s))) := by
  simp [settle, owns, hkey, Nat.not_le_of_lt hnewer]

/-- A failure of transport has come with the answer, if the answer could be used. -/
theorem resume_failed {r : Replica} {t : Task} {a : (t.call r.key).Answer} {e : Error}
    (husable : r.Usable t a) (h : (r.resume t a).2.ending? = some (.failed e))
    (he : e.kind = .transport) : a = .error e := by
  cases t with
  | loadFetch v =>
    cases a with
    | error e' => simpa [resume, Except.bind, Progress.ending?] using h
    | ok s =>
      obtain ⟨hkey, hversion⟩ := husable s rfl
      have hcheck := checkFetched_eq hkey hversion
      exact absurd h (by simp [resume, Except.bind, hcheck, Progress.ending?])
  | stepFetch d left target =>
    cases a with
    | error e' => simpa [resume, Except.bind, Progress.ending?] using h
    | ok s =>
      obtain ⟨hkey, hversion⟩ := husable s rfl
      have hcheck := checkFetched_eq (v := some target) hkey (by simpa using hversion)
      exact absurd h (by simp [resume, Except.bind, hcheck, Progress.ending?])
  | checking c =>
    cases a with
    | error e' => simpa [resume, Progress.ending?] using h
    | ok s =>
      simp only [resume] at h
      split at h
      · obtain rfl := Ending.failed.inj (Option.some.inj h)
        exact absurd he (by simp [Error.kind])
      · exact absurd h (by simp [Progress.ending?])
  | submitting c m =>
    cases a with
    | error e' =>
      cases e' with
      | staleVersion seen server =>
        obtain rfl := Ending.failed.inj (Option.some.inj h)
        exact absurd he (by simp [Error.kind])
      | _ => simpa [resume, settle, Progress.ending?] using h
    | ok s =>
      obtain ⟨hkey, hnewer⟩ := husable s rfl
      exact absurd h (by simp [resume, settle_ok m hkey hnewer, Progress.ending?])
  | _ =>
    cases a with
    | error e' => simpa [resume, Except.map, Progress.ending?] using h
    | ok x => exact absurd h (by simp [resume, Except.map, Progress.ending?])

/-- What a ledger answers is usable, and no failure of transport, if its results are newer than what
their submissions have seen. -/
theorem usable_answer {r : Replica} {l : Ledger} (hl : l.WellFormed) (htop : l.BelowTop r.key)
    (t : Task) (hresult : ∀ c m s, t = .submitting c m →
      (l.submit r.key (m.request c)).2 = .ok s → s.key = r.key ∧ c.knownHead < s.version) :
    r.Usable t (l.answer (t.call r.key)).2 ∧
      ∀ e, (l.answer (t.call r.key)).2 = .error e → e.kind ≠ .transport := by
  have hnotFound : ∀ {e : Error}, e.kind = .notFound → e.kind ≠ .transport := by
    intro e he
    rw [he]
    simp
  cases t with
  | loadFetch v =>
    exact ⟨fun s hs => Ledger.get_ok hl hs, fun e he => hnotFound (Ledger.kind_of_get_error he)⟩
  | stepFetch d left target =>
    refine ⟨fun s hs => ?_, fun e he => hnotFound (Ledger.kind_of_get_error he)⟩
    obtain ⟨hkey, hversion⟩ := Ledger.get_ok hl hs
    exact ⟨hkey, hversion target rfl⟩
  | loadPrevious s => exact ⟨trivial, fun e he => hnotFound (Ledger.kind_of_neighbor_error he)⟩
  | loadNext s p => exact ⟨trivial, fun e he => hnotFound (Ledger.kind_of_neighbor_error he)⟩
  | stepFar d left target s =>
    exact ⟨trivial, fun e he => hnotFound (Ledger.kind_of_neighbor_error he)⟩
  | selecting v =>
    refine ⟨trivial, fun e he => ?_⟩
    simp only [Ledger.answer] at he
    split at he
    · exact absurd he (by simp)
    · rename_i hset
      exact Except.error.inj he ▸ hnotFound (Ledger.kind_of_setCurrent_error hset)
  | listing => exact ⟨trivial, fun e he => hnotFound (Ledger.kind_of_history_error hl htop he)⟩
  | checking c => exact ⟨trivial, fun e he => hnotFound (Ledger.kind_of_get_error he)⟩
  | submitting c m =>
    exact ⟨fun s hs => hresult c m s rfl hs, fun e he => Ledger.kind_of_submit_error he⟩

end Replica

namespace Site

/-- An operation fails when it is started, or when its answer arrives. -/
theorem ending?_eq_failed {s : Site} {name : Nat} {m : Move} {e : Error}
    (h : s.ending? name m = some (.failed e)) :
    (∃ o, (s.replica.start o).2.ending? = some (.failed e)) ∨
    ∃ task store, s.flights name = some ⟨task, some store⟩ ∧
      (s.replica.resume task (store (task.call s.replica.key))).2.ending? = some (.failed e) := by
  by_cases hm : m.operation? = some name
  · simp only [ending?, if_pos hm] at h
    cases m with
    | drop n => exact absurd h (by simp)
    | start n o =>
      obtain ⟨⟨r, p⟩, hout, hp⟩ := Option.bind_eq_some_iff.mp h
      simp only [outcome?] at hout
      split at hout
      · exact .inl ⟨o, by rw [Option.some.inj hout]; exact hp⟩
      · exact absurd hout (by simp)
    | deliver n =>
      obtain rfl := Option.some.inj hm
      obtain ⟨⟨r, p⟩, hout, hp⟩ := Option.bind_eq_some_iff.mp h
      simp only [outcome?] at hout
      split at hout
      · rename_i task store hflight
        exact .inr ⟨task, store, hflight, by rw [Option.some.inj hout]; exact hp⟩
      · exact absurd hout (by simp)
    | _ => exact absurd h (by simp [outcome?])
  · exact absurd h (by simp [ending?, hm])

end Site

namespace Fleet

variable {ι : Type} [DecidableEq ι] {schema : Schema} {keys : ι → EnvironmentKey}
  {permitted : ι → Bool} {ms : List (Move ι)} {i : ι} {name : Nat}

/-! ## In a fleet -/

/-- An accepted result belongs to the environment of its site. -/
theorem key_of_accepted {c : Claim} {m : Manner} {s : Snapshot}
    (haccepted : ((Fleet.new schema keys permitted).run ms).accepted? i name = some (c, m, s)) :
    s.key = keys i := by
  obtain ⟨-, hsubmit⟩ := accepted?_eq_some_iff.mp haccepted
  rw [run_new_key] at hsubmit
  obtain ⟨log, base, hlog, hbase, -, -, hkey, -⟩ := Ledger.submit_ok (Prod.ext rfl hsubmit)
  have hl := wellFormed_run (wellFormed_new schema keys permitted) ms
  exact hkey.trans ((hl _ log hlog).owned _ base hbase)

/-- An accepted result is newer than what its site had seen when it claimed the batch. -/
theorem knownHead_lt_accepted {c : Claim} {m : Manner} {s : Snapshot}
    (haccepted : ((Fleet.new schema keys permitted).run ms).accepted? i name = some (c, m, s))
    (htop :
      (((Fleet.new schema keys permitted).run ms).step (.site i (.serve name))).ledger.BelowTop
        (keys i)) :
    c.knownHead < s.version := by
  obtain ⟨hflight, -⟩ := accepted?_eq_some_iff.mp haccepted
  obtain ⟨before, o, after, hms, -, claimed, hclaim⟩ := exists_claim_move hflight rfl
  obtain ⟨-, hcurrent, hknown, -⟩ := Replica.claim_ok hclaim
  obtain ⟨w, hw, hversion⟩ := exists_installed hcurrent
  have hmem : w ∈ (Fleet.new schema keys permitted).installs i ms := by
    rw [hms, installs_append]
    exact List.mem_append_left _ hw
  rw [← hknown, ← hversion]
  exact installs_lt_accepted haccepted htop w hmem

/-- Every answer of a ledger can be used by the site that it is on its way to, and none is a failure
of transport. -/
theorem usable_answered {task : Task} {store : Backend.Oracle}
    (hflight : (((Fleet.new schema keys permitted).run ms).sites i).flights name =
      some ⟨task, some store⟩)
    (htop : ((Fleet.new schema keys permitted).run ms).ledger.BelowTop (keys i)) :
    let r := (((Fleet.new schema keys permitted).run ms).sites i).replica
    r.Usable task (store (task.call r.key)) ∧
      ∀ e, store (task.call r.key) = .error e → e.kind ≠ .transport := by
  intro r
  have hkey : r.key = keys i := run_new_key schema keys permitted i ms
  obtain ⟨earlier, later, rfl, rfl, hasked⟩ := exists_serve_move hflight
  have hl := wellFormed_run (wellFormed_new schema keys permitted) earlier
  rw [run_append, run_cons] at htop
  have hserved := belowTop_of_run (hl.advance (advance_step _ hl)) htop
  have hbelow := hserved.of_advance hl (advance_step _ hl)
  refine r.usable_answer hl (hkey ▸ hbelow) task ?_
  rintro c m s rfl hsubmit
  rw [hkey] at hsubmit ⊢
  have haccepted : ((Fleet.new schema keys permitted).run earlier).accepted? i name =
      some (c, m, s) :=
    accepted?_eq_some_iff.mpr ⟨hasked, by rw [run_new_key]; exact hsubmit⟩
  exact ⟨key_of_accepted haccepted, knownHead_lt_accepted haccepted hserved⟩

/-- No operation of a site ends with a failure of transport. -/
theorem kind_of_failed {mv : Site.Move} {e : Error}
    (htop : ((Fleet.new schema keys permitted).run ms).ledger.BelowTop (keys i))
    (h : (((Fleet.new schema keys permitted).run ms).sites i).ending? name mv =
      some (.failed e)) : e.kind ≠ .transport := by
  intro he
  rcases Site.ending?_eq_failed h with ⟨o, hstart⟩ | ⟨task, store, hflight, hresume⟩
  · exact absurd (he.symm.trans (Replica.start_failed hstart)) (by simp)
  · obtain ⟨husable, herror⟩ := usable_answered hflight htop
    exact herror e (Replica.resume_failed husable hresume he) he

end Fleet
end VersionedTopology

/-
  VersionedTopology.Proofs.History.Portable

  What a ledger keeps can be written and read again.

  The snapshots and constraints of a ledger come out of requests, and the solver makes no
  identifier and no number of its own that could not be written. So as long as everything in the
  requests can be written and read again, everything that is stored can, and with it every answer,
  also the one to a request that fails.
-/

import VersionedTopology.Proofs.Constraint.Portable
import VersionedTopology.Proofs.History.Lineage
import VersionedTopology.Proofs.Wire.Failure

namespace VersionedTopology

/-- The snapshot and the constraints of an entry can be written and read again. -/
structure LogEntry.Portable (e : LogEntry) : Prop where
  snapshot : e.snapshot.Portable
  constraints : ∀ c ∈ e.constraints, c.Portable

namespace Ledger

/-- Everything that is stored can be written and read again. -/
def Portable (l : Ledger) : Prop := ∀ key v e, l.Holds key v e → e.Portable

/-- Everything in a request can be written and read again. -/
def Act.Portable : Act → Prop
  | .create _ resources edges => (∀ r ∈ resources, r.Portable) ∧ ∀ e ∈ edges, e.Portable
  | .seed s => s.Portable
  | .setCurrent _ _ => True
  | .submit _ request => request.Portable

/-! ## What is stored -/

section stored

variable {l : Ledger}

theorem portable_new (schema : Schema) : ({ schema } : Ledger).Portable := by
  rintro key v e ⟨log, hlog, -⟩
  exact absurd hlog (by simp [log?])

theorem portable_congr {l' : Ledger} (h : l.Portable) (hlogs : l'.logs = l.logs) : l'.Portable := by
  rintro key v e ⟨log, hlog, he⟩
  exact h key v e ⟨log, log?_congr hlogs key ▸ hlog, he⟩

/-- A changed log matters only for its own entries. -/
theorem Portable.withLog (h : l.Portable) {key : EnvironmentKey} {log : VersionLog}
    (hlog : ∀ v e, log.entryAt? v = some e → e.Portable) : (l.withLog key log).Portable := by
  rintro key' v e ⟨log', hlog', he⟩
  rw [log?_withLog] at hlog'
  split at hlog'
  · rw [← Option.some.inj hlog'] at he
    exact hlog v e he
  · exact h key' v e ⟨log', hlog', he⟩

theorem Portable.push (h : l.Portable) {key : EnvironmentKey} {log : VersionLog}
    (hlog : ∀ v e, log.entryAt? v = some e → e.Portable) {e : LogEntry} (he : e.Portable) :
    (l.withLog key (log.push e)).Portable := by
  refine h.withLog fun v x hx => ?_
  obtain ⟨-, rfl⟩ | hold := VersionLog.eq_or_of_entryAt?_push hx
  · exact he
  · exact hlog v x hold

theorem portable_seed (h : l.Portable) {s : Snapshot} (hs : s.Portable) {l' : Ledger}
    (hseed : l.seed s = .ok l') : l'.Portable := by
  have hlog : ∀ v e, ((l.log? s.key).getD {}).entryAt? v = some e → e.Portable := by
    intro v e he
    cases hlog : l.log? s.key with
    | none =>
      rw [hlog, Option.getD_none, VersionLog.entryAt?_of_isEmpty (by rfl)] at he
      exact absurd he (by simp)
    | some log =>
      rw [hlog] at he
      exact h s.key v e ⟨log, hlog, he⟩
  simp only [seed] at hseed
  split at hseed
  · exact absurd hseed (by simp)
  · rw [← Except.ok.inj hseed]
    exact h.push hlog ⟨hs, by simp⟩

theorem portable_create (h : l.Portable) {key : EnvironmentKey} {resources : List Resource}
    {edges : List Edge} (hresources : ∀ r ∈ resources, r.Portable)
    (hedges : ∀ e ∈ edges, e.Portable) {s : Snapshot} {l' : Ledger}
    (hcreate : l.create key resources edges = .ok (s, l')) : s.Portable ∧ l'.Portable := by
  simp only [create] at hcreate
  split at hcreate
  · exact absurd hcreate (by simp)
  · split at hcreate
    · rename_i l₁ hseed
      obtain ⟨rfl, rfl⟩ := Prod.mk.inj (Except.ok.inj hcreate)
      -- the first version has number 1 and no issues
      have hs : Snapshot.Portable
          { architecture := key.architecture, environment := key.environment, version := 1
            resources := Resources.collect resources, edges := EdgeSet.collect edges } :=
        ⟨(by decide : 1 ≤ Number.maxUnsigned), Resources.portable_collect hresources,
          EdgeSet.portable_collect hedges, by simp⟩
      exact ⟨hs, portable_seed h hs hseed⟩
    · exact absurd hcreate (by simp)

theorem portable_setCurrent (h : l.Portable) {key : EnvironmentKey} {v : VersionNumber}
    {l' : Ledger} (hset : l.setCurrent key v = .ok l') : l'.Portable := by
  simp only [setCurrent] at hset
  split at hset
  · exact absurd hset (by simp)
  · rename_i log e hfind
    rw [← Except.ok.inj hset]
    exact h.withLog fun v e he => h key v e ⟨log, (find_ok hfind).1, he⟩

/-- The version that a batch is solved into has a number within range, whatever the head is. -/
theorem portable_submit (h : l.Portable) {key : EnvironmentKey} {request : ApplyRequest}
    (hrequest : request.Portable) {l' : Ledger} {s : Snapshot}
    (hsubmit : l.submit key request = (l', .ok s)) : s.Portable ∧ l'.Portable := by
  obtain ⟨log, base, solved, hlog, hbase, -, hsolve, rfl, hlogs⟩ := submit_solved hsubmit
  have hsolved : solved.Portable :=
    portable_solve (h key _ base ⟨log, hlog, hbase⟩).snapshot hrequest.constraints hsolve
  -- the solver's number is that of the base, and is replaced by the one after the head
  have hs : Snapshot.Portable { solved with version := VersionNumber.next log.head } :=
    ⟨VersionNumber.next_le log.head, hsolved.resources, hsolved.edges, hsolved.issues⟩
  refine ⟨hs, portable_congr (h.push (fun v e he => h key v e ⟨log, hlog, he⟩) ?_) hlogs⟩
  exact ⟨hs, hrequest.constraints⟩

/-- Requests keep everything that is stored within what can be written. -/
theorem portable_act (h : l.Portable) {a : Act} (ha : a.Portable) : (l.act a).Portable := by
  cases a with
  | create key resources edges =>
    simp only [act]
    split
    · rename_i s l' hcreate
      exact (portable_create h ha.1 ha.2 hcreate).2
    · exact h
  | seed s =>
    simp only [act]
    split
    · exact portable_seed h ha ‹_›
    · exact h
  | setCurrent key v =>
    simp only [act]
    split
    · exact portable_setCurrent h ‹_›
    · exact h
  | submit key request =>
    rcases hsubmit : l.submit key request with ⟨l', s | e⟩
    · simpa only [act, hsubmit] using portable_congr h (submit_error hsubmit)
    · simpa only [act, hsubmit] using (portable_submit h ha hsubmit).2

end stored

/-! ## What is answered -/

section answers

variable {l : Ledger} {key : EnvironmentKey}

theorem portable_get (h : l.Portable) (hl : l.WellFormed) {v : Option VersionNumber} {s : Snapshot}
    (hget : l.get key v = .ok s) : s.Portable := by
  obtain ⟨e, he, rfl⟩ := records_iff.mp (records_get hl hget)
  exact (h key _ e he).snapshot

/-- Constraints of the history are constraints of entries. -/
theorem portable_history (h : l.Portable) (hl : l.WellFormed) {cs : List Constraint}
    (hhistory : l.history key = .ok cs) : ∀ c ∈ cs, c.Portable := by
  simp only [history] at hhistory
  split at hhistory
  · exact absurd hhistory (by simp)
  · rename_i log hlog
    split at hhistory
    · rename_i entries hroot
      obtain ⟨path, hpath, -, hentries⟩ := VersionLog.walk_eq_root_iff.mp hroot
      rw [← Except.ok.inj hhistory, hentries, List.append_nil]
      intro c hc
      obtain ⟨e, he, hce⟩ := List.mem_flatMap.mp hc
      exact (h key _ e ⟨log, hlog, hpath.stored (hl key log hlog) e he⟩).constraints c hce
    · exact absurd hhistory (by simp)
    · exact absurd hhistory (by simp)

/-! ## What is refused -/

theorem told_find {v : VersionNumber} (hv : v ≤ Number.maxUnsigned) {e : Error}
    (h : l.find key v = .error e) : e.Told key (some v) := by
  have hnotFound : e = key.notFound (some v) := by
    simp only [find] at h
    split at h
    · exact (Except.error.inj h).symm
    · split at h
      · exact (Except.error.inj h).symm
      · exact absurd h (by simp)
  rw [hnotFound]
  exact .notFound (by simpa using hv)

/-- The current version is always there, so what is not found is what was asked for. -/
theorem told_get (hl : l.WellFormed) {v : Option VersionNumber}
    (hv : ∀ n ∈ v, n ≤ Number.maxUnsigned) {e : Error} (h : l.get key v = .error e) :
    e.Told key v := by
  have hnotFound : e = key.notFound v := by
    simp only [get] at h
    split at h
    · exact (Except.error.inj h).symm
    · rename_i log hlog
      cases v with
      | none =>
        obtain ⟨x, hx⟩ := Option.isSome_iff_exists.mp (hl key log hlog).currentStored
        simp only [Option.getD_none, hx] at h
        exact absurd h (by simp)
      | some n =>
        simp only [Option.getD_some] at h
        split at h
        · exact (Except.error.inj h).symm
        · exact absurd h (by simp)
  rw [hnotFound]
  exact .notFound hv

theorem told_setCurrent {v : VersionNumber} (hv : v ≤ Number.maxUnsigned) {e : Error}
    (h : l.setCurrent key v = .error e) : e.Told key (some v) := by
  simp only [setCurrent] at h
  split at h
  · rename_i hfind
    exact Except.error.inj h ▸ told_find hv hfind
  · exact absurd h (by simp)

/-- A submission is refused because its base is missing, because it is behind, because it is too
long, or because the solver finds issues. -/
theorem told_submit (h : l.Portable) (hl : l.WellFormed) (hr : l.Ranged) {request : ApplyRequest}
    (hrequest : request.Portable) {e : Error} (hsubmit : (l.submit key request).2 = .error e) :
    e.Told key (some request.version) := by
  simp only [submit] at hsubmit
  split at hsubmit
  · rename_i hfind
    exact Except.error.inj hsubmit ▸ told_find hrequest.version hfind
  · rename_i log base hfind
    obtain ⟨hlog, hbase⟩ := find_ok hfind
    split at hsubmit
    · rw [← Except.error.inj hsubmit]
      -- the current version is recorded, and so is not above the head
      obtain ⟨x, hx⟩ := Option.isSome_iff_exists.mp (hl key log hlog).currentStored
      have hcurrent : log.current ≤ Number.maxUnsigned :=
        Nat.le_trans ((hr key log hlog).bounded _ x hx) (hr key log hlog).head_le
      refine .staleVersion ?_ hcurrent
      cases hseen : request.expectedHead with
      | none => exact Nat.zero_le _
      | some seen => exact hrequest.expectedHead seen hseen
    · split at hsubmit
      · rw [← Except.error.inj hsubmit]
        exact .config (by simp) (by simp [Issue.Portable])
      · split at hsubmit
        · rename_i err hsolve
          obtain ⟨issues, rfl, hne, hissues⟩ := portable_solve_error
            (h key _ base ⟨log, hlog, hbase⟩).snapshot hrequest.constraints hsolve
          rw [← Except.error.inj hsubmit]
          exact .config hne hissues
        · exact absurd hsubmit (by simp)

/-- A history that ends is refused only where there is no environment. -/
theorem told_history (hl : l.WellFormed) (hr : l.Ranged)
    (hself : ∀ log, l.log? key = some log → ¬ log.SelfParented) {e : Error}
    (h : l.history key = .error e) : e.Told key none := by
  cases hlog : l.log? key with
  | none =>
    have hmissing : l.history key = .error (key.notFound none) := by simp [history, hlog]
    rw [← Except.error.inj (hmissing.symm.trans h)]
    exact .notFound (by simp)
  | some log =>
    obtain ⟨path, -, hlineage⟩ :=
      VersionLog.exists_lineage (hl key log hlog) (hr key log hlog) (hself log hlog)
    have hhistory : l.history key = .ok (path.flatMap LogEntry.constraints) := by
      simp [history, hlog, hlineage]
    exact absurd (hhistory.symm.trans h) (by simp)

end answers

end Ledger
end VersionedTopology

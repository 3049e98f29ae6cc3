/-
  VersionedTopology.Proofs.History.Ledger

  How requests change the logs of a ledger, and what a ledger answers.

  Every request changes each log in one of the ways of `VersionLog.Advance`, so the logs
  stay well formed; only a request for another current version makes a log do more
  than grow. Versions in answers are recorded in the log of the environment that
  was asked for. A submission that is accepted makes a version above everything
  recorded before, and one that names a version it has seen is accepted only if the
  current version is not beyond that.
-/

import VersionedTopology.History.Ledger
import VersionedTopology.Proofs.History.Log

namespace VersionedTopology

/-- The version in a successful answer. -/
def Backend.Call.snapshot? : (c : Backend.Call) → c.Answer → Option Snapshot
  | .fetch .., .ok s => some s
  | .apply .., .ok s => some s
  | _, _ => none

namespace Ledger

/-- Requests that change logs directly. -/
inductive Act where
  | create (key : EnvironmentKey) (resources : List Resource) (edges : List Edge)
  | seed (s : Snapshot)
  | setCurrent (key : EnvironmentKey) (version : VersionNumber)
  | submit (key : EnvironmentKey) (request : ApplyRequest)

/-- The ledger after a request, whether it succeeds or not. -/
def act (l : Ledger) : Act → Ledger
  | .create key resources edges =>
    match l.create key resources edges with
    | .ok (_, l') => l'
    | .error _ => l
  | .seed s =>
    match l.seed s with
    | .ok l' => l'
    | .error _ => l
  | .setCurrent key version =>
    match l.setCurrent key version with
    | .ok l' => l'
    | .error _ => l
  | .submit key request => (l.submit key request).1

/-- All logs are well formed. -/
def WellFormed (l : Ledger) : Prop :=
  ∀ key log, l.log? key = some log → log.WellFormed key

theorem wellFormed_new (schema : Schema) : ({ schema } : Ledger).WellFormed := by
  intro key log h
  exact absurd h (by simp [log?])

/-- The greatest number has not been given out in an environment. -/
def BelowTop (l : Ledger) (key : EnvironmentKey) : Prop :=
  ∀ log, l.log? key = some log → log.head < VersionNumber.top

theorem belowTop_of_all {l : Ledger} {key : EnvironmentKey}
    (h : (l.log? key).all (fun log => log.head < VersionNumber.top) = true) :
    l.BelowTop key := by
  intro log hlog
  rw [hlog] at h
  exact of_decide_eq_true h

/-- The version is in the log of the environment. -/
def Records (l : Ledger) (key : EnvironmentKey) (s : Snapshot) : Prop :=
  ∃ log e, l.log? key = some log ∧ log.entryAt? s.version = some e ∧ e.snapshot = s

/-- The entry is in the log of the environment, under the number. -/
def Holds (l : Ledger) (key : EnvironmentKey) (v : VersionNumber) (e : LogEntry) : Prop :=
  ∃ log, l.log? key = some log ∧ log.entryAt? v = some e

theorem Holds.unique {l : Ledger} {key : EnvironmentKey} {v : VersionNumber} {e e' : LogEntry}
    (h : l.Holds key v e) (h' : l.Holds key v e') : e = e' := by
  obtain ⟨log, hlog, he⟩ := h
  obtain ⟨log', hlog', he'⟩ := h'
  obtain rfl := Option.some.inj (hlog.symm.trans hlog')
  exact Option.some.inj (he.symm.trans he')

theorem records_iff {l : Ledger} {key : EnvironmentKey} {s : Snapshot} :
    l.Records key s ↔ ∃ e, l.Holds key s.version e ∧ e.snapshot = s := by
  constructor
  · rintro ⟨log, e, hlog, he, hs⟩
    exact ⟨e, ⟨log, hlog, he⟩, hs⟩
  · rintro ⟨e, ⟨log, hlog, he⟩, hs⟩
    exact ⟨log, e, hlog, he, hs⟩

/-- A log has one version of each number. -/
theorem Records.unique {l : Ledger} {key : EnvironmentKey} {s s' : Snapshot}
    (h : l.Records key s) (h' : l.Records key s') (hversion : s.version = s'.version) : s = s' := by
  obtain ⟨e, he, rfl⟩ := records_iff.mp h
  obtain ⟨e', he', rfl⟩ := records_iff.mp h'
  rw [hversion] at he
  rw [he.unique he']

theorem log?_withLog (l : Ledger) (key key' : EnvironmentKey) (log : VersionLog) :
    (l.withLog key log).log? key' = if key' = key then some log else l.log? key' := by
  simp only [withLog, log?, Std.ExtTreeMap.getElem?_insert, Std.compare_eq_iff_eq]
  by_cases h : key = key'
  · rw [if_pos h, if_pos h.symm]
  · rw [if_neg h, if_neg (Ne.symm h)]

theorem find_ok {l : Ledger} {key : EnvironmentKey} {v : VersionNumber} {log : VersionLog}
    {e : LogEntry} (h : l.find key v = .ok (log, e)) :
    l.log? key = some log ∧ log.entryAt? v = some e := by
  simp only [find] at h
  split at h
  · exact absurd h (by simp)
  · rename_i log' hlog
    split at h
    · exact absurd h (by simp)
    · rename_i e' he
      simp only [Except.ok.injEq, Prod.mk.injEq] at h
      obtain ⟨rfl, rfl⟩ := h
      exact ⟨hlog, he⟩

/-! ## How requests change a log -/

/-- A ledger whose logs have grown, by one version at most each. -/
def Grows (l l' : Ledger) : Prop :=
  ∀ key, VersionLog.Grows key (l.log? key) (l'.log? key)

/-- A ledger whose logs have changed, in one step at most each. -/
def Advance (l l' : Ledger) : Prop :=
  ∀ key, VersionLog.Advance key (l.log? key) (l'.log? key)

theorem grows_refl (l : Ledger) : l.Grows l :=
  fun _ => .same _

theorem Grows.advance {l l' : Ledger} (h : l.Grows l') : l.Advance l' :=
  fun key => .grown _ _ (h key)

/-- A relation between the logs before and after holds everywhere if it allows that nothing changes
and holds where the log is replaced. -/
theorem forall_log?_withLog {R : EnvironmentKey → Option VersionLog → Option VersionLog → Prop}
    (hrefl : ∀ key log, R key log log) {l : Ledger} {key : EnvironmentKey} {log : VersionLog}
    (h : R key (l.log? key) (some log)) (key' : EnvironmentKey) :
    R key' (l.log? key') ((l.withLog key log).log? key') := by
  rw [log?_withLog]
  by_cases hkey : key' = key
  · subst hkey
    rw [if_pos rfl]
    exact h
  · rw [if_neg hkey]
    exact hrefl key' _

theorem grows_withLog {l : Ledger} {key : EnvironmentKey} {log : VersionLog}
    (h : VersionLog.Grows key (l.log? key) (some log)) : l.Grows (l.withLog key log) :=
  forall_log?_withLog (fun _ => .same) h

theorem advance_withLog {l : Ledger} {key : EnvironmentKey} {log : VersionLog}
    (h : VersionLog.Advance key (l.log? key) (some log)) : l.Advance (l.withLog key log) :=
  forall_log?_withLog (fun _ log => .grown log log (.same log)) h

theorem grows_seed {l l' : Ledger} {s : Snapshot} (hl : l.WellFormed)
    (h : l.seed s = .ok l') : l.Grows l' := by
  simp only [seed] at h
  split at h
  · exact absurd h (by simp)
  · rename_i hgreater
    rw [← Except.ok.inj h]
    apply grows_withLog
    cases hlog : l.log? s.key with
    | none => exact .founded s rfl
    | some log =>
      -- a log has an entry, so its head was compared with the number
      have hfull : log.isEmpty = false := (hl s.key log hlog).not_isEmpty
      simp only [hlog, Option.getD_some, hfull, Bool.not_false, Bool.true_and,
        decide_eq_true_eq, Nat.not_le] at hgreater
      simp only [Option.getD_some, hfull]
      exact .extended log ⟨s, some log.current, []⟩ log.current rfl
        (hl s.key log hlog).currentStored rfl (.inl hgreater)

theorem grows_create {l l' : Ledger} {key : EnvironmentKey} {resources : List Resource}
    {edges : List Edge} {s : Snapshot} (hl : l.WellFormed)
    (h : l.create key resources edges = .ok (s, l')) : l.Grows l' := by
  simp only [create] at h
  split at h
  · exact absurd h (by simp)
  · split at h
    · rename_i l₁ hseed
      simp only [Except.ok.injEq, Prod.mk.injEq] at h
      rw [← h.2]
      exact grows_seed hl hseed
    · exact absurd h (by simp)

theorem advance_setCurrent {l l' : Ledger} {key : EnvironmentKey} {v : VersionNumber}
    (h : l.setCurrent key v = .ok l') : l.Advance l' := by
  simp only [setCurrent] at h
  split at h
  · exact absurd h (by simp)
  · rename_i log e hfind
    obtain ⟨hlog, he⟩ := find_ok hfind
    rw [← Except.ok.inj h]
    apply advance_withLog
    rw [hlog]
    exact .repointed log v (by simp [he])

/-- Solving keeps the names of the environment. -/
theorem solve_key {base s : Snapshot} {cs : List Constraint} {schema : Schema}
    (h : solve base cs schema = .ok s) : s.key = base.key := by
  simp only [solve] at h
  split at h
  · rw [← Except.ok.inj h]
    rfl
  · exact absurd h (by simp)

/-- An accepted submission finds its base recorded, is not behind the current version, and can be
solved; what it leaves is the log with the solved batch as its next version. -/
theorem submit_solved {l l' : Ledger} {key : EnvironmentKey} {request : ApplyRequest}
    {s : Snapshot} (h : l.submit key request = (l', .ok s)) :
    ∃ log base solved, l.log? key = some log ∧ log.entryAt? request.version = some base ∧
      (∀ seen, request.expectedHead = some seen → log.current ≤ seen) ∧
      solve base.snapshot request.constraints l.schema = .ok solved ∧
      s = { solved with version := VersionNumber.next log.head } ∧
      l'.logs = (l.withLog key
        (log.push ⟨s, some request.version, request.constraints⟩)).logs := by
  simp only [submit] at h
  split at h
  · exact absurd h (by simp)
  · rename_i log base hfind
    obtain ⟨hlog, hbase⟩ := find_ok hfind
    split at h
    · exact absurd h (by simp)
    · rename_i hfresh
      split at h
      · exact absurd h (by simp)
      · split at h
        · exact absurd h (by simp)
        · rename_i solved hsolve
          simp only [Prod.mk.injEq, Except.ok.injEq] at h
          obtain ⟨rfl, rfl⟩ := h
          refine ⟨log, base, solved, hlog, hbase, ?_, hsolve, rfl, rfl⟩
          intro seen hseen
          simpa [hseen] using hfresh

/-- What an accepted submission finds and what it leaves. -/
theorem submit_ok {l l' : Ledger} {key : EnvironmentKey} {request : ApplyRequest} {s : Snapshot}
    (h : l.submit key request = (l', .ok s)) :
    ∃ log base, l.log? key = some log ∧ log.entryAt? request.version = some base ∧
      (∀ seen, request.expectedHead = some seen → log.current ≤ seen) ∧
      s.version = VersionNumber.next log.head ∧ s.key = base.snapshot.key ∧
      l'.logs = (l.withLog key
        (log.push ⟨s, some request.version, request.constraints⟩)).logs := by
  obtain ⟨log, base, solved, hlog, hbase, hfresh, hsolve, rfl, hlogs⟩ := submit_solved h
  have hkey : solved.key = base.snapshot.key := solve_key hsolve
  exact ⟨log, base, hlog, hbase, hfresh, rfl, hkey, hlogs⟩

/-- A refused submission leaves all logs as they are. -/
theorem submit_error {l l' : Ledger} {key : EnvironmentKey} {request : ApplyRequest} {e : Error}
    (h : l.submit key request = (l', .error e)) : l'.logs = l.logs := by
  simp only [submit] at h
  split at h
  · exact (Prod.mk.inj h).1 ▸ rfl
  · split at h
    · exact (Prod.mk.inj h).1 ▸ rfl
    · split at h
      · exact (Prod.mk.inj h).1 ▸ rfl
      · split at h
        · exact (Prod.mk.inj h).1 ▸ rfl
        · exact absurd (Prod.mk.inj h).2 (by simp)

theorem log?_congr {l l' : Ledger} (h : l'.logs = l.logs) (key : EnvironmentKey) :
    l'.log? key = l.log? key := by
  rw [log?, h, log?]

theorem grows_submit {l : Ledger} (key : EnvironmentKey) (request : ApplyRequest)
    (hl : l.WellFormed) : l.Grows (l.submit key request).1 := by
  rcases hsubmit : l.submit key request with ⟨l', result⟩
  intro key'
  cases result with
  | error e =>
    rw [log?_congr (submit_error hsubmit)]
    exact .same _
  | ok s =>
    obtain ⟨log, base, hlog, hbase, -, hversion, hkey, hlogs⟩ := submit_ok hsubmit
    rw [log?_congr hlogs]
    refine grows_withLog ?_ key'
    rw [hlog]
    exact .extended log _ request.version rfl (by simp [hbase])
      (hkey.trans ((hl key log hlog).owned _ _ hbase)) (.inr hversion)

/-- Moves the current version. -/
def Act.repoints : Act → Bool
  | .setCurrent .. => true
  | _ => false

theorem grows_act {l : Ledger} {a : Act} (hl : l.WellFormed) (h : a.repoints = false) :
    l.Grows (l.act a) := by
  cases a with
  | create key resources edges =>
    simp only [act]
    split
    · rename_i hcreate
      exact grows_create hl hcreate
    · exact l.grows_refl
  | seed s =>
    simp only [act]
    split
    · rename_i hseed
      exact grows_seed hl hseed
    · exact l.grows_refl
  | setCurrent key v => exact absurd h (by simp [Act.repoints])
  | submit key request => exact grows_submit key request hl

theorem advance_act {l : Ledger} (a : Act) (hl : l.WellFormed) : l.Advance (l.act a) := by
  cases a with
  | setCurrent key v =>
    simp only [act]
    split
    · rename_i hset
      exact advance_setCurrent hset
    · exact l.grows_refl.advance
  | _ => exact (grows_act hl rfl).advance

theorem grows_answer {l : Ledger} {c : Backend.Call} (hl : l.WellFormed)
    (h : ∀ key v, c ≠ .select key v) : l.Grows (l.answer c).1 := by
  cases c with
  | select key v => exact absurd rfl (h key v)
  | apply key request => exact grows_submit key request hl
  | _ => exact l.grows_refl

theorem advance_answer {l : Ledger} (c : Backend.Call) (hl : l.WellFormed) :
    l.Advance (l.answer c).1 := by
  cases c with
  | select key v =>
    simp only [answer]
    split
    · rename_i hset
      exact advance_setCurrent hset
    · exact l.grows_refl.advance
  | _ => exact (grows_answer hl (by simp)).advance

theorem WellFormed.advance {l l' : Ledger} (hl : l.WellFormed) (h : l.Advance l') :
    l'.WellFormed :=
  fun key log hlog => (h key).wellFormed (hl key) log hlog

/-- An entry stays as it is as long as the greatest number is not in use. -/
theorem Holds.advance {l l' : Ledger} {key : EnvironmentKey} {v : VersionNumber} {e : LogEntry}
    (he : l.Holds key v e) (hl : l.WellFormed) (h : l.Advance l') (htop : l'.BelowTop key) :
    l'.Holds key v e := by
  obtain ⟨log, hlog, he⟩ := he
  have hadvance := h key
  rw [hlog] at hadvance
  obtain ⟨log', hlog', -, -, hkeep⟩ := hadvance.keeps (hl key log hlog) htop
  exact ⟨log', hlog', hkeep _ _ he⟩

/-- If the greatest number is not in use, it has not been in use before. -/
theorem BelowTop.of_advance {l l' : Ledger} {key : EnvironmentKey} (htop : l'.BelowTop key)
    (hl : l.WellFormed) (h : l.Advance l') : l.BelowTop key := by
  intro log hlog
  have hadvance := h key
  rw [hlog] at hadvance
  obtain ⟨-, -, hbelow, -, -⟩ := hadvance.keeps (hl key log hlog) htop
  exact hbelow

/-! ## What answers hold -/

/-- No recorded version is beyond the head. -/
theorem Records.le_head {l : Ledger} {key : EnvironmentKey} {s : Snapshot}
    (hs : l.Records key s) (hl : l.WellFormed) (htop : l.BelowTop key) {log : VersionLog}
    (hlog : l.log? key = some log) : s.version ≤ log.head := by
  obtain ⟨log', e, hlog', he, -⟩ := hs
  rw [hlog, Option.some.injEq] at hlog'
  subst hlog'
  exact (hl key log hlog).bounded (htop log hlog) _ e he

theorem records_get {l : Ledger} {key : EnvironmentKey} {v : Option VersionNumber} {s : Snapshot}
    (hl : l.WellFormed) (h : l.get key v = .ok s) : l.Records key s := by
  simp only [get] at h
  split at h
  · exact absurd h (by simp)
  · rename_i log hlog
    split at h
    · exact absurd h (by simp)
    · rename_i e he
      have hs : e.snapshot = s := Except.ok.inj h
      -- the entry is stored under its own number, whatever was asked for
      refine ⟨log, e, hlog, ?_, hs⟩
      rw [← hs, (hl key log hlog).numbered _ e he]
      exact he

theorem records_submit {l l' : Ledger} {key : EnvironmentKey} {request : ApplyRequest}
    {s : Snapshot} (h : l.submit key request = (l', .ok s)) : l'.Records key s := by
  obtain ⟨log, base, -, -, -, -, -, hlogs⟩ := submit_ok h
  refine ⟨log.push ⟨s, some request.version, request.constraints⟩,
    ⟨s, some request.version, request.constraints⟩, ?_, ?_, rfl⟩
  · rw [log?_congr hlogs, log?_withLog, if_pos rfl]
  · rw [VersionLog.entryAt?_push, if_pos rfl]

/-- The version in an answer is recorded from then on. -/
theorem records_answer {l : Ledger} {c : Backend.Call} {key : EnvironmentKey} {s : Snapshot}
    (hl : l.WellFormed) (hc : (∃ v, c = .fetch key v) ∨ ∃ request, c = .apply key request)
    (h : c.snapshot? (l.answer c).2 = some s) : (l.answer c).1.Records key s := by
  obtain ⟨v, rfl⟩ | ⟨request, rfl⟩ := hc
  · -- a fetch changes nothing, and finds what is recorded already
    have hget : l.get key v = .ok s := by
      simp only [answer] at h
      cases hget : l.get key v with
      | error e => rw [hget] at h; exact absurd h (by simp [Backend.Call.snapshot?])
      | ok s' =>
        rw [hget] at h
        simp only [Backend.Call.snapshot?, Option.some.injEq] at h
        rw [h]
    exact records_get hl hget
  · -- a submission records the version that it answers with
    rcases hsubmit : l.submit key request with ⟨l', result⟩
    simp only [answer, hsubmit] at h ⊢
    cases result with
    | error e => exact absurd h (by simp [Backend.Call.snapshot?])
    | ok s' =>
      simp only [Backend.Call.snapshot?, Option.some.injEq] at h
      exact records_submit (h ▸ hsubmit)

end Ledger
end VersionedTopology

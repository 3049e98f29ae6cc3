/-
  VersionedTopology.Proofs.Concurrency.Look

  How an operation meets the current version of a ledger.

  A load of the current version, a selection and an accepted submission return the version that
  is current when they end: `Task.Shows` says what each of their tasks has to do with it, one answer
  at a time. An apply looks before it sends anything, and compares the number of the current
  version with the newest one that its replica has seen.
-/

import VersionedTopology.Proofs.Concurrency.Completed

namespace VersionedTopology

/-! ## The current version -/

namespace Ledger

/-- The current version of an environment has that number. -/
def CurrentIs (l : Ledger) (key : EnvironmentKey) (v : VersionNumber) : Prop :=
  ∃ log, l.log? key = some log ∧ log.current = v

variable {l l' : Ledger} {key : EnvironmentKey}

theorem get_current (hl : l.WellFormed) {log : VersionLog} (hlog : l.log? key = some log) :
    ∃ s, l.get key none = .ok s ∧ s.version = log.current ∧ s.key = key := by
  obtain ⟨e, he⟩ := Option.isSome_iff_exists.mp (hl key log hlog).currentStored
  refine ⟨e.snapshot, by simp [get, hlog, he], ?_, ?_⟩
  · exact (hl key log hlog).numbered _ e he
  · exact (hl key log hlog).owned _ e he

theorem currentIs_of_get (hl : l.WellFormed) {s : Snapshot} (h : l.get key none = .ok s) :
    l.CurrentIs key s.version := by
  cases hlog : l.log? key with
  | none => exact absurd h (by simp [get, hlog])
  | some log =>
    obtain ⟨s', hget, hversion, -⟩ := get_current hl hlog
    rw [hget] at h
    obtain rfl := Except.ok.inj h
    exact ⟨log, hlog, hversion.symm⟩

theorem currentIs_of_setCurrent {v : VersionNumber} (h : l.setCurrent key v = .ok l') :
    l'.CurrentIs key v := by
  simp only [setCurrent] at h
  split at h
  · exact absurd h (by simp)
  · rename_i log e hfind
    obtain rfl := Except.ok.inj h
    exact ⟨{ log with current := v }, by rw [log?_withLog, if_pos rfl], rfl⟩

theorem currentIs_of_submit {request : ApplyRequest} {s : Snapshot}
    (h : l.submit key request = (l', .ok s)) : l'.CurrentIs key s.version := by
  obtain ⟨log, base, -, -, -, -, -, hlogs⟩ := submit_ok h
  refine ⟨log.push ⟨s, some request.version, request.constraints⟩, ?_, rfl⟩
  rw [log?_congr hlogs, log?_withLog, if_pos rfl]

/-- A submission is refused as stale only if the current version is beyond the number that it
names. -/
theorem lt_of_submit_stale {request : ApplyRequest} {seen server : VersionNumber}
    (h : (l.submit key request).2 = .error (.staleVersion seen server)) :
    ∃ log known, l.log? key = some log ∧ request.expectedHead = some known ∧
      known < log.current := by
  simp only [submit] at h
  split at h
  · rename_i e hfind
    -- what is not found is reported as such
    simp only [find] at hfind
    split at hfind
    · rw [← Except.error.inj hfind] at h
      exact absurd h (by simp [EnvironmentKey.notFound])
    · split at hfind
      · rw [← Except.error.inj hfind] at h
        exact absurd h (by simp [EnvironmentKey.notFound])
      · exact absurd hfind (by simp)
  · rename_i log base hfind
    split at h
    · rename_i hbehind
      obtain ⟨known, hknown, hlt⟩ := Option.any_eq_true _ _ |>.mp hbehind
      exact ⟨log, known, (find_ok hfind).1, hknown, of_decide_eq_true hlt⟩
    · split at h
      · exact absurd h (by simp)
      · split at h
        · rename_i e hsolve
          -- the solver knows nothing of versions
          simp only [solve] at hsolve
          split at hsolve
          · exact absurd hsolve (by simp)
          · rw [← Except.error.inj hsolve] at h
            exact absurd h (by simp)
        · exact absurd h (by simp)

end Ledger

/-! ## Looking -/

/-- Shows the current version of the ledger, if it succeeds. -/
def Operation.looks : Operation → Bool
  | .load none => true
  | .select _ => true
  | .apply _ => true
  | .confirm => true
  | _ => false

/-- What the task has found, or will look for, is the current version. -/
def Task.Shows (t : Task) (key : EnvironmentKey) (l : Ledger) : Prop :=
  match t with
  | .loadFetch (some v) => l.CurrentIs key v
  | .loadPrevious s => l.CurrentIs key s.version
  | .loadNext s _ => l.CurrentIs key s.version
  | .loadFetch none => True
  | .selecting _ => True
  | .checking _ => True
  | .submitting .. => True
  | _ => False

/-- The same of what a task has come to; a version that is returned is the current one. -/
def Progress.Shows (p : Progress) (key : EnvironmentKey) (l : Ledger) : Prop :=
  match p with
  | .waiting t => t.Shows key l
  | .finished (.ok (.version s)) => l.CurrentIs key s.version
  | .finished _ => True

namespace Replica

/-- An answer of the ledger leaves the current version as the task has found it, or makes the one
current that the task goes on with. -/
theorem Resumed.shows {r r' : Replica} {t : Task} {l : Ledger} {p : Progress}
    (h : Resumed r t (l.answer (t.call r.key)).2 r' p) (hl : l.WellFormed)
    (ht : t.Shows r.key l) : p.Shows r.key (l.answer (t.call r.key)).1 := by
  generalize ha : (l.answer (t.call r.key)).2 = a at h
  cases h with
  | selected v =>
    show (l.answer (.select r.key v)).1.CurrentIs r.key v
    simp only [Ledger.answer] at ha ⊢
    cases hset : l.setCurrent r.key v with
    | error e => exact absurd ha (by simp [hset])
    | ok l' => exact Ledger.currentIs_of_setCurrent hset
  | fetched v s howned hversion =>
    show l.CurrentIs r.key s.version
    cases v with
    | none => exact Ledger.currentIs_of_get hl ha
    | some n =>
      rw [hversion n rfl]
      exact ht
  | previous s p => exact ht
  | loaded s p n => exact ht
  | applied c m s howned hnewer => exact Ledger.currentIs_of_submit (Prod.ext rfl ha)
  -- a step shows another version than the current one
  | reached => exact absurd ht (by simp [Task.Shows])
  | stepped => exact absurd ht (by simp [Task.Shows])
  | _ => trivial

/-- A look that succeeds returns the current version, and the replica has seen its number. -/
theorem Ran.shown {r r' : Replica} {t : Task} {l l' : Ledger} {result : Except Error Outcome}
    (h : Ran r t l r' result l') (hl : l.WellFormed) (ht : t.Shows r.key l) {s : Snapshot}
    (hs : result = .ok (.version s)) :
    l'.CurrentIs r.key s.version ∧ s.version ≤ r'.knownHead := by
  induction h with
  | @last r r' t l result h =>
    have hresumed := r.resumed t (l.answer (t.call r.key)).2
    rw [h] at hresumed
    have hshows := hresumed.shows hl ht
    rw [hs] at hshows
    refine ⟨hshows, ?_⟩
    rw [hresumed.knownHead, hs]
    exact Nat.le_max_right _ _
  | @next r r₁ r' t t₁ l l' result h hrest ih =>
    have hresumed := r.resumed t (l.answer (t.call r.key)).2
    rw [h] at hresumed
    have hshows := hresumed.shows hl ht
    have hkey : r₁.key = r.key := hresumed.key
    rw [hkey] at ih
    exact ih (hl.advance (Ledger.advance_answer _ hl)) hshows hs

/-- Before its first answer a look has found nothing yet. -/
theorem shows_start {r r₁ : Replica} {o : Operation} {t : Task}
    (h : r.start o = (r₁, .waiting t)) (ho : o.looks = true) (key : EnvironmentKey) (l : Ledger) :
    t.Shows key l := by
  cases o with
  | load v =>
    cases v with
    | none =>
      obtain rfl := Progress.waiting.inj (congrArg Prod.snd h)
      trivial
    | some n => exact absurd ho (by simp [Operation.looks])
  | select v =>
    obtain rfl := Progress.waiting.inj (congrArg Prod.snd h)
    trivial
  | apply force =>
    simp only [start] at h
    split at h
    · exact absurd (congrArg Prod.snd h) (by simp)
    · obtain rfl := Progress.waiting.inj (congrArg Prod.snd h)
      cases force <;> trivial
  | confirm =>
    simp only [start] at h
    split at h
    · exact absurd (congrArg Prod.snd h) (by simp)
    · split at h
      · exact absurd (congrArg Prod.snd h) (by simp)
      · split at h
        · exact absurd (congrArg Prod.snd h) (by simp)
        · obtain rfl := Progress.waiting.inj (congrArg Prod.snd h)
          trivial
  | _ => exact absurd ho (by simp [Operation.looks])

theorem Performed.shown {r r' : Replica} {o : Operation} {l l' : Ledger}
    {result : Except Error Outcome} (h : Performed r o l r' result l') (hl : l.WellFormed)
    (ho : o.looks = true) {s : Snapshot} (hs : result = .ok (.version s)) :
    l'.CurrentIs r.key s.version ∧ s.version ≤ r'.knownHead := by
  have hstarted := r.started o
  cases h with
  | atOnce h =>
    -- what ends without any call has shown nothing
    rw [h, hs] at hstarted
    exact absurd hstarted.frame.2.2.2.2 (by simp [Progress.installed?])
  | @asking r₁ r' t l' result h hran =>
    rw [h] at hstarted
    have hkey : r₁.key = r.key := hstarted.frame.1
    rw [← hkey]
    exact hran.shown hl (shows_start h ho _ _) hs

/-! ## Applying -/

/-- The check that comes before a submission. -/
theorem resume_checking {r : Replica} {c : Claim} {l : Ledger} {log : VersionLog}
    (hl : l.WellFormed) (hlog : l.log? r.key = some log) :
    r.resume (.checking c) (l.get r.key none) =
      if log.current > c.knownHead then r.refuseStale c .checked log.current
      else (r, .waiting (.submitting c .checked)) := by
  obtain ⟨s, hget, hversion, -⟩ := Ledger.get_current hl hlog
  simp only [resume, hget, hversion]

/-- A result is stale only if the ledger says so. -/
theorem settle_ne_stale {r r' : Replica} {c : Claim} {m : Manner} {a : Except Error Snapshot}
    {result : Except Error Outcome} (h : r.settle c m a = (r', .finished result))
    (ha : ∀ seen server, a ≠ .error (.staleVersion seen server)) (seen server : VersionNumber) :
    result ≠ .error (.staleVersion seen server) := by
  cases a with
  | ok s =>
    simp only [settle] at h
    split at h
    · rw [← Progress.finished.inj (congrArg Prod.snd h)]
      simp
    · rw [← Progress.finished.inj (congrArg Prod.snd h)]
      simp
  | error e =>
    cases e with
    | staleVersion seen' server' => exact absurd rfl (ha seen' server')
    | _ =>
      rw [← Progress.finished.inj (congrArg Prod.snd h)]
      simp

/-- An apply compares the current version with the newest number that the replica has seen. If the
current version is beyond that, nothing is sent; if not, the batch is submitted, and is not refused
as stale. -/
theorem performed_apply {r claimed : Replica} {c : Claim} {l : Ledger} {log : VersionLog}
    (hclaim : r.claim = .ok (c, claimed)) (hl : l.WellFormed) (hlog : l.log? r.key = some log) :
    (c.knownHead < log.current → ∃ r', Performed r (.apply false) l r'
      (.error (.staleVersion c.knownHead log.current)) l) ∧
    (log.current ≤ c.knownHead → ∃ r' result, Performed r (.apply false) l r' result
        (l.submit r.key (Manner.checked.request c)).1 ∧
      ∀ seen server, result ≠ .error (.staleVersion seen server)) := by
  have hstart : r.start (.apply false) = (claimed, .waiting (.checking c)) := by
    simp [start, hclaim]
  have hkey : claimed.key = r.key := by
    obtain ⟨-, -, -, -, -, rfl⟩ := claim_ok hclaim
    rfl
  rw [← hkey] at hlog ⊢
  have hcheck := resume_checking (c := c) hl hlog
  constructor
  · intro hbehind
    rw [if_pos hbehind] at hcheck
    exact ⟨_, .asking hstart (.last hcheck)⟩
  · intro hseen
    rw [if_neg (Nat.not_lt.mpr hseen)] at hcheck
    rcases hsettle : claimed.settle c .checked
      (l.submit claimed.key (Manner.checked.request c)).2 with ⟨r', p⟩
    cases p with
    | waiting t => exact absurd (congrArg Prod.snd hsettle) (settle_finished _ _ _ _ t)
    | finished result =>
      refine ⟨r', result, .asking hstart (.next hcheck (.last hsettle)), ?_⟩
      refine settle_ne_stale hsettle ?_
      -- the request names the newest number seen, which the current version is not beyond
      intro seen server hstale
      obtain ⟨log', known, hlog', hknown, hlt⟩ := Ledger.lt_of_submit_stale hstale
      obtain rfl := Option.some.inj (hlog.symm.trans hlog')
      obtain rfl : c.knownHead = known := by simpa [Manner.request] using hknown
      exact Nat.lt_irrefl _ (Nat.lt_of_lt_of_le hlt hseen)

end Replica

end VersionedTopology

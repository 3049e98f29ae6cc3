/-
  VersionedTopology.Proofs.Replica.Transition

  Everything that an operation of a replica can do.

  `Started` lists what starting an operation can lead to, `Resumed` what the answer
  to its call can lead to. Each has one constructor for each way out, guards
  included, so a property of all operations is proved by cases over the two lists.
  A version is installed in two places only: at the end of a load or a step, and
  at the end of an accepted submission.
-/

import VersionedTopology.Proofs.Replica.Coherent

namespace VersionedTopology

/-! ## What tasks and results carry -/

/-- The version that a task has fetched and is going to install. -/
def Task.fetched? : Task → Option Snapshot
  | .loadPrevious s => some s
  | .loadNext s _ => some s
  | .stepFar _ _ _ s => some s
  | _ => none

/-- The claim that a task is to submit, and how. -/
def Task.submission? : Task → Option (Claim × Manner)
  | .checking c => some (c, .checked)
  | .submitting c m => some (c, m)
  | _ => none

/-- The server's version by which an answer shows a submission to be stale: it is ahead of what the
claim had seen, or the server gives it as the reason of its refusal. -/
def Task.refusal? (key : EnvironmentKey) : (t : Task) → (t.call key).Answer → Option VersionNumber
  | .checking c, a =>
    match a with
    | .ok s => if s.version > c.knownHead then some s.version else none
    | .error _ => none
  | .submitting _ _, a =>
    match a with
    | .error (.staleVersion _ server) => some server
    | _ => none
  | _, _ => none

/-- A submission that is told to be stale without a server's version to show for it has only asked
for the current version. -/
theorem Task.checking_of_staleVersion {key : EnvironmentKey} {t : Task}
    {a : (t.call key).Answer} {c : Claim} {m : Manner} {seen server : VersionNumber}
    (ht : t.submission? = some (c, m)) (hserver : t.refusal? key a = none)
    (ha : a = .error (.staleVersion seen server)) : t = .checking c := by
  subst ha
  cases t with
  | checking c' =>
    simp only [Task.submission?, Option.some.injEq, Prod.mk.injEq] at ht
    rw [ht.1]
  | submitting c' m' => exact absurd hserver (by simp [Task.refusal?])
  | _ => exact absurd ht (by simp [Task.submission?])

/-- How an operation submits, if it does. -/
def Operation.manner? : Operation → Option Manner
  | .apply false => some .checked
  | .apply true => some .forced
  | .confirm => some .confirmed
  | _ => none

/-- The version that a finished operation has installed. An operation returns a version, or a move
to one, exactly when it has made that version current. -/
def Progress.installed? : Progress → Option Snapshot
  | .finished (.ok (.version s)) => some s
  | .finished (.ok (.navigation n)) => n.snapshot?
  | _ => none

namespace Replica

/-! ## Starting an operation -/

/-- What starting an operation leads to. -/
inductive Started (r : Replica) : Operation → Replica → Progress → Prop
  /-- A first question that submits nothing. -/
  | asked (o : Operation) (t : Task) (ho : o.manner? = none) (hfetched : t.fetched? = none)
      (hclaim : t.submission? = none) (hselect : ∀ v, t = .selecting v → o = .select v) :
      Started r o r (.waiting t)
  /-- An end without any call. -/
  | ended (o : Operation) (result : Except Error Outcome)
      (hnone : (Progress.finished result).installed? = none) :
      Started r o r (.finished result)
  | claimed (force : Bool) (c : Claim) (r' : Replica) (h : r.claim = .ok (c, r')) :
      Started r (.apply force) r'
        (.waiting (if force then .submitting c .forced else .checking c))
  | confirmed (c : Claim) (r' : Replica) (hattempted : r.gate.attempted = true)
      (hpermitted : r.gate.permitted = true) (h : r.claim = .ok (c, r')) :
      Started r .confirm { r' with gate := r'.gate.beginResolve }
        (.waiting (.submitting c .confirmed))

theorem started (r : Replica) (o : Operation) :
    Started r o (r.start o).1 (r.start o).2 := by
  cases o with
  | load v => exact .asked _ _ rfl rfl rfl (by simp)
  | select v => exact .asked _ _ rfl rfl rfl (by simp)
  | step d =>
    simp only [start]
    split
    · exact .asked _ _ rfl rfl rfl (by simp)
    · exact .ended _ _ rfl
  | listConstraints => exact .asked _ _ rfl rfl rfl (by simp)
  | apply force =>
    simp only [start]
    split
    · exact .ended _ _ rfl
    · rename_i c r' hclaim
      exact .claimed force c r' hclaim
  | confirm =>
    simp only [start]
    split
    · exact .ended _ _ rfl
    · rename_i hattempted
      split
      · exact .ended _ _ rfl
      · rename_i hpermitted
        split
        · exact .ended _ _ rfl
        · rename_i c r' hclaim
          exact .confirmed c r' (by simpa using hattempted) (by simpa using hpermitted) hclaim

/-- Starting an operation installs nothing. -/
theorem Started.frame {r r' : Replica} {o : Operation} {p : Progress} (h : Started r o r' p) :
    r'.key = r.key ∧ r'.current = r.current ∧ r'.knownHead = r.knownHead ∧
      r'.batch = r.batch ∧ p.installed? = none := by
  cases h with
  | asked => exact ⟨rfl, rfl, rfl, rfl, rfl⟩
  | ended _ _ hnone => exact ⟨rfl, rfl, rfl, rfl, hnone⟩
  | claimed force c r' h =>
    obtain ⟨-, -, -, -, -, rfl⟩ := claim_ok h
    exact ⟨rfl, rfl, rfl, rfl, rfl⟩
  | confirmed c r' _ _ h =>
    obtain ⟨-, -, -, -, -, rfl⟩ := claim_ok h
    exact ⟨rfl, rfl, rfl, rfl, rfl⟩

/-! ## Taking an answer -/

/-- What the answer to a task's call leads to. -/
inductive Resumed (r : Replica) :
    (t : Task) → (t.call r.key).Answer → Replica → Progress → Prop
  /-- An error ends an operation that submits nothing. -/
  | failed {t : Task} {a : (t.call r.key).Answer} (e : Error) (ht : t.submission? = none) :
      Resumed r t a r (.finished (.error e))
  | listed (cs : List Constraint) :
      Resumed r .listing (.ok cs) r (.finished (.ok (.constraints cs)))
  | selected (v : VersionNumber) :
      Resumed r (.selecting v) (.ok ()) r (.waiting (.loadFetch (some v)))
  | fetched (v : Option VersionNumber) (s : Snapshot) (howned : s.key = r.key)
      (hversion : ∀ n, v = some n → s.version = n) :
      Resumed r (.loadFetch v) (.ok s) r (.waiting (.loadPrevious s))
  | previous (s : Snapshot) (p : Option VersionNumber) :
      Resumed r (.loadPrevious s) (.ok p) r (.waiting (.loadNext s p))
  | loaded (s : Snapshot) (p n : Option VersionNumber) :
      Resumed r (.loadNext s p) (.ok n) ((r.install s ⟨p, n⟩).emit (.loaded s.version))
        (.finished (.ok (.version s)))
  | reached (d : Direction) (left target : VersionNumber) (s : Snapshot)
      (howned : s.key = r.key) (hversion : s.version = target) :
      Resumed r (.stepFetch d left target) (.ok s) r (.waiting (.stepFar d left target s))
  | stepped (d : Direction) (left target : VersionNumber) (s : Snapshot)
      (far : Option VersionNumber) :
      Resumed r (.stepFar d left target s) (.ok far)
        ((r.install s (Pointers.afterStep d left far)).emit (.navigated left target d))
        (.finished (.ok (.navigation (.moved s))))
  | checked (c : Claim) (s : Snapshot) (h : s.version ≤ c.knownHead) :
      Resumed r (.checking c) (.ok s) r (.waiting (.submitting c .checked))
  /-- The server is ahead of a submission. -/
  | stale {t : Task} {a : (t.call r.key).Answer} (c : Claim) (m : Manner)
      (server : VersionNumber) (ht : t.submission? = some (c, m))
      (hserver : t.refusal? r.key a = some server) :
      Resumed r t a ((r.recordStale c server).release m)
        (.finished (.error (.staleVersion c.knownHead server)))
  /-- Any other failure of a submission: a call fails, or the result cannot be used. -/
  | rejected {t : Task} {a : (t.call r.key).Answer} (c : Claim) (m : Manner) (e : Error)
      (ht : t.submission? = some (c, m)) (hserver : t.refusal? r.key a = none)
      (he : a = .error e ∨ e.kind ≠ .staleVersion) :
      Resumed r t a (r.release m) (.finished (.error e))
  | applied (c : Claim) (m : Manner) (s : Snapshot) (howned : s.key = r.key)
      (hnewer : c.knownHead < s.version) :
      Resumed r (.submitting c m) (.ok s) ((r.installApplied c s).release m)
        (.finished (.ok (.version s)))

/-- A fetched version that passes the check is the one that was asked for. -/
theorem checkFetched_ok {r : Replica} {v : Option VersionNumber} {s s' : Snapshot}
    (h : r.checkFetched v s = .ok s') :
    s' = s ∧ s.key = r.key ∧ ∀ n, v = some n → s.version = n := by
  simp only [checkFetched] at h
  split at h
  · exact absurd h (by simp)
  · rename_i howned
    have hkey : s.key = r.key := by simpa [owns] using howned
    split at h
    · simp only [Except.ok.injEq] at h
      exact ⟨h.symm, hkey, by simp⟩
    · split at h
      · exact absurd h (by simp)
      · rename_i n hversion
        simp only [Except.ok.injEq] at h
        refine ⟨h.symm, hkey, ?_⟩
        intro n' hn
        simp only [Option.some.injEq] at hn
        simpa [← hn] using hversion

/-- A failed fetch, or a version that was not asked for, is an error. -/
theorem bind_checkFetched_ok {r : Replica} {v : Option VersionNumber}
    {a : Except Error Snapshot} {s : Snapshot} (h : a.bind (r.checkFetched v) = .ok s) :
    a = .ok s ∧ s.key = r.key ∧ ∀ n, v = some n → s.version = n := by
  cases a with
  | error e => exact absurd h (by simp [Except.bind])
  | ok s' =>
    obtain ⟨rfl, hcheck⟩ := checkFetched_ok (h : r.checkFetched v s' = .ok s)
    exact ⟨rfl, hcheck⟩

theorem settle_resumed (r : Replica) (c : Claim) (m : Manner) (a : Except Error Snapshot) :
    Resumed r (.submitting c m) a (r.settle c m a).1 (r.settle c m a).2 := by
  cases a with
  | ok s =>
    simp only [settle]
    split
    · exact .rejected c m _ rfl rfl (.inr (by simp [Error.kind]))
    · -- both halves of the check have passed
      rename_i h
      simp only [owns, Bool.or_eq_true, Bool.not_eq_true', decide_eq_false_iff_not,
        decide_eq_true_eq, not_or, not_not, Nat.not_le] at h
      exact .applied c m s h.1 h.2
  | error e =>
    cases e with
    | staleVersion seen server => exact .stale c m server rfl rfl
    | _ => exact .rejected c m _ rfl rfl (.inl rfl)

theorem resumed (r : Replica) (t : Task) (a : (t.call r.key).Answer) :
    Resumed r t a (r.resume t a).1 (r.resume t a).2 := by
  cases t with
  | loadFetch v =>
    simp only [resume]
    split
    · exact .failed _ rfl
    · rename_i s h
      obtain ⟨rfl, howned, hversion⟩ := bind_checkFetched_ok h
      exact .fetched v s howned hversion
  | loadPrevious s =>
    cases a with
    | error e => exact .failed e rfl
    | ok p => exact .previous s p
  | loadNext s p =>
    cases a with
    | error e => exact .failed e rfl
    | ok n => exact .loaded s p n
  | selecting v =>
    cases a with
    | error e => exact .failed e rfl
    | ok u => exact .selected v
  | stepFetch d left target =>
    simp only [resume]
    split
    · exact .failed _ rfl
    · rename_i s h
      obtain ⟨rfl, howned, hversion⟩ := bind_checkFetched_ok h
      exact .reached d left target s howned (hversion target rfl)
  | stepFar d left target s =>
    cases a with
    | error e => exact .failed e rfl
    | ok far => exact .stepped d left target s far
  | listing =>
    cases a with
    | error e => exact .failed e rfl
    | ok cs => exact .listed cs
  | checking c =>
    cases a with
    | error e => exact .rejected c .checked e rfl rfl (.inl rfl)
    | ok s =>
      simp only [resume]
      split
      · rename_i h
        exact .stale c .checked s.version rfl (if_pos h)
      · rename_i h
        exact .checked c s (Nat.le_of_not_lt h)
  | submitting c m => exact settle_resumed r c m a

theorem Resumed.key {r r' : Replica} {t : Task} {a : (t.call r.key).Answer} {p : Progress}
    (h : Resumed r t a r' p) : r'.key = r.key := by
  cases h <;> simp

/-- The current version is the one that was installed last. -/
theorem Resumed.current {r r' : Replica} {t : Task} {a : (t.call r.key).Answer} {p : Progress}
    (h : Resumed r t a r' p) : r'.current = p.installed?.or r.current := by
  cases h <;> simp [Progress.installed?, Navigation.snapshot?]

theorem Resumed.knownHead {r r' : Replica} {t : Task} {a : (t.call r.key).Answer} {p : Progress}
    (h : Resumed r t a r' p) :
    r'.knownHead = p.installed?.elim r.knownHead fun s => max r.knownHead s.version := by
  cases h <;> simp [Progress.installed?, Navigation.snapshot?]

/-- Ending a task where it waits at most releases the pipeline. -/
theorem cancel_eq (r : Replica) (t : Task) :
    (t.submission? = none ∧ r.cancel t = r) ∨
      ∃ c m, t.submission? = some (c, m) ∧ r.cancel t = r.release m := by
  cases t with
  | checking c => exact .inr ⟨c, .checked, rfl, rfl⟩
  | submitting c m => exact .inr ⟨c, m, rfl, rfl⟩
  | _ => exact .inl ⟨rfl, rfl⟩

end Replica
end VersionedTopology

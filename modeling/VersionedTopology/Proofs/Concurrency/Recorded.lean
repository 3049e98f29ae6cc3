/-
  VersionedTopology.Proofs.Concurrency.Recorded

  Every version in a fleet comes from the log.

  A version reaches a site in an answer, is carried by an open operation until it is
  installed, and never changes on the way. The answer came from the ledger, which had the
  version recorded when it answered, and below the greatest number records stay. So
  whatever is carried or installed at a site is in the log of its environment. As long
  as nobody selects, the current version of a log is its head.
-/

import VersionedTopology.Proofs.Concurrency.Fleet

namespace VersionedTopology

/-! ## What open operations carry -/

/-- The operation has fetched the version, or the version is in the answer on its way. -/
def Flight.Carries (f : Flight) (key : EnvironmentKey) (v : Snapshot) : Prop :=
  f.task.fetched? = some v ∨
    ∃ store, f.answeredBy = some store ∧
      (f.task.call key).snapshot? (store (f.task.call key)) = some v

namespace Site

/-- An operation that goes on with a version has fetched it, or has just been answered with it. -/
theorem carries_resumed {r r' : Replica} {t next : Task} {a : (t.call r.key).Answer}
    {v : Snapshot} (h : Replica.Resumed r t a r' (.waiting next)) (hv : next.fetched? = some v) :
    t.fetched? = some v ∨ (t.call r.key).snapshot? a = some v := by
  cases h with
  | fetched _ s _ _ => exact .inr hv
  | previous s _ => exact .inl hv
  | reached _ _ _ s _ _ => exact .inr hv
  | _ => exact absurd hv (by simp [Task.fetched?])

/-- An operation that installs a version has fetched it, or has just been answered with it. -/
theorem carries_installed {r r' : Replica} {t : Task} {a : (t.call r.key).Answer} {p : Progress}
    {v : Snapshot} (h : Replica.Resumed r t a r' p) (hv : p.installed? = some v) :
    t.fetched? = some v ∨ (t.call r.key).snapshot? a = some v := by
  cases h with
  | loaded s _ _ => exact .inl hv
  | stepped _ _ _ s _ => exact .inl hv
  | applied _ _ s _ _ => exact .inr hv
  | _ => exact absurd hv (by simp [Progress.installed?])

/-- A version that is carried has been carried before, or has come with the answer that the store
has just given. -/
theorem carries_step {s : Site} {t : Turn} {name : Nat} {f : Flight} {v : Snapshot}
    (hf : (s.step t).flights name = some f) (hv : f.Carries s.replica.key v) :
    (∃ f', s.flights name = some f' ∧ f'.Carries s.replica.key v) ∨
      ∃ task, t.move = .serve name ∧ s.flights name = some ⟨task, none⟩ ∧
        (task.call s.replica.key).snapshot? (t.store (task.call s.replica.key)) = some v := by
  cases origin hf with
  | kept _ hkept => exact .inl ⟨f, hkept, hv⟩
  | served task hmove hasked =>
    obtain hfetched | ⟨store, hstore, hanswer⟩ := hv
    · exact .inl ⟨_, hasked, .inl hfetched⟩
    · obtain rfl := Option.some.inj hstore
      exact .inr ⟨task, hmove, hasked, hanswer⟩
  | started o r task hmove hstarted =>
    -- a started operation has fetched nothing and has no answer yet
    obtain hfetched | ⟨store, hstore, -⟩ := hv
    · simp only [fetched?_started hstarted] at hfetched
      exact absurd hfetched (by simp)
    · exact absurd hstore (by simp)
  | resumed task next store r hmove hanswered hresumed =>
    obtain hfetched | ⟨store', hstore', -⟩ := hv
    · obtain hbefore | hanswer := carries_resumed hresumed hfetched
      · exact .inl ⟨_, hanswered, .inl hbefore⟩
      · exact .inl ⟨_, hanswered, .inr ⟨store, rfl, hanswer⟩⟩
    · exact absurd hstore' (by simp)

/-- A version that is installed has been carried by the operation that installs it. -/
theorem carries_of_installed? {s : Site} {m : Move} {v : Snapshot}
    (h : s.installed? m = some v) :
    ∃ name f, s.flights name = some f ∧ f.Carries s.replica.key v := by
  obtain ⟨name, task, store, r, p, -, hflight, -, hinstalled, hresumed⟩ := installed?_eq_some h
  obtain hbefore | hanswer := carries_installed hresumed hinstalled
  · exact ⟨name, _, hflight, .inl hbefore⟩
  · exact ⟨name, _, hflight, .inr ⟨store, rfl, hanswer⟩⟩

end Site

namespace Fleet

variable {ι : Type} [DecidableEq ι]

/-! ## What is carried is recorded -/

/-- The ledger has every version that an operation of a site carries, and every version that the
site has installed. -/
structure Recorded (z : Fleet ι) (i : ι) (installed : List Snapshot) : Prop where
  carried : ∀ name f v, (z.sites i).flights name = some f →
    f.Carries (z.sites i).replica.key v → z.ledger.Records (z.sites i).replica.key v
  installed : ∀ v ∈ installed, z.ledger.Records (z.sites i).replica.key v

/-- The turn of a site is its part of a move. -/
theorem turn?_eq_some {z : Fleet ι} {i : ι} {m : Move ι} {t : Site.Turn}
    (h : z.turn? i m = some t) : m = .site i t.move ∧ t.store = z.ledger.oracle := by
  cases m with
  | site j m =>
    simp only [turn?] at h
    split at h
    · rename_i hj
      rw [← Option.some.inj h, hj]
      exact ⟨rfl, rfl⟩
    · exact absurd h (by simp)
  | direct a => exact absurd h (by simp [turn?])

/-- The version in an answer is recorded by the move that gives the answer. -/
theorem records_serve {z : Fleet ι} (hl : z.ledger.WellFormed) {i : ι} {name : Nat}
    {task : Task} {v : Snapshot} (hflight : (z.sites i).flights name = some ⟨task, none⟩)
    (hanswer : (task.call (z.sites i).replica.key).snapshot?
      (z.ledger.oracle (task.call (z.sites i).replica.key)) = some v) :
    (z.step (.site i (.serve name))).ledger.Records (z.sites i).replica.key v := by
  rw [step_serve_ledger hflight]
  refine Ledger.records_answer hl ?_ hanswer
  cases task with
  | loadFetch version => exact .inl ⟨_, rfl⟩
  | stepFetch _ _ target => exact .inl ⟨_, rfl⟩
  | checking c => exact .inl ⟨_, rfl⟩
  | submitting c manner => exact .inr ⟨_, rfl⟩
  | _ => exact absurd hanswer (by simp [Backend.Call.snapshot?])

/-- A version that an operation carries was recorded at some point of the run. -/
theorem exists_records_of_carries {schema : Schema} {keys : ι → EnvironmentKey}
    {permitted : ι → Bool} {ms : List (Move ι)} {i : ι} {name : Nat} {f : Flight} {v : Snapshot}
    (hf : (((Fleet.new schema keys permitted).run ms).sites i).flights name = some f)
    (hv : f.Carries (keys i) v) :
    ∃ earlier, earlier <+: ms ∧
      ((Fleet.new schema keys permitted).run earlier).ledger.Records (keys i) v := by
  -- by the last move: the ledger has answered with the version, or it was carried before
  induction ms using List.reverseRecOn generalizing f with
  | nil => exact absurd hf (by simp [new, Site.new])
  | append_singleton ms m ih =>
    have hbefore : ∀ f', (((Fleet.new schema keys permitted).run ms).sites i).flights name =
          some f' → f'.Carries (keys i) v → ∃ earlier, earlier <+: ms ++ [m] ∧
          ((Fleet.new schema keys permitted).run earlier).ledger.Records (keys i) v := by
      intro f' hf' hv'
      obtain ⟨earlier, hle, hrecords⟩ := ih hf' hv'
      exact ⟨earlier, hle.trans (List.prefix_append ms [m]), hrecords⟩
    have hkey := run_new_key schema keys permitted i ms
    rw [run_concat, step_sites] at hf
    cases hturn : ((Fleet.new schema keys permitted).run ms).turn? i m with
    | none =>
      rw [hturn] at hf
      exact hbefore f hf hv
    | some t =>
      rw [hturn] at hf
      rw [← hkey] at hv
      obtain ⟨rfl, hstore⟩ := turn?_eq_some hturn
      rcases Site.carries_step hf hv with ⟨f', hf', hv'⟩ | ⟨task, hmove, hflight, hanswer⟩
      · exact hbefore f' hf' (hkey ▸ hv')
      · rw [hstore] at hanswer
        have hrecords := records_serve
          (wellFormed_run (wellFormed_new schema keys permitted) ms) hflight hanswer
        refine ⟨_, List.prefix_refl _, ?_⟩
        rw [run_concat, hmove, ← hkey]
        exact hrecords

/-- A version that a site has installed was recorded at some point of the run. -/
theorem exists_records_of_installs {schema : Schema} {keys : ι → EnvironmentKey}
    {permitted : ι → Bool} {ms : List (Move ι)} {i : ι} {v : Snapshot}
    (hv : v ∈ (Fleet.new schema keys permitted).installs i ms) :
    ∃ earlier, earlier <+: ms ∧
      ((Fleet.new schema keys permitted).run earlier).ledger.Records (keys i) v := by
  induction ms using List.reverseRecOn with
  | nil => exact absurd hv (by simp [installs, turns, Site.installs])
  | append_singleton ms m ih =>
    have hbefore : ∃ earlier, earlier <+: ms ∧
        ((Fleet.new schema keys permitted).run earlier).ledger.Records (keys i) v := by
      rw [installs_concat] at hv
      rcases List.mem_append.mp hv with hold | hnow
      · exact ih hold
      · -- what the last move installs, its operation has carried
        obtain ⟨t, -, hnow⟩ := Option.bind_eq_some_iff.mp (Option.mem_toList.mp hnow)
        obtain ⟨name, f, hf, hcarries⟩ := Site.carries_of_installed? hnow
        rw [run_new_key] at hcarries
        exact exists_records_of_carries hf hcarries
    obtain ⟨earlier, hle, hrecords⟩ := hbefore
    exact ⟨earlier, hle.trans (List.prefix_append ms [m]), hrecords⟩

/-- An entry stays as it is through a run, if the greatest number is never in use. -/
theorem holds_run {z : Fleet ι} {key : EnvironmentKey} {v : VersionNumber} {e : LogEntry}
    {ms : List (Move ι)} (he : z.ledger.Holds key v e) (hl : z.ledger.WellFormed)
    (htop : (z.run ms).ledger.BelowTop key) : (z.run ms).ledger.Holds key v e := by
  induction ms generalizing z with
  | nil => exact he
  | cons m ms ih =>
    have hadvance := advance_step m hl
    have hbelow := belowTop_of_run (hl.advance hadvance) htop
    exact ih (he.advance hl hadvance hbelow) (hl.advance hadvance) htop

/-- A recorded version stays recorded through a run, if the greatest number is never in use. -/
theorem records_run {z : Fleet ι} {key : EnvironmentKey} {v : Snapshot} {ms : List (Move ι)}
    (hv : z.ledger.Records key v) (hl : z.ledger.WellFormed)
    (htop : (z.run ms).ledger.BelowTop key) : (z.run ms).ledger.Records key v := by
  obtain ⟨e, he, hsnapshot⟩ := Ledger.records_iff.mp hv
  exact Ledger.records_iff.mpr ⟨e, holds_run he hl htop, hsnapshot⟩

/-- Whatever is carried or installed in a run is in the log, if the greatest number is never in
use. -/
theorem recorded_run (schema : Schema) (keys : ι → EnvironmentKey) (permitted : ι → Bool) (i : ι)
    (ms : List (Move ι))
    (htop : ((Fleet.new schema keys permitted).run ms).ledger.BelowTop (keys i)) :
    ((Fleet.new schema keys permitted).run ms).Recorded i
      ((Fleet.new schema keys permitted).installs i ms) := by
  have hkept : ∀ v, (∃ earlier, earlier <+: ms ∧
        ((Fleet.new schema keys permitted).run earlier).ledger.Records (keys i) v) →
      ((Fleet.new schema keys permitted).run ms).ledger.Records (keys i) v := by
    rintro v ⟨earlier, ⟨later, rfl⟩, hrecords⟩
    rw [run_append] at htop ⊢
    exact records_run hrecords
      (wellFormed_run (wellFormed_new schema keys permitted) earlier) htop
  constructor
  · intro name f v hf hv
    rw [run_new_key] at hv ⊢
    exact hkept v (exists_records_of_carries hf hv)
  · intro v hv
    rw [run_new_key]
    exact hkept v (exists_records_of_installs hv)

/-- The current version of a site is in the log, if the greatest number is never in use. -/
theorem records_current {schema : Schema} {keys : ι → EnvironmentKey} {permitted : ι → Bool}
    {i : ι} {ms : List (Move ι)} {v : Snapshot}
    (htop : ((Fleet.new schema keys permitted).run ms).ledger.BelowTop (keys i))
    (hv : (((Fleet.new schema keys permitted).run ms).sites i).replica.current = some v) :
    ((Fleet.new schema keys permitted).run ms).ledger.Records (keys i) v := by
  have hlast : ((Fleet.new schema keys permitted).installs i ms).getLast? = some v := by
    rw [run_new_sites, Site.run_current] at hv
    exact (Option.or_none ..).symm.trans hv
  have hrecorded := (recorded_run schema keys permitted i ms htop).installed v
    (List.mem_of_getLast? hlast)
  rwa [run_new_key] at hrecorded

/-! ## Without selections -/

/-- Makes another recorded version the current one, or starts an operation that does. -/
def Move.repoints : Move ι → Bool
  | .site _ (.start _ (.select _)) => true
  | .direct a => a.repoints
  | _ => false

/-- Without selections, a move makes every log grow at most. -/
theorem grows_step {z : Fleet ι} (hl : z.ledger.WellFormed)
    (hnone : ∀ i name f v, (z.sites i).flights name = some f → f.task ≠ .selecting v)
    {m : Move ι} (hm : m.repoints = false) : z.ledger.Grows (z.step m).ledger := by
  cases m with
  | site i m =>
    simp only [step]
    cases hasked : (z.sites i).asked? m with
    | none => exact z.ledger.grows_refl
    | some c =>
      obtain ⟨name, task, -, hflight, rfl⟩ := asked?_eq_some hasked
      refine Ledger.grows_answer hl ?_
      intro key v hselect
      cases task with
      | selecting w => exact hnone i name _ w hflight rfl
      | _ => exact absurd hselect (by simp)
  | direct a => exact Ledger.grows_act hl hm

/-- In a run without selections the current version of a log is its head. -/
theorem current_eq_head {schema : Schema} {keys : ι → EnvironmentKey} {permitted : ι → Bool}
    {ms : List (Move ι)} (hms : ∀ m ∈ ms, m.repoints = false) {key : EnvironmentKey}
    {log : VersionLog}
    (hlog : ((Fleet.new schema keys permitted).run ms).ledger.log? key = some log) :
    log.current = log.head := by
  induction ms using List.reverseRecOn generalizing log with
  | nil => exact absurd hlog (by simp [new, Ledger.log?])
  | append_singleton ms m ih =>
    have hbefore : ∀ m' ∈ ms, m'.repoints = false :=
      fun m' hm' => hms m' (List.mem_append_left _ hm')
    -- an open selection would go back to a move that starts one
    have hnone : ∀ i name f v,
        (((Fleet.new schema keys permitted).run ms).sites i).flights name = some f →
        f.task ≠ .selecting v := by
      intro i name f v hf htask
      rw [run_new_sites] at hf
      obtain ⟨t, ht, hmove⟩ := Site.exists_select hf htask
      obtain ⟨before, after, hsplit⟩ := List.append_of_mem ht
      obtain ⟨earlier, later, rfl, -, -⟩ := exists_move hsplit
      have hrepoints := hbefore (.site i t.move) (by simp)
      rw [hmove] at hrepoints
      exact absurd hrepoints (by simp [Move.repoints])
    have hgrows := grows_step (wellFormed_run (wellFormed_new schema keys permitted) ms) hnone
      (hms m (by simp))
    rw [run_concat] at hlog
    exact (hgrows key).current_eq_head (fun _ h => ih hbefore h) log hlog

end Fleet
end VersionedTopology

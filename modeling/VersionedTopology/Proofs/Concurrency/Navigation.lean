/-
  VersionedTopology.Proofs.Concurrency.Navigation

  Steps through the history, and back.

  A step goes to the neighbour that the pointer of its replica names. Neighbours are
  recorded, so the store has what the step asks for, and it cannot fail. It leaves the
  version that it came from as the neighbour on the other side, whatever the store would
  answer there by then. So as long as nothing else is installed, a step the other way leads
  back, also after another client has made newer branches.
-/

import VersionedTopology.Proofs.Concurrency.Completed
import VersionedTopology.Proofs.Concurrency.Pointers

namespace VersionedTopology
namespace Replica

variable {r : Replica} {d : Direction} {left : VersionNumber}

/-! ## One step on its own -/

/-- A step that ends without any call has nowhere to go. -/
theorem start_step_finished {result : Except Error Outcome}
    (h : (r.start (.step d)).2 = .finished result) :
    result = .ok (.navigation .unavailable) ∧ (r.current = none ∨ r.pointers.get d = none) := by
  simp only [start] at h
  split at h
  · exact absurd h (by simp)
  · rename_i hnone
    refine ⟨(Progress.finished.inj h).symm, ?_⟩
    cases hcurrent : r.current with
    | none => exact .inl rfl
    | some v =>
      cases hpointer : r.pointers.get d with
      | none => exact .inr rfl
      | some target => exact absurd hpointer (hnone v target hcurrent)

/-- The version that a step has asked for passes the check. -/
theorem resume_stepFetch {s : Snapshot} (hkey : s.key = r.key) :
    r.resume (.stepFetch d left s.version) (.ok s) =
      (r, .waiting (.stepFar d left s.version s)) := by
  simp [resume, checkFetched, owns, hkey, Except.bind]

/-- Before its end, a step has only to ask for what is beyond the version that it has fetched. -/
theorem Resumed.step_waiting {r' : Replica} {task next : Task} {target : VersionNumber}
    {a : (task.call r.key).Answer} (h : Resumed r task a r' (.waiting next))
    (htask : task = .stepFetch d left target ∨ ∃ w, task = .stepFar d left target w) :
    ∃ w, next = .stepFar d left target w := by
  obtain rfl | ⟨w, rfl⟩ := htask
  · cases h with
    | reached _ _ _ w => exact ⟨w, rfl⟩
  · cases h

/-- Only what makes a version current sets the pointers. -/
theorem Resumed.pointers {r' : Replica} {t : Task} {a : (t.call r.key).Answer} {p : Progress}
    (h : Resumed r t a r' p) (hnone : p.installed? = none) : r'.pointers = r.pointers := by
  cases h with
  | loaded | stepped | applied =>
    exact absurd hnone (by simp [Progress.installed?, Navigation.snapshot?])
  | stale | rejected => simp
  | _ => rfl

/-- On the answers of a ledger that holds the neighbour, a step goes to it. -/
theorem performed_step {l : Ledger} {v : Snapshot} {e : LogEntry} (hcurrent : r.current = some v)
    (hpointer : r.pointers.get d = some e.snapshot.version)
    (he : l.Holds r.key e.snapshot.version e) (hkey : e.snapshot.key = r.key) :
    ∃ r' far, Performed r (.step d) l r' (.ok (.navigation (.moved e.snapshot))) l ∧
      r'.key = r.key ∧ r'.current = some e.snapshot ∧
      r'.pointers = Pointers.afterStep d v.version far := by
  obtain ⟨far, hfar⟩ := he.exists_neighbor d
  refine ⟨(r.install e.snapshot (Pointers.afterStep d v.version far)).emit
    (.navigated v.version e.snapshot.version d), far, ?_, by simp, by simp, by simp⟩
  have hstart : r.start (.step d) = (r, .waiting (.stepFetch d v.version e.snapshot.version)) := by
    simp [start, hcurrent, hpointer]
  have hfetch : r.resume (.stepFetch d v.version e.snapshot.version)
      (l.answer (.fetch r.key (some e.snapshot.version))).2 =
        (r, .waiting (.stepFar d v.version e.snapshot.version e.snapshot)) := by
    have hanswer : (l.answer (.fetch r.key (some e.snapshot.version))).2 = .ok e.snapshot :=
      he.get_eq
    rw [hanswer]
    exact resume_stepFetch hkey
  have hreach : r.resume (.stepFar d v.version e.snapshot.version e.snapshot)
      (l.answer (.neighbor r.key e.snapshot.version d)).2 =
        ((r.install e.snapshot (Pointers.afterStep d v.version far)).emit
          (.navigated v.version e.snapshot.version d),
          .finished (.ok (.navigation (.moved e.snapshot)))) := by
    have hanswer : (l.answer (.neighbor r.key e.snapshot.version d)).2 = .ok far := hfar
    rw [hanswer]
    rfl
  exact .asking hstart (.next hfetch (.last hreach))

end Replica

namespace Site

variable {s : Site} {d : Direction} {name : Nat} {ts : List Turn}

/-! ## A step among other operations -/

/-- A step that is underway is at one of its two calls. -/
theorem Underway.step_task (h : Underway s name (.step d) ts) :
    ∃ v target f, s.replica.current = some v ∧ s.replica.pointers.get d = some target ∧
      (s.run ts).flights name = some f ∧
      (f.task = .stepFetch d v.version target ∨
        ∃ w, f.task = .stepFar d v.version target w) := by
  induction h with
  | started store hfree hlasts =>
    have hout := outcome?_start_of_free (.step d) hfree
    have hwaits : (s.replica.start (.step d)).2.ending? = none := by
      simpa [ending?, Move.operation?, hout] using hlasts
    obtain ⟨t, ht⟩ := Progress.ending?_eq_none hwaits
    obtain ⟨v, target, hcurrent, hpointer, rfl⟩ := Replica.start_step_waiting ht
    refine ⟨v, target, ⟨_, none⟩, hcurrent, hpointer, ?_, .inl rfl⟩
    simp only [run_cons, run_nil, step, hout, follow, ht, Progress.flight?]
    exact (flights_put s name name _).trans (if_pos rfl)
  | lasting t h hlasts ih =>
    obtain ⟨v, target, f, hcurrent, hpointer, hf, htask⟩ := ih
    obtain ⟨f', hf', hsame | ⟨store, -, hresumed⟩, -⟩ := (change _ t).task_of_lasting hf hlasts
    · exact ⟨v, target, f', hcurrent, hpointer, by rw [run_concat, hf'], hsame ▸ htask⟩
    · exact ⟨v, target, f', hcurrent, hpointer, by rw [run_concat, hf'],
        .inr (hresumed.step_waiting htask)⟩

/-- A step that is answered right ends where it was going. -/
theorem Underway.step_ended (h : Underway s name (.step d) ts) {l : Ledger}
    (horiented : (s.run ts).Oriented l) {t : Turn} {e : Ending}
    (hend : (s.run ts).ending? name t.move = some e) :
    e = .dropped ∨ ∃ v w far, s.replica.current = some v ∧
      s.replica.pointers.get d = some w.version ∧ e = .returned (.navigation (.moved w)) ∧
      ((s.run ts).step t).replica.current = some w ∧
      ((s.run ts).step t).replica.pointers = Pointers.afterStep d v.version far ∧
      l.Points s.replica.key v.version d (some w.version) := by
  obtain ⟨v, target, ⟨task, answeredBy⟩, hcurrent, hpointer, hf, htask⟩ := h.step_task
  obtain ⟨hright, hinformed⟩ := horiented.flights name _ hf
  obtain ⟨store, p, hstore, hp, hresume⟩ | ⟨hdropped, -⟩ := (change _ t).ended_eq hf hend
  · have hanswer := hinformed store hstore
    simp only at hresume hanswer htask hright
    obtain rfl | ⟨w, rfl⟩ := htask
    · -- the version is the one that was asked for, so the step goes on
      obtain ⟨w, hok, hkey, rfl⟩ := hanswer
      rw [hok, Replica.resume_stepFetch hkey] at hresume
      rw [← (Prod.mk.inj hresume).2] at hp
      exact absurd hp (by simp [Progress.ending?])
    · obtain ⟨hpoints, rfl⟩ := hright
      obtain ⟨far, hok, -⟩ := hanswer
      rw [hok] at hresume
      obtain ⟨hreplica, rfl⟩ := Prod.mk.inj hresume
      rw [run_key] at hpoints
      refine .inr ⟨v, w, far, hcurrent, hpointer, (Option.some.inj hp).symm, ?_, ?_, hpoints⟩
      · rw [← hreplica]
        simp
      · rw [← hreplica]
        simp
  · exact .inl hdropped

/-! ## While nothing is installed -/

theorem step_pointers {t : Turn} (h : s.installed? t.move = none) :
    (s.step t).replica.pointers = s.replica.pointers := by
  have hchange := s.change t
  generalize s.step t = s' at hchange ⊢
  cases hchange with
  | staged store c replaced r hstage =>
    obtain ⟨-, b, -, -, rfl⟩ := Replica.stage_ok hstage
    rfl
  | started store name o r p hfree hout hstarted => exact hstarted.intact.pointers
  | delivered store name task answered r p hflight hout hresumed =>
    exact hresumed.pointers (by simpa [installed?, hout] using h)
  | dropped store name f hflight =>
    obtain ⟨-, heq⟩ | ⟨c, m, -, heq⟩ := s.replica.cancel_eq f.task <;> simp [heq]
  | _ => rfl

/-- As long as nothing is installed, the current version and its pointers stay. -/
theorem run_of_installs_nil (h : s.installs ts = []) :
    (s.run ts).replica.current = s.replica.current ∧
      (s.run ts).replica.pointers = s.replica.pointers := by
  refine ⟨by rw [run_current, h]; rfl, ?_⟩
  induction ts using List.reverseRecOn with
  | nil => rfl
  | append_singleton ts t ih =>
    rw [installs_concat, List.append_eq_nil_iff, Option.toList_eq_nil_iff] at h
    rw [run_concat, step_pointers h.2, ih h.1]

end Site

namespace Fleet

variable {ι : Type} [DecidableEq ι]

/-! ## Steps in a fleet -/

theorem points_run {z : Fleet ι} {key : EnvironmentKey} {v : VersionNumber} {d : Direction}
    {p : Option VersionNumber} {ms : List (Move ι)} (h : z.ledger.Points key v d p)
    (hl : z.ledger.WellFormed) (htop : (z.run ms).ledger.BelowTop key) :
    (z.run ms).ledger.Points key v d p :=
  h.mono fun _ _ he => holds_run he hl htop

/-- A step from its start to its end: it is abandoned, or it has nowhere to go, or it goes to the
neighbour that its pointer has named and leaves its start on the other side. -/
theorem step_ends {schema : Schema} {keys : ι → EnvironmentKey} {permitted : ι → Bool} {i : ι}
    {before ms : List (Move ι)} {name : Nat} {d : Direction} {e : Ending}
    (htop : ((Fleet.new schema keys permitted).run (before ++ ms)).ledger.BelowTop (keys i))
    (h : Site.Life (((Fleet.new schema keys permitted).run before).sites i) name (.step d)
      (((Fleet.new schema keys permitted).run before).turns i ms) e) :
    let r := (((Fleet.new schema keys permitted).run before).sites i).replica
    let z := (Fleet.new schema keys permitted).run (before ++ ms)
    e = .dropped ∨
    (e = .returned (.navigation .unavailable) ∧ (r.current = none ∨ r.pointers.get d = none)) ∨
    ∃ v w far, r.current = some v ∧ r.pointers.get d = some w.version ∧
      e = .returned (.navigation (.moved w)) ∧ (z.sites i).replica.current = some w ∧
      (z.sites i).replica.pointers = Pointers.afterStep d v.version far ∧
      z.ledger.Points (keys i) v.version d (some w.version) := by
  intro r z
  have hsite : z.sites i = (((Fleet.new schema keys permitted).run before).sites i).run
      (((Fleet.new schema keys permitted).run before).turns i ms) := by
    rw [← run_sites, ← run_append]
  generalize hturns : ((Fleet.new schema keys permitted).run before).turns i ms = ts at h hsite
  cases h with
  | atOnce store e hfree hend =>
    have hfinished : (r.start (.step d)).2.ending? = some e := by
      simpa [Site.ending?, Site.Move.operation?, Site.outcome?_start_of_free _ hfree] using hend
    cases hstart : (r.start (.step d)).2 with
    | waiting t =>
      rw [hstart] at hfinished
      exact absurd hfinished (by simp [Progress.ending?])
    | finished result =>
      obtain ⟨rfl, hnone⟩ := Replica.start_step_finished hstart
      rw [hstart] at hfinished
      exact .inr (.inl ⟨(Option.some.inj hfinished).symm, hnone⟩)
  | @later us t e hunderway hend =>
    -- the turn that ends the step is a move at a moment when all was right
    obtain ⟨earlier, later, rfl, hus, -⟩ := exists_move hturns
    have hl : ∀ ns, ((Fleet.new schema keys permitted).run ns).ledger.WellFormed :=
      wellFormed_run (wellFormed_new schema keys permitted)
    have hsplit : (Fleet.new schema keys permitted).run
        (before ++ (earlier ++ .site i t.move :: later)) =
        ((Fleet.new schema keys permitted).run (before ++ earlier)).run
          (.site i t.move :: later) := by
      rw [← run_append, List.append_assoc]
    have hmoment := belowTop_of_run (hl (before ++ earlier)) (hsplit ▸ htop)
    have horiented := oriented_run schema keys permitted i (before ++ earlier) hmoment
    rw [run_append, run_sites, hus] at horiented
    rcases hunderway.step_ended horiented hend with rfl | ⟨v, w, far, hcurrent, hpointer, rfl,
      hreached, hpointers, hpoints⟩
    · exact .inl rfl
    · rw [run_new_key, ← run_append] at hpoints
      rw [← Site.run_concat, ← hsite] at hreached hpointers
      refine .inr (.inr ⟨v, w, far, hcurrent, hpointer, rfl, hreached, hpointers, ?_⟩)
      show ((Fleet.new schema keys permitted).run _).ledger.Points _ _ _ _
      rw [hsplit]
      exact points_run hpoints (hl (before ++ earlier)) (hsplit ▸ htop)

/-- A step that is performed with nothing in between. -/
theorem complete_step {z : Fleet ι} {i : ι} {d : Direction} {v : Snapshot} {e : LogEntry}
    (hl : z.ledger.WellFormed) (hcurrent : (z.sites i).replica.current = some v) {n : VersionNumber}
    (hpointer : (z.sites i).replica.pointers.get d = some n)
    (he : z.ledger.Holds (z.sites i).replica.key n e) :
    ∃ z' far, z.complete i (.step d) = (.ok (.navigation (.moved e.snapshot)), z') ∧
      z'.ledger = z.ledger ∧ (z'.sites i).replica.key = (z.sites i).replica.key ∧
      (z'.sites i).replica.current = some e.snapshot ∧
      (z'.sites i).replica.pointers = Pointers.afterStep d v.version far := by
  obtain ⟨log, hlog, hstored⟩ := he
  have hversion := (hl _ log hlog).numbered n e hstored
  subst hversion
  obtain ⟨r, far, hperformed, hkey, hreached, hpointers⟩ :=
    Replica.performed_step hcurrent hpointer ⟨log, hlog, hstored⟩
      ((hl _ log hlog).owned _ e hstored)
  exact ⟨_, far, complete_eq hperformed, rfl, by simpa using hkey, by simpa using hreached,
    by simpa using hpointers⟩

section run

variable {schema : Schema} {keys : ι → EnvironmentKey} {permitted : ι → Bool} {i : ι}

/-- The pointers of a current version name its parent and, if anything, one of its children. -/
theorem pointers_recorded {ms : List (Move ι)}
    (htop : ((Fleet.new schema keys permitted).run ms).ledger.BelowTop (keys i)) {v : Snapshot}
    (hv : (((Fleet.new schema keys permitted).run ms).sites i).replica.current = some v) :
    let z := (Fleet.new schema keys permitted).run ms
    (∃ e, z.ledger.Holds (keys i) v.version e ∧ e.snapshot = v ∧
      (z.sites i).replica.pointers.previous = e.parent) ∧
    ∀ n, (z.sites i).replica.pointers.next = some n →
      ∃ e, z.ledger.Holds (keys i) n e ∧ e.parent = some v.version := by
  intro z
  have hpoints : ∀ d, z.ledger.Points (z.sites i).replica.key v.version d
      ((z.sites i).replica.pointers.get d) :=
    (oriented_run schema keys permitted i ms htop).replica v hv
  rw [run_new_key] at hpoints
  refine ⟨?_, hpoints .next⟩
  obtain ⟨e, he, hsnapshot⟩ := Ledger.records_iff.mp (records_current htop hv)
  obtain ⟨e', he', hparent⟩ := hpoints .previous
  refine ⟨e, he, hsnapshot, ?_⟩
  rw [he.unique he', hparent]
  rfl

/-- If nothing is installed between a step and one the other way, the second leads back to where the
first has come from. -/
theorem step_returns {before steps between back : List (Move ι)} {name name' : Nat} {d : Direction}
    {v w : Snapshot} {e : Ending}
    (htop : ((Fleet.new schema keys permitted).run
      (before ++ steps ++ between ++ back)).ledger.BelowTop (keys i))
    (hv : (((Fleet.new schema keys permitted).run before).sites i).replica.current = some v)
    (hthere : Site.Life (((Fleet.new schema keys permitted).run before).sites i) name (.step d)
      (((Fleet.new schema keys permitted).run before).turns i steps)
      (.returned (.navigation (.moved w))))
    (hquiet : ((Fleet.new schema keys permitted).run (before ++ steps)).installs i between = [])
    (hback : Site.Life (((Fleet.new schema keys permitted).run
        (before ++ steps ++ between)).sites i) name' (.step d.opposite)
      (((Fleet.new schema keys permitted).run (before ++ steps ++ between)).turns i back) e) :
    e = .dropped ∨ (e = .returned (.navigation (.moved v)) ∧
      (((Fleet.new schema keys permitted).run
        (before ++ steps ++ between ++ back)).sites i).replica.current = some v) := by
  have hl : ∀ ns, ((Fleet.new schema keys permitted).run ns).ledger.WellFormed :=
    wellFormed_run (wellFormed_new schema keys permitted)
  have hmid : ((Fleet.new schema keys permitted).run (before ++ steps)).ledger.BelowTop
      (keys i) := by
    rw [List.append_assoc, run_append] at htop
    exact belowTop_of_run (hl _) htop
  have hstart : ((Fleet.new schema keys permitted).run before).ledger.BelowTop (keys i) := by
    rw [run_append] at hmid
    exact belowTop_of_run (hl _) hmid
  rcases step_ends hmid hthere with h | ⟨h, -⟩ | ⟨v', w', far, hv', -, -, hw', hpointers, -⟩
  · exact absurd h (by simp)
  · exact absurd h (by simp)
  obtain rfl := Option.some.inj (hv.symm.trans hv')
  -- the step has left the version on the other side, where nothing has taken its place
  have hsame := Site.run_of_installs_nil hquiet
  rw [← run_sites, ← run_append, hw', hpointers] at hsame
  rcases step_ends htop hback with h | ⟨-, hnone | hnone⟩ | ⟨u, w'', -, -, hpointer, he, hw'', -⟩
  · exact .inl h
  · exact absurd (hsame.1.symm.trans hnone) (by simp)
  · rw [hsame.2, Pointers.afterStep_get_opposite] at hnone
    exact absurd hnone (by simp)
  · rw [hsame.2, Pointers.afterStep_get_opposite, Option.some.injEq] at hpointer
    have hkept : ((Fleet.new schema keys permitted).run
        (before ++ steps ++ between ++ back)).ledger.Records (keys i) v := by
      simp only [List.append_assoc] at htop ⊢
      rw [run_append] at htop ⊢
      exact records_run (records_current hstart hv) (hl before) htop
    obtain rfl : v = w'' := hkept.unique (records_current htop hw'') hpointer
    exact .inr ⟨he, hw''⟩

/-- A step that has somewhere to go, performed with nothing in between, goes there, and one the
other way comes back. -/
theorem complete_step_back {ms : List (Move ι)}
    (htop : ((Fleet.new schema keys permitted).run ms).ledger.BelowTop (keys i)) {d : Direction}
    {v : Snapshot} {n : VersionNumber}
    (hv : (((Fleet.new schema keys permitted).run ms).sites i).replica.current = some v)
    (hpointer : (((Fleet.new schema keys permitted).run ms).sites i).replica.pointers.get d =
      some n) :
    ∃ w z' z'', w.version = n ∧ ((Fleet.new schema keys permitted).run ms).complete i (.step d) =
        (.ok (.navigation (.moved w)), z') ∧
      z'.complete i (.step d.opposite) = (.ok (.navigation (.moved v)), z'') := by
  have hl := wellFormed_run (wellFormed_new schema keys permitted) ms
  have hpoints := (oriented_run schema keys permitted i ms htop).replica v hv d
  rw [hpointer] at hpoints
  obtain ⟨e, he⟩ := hpoints.exists_holds hl
  obtain ⟨z', far, hthere, hledger, hkey, hcurrent, hpointers⟩ :=
    complete_step hl hv hpointer he
  obtain ⟨e', he', hsnapshot⟩ := Ledger.records_iff.mp (records_current htop hv)
  have hback : (z'.sites i).replica.pointers.get d.opposite = some v.version := by
    rw [hpointers, Pointers.afterStep_get_opposite]
  have hheld : z'.ledger.Holds (z'.sites i).replica.key v.version e' := by
    rw [hledger, hkey, run_new_key]
    exact he'
  obtain ⟨z'', -, hreturn, -⟩ := complete_step (hledger ▸ hl) hcurrent hback hheld
  rw [hsnapshot] at hreturn
  refine ⟨e.snapshot, z', z'', ?_, hthere, hreturn⟩
  obtain ⟨log, hlog, hstored⟩ := he
  exact (hl _ log hlog).numbered n e hstored

end run

/-- **Steps through the history.** In every run of a fleet in which the greatest number is not in
use, the previous pointer of a site with a current version is exactly the parent of that version in
the log, and its next pointer, if there is one, is a recorded version with the current one as its
parent. A step of a site never fails: if it is not abandoned, it has nowhere to go, or it goes from
the version that was current at its start along one link of the history. If nothing is installed
after its end until a step the other way is started, that one comes back to the same snapshot, if it
is not abandoned, whatever happens elsewhere meanwhile. And a step that has somewhere to go, and is
performed with nothing in between, goes there, and one the other way comes back. -/
theorem steps_along_history {schema : Schema} {keys : ι → EnvironmentKey} {permitted : ι → Bool}
    {i : ι} {ms : List (Move ι)}
    (htop : ((Fleet.new schema keys permitted).run ms).ledger.BelowTop (keys i)) :
    let z₀ := Fleet.new schema keys permitted
    let z := z₀.run ms
    (∀ v, (z.sites i).replica.current = some v →
      (∃ e, z.ledger.Holds (keys i) v.version e ∧ e.snapshot = v ∧
        (z.sites i).replica.pointers.previous = e.parent) ∧
      ∀ n, (z.sites i).replica.pointers.next = some n →
        ∃ e, z.ledger.Holds (keys i) n e ∧ e.parent = some v.version) ∧
    (∀ before steps name d e, ms = before ++ steps →
      Site.Life ((z₀.run before).sites i) name (.step d) ((z₀.run before).turns i steps) e →
      e = .dropped ∨
      (e = .returned (.navigation .unavailable) ∧
        (((z₀.run before).sites i).replica.current = none ∨
          ((z₀.run before).sites i).replica.pointers.get d = none)) ∨
      ∃ v w, ((z₀.run before).sites i).replica.current = some v ∧
        e = .returned (.navigation (.moved w)) ∧ z.ledger.Records (keys i) w ∧
        z.ledger.Points (keys i) v.version d (some w.version)) ∧
    (∀ before steps between back name name' d v w e, ms = before ++ steps ++ between ++ back →
      ((z₀.run before).sites i).replica.current = some v →
      Site.Life ((z₀.run before).sites i) name (.step d) ((z₀.run before).turns i steps)
        (.returned (.navigation (.moved w))) →
      (z₀.run (before ++ steps)).installs i between = [] →
      Site.Life ((z₀.run (before ++ steps ++ between)).sites i) name' (.step d.opposite)
        ((z₀.run (before ++ steps ++ between)).turns i back) e →
      e = .dropped ∨
      (e = .returned (.navigation (.moved v)) ∧ (z.sites i).replica.current = some v)) ∧
    (∀ d v n, (z.sites i).replica.current = some v → (z.sites i).replica.pointers.get d = some n →
      ∃ w z' z'', w.version = n ∧ z.complete i (.step d) = (.ok (.navigation (.moved w)), z') ∧
        z'.complete i (.step d.opposite) = (.ok (.navigation (.moved v)), z'')) := by
  intro z₀ z
  refine ⟨fun v hv => pointers_recorded htop hv, ?_, ?_, ?_⟩
  · rintro before steps name d e rfl hlife
    rcases step_ends htop hlife with hdropped | hnone | ⟨v, w, far, hv, -, he, hw, -, hpoints⟩
    · exact .inl hdropped
    · exact .inr (.inl hnone)
    · exact .inr (.inr ⟨v, w, hv, he, records_current htop hw, hpoints⟩)
  · rintro before steps between back name name' d v w e rfl hv hthere hquiet hback
    exact step_returns htop hv hthere hquiet hback
  · intro d v n hv hpointer
    exact complete_step_back htop hv hpointer

/-- A client that has made version 2 steps back to version 1, and comes back again. -/
theorem steps_along_history_advanced :
    (pair.run advanced).ledger.BelowTop shop ∧
    ∃ v w z' z'', v.version = 2 ∧ w.version = 1 ∧
      (pair.run advanced).complete false (.step .previous) =
        (.ok (.navigation (.moved w)), z') ∧
      z'.complete false (.step .next) = (.ok (.navigation (.moved v)), z'') := by
  have htop : (pair.run advanced).ledger.BelowTop shop := Ledger.belowTop_of_all (by rfl)
  obtain ⟨v, hv, hversion⟩ : ∃ v, ((pair.run advanced).sites false).replica.current = some v ∧
      v.version = 2 := ⟨_, rfl, rfl⟩
  have hpointer : ((pair.run advanced).sites false).replica.pointers.get .previous = some 1 := by
    rfl
  obtain ⟨-, -, -, hback⟩ := steps_along_history htop
  obtain ⟨w, z', z'', hw, hthere, hreturn⟩ := hback .previous v 1 hv hpointer
  exact ⟨htop, v, w, z', z'', hversion, hw, hthere, hreturn⟩

/-- The client steps back, another one makes version 3 of version 1, and the client steps
forward. -/
def redoing : List (Move Bool) :=
  advanced ++ Move.whole false 2 (.step .previous) 2 ++
    [.direct (.submit shop ⟨1, none, [.addResource ⟨"aws", "db", "users"⟩]⟩)] ++
    Move.whole false 3 (.step .next) 2

-- The step forward leads back to version 2, though for the ledger version 3 is the next one by
-- then.
example :
    (pair.run redoing).ledger.neighbor shop 1 .next = .ok (some 3) ∧
      ((pair.run redoing).sites false).replica.current.map Snapshot.version = some 2 := by
  constructor <;> rfl

end Fleet
end VersionedTopology

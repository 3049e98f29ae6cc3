/-
  VersionedTopology.Proofs.Concurrency.Pointers

  The pointers of a replica point at neighbours.

  Pointers are set in three ways: a load asks the store for both, a step asks for the one
  on the far side and has come from the other, and a result has its base behind it and
  nothing ahead. What they are made of is read at different moments, and other operations
  may install versions in between. Still it is right, because it speaks of a version that
  the operation carries along and not of the current one, and because what is said of
  parents stays true: below the greatest number an entry never changes. The next pointer
  need not be what the store would answer now; it always is a version computed from the
  current one.
-/

import VersionedTopology.Proofs.Concurrency.FailedOperation
import VersionedTopology.Proofs.Concurrency.Recorded
import VersionedTopology.Proofs.History.Forward

namespace VersionedTopology

theorem Direction.eq_or_eq_opposite (d d' : Direction) : d' = d ∨ d' = d.opposite := by
  cases d <;> cases d' <;> simp [opposite]

namespace Pointers

/-- After a step, the far side is in its direction. -/
@[simp] theorem afterStep_get (d : Direction) (left : VersionNumber) (far : Option VersionNumber) :
    (afterStep d left far).get d = far := by
  cases d <;> rfl

/-- The version that a step has left is on the other side. -/
@[simp] theorem afterStep_get_opposite (d : Direction) (left : VersionNumber)
    (far : Option VersionNumber) : (afterStep d left far).get d.opposite = some left := by
  cases d <;> rfl

end Pointers

namespace Ledger

/-! ## What a pointer says -/

/-- A pointer of a version is right: the previous one is its parent, and a next one is a version
that has it as its parent. -/
def Points (l : Ledger) (key : EnvironmentKey) (v : VersionNumber) :
    Direction → Option VersionNumber → Prop
  | .previous, p => ∃ e, l.Holds key v e ∧ e.parent = p
  | .next, p => ∀ n, p = some n → ∃ e, l.Holds key n e ∧ e.parent = some v

section points

variable {l l' : Ledger} {key : EnvironmentKey} {v w : VersionNumber} {d : Direction}
  {p : Option VersionNumber}

/-- The way back from a neighbour is the other way. -/
theorem Points.flip (h : l.Points key v d (some w)) : l.Points key w d.opposite (some v) := by
  cases d with
  | previous =>
    intro n hn
    obtain rfl := Option.some.inj hn
    exact h
  | next => exact h w rfl

theorem Points.mono (h : l.Points key v d p)
    (hkeep : ∀ v e, l.Holds key v e → l'.Holds key v e) : l'.Points key v d p := by
  cases d with
  | previous =>
    obtain ⟨e, he, hparent⟩ := h
    exact ⟨e, hkeep _ _ he, hparent⟩
  | next =>
    intro n hn
    obtain ⟨e, he, hparent⟩ := h n hn
    exact ⟨e, hkeep _ _ he, hparent⟩

/-- Neighbours are recorded. -/
theorem Points.exists_holds (h : l.Points key v d (some w)) (hl : l.WellFormed) :
    ∃ e, l.Holds key w e := by
  cases d with
  | previous =>
    obtain ⟨e, ⟨log, hlog, he⟩, hparent⟩ := h
    obtain ⟨x, hx⟩ := Option.isSome_iff_exists.mp ((hl key log hlog).parentStored v e w he hparent)
    exact ⟨x, log, hlog, hx⟩
  | next =>
    obtain ⟨e, he, -⟩ := h w rfl
    exact ⟨e, he⟩

/-- What is answered about neighbours is right. -/
theorem points_of_neighbor (h : l.neighbor key v d = .ok p) : l.Points key v d p := by
  cases hlog : l.log? key with
  | none => exact absurd h (by simp [neighbor, find, hlog])
  | some log =>
    obtain ⟨e, he, hp⟩ := (neighbor_ok_iff hlog).mp h
    cases d with
    | previous => exact ⟨e, ⟨log, hlog, he⟩, hp⟩
    | next =>
      rintro n rfl
      obtain ⟨⟨x, hx, hparent⟩, -⟩ := VersionLog.child?_eq_some_iff.mp hp
      exact ⟨x, ⟨log, hlog, hx⟩, hparent⟩

theorem Holds.exists_neighbor {e : LogEntry} (he : l.Holds key v e) (d : Direction) :
    ∃ p, l.neighbor key v d = .ok p := by
  obtain ⟨log, hlog, he⟩ := he
  exact ⟨_, neighbor_of_entryAt? hlog he d⟩

theorem Holds.get_eq {e : LogEntry} (he : l.Holds key v e) :
    l.get key (some v) = .ok e.snapshot := by
  obtain ⟨log, hlog, he⟩ := he
  simp [get, hlog, he]

/-- An accepted submission is computed from its base. -/
theorem points_of_submit {request : ApplyRequest} {s : Snapshot}
    (h : l.submit key request = (l', .ok s)) :
    l'.Points key s.version .previous (some request.version) := by
  obtain ⟨log, base, -, -, -, -, -, hlogs⟩ := submit_ok h
  refine ⟨⟨s, some request.version, request.constraints⟩, ⟨log.push ⟨s, some request.version,
    request.constraints⟩, ?_, ?_⟩, rfl⟩
  · rw [log?_congr hlogs, log?_withLog, if_pos rfl]
  · rw [VersionLog.entryAt?_push, if_pos rfl]

end points

end Ledger

/-! ## What operations carry along -/

/-- What an operation takes along about neighbours is right. -/
def Task.Oriented (l : Ledger) (key : EnvironmentKey) : Task → Prop
  | .loadNext s p => l.Points key s.version .previous p
  | .stepFetch d left target => l.Points key left d (some target)
  | .stepFar d left target s => l.Points key left d (some target) ∧ s.version = target
  | _ => True

/-- The answer to a call is right about neighbours, and a step gets the version that it has asked
for and its neighbour. -/
def Task.Informed (l : Ledger) (key : EnvironmentKey) : (t : Task) → (t.call key).Answer → Prop
  | .loadPrevious s, a => ∀ p, a = .ok p → l.Points key s.version .previous p
  | .loadNext s _, a => ∀ p, a = .ok p → l.Points key s.version .next p
  | .stepFetch _ _ target, a => ∃ s : Snapshot, a = .ok s ∧ s.key = key ∧ s.version = target
  | .stepFar d _ target _, a => ∃ p, a = .ok p ∧ l.Points key target d p
  | .submitting c _, a => ∀ s, a = .ok s → l.Points key s.version .previous (some c.base.version)
  | _, _ => True

/-- An operation and the answer on its way to it are right about neighbours. -/
structure Flight.Oriented (l : Ledger) (key : EnvironmentKey) (f : Flight) : Prop where
  task : f.task.Oriented l key
  answer : ∀ store, f.answeredBy = some store →
    f.task.Informed l key (store (f.task.call key))

/-- The pointers of a replica are right for its current version. -/
def Replica.Oriented (l : Ledger) (r : Replica) : Prop :=
  ∀ v, r.current = some v → ∀ d, l.Points r.key v.version d (r.pointers.get d)

/-- Everything at a site is right about neighbours. -/
structure Site.Oriented (l : Ledger) (s : Site) : Prop where
  replica : s.replica.Oriented l
  flights : ∀ name f, s.flights name = some f → f.Oriented l s.replica.key

section oriented

variable {l l' : Ledger} {key : EnvironmentKey}

theorem Task.Oriented.mono {t : Task} (h : t.Oriented l key)
    (hkeep : ∀ v e, l.Holds key v e → l'.Holds key v e) : t.Oriented l' key := by
  cases t with
  | loadNext s p => exact (show l.Points key s.version .previous p from h).mono hkeep
  | stepFetch d left target => exact (show l.Points key left d (some target) from h).mono hkeep
  | stepFar d left target s => exact ⟨h.1.mono hkeep, h.2⟩
  | _ => trivial

/-- A submission has no use for neighbours. -/
theorem Task.oriented_of_submission {t : Task} (h : t.submission?.isSome) : t.Oriented l key := by
  cases t with
  | checking | submitting => trivial
  | _ => exact absurd h (by simp [Task.submission?])

theorem Task.Informed.mono {t : Task} {a : (t.call key).Answer} (h : t.Informed l key a)
    (hkeep : ∀ v e, l.Holds key v e → l'.Holds key v e) : t.Informed l' key a := by
  cases t with
  | loadPrevious s => exact fun p hp => (h p hp).mono hkeep
  | loadNext s q => exact fun p hp => (h p hp).mono hkeep
  | stepFetch d left target => exact h
  | stepFar d left target s =>
    obtain ⟨p, hp, hpoints⟩ := h
    exact ⟨p, hp, hpoints.mono hkeep⟩
  | submitting c m => exact fun s hs => (h s hs).mono hkeep
  | _ => trivial

theorem Site.Oriented.mono {s : Site} (h : s.Oriented l)
    (hkeep : ∀ v e, l.Holds s.replica.key v e → l'.Holds s.replica.key v e) : s.Oriented l' where
  replica := fun v hv d => (h.replica v hv d).mono hkeep
  flights := fun name f hf =>
    ⟨(h.flights name f hf).task.mono hkeep,
      fun store hstore => ((h.flights name f hf).answer store hstore).mono hkeep⟩

end oriented

namespace Replica

variable {l : Ledger} {r r' : Replica}

/-! ## What an operation does to the pointers -/

theorem Oriented.congr (h : r.Oriented l) (hkey : r'.key = r.key)
    (hcurrent : r'.current = r.current) (hpointers : r'.pointers = r.pointers) :
    r'.Oriented l := by
  intro v hv d
  rw [hkey, hpointers]
  exact h v (hcurrent ▸ hv) d

/-- A step goes where the pointer is. -/
theorem start_step_waiting {d : Direction} {t : Task} (h : (r.start (.step d)).2 = .waiting t) :
    ∃ v target, r.current = some v ∧ r.pointers.get d = some target ∧
      t = .stepFetch d v.version target := by
  simp only [start] at h
  split at h
  · rename_i v target hcurrent hpointer
    exact ⟨v, target, hcurrent, hpointer, (Progress.waiting.inj h).symm⟩
  · exact absurd h (by simp)

/-- An operation starts with what the replica knows about neighbours. -/
theorem Oriented.start (h : r.Oriented l) {o : Operation} {t : Task}
    (ht : (r.start o).2 = .waiting t) : t.Oriented l r.key := by
  cases o with
  | step d =>
    obtain ⟨v, target, hcurrent, hpointer, rfl⟩ := start_step_waiting ht
    have hpoints := h v hcurrent d
    rwa [hpointer] at hpoints
  | load v =>
    obtain rfl := Progress.waiting.inj ht
    trivial
  | select v =>
    obtain rfl := Progress.waiting.inj ht
    trivial
  | listConstraints =>
    obtain rfl := Progress.waiting.inj ht
    trivial
  | apply force =>
    have hstarted := r.started (.apply force)
    rw [ht] at hstarted
    refine Task.oriented_of_submission ?_
    rw [← Option.isSome_map (f := Prod.snd), hstarted.submission?.2]
    cases force <;> rfl
  | confirm =>
    have hstarted := r.started .confirm
    rw [ht] at hstarted
    refine Task.oriented_of_submission ?_
    rw [← Option.isSome_map (f := Prod.snd), hstarted.submission?.2]
    rfl

/-- What an answer leads to is right about neighbours, if the operation and its answer are. -/
theorem Resumed.oriented {t : Task} {a : (t.call r.key).Answer} {p : Progress}
    (h : Resumed r t a r' p) (hr : r.Oriented l) (ht : t.Oriented l r.key)
    (ha : t.Informed l r.key a) :
    r'.Oriented l ∧ ∀ next, p = .waiting next → next.Oriented l r.key := by
  cases h with
  | previous s q =>
    refine ⟨hr, ?_⟩
    rintro next ⟨⟩
    exact ha q rfl
  | reached d left target s howned hversion =>
    refine ⟨hr, ?_⟩
    rintro next ⟨⟩
    exact ⟨ht, hversion⟩
  | loaded s q n =>
    refine ⟨?_, by simp⟩
    intro v hv d
    obtain rfl : s = v := Option.some.inj (by simpa using hv)
    have hprevious : l.Points r.key s.version .previous q := ht
    cases d with
    | previous => simpa [Pointers.get] using hprevious
    | next => simpa [Pointers.get] using ha n rfl
  | stepped d left target s far =>
    refine ⟨?_, by simp⟩
    intro v hv d'
    obtain rfl : s = v := Option.some.inj (by simpa using hv)
    obtain ⟨hleft, hversion⟩ := ht
    obtain ⟨far', hfar, hpoints⟩ := ha
    obtain rfl : far = far' := Except.ok.inj hfar
    simp only [emit_key, install_key, emit_pointers, install_pointers, hversion]
    rcases d.eq_or_eq_opposite d' with rfl | rfl
    · rw [Pointers.afterStep_get]
      exact hpoints
    · rw [Pointers.afterStep_get_opposite]
      exact hleft.flip
  | applied c m s howned hnewer =>
    refine ⟨?_, by simp⟩
    intro v hv d
    obtain rfl : s = v := Option.some.inj (by simpa using hv)
    cases d with
    | previous => simpa [Pointers.get, Pointers.afterApply] using ha s rfl
    | next =>
      intro n hn
      exact absurd hn (by simp [Pointers.get, Pointers.afterApply])
  | selected => exact ⟨hr, by rintro next ⟨⟩; trivial⟩
  | fetched => exact ⟨hr, by rintro next ⟨⟩; trivial⟩
  | checked => exact ⟨hr, by rintro next ⟨⟩; trivial⟩
  | failed | listed => exact ⟨hr, by simp⟩
  | stale c m server =>
    exact ⟨hr.congr (by simp) (by simp) (by simp), by simp⟩
  | rejected c m e =>
    exact ⟨hr.congr (by simp) (by simp) (by simp), by simp⟩

end Replica

namespace Site

variable {l : Ledger} {s : Site}

/-! ## One turn -/

theorem Oriented.put (h : s.Oriented l) {name : Nat} {g : Option Flight} {r : Replica}
    (hr : r.Oriented l) (hkey : r.key = s.replica.key)
    (hg : ∀ f, g = some f → f.Oriented l s.replica.key) :
    Oriented l { s.put name g with replica := r } where
  replica := hr
  flights := by
    intro n f hf
    show f.Oriented l r.key
    rw [hkey]
    obtain ⟨-, hnew⟩ | hkept := eq_or_of_flights_put hf
    · exact hg f hnew
    · exact h.flights n f hkept

/-- A turn leaves everything right about neighbours, if a call that the store takes up in it is
answered so. -/
theorem Oriented.step (h : s.Oriented l) (t : Turn)
    (hserved : ∀ name task, t.move = .serve name → s.flights name = some ⟨task, none⟩ →
      task.Informed l s.replica.key (t.store (task.call s.replica.key))) :
    (s.step t).Oriented l := by
  have hchange := s.change t
  generalize s.step t = s' at hchange ⊢
  cases hchange with
  | staged store c replaced r hstage =>
    obtain ⟨-, b, -, -, rfl⟩ := Replica.stage_ok hstage
    exact ⟨h.replica.congr rfl rfl rfl, h.flights⟩
  | started store name o r p hfree hout hstarted =>
    rw [outcome?_start_of_free o hfree] at hout
    have hintact := hstarted.intact
    refine h.put (h.replica.congr hstarted.frame.1 hintact.current hintact.pointers)
      hstarted.frame.1 ?_
    intro f hf
    obtain ⟨task, rfl, rfl⟩ := Progress.flight?_eq_some hf
    exact ⟨h.replica.start (congrArg Prod.snd (Option.some.inj hout)), by simp⟩
  | served store name task hflight =>
    refine h.put h.replica rfl ?_
    rintro f ⟨⟩
    refine ⟨(h.flights name _ hflight).task, ?_⟩
    rintro store' ⟨⟩
    exact hserved name task rfl hflight
  | delivered store name task answered r p hflight hout hresumed =>
    obtain ⟨htask, hanswer⟩ := h.flights name _ hflight
    obtain ⟨hr, hnext⟩ := hresumed.oriented h.replica htask (hanswer answered rfl)
    refine h.put hr hresumed.key ?_
    intro f hf
    obtain ⟨next, rfl, rfl⟩ := Progress.flight?_eq_some hf
    exact ⟨hnext next rfl, by simp⟩
  | dropped store name f hflight =>
    obtain ⟨-, heq⟩ | ⟨c, m, -, heq⟩ := s.replica.cancel_eq f.task
    · rw [heq]
      exact h.put h.replica rfl (by simp)
    · rw [heq]
      exact h.put (h.replica.congr (by simp) (by simp) (by simp)) (by simp) (by simp)
  | unstaged | ignored => exact h
  | _ => exact ⟨h.replica.congr rfl rfl rfl, h.flights⟩

end Site

namespace Fleet

variable {ι : Type} [DecidableEq ι]

/-! ## Every moment of a run -/

/-- A call that is taken up is answered right about neighbours. -/
theorem informed_serve {z : Fleet ι} (hl : z.ledger.WellFormed) {i : ι}
    (h : (z.sites i).Oriented z.ledger) {name : Nat} {task : Task}
    (hflight : (z.sites i).flights name = some ⟨task, none⟩)
    (hkeep : ∀ v e, z.ledger.Holds (z.sites i).replica.key v e →
      (z.step (.site i (.serve name))).ledger.Holds (z.sites i).replica.key v e) :
    task.Informed (z.step (.site i (.serve name))).ledger (z.sites i).replica.key
      (z.ledger.oracle (task.call (z.sites i).replica.key)) := by
  have htask := (h.flights name _ hflight).task
  have hledger := step_serve_ledger hflight
  generalize (z.sites i).replica.key = key at htask hkeep hledger ⊢
  cases task with
  | loadPrevious s => exact fun p hp => (Ledger.points_of_neighbor hp).mono hkeep
  | loadNext s q => exact fun p hp => (Ledger.points_of_neighbor hp).mono hkeep
  | stepFetch d left target =>
    obtain ⟨e, he⟩ := Ledger.Points.exists_holds htask hl
    obtain ⟨log, hlog, hstored⟩ := he
    exact ⟨e.snapshot, Ledger.Holds.get_eq ⟨log, hlog, hstored⟩,
      (hl key log hlog).owned target e hstored, (hl key log hlog).numbered target e hstored⟩
  | stepFar d left target s =>
    obtain ⟨e, he⟩ := htask.1.exists_holds hl
    obtain ⟨p, hp⟩ := he.exists_neighbor d
    exact ⟨p, hp, (Ledger.points_of_neighbor hp).mono hkeep⟩
  | submitting c m =>
    intro s hs
    have hsubmit : z.ledger.submit key (m.request c) =
        ((z.ledger.submit key (m.request c)).1, .ok s) := Prod.ext rfl hs
    rw [hledger]
    exact Ledger.points_of_submit hsubmit
  | _ => trivial

/-- In every fleet all that a site knows about neighbours is right, if the greatest number is never
in use. -/
theorem oriented_run (schema : Schema) (keys : ι → EnvironmentKey) (permitted : ι → Bool) (i : ι)
    (ms : List (Move ι))
    (htop : ((Fleet.new schema keys permitted).run ms).ledger.BelowTop (keys i)) :
    (((Fleet.new schema keys permitted).run ms).sites i).Oriented
      ((Fleet.new schema keys permitted).run ms).ledger := by
  induction ms using List.reverseRecOn with
  | nil => exact ⟨fun v hv => absurd hv (by simp [new, Site.new, Replica.new]),
      fun name f hf => absurd hf (by simp [new, Site.new])⟩
  | append_singleton ms m ih =>
    have hl := wellFormed_run (wellFormed_new schema keys permitted) ms
    have hkey := run_new_key schema keys permitted i ms
    rw [run_concat] at htop ⊢
    have h := ih (htop.of_advance hl (advance_step m hl))
    generalize (Fleet.new schema keys permitted).run ms = z at hl hkey htop h ⊢
    have hkeep : ∀ v e, z.ledger.Holds (z.sites i).replica.key v e →
        (z.step m).ledger.Holds (z.sites i).replica.key v e := by
      intro v e he
      rw [hkey] at he ⊢
      exact he.advance hl (advance_step m hl) htop
    rw [step_sites]
    cases hturn : z.turn? i m with
    | none => exact h.mono hkeep
    | some t =>
      obtain ⟨rfl, hstore⟩ := turn?_eq_some hturn
      refine (h.mono hkeep).step t ?_
      intro name task hmove hflight
      rw [hmove] at hkeep ⊢
      rw [hstore]
      exact informed_serve hl h hflight hkeep

end Fleet
end VersionedTopology

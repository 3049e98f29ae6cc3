/-
  VersionedTopology.Proofs.Concurrency.Staleness

  When an apply is refused as stale.

  A load, a selection or an accepted submission shows a site the current version of the ledger,
  and what the site has seen by then is not beyond the head. An apply asks for the current version
  again, and compares its number with the newest one that the site has seen. A version made in
  the meantime is above the old head, so an apply that finds it current is refused. But
  the current version can also go back, or forth to a version that the site has seen before, and
  then the numbers do not tell that it has moved.
-/

import VersionedTopology.Proofs.Concurrency.Look
import VersionedTopology.Proofs.Concurrency.Recorded
import VersionedTopology.Proofs.Concurrency.SingleFlight
import VersionedTopology.Proofs.History.Range

namespace VersionedTopology
namespace Fleet

variable {ι : Type} [DecidableEq ι]

/-! ## What has been seen -/

/-- The requests from elsewhere name no number beyond the range. -/
def InRange (ms : List (Move ι)) : Prop := ∀ a, Move.direct a ∈ ms → a.InRange

omit [DecidableEq ι] in
theorem inRange_cons {m : Move ι} {ms : List (Move ι)} :
    InRange (m :: ms) ↔ (∀ a, m = .direct a → a.InRange) ∧ InRange ms := by
  constructor
  · intro h
    exact ⟨fun a ha => h a (by simp [ha]), fun a ha => h a (List.mem_cons_of_mem m ha)⟩
  · rintro ⟨hm, hms⟩ a ha
    rcases List.mem_cons.mp ha with ha | ha
    · exact hm a ha.symm
    · exact hms a ha

omit [DecidableEq ι] in
theorem inRange_append {ms ns : List (Move ι)} :
    InRange (ms ++ ns) ↔ InRange ms ∧ InRange ns := by
  induction ms with
  | nil => simp [InRange]
  | cons m ms ih => rw [List.cons_append, inRange_cons, inRange_cons, ih, and_assoc]

theorem ranged_step {z : Fleet ι} (hl : z.ledger.WellFormed) (hr : z.ledger.Ranged) {m : Move ι}
    (hm : ∀ a, m = .direct a → a.InRange) : (z.step m).ledger.Ranged := by
  cases m with
  | site i m =>
    simp only [step]
    cases (z.sites i).asked? m with
    | none => exact hr
    | some c => exact Ledger.ranged_answer hl hr c
  | direct a => exact Ledger.ranged_act hl hr (hm a rfl)

theorem ranged_run {z : Fleet ι} (hl : z.ledger.WellFormed) (hr : z.ledger.Ranged)
    {ms : List (Move ι)} (hms : InRange ms) : (z.run ms).ledger.Ranged := by
  induction ms generalizing z with
  | nil => exact hr
  | cons m ms ih =>
    obtain ⟨hm, hms⟩ := inRange_cons.mp hms
    exact ih (hl.advance (advance_step m hl)) (ranged_step hl hr hm) hms

/-- What is stored at the end of a run was stored at its start or is above the head of that time,
and the head has not gone down. -/
theorem stored_or_above_run {z : Fleet ι} (hl : z.ledger.WellFormed) (hr : z.ledger.Ranged)
    {ms : List (Move ι)} (hms : InRange ms) {key : EnvironmentKey} {log : VersionLog}
    (hlog : z.ledger.log? key = some log) :
    ∃ log', (z.run ms).ledger.log? key = some log' ∧ log.head ≤ log'.head ∧
      ∀ v, (log'.entryAt? v).isSome → (log.entryAt? v).isSome ∨ log.head < v := by
  induction ms generalizing z log with
  | nil => exact ⟨log, hlog, Nat.le_refl _, fun v hv => .inl hv⟩
  | cons m ms ih =>
    obtain ⟨hm, hms⟩ := inRange_cons.mp hms
    have hadvance := advance_step m hl
    have hstep := hadvance key
    rw [hlog] at hstep
    obtain ⟨mid, hmid, hmidHead, hmidStored⟩ :=
      hstep.stored_or_above (hr key log hlog) (hl key log hlog).headStored
    obtain ⟨log', hlog', hhead, hstored⟩ :=
      ih (hl.advance hadvance) (ranged_step hl hr hm) hms hmid
    refine ⟨log', hlog', Nat.le_trans hmidHead hhead, ?_⟩
    intro v hv
    rcases hstored v hv with hv | hv
    · exact hmidStored v hv
    · exact .inr (Nat.lt_of_le_of_lt hmidHead hv)

/-- The newest number that a site has seen is not beyond the head. -/
theorem knownHead_le_head {schema : Schema} {keys : ι → EnvironmentKey} {permitted : ι → Bool}
    {ms : List (Move ι)} (hms : InRange ms) {i : ι} {log : VersionLog}
    (hlog : ((Fleet.new schema keys permitted).run ms).ledger.log? (keys i) = some log) :
    (((Fleet.new schema keys permitted).run ms).sites i).replica.knownHead ≤ log.head := by
  have hseen := Site.knownHead_eq_or_installs (Site.new (keys i) (permitted i))
    ((Fleet.new schema keys permitted).turns i ms)
  rw [← run_new_sites] at hseen
  rcases hseen with hzero | ⟨v, hv, hversion⟩
  · rw [hzero]
    exact Nat.zero_le _
  · -- the version was recorded at some point, below the head of that time
    obtain ⟨earlier, ⟨later, rfl⟩, old, e, hold, he, -⟩ := exists_records_of_installs hv
    obtain ⟨hearlier, hlater⟩ := inRange_append.mp hms
    have hl := wellFormed_run (wellFormed_new schema keys permitted) earlier
    have hr := ranged_run (wellFormed_new schema keys permitted) (Ledger.ranged_new schema) hearlier
    obtain ⟨log', hlog', hhead, -⟩ := stored_or_above_run hl hr hlater hold
    rw [← run_append, hlog] at hlog'
    obtain rfl := Option.some.inj hlog'
    rw [← hversion]
    exact Nat.le_trans ((hr _ old hold).bounded _ e he) hhead

/-! ## Between a look and an apply -/

/-- A site with nothing open can submit whatever it has staged. -/
theorem exists_claim_of_closed {key : EnvironmentKey} {canOverwrite : Bool} {ts : List Site.Turn}
    (hclosed : ∀ name, ((Site.new key canOverwrite).run ts).flights name = none)
    (hbatch : ((Site.new key canOverwrite).run ts).replica.batch.constraints ≠ []) :
    let r := ((Site.new key canOverwrite).run ts).replica
    ∃ base claimed, r.current = some base ∧
      r.claim = .ok (⟨base, r.knownHead, r.batch.constraints⟩, claimed) := by
  intro r
  have hcoherent : r.Coherent := ((Site.coherent_new key canOverwrite).run ts).replica
  obtain ⟨base, hbase, -⟩ := hcoherent.exists_current hbatch
  -- whoever held the pipeline would be open
  have hidle : r.inFlight = false := by
    obtain ⟨holder, hheld⟩ := Site.held_run key canOverwrite ts
    rw [hheld.flag]
    cases holder with
    | none => rfl
    | some holding =>
      obtain ⟨name, m⟩ := holding
      obtain ⟨c, hc⟩ := (hheld.submits name m).mpr rfl
      exact absurd hc (by simp [Site.submission?, hclosed])
  have hfull : r.batch.isEmpty = false := by simpa [Batch.isEmpty] using hbatch
  exact ⟨base, _, hbase, by rw [Replica.claim, hidle, hbase, hfull]; rfl⟩

/-- The site does nothing but stage. -/
def OnlyStages (i : ι) (ms : List (Move ι)) : Prop :=
  ∀ m, Move.site i m ∈ ms → ∃ c, m = .stage c

/-- While it only stages, a site sees nothing new and opens nothing. -/
theorem run_of_onlyStages {z : Fleet ι} {i : ι} {ms : List (Move ι)} (hms : OnlyStages i ms) :
    ((z.run ms).sites i).flights = (z.sites i).flights ∧
      ((z.run ms).sites i).replica.knownHead = (z.sites i).replica.knownHead := by
  induction ms generalizing z with
  | nil => exact ⟨rfl, rfl⟩
  | cons m ms ih =>
    have hrest : OnlyStages i ms := fun m' hm' => hms m' (List.mem_cons_of_mem m hm')
    have hstep : ((z.step m).sites i).flights = (z.sites i).flights ∧
        ((z.step m).sites i).replica.knownHead = (z.sites i).replica.knownHead := by
      rw [step_sites]
      cases hturn : z.turn? i m with
      | none => exact ⟨rfl, rfl⟩
      | some t =>
        obtain ⟨rfl, -⟩ := turn?_eq_some hturn
        obtain ⟨c, hc⟩ := hms t.move (by simp)
        have hkept : ∀ name, ((z.sites i).step t).flights name = (z.sites i).flights name :=
          fun name => (Site.change _ t).flights_of_ne (by simp [hc, Site.Move.operation?])
        refine ⟨funext hkept, ?_⟩
        rw [Option.elim, Site.step_knownHead]
        simp [hc, Site.installed?, Site.outcome?]
    obtain ⟨hflights, hknown⟩ := @ih (z.step m) hrest
    exact ⟨hflights.trans hstep.1, hknown.trans hstep.2⟩

/-- Completing an operation opens nothing. -/
theorem complete_flights (z : Fleet ι) (i : ι) (o : Operation) :
    ((z.complete i o).2.sites i).flights = (z.sites i).flights := by
  obtain ⟨r, result, l, -, heq⟩ := z.exists_complete_eq i o
  rw [heq]
  simp

/-- A look that succeeds shows the current version. -/
theorem complete_shown {z z₁ : Fleet ι} {i : ι} {o : Operation} {s : Snapshot}
    (hl : z.ledger.WellFormed) (ho : o.looks = true)
    (h : z.complete i o = (.ok (.version s), z₁)) :
    z₁.ledger.CurrentIs (z.sites i).replica.key s.version ∧
      s.version ≤ (z₁.sites i).replica.knownHead := by
  obtain ⟨r, result, l, hperformed, heq⟩ := z.exists_complete_eq i o
  rw [h, Prod.mk.injEq] at heq
  obtain ⟨rfl, rfl⟩ := heq
  simpa using hperformed.shown hl ho rfl

/-- What an apply returns, and what it does to the ledger. -/
theorem complete_apply {z : Fleet ι} {i : ι} {c : Claim} {claimed : Replica} {log : VersionLog}
    (hl : z.ledger.WellFormed) (hclaim : (z.sites i).replica.claim = .ok (c, claimed))
    (hlog : z.ledger.log? (z.sites i).replica.key = some log) :
    (c.knownHead < log.current →
      (z.complete i (.apply false)).1 = .error (.staleVersion c.knownHead log.current) ∧
      (z.complete i (.apply false)).2.ledger = z.ledger) ∧
    (log.current ≤ c.knownHead →
      (∀ seen server, (z.complete i (.apply false)).1 ≠ .error (.staleVersion seen server)) ∧
      (z.complete i (.apply false)).2.ledger =
        (z.ledger.submit (z.sites i).replica.key (Manner.checked.request c)).1) := by
  obtain ⟨hstale, hcurrent⟩ := Replica.performed_apply hclaim hl hlog
  constructor
  · intro hbehind
    obtain ⟨r', hperformed⟩ := hstale hbehind
    rw [complete_eq hperformed]
    exact ⟨rfl, rfl⟩
  · intro hseen
    obtain ⟨r', result, hperformed, hresult⟩ := hcurrent hseen
    rw [complete_eq hperformed]
    exact ⟨hresult, rfl⟩

/-- **What an apply finds stale.** A site with nothing open completes a load of the current
version, a selection or a submission, which shows it a version, and then it only stages. What
it was shown was current then. If its next apply finds a current version beyond the newest number
that the site has seen, it is refused as stale with those two numbers, and the ledger stays as
it is; this is so whenever the current version was not stored when the site looked. If the apply
finds any other version current, it is not refused as stale, and its batch is submitted on the
version that is current at the site. -/
theorem stale_iff_beyond_seen {schema : Schema} {keys : ι → EnvironmentKey}
    {permitted : ι → Bool} {before after : List (Move ι)} {i : ι} {o : Operation} {s : Snapshot}
    {z₁ : Fleet ι} (hrange : InRange (before ++ after))
    (hclosed : ∀ name, (((Fleet.new schema keys permitted).run before).sites i).flights name = none)
    (ho : o.looks = true)
    (hlook : ((Fleet.new schema keys permitted).run before).complete i o = (.ok (.version s), z₁))
    (hafter : OnlyStages i after)
    (hbatch : ((z₁.run after).sites i).replica.batch.constraints ≠ []) :
    let z := z₁.run after
    let known := (z.sites i).replica.knownHead
    ∃ log₁ log base, z₁.ledger.log? (keys i) = some log₁ ∧ log₁.current = s.version ∧
      z.ledger.log? (keys i) = some log ∧ (z.sites i).replica.current = some base ∧
      s.version ≤ known ∧
      (known < log.current →
        (z.complete i (.apply false)).1 = .error (.staleVersion known log.current) ∧
        (z.complete i (.apply false)).2.ledger = z.ledger) ∧
      (log.current ≤ known →
        (∀ seen server,
          (z.complete i (.apply false)).1 ≠ .error (.staleVersion seen server)) ∧
        (z.complete i (.apply false)).2.ledger = (z.ledger.submit (keys i)
          ⟨base.version, some known, (z.sites i).replica.batch.constraints⟩).1) ∧
      (log₁.entryAt? log.current = none → known < log.current) := by
  intro z known
  let z₀ := Fleet.new schema keys permitted
  -- the look is part of the run
  have hrun : z₁ = z₀.run (before ++ Move.whole i 0 o 4) := by
    rw [run_append, run_whole (hclosed 0), hlook]
  obtain ⟨hbefore, hlater⟩ := inRange_append.mp hrange
  have hwhole : InRange (before ++ Move.whole i 0 o 4) :=
    inRange_append.mpr ⟨hbefore, fun a ha => absurd ha (by simp [Move.whole])⟩
  have hl₁ : z₁.ledger.WellFormed := hrun ▸ wellFormed_run (wellFormed_new schema keys permitted) _
  have hr₁ : z₁.ledger.Ranged :=
    hrun ▸ ranged_run (wellFormed_new schema keys permitted) (Ledger.ranged_new schema) hwhole
  have hl : z.ledger.WellFormed := wellFormed_run hl₁ after
  -- what it has shown
  obtain ⟨⟨log₁, hlog₁, hversion⟩, hshown⟩ :=
    complete_shown (wellFormed_run (wellFormed_new schema keys permitted) before) ho hlook
  rw [run_new_key] at hlog₁
  -- how site and ledger are when the site applies
  obtain ⟨log, hlog, -, hstored⟩ := stored_or_above_run hl₁ hr₁ hlater hlog₁
  obtain ⟨hflights, hknown⟩ := @run_of_onlyStages _ _ z₁ _ _ hafter
  change known = (z₁.sites i).replica.knownHead at hknown
  have hsite : z.sites i = (Site.new (keys i) (permitted i)).run
      (z₀.turns i (before ++ Move.whole i 0 o 4 ++ after)) := by
    rw [← run_new_sites, run_append, ← hrun]
  have hkey : (z.sites i).replica.key = keys i := by rw [hsite, Site.run_key]; rfl
  have hopen : ∀ name, (z.sites i).flights name = none := by
    intro name
    have hsame := complete_flights (z₀.run before) i o
    rw [hlook] at hsame
    rw [hflights, hsame]
    exact hclosed name
  rw [hsite] at hopen
  obtain ⟨base, claimed, hbase, hclaim⟩ := exists_claim_of_closed hopen (hsite ▸ hbatch)
  rw [← hsite] at hbase hclaim
  obtain ⟨hstale, hcurrent⟩ := complete_apply hl hclaim (hkey.symm ▸ hlog)
  rw [hkey] at hcurrent
  refine ⟨log₁, log, base, hlog₁, hversion, hlog, hbase, hknown ▸ hshown, hstale, hcurrent, ?_⟩
  -- a version made since the look is above the old head, and nothing beyond that was seen
  intro hnew
  obtain ⟨e, he⟩ := Option.isSome_iff_exists.mp (hl _ log hlog).currentStored
  have habove : log₁.head < log.current := by
    rcases hstored log.current (by simp [he]) with hold | habove
    · exact absurd hold (by simp [hnew])
    · exact habove
  have hle : (z₁.sites i).replica.knownHead ≤ log₁.head := by
    rw [hrun] at hlog₁ ⊢
    exact knownHead_le_head hwhole hlog₁
  rw [hknown]
  exact Nat.lt_of_le_of_lt hle habove

/-- Another client applies its batch, and then this one stages a constraint. -/
def passing : List (Move Bool) :=
  Move.whole false 1 (.apply false) 2 ++ [.site true (.stage (.addResource ⟨"aws", "db", "users"⟩))]

/-- The client has looked before the other one made version 2, and is refused. -/
theorem stale_iff_beyond_seen_passing :
    ∃ s z₁, InRange (preparing ++ passing) ∧
      (∀ name, ((pair.run preparing).sites true).flights name = none) ∧
      (pair.run preparing).complete true (.load none) = (.ok (.version s), z₁) ∧
      OnlyStages true passing ∧
      ((z₁.run passing).sites true).replica.batch.constraints ≠ [] ∧
      ((z₁.run passing).complete true (.apply false)).1 = .error (.staleVersion 1 2) ∧
      ((z₁.run passing).complete true (.apply false)).2.ledger = (z₁.run passing).ledger := by
  have hrange : InRange (preparing ++ passing) := by
    intro a ha
    simp only [preparing, passing, Move.whole] at ha
    simp at ha
    subst ha
    trivial
  have hclosed : ∀ name, ((pair.run preparing).sites true).flights name = none := fun _ => rfl
  have hstages : OnlyStages true passing := by
    intro m hm
    exact ⟨_, by simpa [passing, Move.whole] using hm⟩
  obtain ⟨s, z₁, hlook, hlength, hknown, log', hlog', hcurrent⟩ : ∃ s z₁,
      (pair.run preparing).complete true (.load none) = (.ok (.version s), z₁) ∧
      ((z₁.run passing).sites true).replica.batch.constraints.length = 1 ∧
      ((z₁.run passing).sites true).replica.knownHead = 1 ∧
      (z₁.run passing).ledger.CurrentIs shop 2 :=
    ⟨_, _, complete_eq (.asking rfl (.next rfl (.next rfl (.last rfl)))), rfl, rfl, _, rfl, rfl⟩
  have hbatch : ((z₁.run passing).sites true).replica.batch.constraints ≠ [] := by
    intro hempty
    rw [hempty] at hlength
    exact absurd hlength (by simp)
  obtain ⟨log₁, log, base, -, -, hlog, -, -, hstale, -, -⟩ :=
    stale_iff_beyond_seen hrange hclosed rfl hlook hstages hbatch
  obtain rfl := Option.some.inj (hlog'.symm.trans hlog)
  rw [hknown, hcurrent] at hstale
  obtain ⟨hresult, hledger⟩ := hstale (by decide)
  exact ⟨s, z₁, hrange, hclosed, hlook, hstages, hbatch, hresult, hledger⟩

/-- The other client goes back to version 1, and then this one stages a constraint. -/
def receding : List (Move Bool) :=
  Move.whole false 2 (.select 1) 4 ++ [.site true (.stage (.addResource ⟨"aws", "db", "users"⟩))]

/-- The client has looked when version 2 was current, and applies when version 1 is: nothing is
found stale, and the batch makes version 3 of version 2. -/
theorem apply_after_receding :
    ∃ s z₁ s' z₂, (∀ name, ((pair.run advanced).sites true).flights name = none) ∧
      (pair.run advanced).complete true (.load none) = (.ok (.version s), z₁) ∧
      s.version = 2 ∧ z₁.ledger.CurrentIs shop 2 ∧ OnlyStages true receding ∧
      ((z₁.run receding).sites true).replica.batch.constraints.length = 1 ∧
      (z₁.run receding).ledger.CurrentIs shop 1 ∧
      (z₁.run receding).complete true (.apply false) = (.ok (.version s'), z₂) ∧
      s'.version = 3 ∧ z₂.ledger.CurrentIs shop 3 := by
  have hstages : OnlyStages true receding := by
    intro m hm
    exact ⟨_, by simpa [receding, Move.whole] using hm⟩
  refine ⟨_, _, _, _, fun _ => rfl,
    complete_eq (.asking rfl (.next rfl (.next rfl (.last rfl)))), rfl, ⟨_, rfl, rfl⟩, hstages, rfl,
    ⟨_, rfl, rfl⟩, complete_eq (.asking rfl (.next rfl (.last rfl))), rfl, _, rfl, rfl⟩

end Fleet
end VersionedTopology

/-
  VersionedTopology.Proofs.Concurrency.LateResult

  Results that arrive late.

  The ledger gives every result a number above everything that it has recorded, so a
  result is newer than all that its site had installed when the ledger made it. The
  answer may then be long on its way. A replica compares the result with the newest
  number that it had seen when the submission was claimed, and not with the newest one
  that it has seen by now, so it goes back behind what it has installed in the meantime.
-/

import VersionedTopology.Proofs.Concurrency.LostUpdate

namespace VersionedTopology

/-- A submission installs a version only when it is answered with that version, and when the version
is newer than what the claim had seen. -/
theorem Replica.Resumed.installed_of_submitting {r r' : Replica} {c : Claim} {m : Manner}
    {a : Except Error Snapshot} {p : Progress} {s : Snapshot}
    (h : Resumed r (.submitting c m) a r' p) (hs : p.installed? = some s) :
    a = .ok s ∧ c.knownHead < s.version := by
  cases h with
  | applied _ _ s' _ hnewer =>
    obtain rfl := Option.some.inj hs
    exact ⟨rfl, hnewer⟩
  | _ => exact absurd hs (by simp [Progress.installed?])

namespace Fleet

variable {ι : Type} [DecidableEq ι]

/-- Taking up a call installs nothing. -/
theorem installs_serve (z : Fleet ι) (i : ι) (name : Nat) (ms : List (Move ι)) :
    z.installs i (.site i (.serve name) :: ms) =
      (z.step (.site i (.serve name))).installs i ms := by
  have hnone : z.installs i [.site i (.serve name)] = [] := by
    simp [installs, turns, turn?, Site.installs, Site.installed?, Site.outcome?]
  have happend := z.installs_append i [.site i (.serve name)] ms
  rw [hnone] at happend
  exact happend

/-- An installed result was made by the ledger in an earlier move, in which it accepted the
submission. -/
theorem exists_accepted {schema : Schema} {keys : ι → EnvironmentKey} {permitted : ι → Bool}
    {ms : List (Move ι)} {i : ι} {name : Nat} {c : Claim} {m : Manner} {store : Backend.Oracle}
    {s : Snapshot}
    (hflight : (((Fleet.new schema keys permitted).run ms).sites i).flights name =
      some ⟨.submitting c m, some store⟩)
    (hinstalled :
      (((Fleet.new schema keys permitted).run ms).sites i).installed? (.deliver name) = some s) :
    c.knownHead < s.version ∧ ∃ earlier later, ms = earlier ++ .site i (.serve name) :: later ∧
      ((Fleet.new schema keys permitted).run earlier).accepted? i name = some (c, m, s) := by
  obtain ⟨earlier, later, hms, rfl, hasked⟩ := exists_serve_move hflight
  obtain ⟨_, task, store, r, p, hmove, hflight', -, hs, hresumed⟩ :=
    Site.installed?_eq_some hinstalled
  obtain rfl := Site.Move.deliver.inj hmove
  rw [hflight] at hflight'
  simp only [Option.some.injEq, Flight.mk.injEq] at hflight'
  obtain ⟨rfl, rfl⟩ := hflight'
  -- what the oracle answers to a submission is what the ledger makes of it
  obtain ⟨hanswer, hnewer⟩ := hresumed.installed_of_submitting hs
  rw [run_new_key] at hanswer
  refine ⟨hnewer, earlier, later, hms, accepted?_eq_some_iff.mpr ⟨hasked, ?_⟩⟩
  rw [run_new_key]
  exact hanswer

/-- An accepted result is newer than everything its site has installed so far. -/
theorem installs_lt_accepted {schema : Schema} {keys : ι → EnvironmentKey} {permitted : ι → Bool}
    {ms : List (Move ι)} {i : ι} {name : Nat} {c : Claim} {m : Manner} {s : Snapshot}
    (haccepted : ((Fleet.new schema keys permitted).run ms).accepted? i name = some (c, m, s))
    (htop :
      (((Fleet.new schema keys permitted).run ms).step (.site i (.serve name))).ledger.BelowTop
        (keys i)) :
    ∀ w ∈ (Fleet.new schema keys permitted).installs i ms, w.version < s.version := by
  have hl := wellFormed_run (wellFormed_new schema keys permitted) ms
  have hbefore := htop.of_advance hl (advance_step _ hl)
  obtain ⟨hflight, hsubmit⟩ := accepted?_eq_some_iff.mp haccepted
  have hledger := step_serve_ledger hflight
  simp only [Task.call, Ledger.answer, run_new_key] at hsubmit hledger
  rw [hledger] at htop
  obtain ⟨log, base, hlog, -, -, hversion, -, hlogs⟩ := Ledger.submit_ok (Prod.ext rfl hsubmit)
  -- the result is the new head, which is below the top
  have hbelow : s.version < VersionNumber.top := by
    refine htop (log.push ⟨s, some (m.request c).version, (m.request c).constraints⟩) ?_
    rw [Ledger.log?_congr hlogs, Ledger.log?_withLog, if_pos rfl]
  obtain ⟨hlt, -⟩ := VersionLog.lt_of_extended (.inr hversion) hbelow
  intro w hw
  have hrecorded := (recorded_run schema keys permitted i ms hbefore).installed w hw
  rw [run_new_key] at hrecorded
  exact Nat.lt_of_le_of_lt (hrecorded.le_head hl hbefore hlog) hlt

/-- All that a site has installed is older than a version exactly when the newest number that it has
seen is smaller. -/
theorem installs_lt_iff (schema : Schema) (keys : ι → EnvironmentKey) (permitted : ι → Bool)
    (ms : List (Move ι)) (i : ι) {n : VersionNumber} (hn : 0 < n) :
    (∀ w ∈ (Fleet.new schema keys permitted).installs i ms, w.version < n) ↔
      (((Fleet.new schema keys permitted).run ms).sites i).replica.knownHead < n := by
  rw [run_new_sites]
  constructor
  · intro hall
    obtain hzero | ⟨w, hw, heq⟩ := Site.knownHead_eq_or_installs
      (Site.new (keys i) (permitted i)) ((Fleet.new schema keys permitted).turns i ms)
    · rw [hzero]
      exact hn
    · rw [← heq]
      exact hall w hw
  · intro hlt w hw
    exact Nat.lt_of_le_of_lt (Site.installs_le_knownHead hw) hlt

/-- **Which results are newer than all that was installed.** The installed result of a submission
is one that the ledger accepted in an earlier move, and it is newer than everything that
its site had installed until then. So it is newer than everything that the site has
installed by now exactly when that holds of what the site has installed while the answer
was on its way, or, what is the same, when the newest number that the site has seen by now is
smaller. What is checked is that the number captured with the claim is smaller. -/
theorem result_newest_iff {schema : Schema} {keys : ι → EnvironmentKey} {permitted : ι → Bool}
    {ms : List (Move ι)} {i : ι} {name : Nat} {c : Claim} {m : Manner} {store : Backend.Oracle}
    {s : Snapshot}
    (hflight : (((Fleet.new schema keys permitted).run ms).sites i).flights name =
      some ⟨.submitting c m, some store⟩)
    (hinstalled :
      (((Fleet.new schema keys permitted).run ms).sites i).installed? (.deliver name) = some s)
    (htop : ((Fleet.new schema keys permitted).run ms).ledger.BelowTop (keys i)) :
    let z₀ := Fleet.new schema keys permitted
    ∃ earlier later, ms = earlier ++ .site i (.serve name) :: later ∧
      (z₀.run earlier).accepted? i name = some (c, m, s) ∧ c.knownHead < s.version ∧
      (∀ w ∈ z₀.installs i earlier, w.version < s.version) ∧
      ((∀ w ∈ z₀.installs i ms, w.version < s.version) ↔
        ∀ w ∈ ((z₀.run earlier).step (.site i (.serve name))).installs i later,
          w.version < s.version) ∧
      ((∀ w ∈ z₀.installs i ms, w.version < s.version) ↔
        ((z₀.run ms).sites i).replica.knownHead < s.version) := by
  intro z₀
  obtain ⟨hnewer, earlier, later, hms, haccepted⟩ := exists_accepted hflight hinstalled
  have hl : ((z₀.run earlier).step (.site i (.serve name))).ledger.WellFormed := by
    rw [← run_concat]
    exact wellFormed_run (wellFormed_new schema keys permitted) _
  have hbelow : ((z₀.run earlier).step (.site i (.serve name))).ledger.BelowTop (keys i) := by
    rw [hms, run_append, run_cons] at htop
    exact belowTop_of_run hl htop
  have hold := installs_lt_accepted haccepted hbelow
  refine ⟨earlier, later, hms, haccepted, hnewer, hold, ?_, ?_⟩
  · -- what was installed before the answer was given is older in any case
    rw [hms, installs_append, installs_serve]
    constructor
    · intro hall w hw
      exact hall w (List.mem_append_right _ hw)
    · intro hlater w hw
      rcases List.mem_append.mp hw with hw | hw
      · exact hold w hw
      · exact hlater w hw
  · exact installs_lt_iff schema keys permitted ms i (Nat.lt_of_le_of_lt (Nat.zero_le _) hnewer)

/-- A client applies, and the ledger has accepted its batch; the answer is on its way. -/
def answered : List (Move Bool) :=
  .direct (.create shop [] []) ::
    Move.whole false 0 (.load none) 3 ++
    [.site false (.stage (.addResource ⟨"aws", "db", "orders"⟩)),
      .site false (.start 1 (.apply false)), .site false (.serve 1), .site false (.deliver 1),
      .site false (.serve 1)]

theorem result_newest_answered :
    ∃ c store s,
      ((pair.run answered).sites false).flights 1 = some ⟨.submitting c .checked, some store⟩ ∧
      ((pair.run answered).sites false).installed? (.deliver 1) = some s ∧
      (pair.run answered).ledger.BelowTop shop ∧
      ∀ w ∈ pair.installs false answered, w.version < s.version := by
  obtain ⟨c, store, hflight⟩ : ∃ c store, ((pair.run answered).sites false).flights 1 =
      some ⟨.submitting c .checked, some store⟩ := ⟨_, _, rfl⟩
  obtain ⟨s, hinstalled, hversion⟩ :
      ∃ s, ((pair.run answered).sites false).installed? (.deliver 1) = some s ∧ s.version = 2 :=
    ⟨_, rfl, rfl⟩
  have htop : (pair.run answered).ledger.BelowTop shop := Ledger.belowTop_of_all (by rfl)
  have hseen : ((pair.run answered).sites false).replica.knownHead = 1 := by rfl
  obtain ⟨-, -, -, -, -, -, -, hiff⟩ := result_newest_iff hflight hinstalled htop
  refine ⟨c, store, s, hflight, hinstalled, htop, hiff.mpr ?_⟩
  rw [hversion]
  exact Nat.lt_of_le_of_lt (Nat.le_of_eq hseen) (by decide)

/-- Before the answer arrives, the other client applies too, and the first one loads the version
that came of it. -/
def overtaken : List (Move Bool) :=
  answered ++ Move.whole true 0 (.load none) 3 ++
    [.site true (.stage (.addResource ⟨"aws", "db", "users"⟩))] ++
    Move.whole true 1 (.apply false) 2 ++ Move.whole false 2 (.load none) 3

/-- The answer arrives, and the client applies another batch. -/
def shadowing : List (Move Bool) :=
  overtaken ++ [.site false (.deliver 1),
    .site false (.stage (.addResource ⟨"aws", "s3", "logs"⟩)),
    .site false (.start 3 (.apply false)), .site false (.serve 3), .site false (.deliver 3)]

/-- A result that arrives late takes the site back behind a version that it has installed, and the
next batch, which passes every check, is applied to the result and leaves that version out. -/
theorem result_behind_installed :
    ∃ c store s v,
      ((pair.run overtaken).sites false).flights 1 = some ⟨.submitting c .checked, some store⟩ ∧
      ((pair.run overtaken).sites false).installed? (.deliver 1) = some s ∧ s.version = 2 ∧
      v ∈ pair.installs false overtaken ∧ v.version = 3 ∧
      ∃ c' s', (pair.run shadowing).accepted? false 3 = some (c', .checked, s') ∧
        c'.base.version = 2 ∧ s'.version = 4 ∧
        v.resources.contains ⟨"aws", "db", "users"⟩ = true ∧
        s'.resources.contains ⟨"aws", "db", "users"⟩ = false := by
  obtain ⟨c, store, hflight⟩ : ∃ c store, ((pair.run overtaken).sites false).flights 1 =
      some ⟨.submitting c .checked, some store⟩ := ⟨_, _, rfl⟩
  obtain ⟨s, hinstalled, hs⟩ :
      ∃ s, ((pair.run overtaken).sites false).installed? (.deliver 1) = some s ∧ s.version = 2 :=
    ⟨_, rfl, rfl⟩
  obtain ⟨v, hv, hversion, hkept⟩ :
      ∃ v, (pair.installs false overtaken).getLast? = some v ∧ v.version = 3 ∧
        v.resources.contains ⟨"aws", "db", "users"⟩ = true := ⟨_, rfl, rfl, rfl⟩
  obtain ⟨c', s', haccepted, hbase, hs', hlost⟩ :
      ∃ c' s', (pair.run shadowing).accepted? false 3 = some (c', .checked, s') ∧
        c'.base.version = 2 ∧ s'.version = 4 ∧
        s'.resources.contains ⟨"aws", "db", "users"⟩ = false := ⟨_, _, rfl, rfl, rfl, rfl⟩
  exact ⟨c, store, s, v, hflight, hinstalled, hs, List.mem_of_getLast? hv, hversion, c', s',
    haccepted, hbase, hs', hkept, hlost⟩

end Fleet
end VersionedTopology

/-
  VersionedTopology.Proofs.Concurrency.LostUpdate

  No client overwrites what it has not seen.

  Three things that happen at different times make this true. Installing a version
  raises the newest number that a site has seen, a submission captures that number when it
  claims the batch, and the ledger compares it with its current version when it takes up
  the request. In between, answers arrive late and other clients change the ledger.
-/

import VersionedTopology.Proofs.Concurrency.Recorded

namespace VersionedTopology
namespace Fleet

section accepted

variable {ι : Type}

/-- Starts a submission that the ledger is not to check. -/
def Move.forces : Move ι → Bool
  | .site _ (.start _ (.apply true)) => true
  | .site _ (.start _ .confirm) => true
  | _ => false

/-- The submission that the ledger accepts when it takes up the call of an open operation, and the
version that it makes of it. -/
def accepted? (z : Fleet ι) (i : ι) (name : Nat) : Option (Claim × Manner × Snapshot) :=
  match (z.sites i).flights name with
  | some ⟨.submitting c m, none⟩ =>
    match (z.ledger.submit (z.sites i).replica.key (m.request c)).2 with
    | .ok s => some (c, m, s)
    | .error _ => none
  | _ => none

theorem accepted?_eq_some_iff {z : Fleet ι} {i : ι} {name : Nat} {c : Claim} {m : Manner}
    {s : Snapshot} :
    z.accepted? i name = some (c, m, s) ↔
      (z.sites i).flights name = some ⟨.submitting c m, none⟩ ∧
        (z.ledger.submit (z.sites i).replica.key (m.request c)).2 = .ok s := by
  constructor
  · intro h
    simp only [accepted?] at h
    split at h
    · rename_i c' m' hflight
      split at h
      · rename_i s' hsubmit
        simp only [Option.some.injEq, Prod.mk.injEq] at h
        obtain ⟨rfl, rfl, rfl⟩ := h
        exact ⟨hflight, hsubmit⟩
      · exact absurd h (by simp)
    · exact absurd h (by simp)
  · rintro ⟨hflight, hsubmit⟩
    simp only [accepted?, hflight, hsubmit]

/-- Only a forced submission is without an expected head. -/
theorem expectedHead_of_not_forces {i : ι} {name : Nat} {o : Operation} {m : Manner} {c : Claim}
    (hmanner : o.manner? = some m)
    (hforces : (Move.site i (.start name o)).forces = false) :
    (m.request c).expectedHead ≠ none := by
  cases o with
  | apply force =>
    cases force with
    | false =>
      obtain rfl := Option.some.inj hmanner
      simp [Manner.request]
    | true => exact absurd hforces (by simp [Move.forces])
  | confirm => exact absurd hforces (by simp [Move.forces])
  | _ => exact absurd hmanner (by simp [Operation.manner?])

end accepted

variable {ι : Type} [DecidableEq ι]

/-- **No lost update.** A site submits what it claimed in an earlier move, when the newest number
that it had seen was that of a version which it had installed. If the ledger accepts a
submission that is not forced, the current version is not beyond that number. So if nobody
has selected a version, and the submission is not forced, the site had installed the very
version at the head of the log before it claimed its batch. -/
theorem no_lost_update {schema : Schema} {keys : ι → EnvironmentKey} {permitted : ι → Bool}
    {ms : List (Move ι)} {i : ι} {name : Nat} {c : Claim} {m : Manner} {s : Snapshot}
    (haccepted :
      ((Fleet.new schema keys permitted).run ms).accepted? i name = some (c, m, s)) :
    let z₀ := Fleet.new schema keys permitted
    ∃ log earlier o later claimed,
      (z₀.run ms).ledger.log? (keys i) = some log ∧
      ms = earlier ++ .site i (.start name o) :: later ∧ o.manner? = some m ∧
      ((z₀.run earlier).sites i).replica.claim = .ok (c, claimed) ∧
      (∃ v ∈ z₀.installs i earlier,
        v.version = ((z₀.run earlier).sites i).replica.knownHead) ∧
      ((m.request c).expectedHead ≠ none →
        log.current ≤ ((z₀.run earlier).sites i).replica.knownHead) ∧
      ((z₀.run ms).ledger.BelowTop (keys i) → (∀ mv ∈ ms, mv.repoints = false) →
        ((m.request c).expectedHead ≠ none ∨ ∀ mv ∈ ms, mv.forces = false) →
        ∃ e, log.entryAt? log.head = some e ∧ e.snapshot.version = log.head ∧
          e.snapshot ∈ z₀.installs i earlier) := by
  intro z₀
  have hl : ∀ ns, (z₀.run ns).ledger.WellFormed :=
    wellFormed_run (wellFormed_new schema keys permitted)
  obtain ⟨hflight, hsubmit⟩ := accepted?_eq_some_iff.mp haccepted
  rw [run_new_key] at hsubmit
  obtain ⟨log, base, hlog, -, hfresh, -⟩ := Ledger.submit_ok (Prod.ext rfl hsubmit)
  obtain ⟨earlier, o, later, hms, hmanner, claimed, hclaim⟩ := exists_claim_move hflight rfl
  obtain ⟨-, hcurrent, hknown, -⟩ := Replica.claim_ok hclaim
  obtain ⟨v, hv, hversion⟩ := exists_installed hcurrent
  -- the server's comparison, against the number captured with the claim
  have hseen : (m.request c).expectedHead ≠ none →
      log.current ≤ ((z₀.run earlier).sites i).replica.knownHead := by
    intro hchecked
    have hexpected : (m.request c).expectedHead = some c.knownHead := by
      simp only [Manner.request] at hchecked ⊢
      split at hchecked
      · rename_i hm
        rw [if_pos hm]
      · exact absurd rfl hchecked
    rw [hknown]
    exact hfresh _ hexpected
  refine ⟨log, earlier, o, later, claimed, hlog, hms, hmanner, hclaim, ⟨v, hv, hversion⟩, hseen, ?_⟩
  intro htop hselect hforced
  have hchecked : (m.request c).expectedHead ≠ none := by
    obtain hchecked | hforced := hforced
    · exact hchecked
    · exact expectedHead_of_not_forces hmanner (hforced (.site i (.start name o)) (by simp [hms]))
  -- the installed version with the newest number is recorded, so it is not beyond the head
  have hrecorded : (z₀.run ms).ledger.Records (keys i) v := by
    have hmem : v ∈ z₀.installs i ms := by
      rw [hms, installs_append]
      exact List.mem_append_left _ hv
    have hrun := (recorded_run schema keys permitted i ms htop).installed v hmem
    rwa [run_new_key] at hrun
  have hle : v.version ≤ log.head := hrecorded.le_head (hl ms) htop hlog
  have hhead : log.current = log.head := current_eq_head hselect hlog
  have heq : v.version = log.head := by
    apply Nat.le_antisymm hle
    rw [← hhead, hversion]
    exact hseen hchecked
  obtain ⟨log', e, hlog', he, hsnapshot⟩ := hrecorded
  rw [hlog, Option.some.injEq] at hlog'
  subst hlog'
  rw [heq] at he
  exact ⟨e, he, hsnapshot ▸ heq, hsnapshot ▸ hv⟩

/-- Both clients apply, the second one after it has loaded what the first one made. -/
def inTurn : List (Move Bool) :=
  .direct (.create shop [] []) ::
    Move.whole false 0 (.load none) 3 ++
    [.site false (.stage (.addResource ⟨"aws", "db", "orders"⟩))] ++
    Move.whole false 1 (.apply false) 2 ++
    Move.whole true 0 (.load none) 3 ++
    [.site true (.stage (.addResource ⟨"aws", "db", "users"⟩)),
      .site true (.start 1 (.apply false)), .site true (.serve 1), .site true (.deliver 1)]

theorem no_lost_update_inTurn :
    ∃ c s log e earlier later, (pair.run inTurn).accepted? true 1 = some (c, .checked, s) ∧
      (pair.run inTurn).ledger.log? shop = some log ∧ (pair.run inTurn).ledger.BelowTop shop ∧
      inTurn = earlier ++ later ∧ log.current ≤ 2 ∧ log.entryAt? log.head = some e ∧
      e.snapshot ∈ pair.installs true earlier := by
  obtain ⟨c, s, haccepted, hseen⟩ : ∃ c s,
      (pair.run inTurn).accepted? true 1 = some (c, .checked, s) ∧ c.knownHead = 2 :=
    ⟨_, _, rfl, rfl⟩
  obtain ⟨log, earlier, o, later, claimed, hlog, hms, -, hclaim, -, hfresh, hhead⟩ :=
    no_lost_update haccepted
  have htop : (pair.run inTurn).ledger.BelowTop shop := Ledger.belowTop_of_all (by rfl)
  have hselect : ∀ mv ∈ inTurn, mv.repoints = false := by
    have hall : inTurn.all (fun mv => !mv.repoints) = true := by rfl
    simpa using hall
  have hchecked : (Manner.checked.request c).expectedHead ≠ none := by simp [Manner.request]
  obtain ⟨e, he, -, hmem⟩ := hhead htop hselect (.inl hchecked)
  obtain ⟨-, -, hknown, -⟩ := Replica.claim_ok hclaim
  have hle := hfresh hchecked
  rw [hknown] at hle
  exact ⟨c, s, log, e, earlier, _, haccepted, hlog, htop, hms, hseen ▸ hle, he, hmem⟩

end Fleet
end VersionedTopology

/-
  VersionedTopology.Proofs.Concurrency.CarriedBatch

  What stays staged when another version is installed.

  Constraints are staged on the current version, and installing a version of another
  number drops them, with one exception: the result of a submission keeps what was staged
  and not sent. That is wanted for what was staged while the submission was under way, on
  the version that the result derives from. But it is only asked whether a constraint was
  sent, not what it was staged on, so after a load in the meantime the result also keeps
  constraints that belong to the version of that load.
-/

import VersionedTopology.Proofs.Concurrency.Fleet

namespace VersionedTopology

/-- What stays staged when an operation installs a version of another number. -/
theorem Replica.Resumed.constraints {r r' : Replica} {t : Task} {a : (t.call r.key).Answer}
    {p : Progress} {X Y : Snapshot} (h : Resumed r t a r' p) (hr : r.Coherent)
    (hX : r.current = some X) (hY : p.installed? = some Y) (hne : Y.version ≠ X.version) :
    r'.batch.constraints = t.submission?.elim [] fun x => x.1.unsent r.batch := by
  -- a batch that is not empty belongs to the version that was current
  have hforeign : r.batch.base ≠ some Y.version := by
    intro hbase
    obtain ⟨s, hs, hversion⟩ := hr.rooted _ hbase
    rw [hX, Option.some.injEq] at hs
    subst hs
    exact hne hversion.symm
  cases h with
  | loaded s p n =>
    obtain rfl := Option.some.inj hY
    rw [emit_batch, install_batch hr.batch, if_neg hforeign]
    rfl
  | stepped d left target s far =>
    obtain rfl := Option.some.inj hY
    rw [emit_batch, install_batch hr.batch, if_neg hforeign]
    rfl
  | applied c m s _ _ =>
    rw [release_batch, installApplied_batch hr.batch]
    rfl
  | _ => exact absurd hY (by simp [Progress.installed?])

namespace Site

/-- The claim of the submission whose answer arrives in a move. -/
def settled? (s : Site) : Move → Option Claim
  | .deliver name => (s.flights name).bind fun f => f.task.submission?.map Prod.fst
  | _ => none

theorem settled?_eq_some {s : Site} {m : Move} {c : Claim} (h : s.settled? m = some c) :
    ∃ name f manner, m = .deliver name ∧ s.flights name = some f ∧
      f.task.submission? = some (c, manner) := by
  cases m with
  | deliver name =>
    simp only [settled?, Option.bind_eq_some_iff, Option.map_eq_some_iff] at h
    obtain ⟨f, hf, ⟨c', manner⟩, hsub, rfl⟩ := h
    exact ⟨name, f, manner, rfl, hf, hsub⟩
  | _ => exact absurd h (by simp [settled?])

/-- Only what a settled submission has not sent stays staged on a version of another number. -/
theorem constraints_step {s : Site} (hs : s.Coherent) {t : Turn} {X Y : Snapshot}
    (hX : s.replica.current = some X) (hY : s.installed? t.move = some Y)
    (hne : Y.version ≠ X.version) :
    (s.step t).replica.batch.constraints =
      (s.settled? t.move).elim [] fun c => c.unsent s.replica.batch := by
  obtain ⟨move, store⟩ := t
  obtain ⟨name, task, answered, r, p, rfl, hflight, hout, hY, hresumed⟩ := installed?_eq_some hY
  have hkept := hresumed.constraints hs.replica hX hY hne
  simp only [step, hout, follow, settled?, hflight, Option.bind_some, hkept]
  cases task.submission? <;> rfl

/-- A submission was claimed on its base, which is current as long as no version of another number
is installed. -/
theorem exists_base {key : EnvironmentKey} {canOverwrite : Bool} {ts : List Turn} {m : Move}
    {c : Claim} {X : Snapshot}
    (hsettled : ((Site.new key canOverwrite).run ts).settled? m = some c)
    (hX : ((Site.new key canOverwrite).run ts).replica.current = some X) :
    ∃ before after, ts = before ++ after ∧
      ((Site.new key canOverwrite).run before).replica.current = some c.base ∧
      ((∀ w ∈ ((Site.new key canOverwrite).run before).installs after,
        w.version = c.base.version) → c.base.version = X.version) := by
  obtain ⟨name, f, manner, -, hf, hsub⟩ := settled?_eq_some hsettled
  obtain ⟨before, u, after, rfl, -, claimed, hclaim⟩ := exists_claim hf hsub
  obtain ⟨-, hbase, -⟩ := Replica.claim_ok hclaim
  refine ⟨before, u :: after, rfl, hbase, ?_⟩
  intro hsame
  rw [run_append, run_current, hbase] at hX
  cases hlast : (((Site.new key canOverwrite).run before).installs (u :: after)).getLast? with
  | none =>
    rw [hlast, Option.none_or, Option.some.injEq] at hX
    rw [hX]
  | some w =>
    rw [hlast, Option.some_or, Option.some.injEq] at hX
    rw [← hX]
    exact (hsame w (List.mem_of_getLast? hlast)).symm

/-- **Which constraints are carried over.** When a version of another number than the current one is
installed, a constraint stays staged exactly when the version is the result of a
submission that has not sent it. The submission was claimed on its base, which is still the
current version if no version of another number has been installed since. So constraints are
carried over from the base of the result only, exactly when the current version still has the
number of the base or everything that is staged has been sent. -/
theorem carried_from_base_iff {key : EnvironmentKey} {canOverwrite : Bool} {ts : List Turn}
    {t : Turn} {X Y : Snapshot}
    (hX : ((Site.new key canOverwrite).run ts).replica.current = some X)
    (hY : ((Site.new key canOverwrite).run ts).installed? t.move = some Y)
    (hne : Y.version ≠ X.version) :
    let s := (Site.new key canOverwrite).run ts
    let kept := (s.step t).replica.batch.constraints
    (∀ d, d ∈ kept ↔ ∃ c, s.settled? t.move = some c ∧
      d ∈ s.replica.batch.constraints ∧ ∀ e ∈ c.submitted, ¬ Constraint.Same e d) ∧
    (∀ c, s.settled? t.move = some c → ∃ before after, ts = before ++ after ∧
      ((Site.new key canOverwrite).run before).replica.current = some c.base ∧
      ((∀ w ∈ ((Site.new key canOverwrite).run before).installs after,
        w.version = c.base.version) → c.base.version = X.version)) ∧
    ((kept ≠ [] → ∃ c, s.settled? t.move = some c ∧ c.base.version = X.version) ↔
      ∀ c, s.settled? t.move = some c →
        c.base.version = X.version ∨ c.unsent s.replica.batch = []) := by
  intro s kept
  have hkept : kept = (s.settled? t.move).elim [] fun c => c.unsent s.replica.batch :=
    constraints_step ((coherent_new key canOverwrite).run ts) hX hY hne
  refine ⟨?_, fun c hc => exists_base hc hX, ?_⟩
  · intro d
    rw [hkept]
    cases hsettled : s.settled? t.move with
    | none => simp
    | some c => simp [Claim.mem_unsent]
  · constructor
    · intro hclaim c hc
      rw [hc, Option.elim_some] at hkept
      by_cases hnil : c.unsent s.replica.batch = []
      · exact .inr hnil
      · rw [hkept] at hclaim
        obtain ⟨c', hc', hbase⟩ := hclaim hnil
        rw [hc, Option.some.injEq] at hc'
        exact .inl (hc' ▸ hbase)
    · intro hcondition hfull
      cases hsettled : s.settled? t.move with
      | none =>
        rw [hsettled] at hkept
        exact absurd hkept hfull
      | some c =>
        rw [hsettled, Option.elim_some] at hkept
        obtain hbase | hnil := hcondition c hsettled
        · exact ⟨c, rfl, hbase⟩
        · exact absurd (hkept.trans hnil) hfull

/-- The turns of a client that stages another constraint while its submission is under way. -/
def staging : List Turn :=
  Fleet.pair.turns false (.direct (.create Fleet.shop [] []) ::
    Fleet.Move.whole false 0 (.load none) 3 ++
    [.site false (.stage (.addResource ⟨"aws", "db", "orders"⟩)),
      .site false (.start 1 (.apply false)), .site false (.serve 1), .site false (.deliver 1),
      .site false (.stage (.addResource ⟨"aws", "db", "users"⟩)), .site false (.serve 1)])

theorem carried_from_base_staging :
    ∃ X Y c, ((Site.new Fleet.shop false).run staging).replica.current = some X ∧
      ((Site.new Fleet.shop false).run staging).installed? (.deliver 1) = some Y ∧
      Y.version ≠ X.version ∧
      ((Site.new Fleet.shop false).run staging).settled? (.deliver 1) = some c ∧
      c.base.version = X.version ∧
      .addResource ⟨"aws", "db", "users"⟩ ∈ (((Site.new Fleet.shop false).run staging).step
        ⟨.deliver 1, Ledger.oracle {}⟩).replica.batch.constraints := by
  obtain ⟨X, hX, hXversion⟩ : ∃ X,
      ((Site.new Fleet.shop false).run staging).replica.current = some X ∧ X.version = 1 :=
    ⟨_, rfl, rfl⟩
  obtain ⟨Y, hY, hYversion⟩ : ∃ Y,
      ((Site.new Fleet.shop false).run staging).installed? (.deliver 1) = some Y ∧
        Y.version = 2 := ⟨_, rfl, rfl⟩
  obtain ⟨c, hc, hbase, hsubmitted⟩ : ∃ c,
      ((Site.new Fleet.shop false).run staging).settled? (.deliver 1) = some c ∧
        c.base.version = 1 ∧ c.submitted = [.addResource ⟨"aws", "db", "orders"⟩] :=
    ⟨_, rfl, rfl, rfl⟩
  have hstaged : ((Site.new Fleet.shop false).run staging).replica.batch.constraints =
      [.addResource ⟨"aws", "db", "orders"⟩, .addResource ⟨"aws", "db", "users"⟩] := by rfl
  have hne : Y.version ≠ X.version := by
    rw [hXversion, hYversion]
    decide
  obtain ⟨hkept, -, -⟩ := carried_from_base_iff (t := ⟨.deliver 1, Ledger.oracle {}⟩) hX hY hne
  refine ⟨X, Y, c, hX, hY, hne, hc, hbase.trans hXversion.symm, (hkept _).mpr ⟨c, hc, ?_, ?_⟩⟩
  · rw [hstaged]
    simp
  · rw [hsubmitted]
    decide

/-- The turns of a client that goes back to an older version while its submission is under way, and
stages a constraint there. -/
def crossing : List Turn :=
  Fleet.pair.turns false (.direct (.create Fleet.shop [] []) ::
    .direct (.submit Fleet.shop ⟨1, none, [.addResource ⟨"aws", "s3", "logs"⟩]⟩) ::
    Fleet.Move.whole false 0 (.load none) 3 ++
    [.site false (.stage (.addResource ⟨"aws", "db", "orders"⟩)),
      .site false (.start 1 (.apply false)), .site false (.serve 1), .site false (.deliver 1)] ++
    Fleet.Move.whole false 2 (.load (some 1)) 3 ++
    [.site false (.stage (.addResource ⟨"aws", "db", "users"⟩)), .site false (.serve 1)])

/-- A constraint that was staged on version 1 stays staged on version 3, which is the result of a
submission based on version 2. -/
theorem carried_across_lines :
    ∃ X Y c, ((Site.new Fleet.shop false).run crossing).replica.current = some X ∧
      ((Site.new Fleet.shop false).run crossing).installed? (.deliver 1) = some Y ∧
      ((Site.new Fleet.shop false).run crossing).settled? (.deliver 1) = some c ∧
      X.version = 1 ∧ c.base.version = 2 ∧ Y.version = 3 ∧
      ((Site.new Fleet.shop false).run crossing).replica.batch =
        ⟨some 1, [.addResource ⟨"aws", "db", "users"⟩]⟩ ∧
      (((Site.new Fleet.shop false).run crossing).step
        ⟨.deliver 1, Ledger.oracle {}⟩).replica.batch =
        ⟨some 3, [.addResource ⟨"aws", "db", "users"⟩]⟩ :=
  ⟨_, _, _, rfl, rfl, rfl, rfl, rfl, rfl, rfl, rfl⟩

end Site
end VersionedTopology

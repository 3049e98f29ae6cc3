/-
  VersionedTopology.Proofs.Concurrency.AcceptedResult

  Accepted means installed.

  Once a ledger has accepted a submission, the site that it came from cannot refuse the
  result: it belongs to the environment, and it is newer than what had been seen when the
  batch was claimed, however many versions have come in between. So a ledger is never
  changed by an operation that then fails. And what is installed is what was staged: the base
  of the submission is the version that was current at the claim, its entry has not
  changed since, and the batch has not either.
-/

import VersionedTopology.Proofs.Concurrency.UsableAnswer
import VersionedTopology.Proofs.History.Replay

namespace VersionedTopology
namespace Site

/-- An answer that is on its way stays so until it is delivered or its operation is dropped. -/
theorem flights_of_answered {s : Site} {name : Nat} {task : Task} {store : Backend.Oracle}
    {ts : List Turn} (hflight : s.flights name = some ⟨task, some store⟩)
    (hts : ∀ t ∈ ts, t.move ≠ .deliver name ∧ t.move ≠ .drop name) :
    (s.run ts).flights name = some ⟨task, some store⟩ := by
  induction ts generalizing s with
  | nil => exact hflight
  | cons t ts ih =>
    have ht := hts t List.mem_cons_self
    refine ih ?_ fun u hu => hts u (List.mem_cons_of_mem _ hu)
    by_cases hm : t.move.operation? = some name
    · -- its name is taken, and its call is not taken up twice
      obtain ⟨move, store'⟩ := t
      cases move with
      | start n o =>
        obtain rfl := Option.some.inj hm
        simp [step, outcome?, hflight, follow]
      | serve n =>
        obtain rfl := Option.some.inj hm
        simp [step, hflight]
      | deliver n => exact absurd (congrArg Move.deliver (Option.some.inj hm)) ht.1
      | drop n => exact absurd (congrArg Move.drop (Option.some.inj hm)) ht.2
      | _ => exact absurd hm (by simp [Move.operation?])
    · exact ((change s t).flights_of_ne hm).trans hflight

/-- A result that is accepted ends its operation, and is installed. -/
theorem deliver_result {s : Site} {name : Nat} {c : Claim} {m : Manner}
    {store answered : Backend.Oracle} {v : Snapshot}
    (hflight : s.flights name = some ⟨.submitting c m, some answered⟩)
    (hanswer : answered (.apply s.replica.key (m.request c)) = .ok v)
    (hkey : v.key = s.replica.key) (hnewer : c.knownHead < v.version) :
    s.ending? name (.deliver name) = some (.returned (.version v)) ∧
      (s.step ⟨.deliver name, store⟩).replica = (s.replica.installApplied c v).release m := by
  have hresume : s.replica.resume (.submitting c m)
      (answered (.apply s.replica.key (m.request c))) =
        ((s.replica.installApplied c v).release m, .finished (.ok (.version v))) := by
    rw [hanswer]
    exact Replica.settle_ok m hkey hnewer
  have hout : s.outcome? (.deliver name) =
      some ((s.replica.installApplied c v).release m, .finished (.ok (.version v))) := by
    simp only [outcome?, hflight]
    exact congrArg some hresume
  constructor
  · simp [ending?, Move.operation?, hout, Progress.ending?]
  · simp [step, hout, follow]

end Site

namespace Fleet

variable {ι : Type} [DecidableEq ι]

theorem schema_step (z : Fleet ι) (m : Move ι) : (z.step m).ledger.schema = z.ledger.schema := by
  cases m with
  | site i m =>
    simp only [step]
    cases (z.sites i).asked? m with
    | none => rfl
    | some c =>
      rcases z.ledger.exists_act_answer c with hsame | ⟨a, -, hact⟩
      · exact congrArg Ledger.schema hsame
      · exact (congrArg Ledger.schema hact).trans (z.ledger.schema_act a)
  | direct a => exact z.ledger.schema_act a

theorem schema_run (z : Fleet ι) (ms : List (Move ι)) :
    (z.run ms).ledger.schema = z.ledger.schema := by
  induction ms generalizing z with
  | nil => rfl
  | cons m ms ih => rw [run_cons, ih, schema_step]

/-- Once the ledger has taken up a call, its answer is on the way until it is delivered or the
operation is dropped. -/
theorem flights_of_served {z : Fleet ι} {i : ι} {name : Nat} {task : Task} {ms : List (Move ι)}
    (hflight : (z.sites i).flights name = some ⟨task, none⟩)
    (hms : ∀ m ∈ ms, m ≠ .site i (.deliver name) ∧ m ≠ .site i (.drop name)) :
    ((z.run (.site i (.serve name) :: ms)).sites i).flights name =
      some ⟨task, some z.ledger.oracle⟩ := by
  have hserved : ((z.step (.site i (.serve name))).sites i).flights name =
      some ⟨task, some z.ledger.oracle⟩ := by
    simp [step, Site.step, hflight, Site.put]
  rw [run_cons, run_sites]
  refine Site.flights_of_answered hserved ?_
  intro t ht
  -- the turns of the site are moves of the fleet
  obtain ⟨us, vs, hts⟩ := List.append_of_mem ht
  obtain ⟨first, rest, rfl, -, -⟩ := exists_move hts
  obtain ⟨hdeliver, hdrop⟩ := hms (.site i t.move) (by simp)
  exact ⟨fun h => hdeliver (by rw [h]), fun h => hdrop (by rw [h])⟩

variable {schema : Schema} {keys : ι → EnvironmentKey} {permitted : ι → Bool} {i : ι}

/-- Whatever is open at a site is underway since a move of the run. -/
theorem exists_underway_move {ms : List (Move ι)} {name : Nat} {f : Flight}
    (h : (((Fleet.new schema keys permitted).run ms).sites i).flights name = some f) :
    ∃ before after o, ms = before ++ after ∧
      Site.Underway (((Fleet.new schema keys permitted).run before).sites i) name o
        (((Fleet.new schema keys permitted).run before).turns i after) := by
  rw [run_new_sites] at h
  obtain ⟨earlier, later, o, hturns, hunderway⟩ := Site.exists_underway h
  obtain ⟨store, rest, rfl⟩ := hunderway.head
  obtain ⟨before, after, rfl, hbefore, -⟩ := exists_move hturns
  refine ⟨before, _, o, rfl, ?_⟩
  rw [turns_append, hbefore, List.append_cancel_left_eq] at hturns
  rw [hturns, run_new_sites, hbefore]
  exact hunderway

/-- The newest number that a site has seen is not beyond the head; without a log it is zero. -/
theorem knownHead_le {ms : List (Move ι)}
    (htop : ((Fleet.new schema keys permitted).run ms).ledger.BelowTop (keys i)) :
    (((Fleet.new schema keys permitted).run ms).sites i).replica.knownHead ≤
      (((Fleet.new schema keys permitted).run ms).ledger.log? (keys i)).elim 0
        VersionLog.head := by
  have hseen := Site.knownHead_eq_or_installs (Site.new (keys i) (permitted i))
    ((Fleet.new schema keys permitted).turns i ms)
  rw [← run_new_sites] at hseen
  rcases hseen with hzero | ⟨v, hv, hversion⟩
  · rw [hzero]
    exact Nat.zero_le _
  · have hl := wellFormed_run (wellFormed_new schema keys permitted) ms
    have hrecords := (recorded_run schema keys permitted i ms htop).installed v hv
    rw [run_new_key] at hrecords
    obtain ⟨log, e, hlog, he, -⟩ := hrecords
    rw [← hversion, hlog]
    exact (hl _ log hlog).bounded (htop log hlog) _ e he

/-- What the ledger accepts is solved from the version that was current when the batch was claimed,
with the batch as it was then. -/
theorem accepted_solved {ms : List (Move ι)} {name : Nat} {c : Claim} {m : Manner} {s : Snapshot}
    (haccepted : ((Fleet.new schema keys permitted).run ms).accepted? i name = some (c, m, s))
    (htop : ((Fleet.new schema keys permitted).run ms).ledger.BelowTop (keys i)) :
    ∃ before after o solved, ms = before ++ after ∧
      Site.Underway (((Fleet.new schema keys permitted).run before).sites i) name o
        (((Fleet.new schema keys permitted).run before).turns i after) ∧
      o.manner? = some m ∧
      (((Fleet.new schema keys permitted).run before).sites i).replica.current = some c.base ∧
      (((Fleet.new schema keys permitted).run before).sites i).replica.batch.constraints =
        c.submitted ∧
      solve c.base c.submitted schema = .ok solved ∧
      s.resources = solved.resources ∧ s.edges = solved.edges := by
  obtain ⟨hflight, hsubmit⟩ := accepted?_eq_some_iff.mp haccepted
  obtain ⟨before, after, o, rfl, hunderway⟩ := exists_underway_move hflight
  -- the claim goes back to the start of the operation
  obtain ⟨f, hf, hsub, -⟩ := hunderway.flight
  rw [← run_sites, ← run_append, hflight, Option.some.injEq] at hf
  subst hf
  obtain ⟨hmanner, claimed, hclaim⟩ := Replica.submission?_eq_some.mp hsub.symm
  obtain ⟨-, hcurrent, -, hbatch, -, -⟩ := Replica.claim_ok hclaim
  have hl := wellFormed_run (wellFormed_new schema keys permitted) before
  rw [run_new_key] at hsubmit
  obtain ⟨log, base, solved, hlog, hbase, -, hsolve, rfl, -⟩ :=
    Ledger.submit_solved (Prod.ext rfl hsubmit)
  have hholds : ((Fleet.new schema keys permitted).run (before ++ after)).ledger.Holds (keys i)
      c.base.version base := ⟨log, hlog, hbase⟩
  -- the entry of the base has not changed since
  have hrecords : ((Fleet.new schema keys permitted).run (before ++ after)).ledger.Records (keys i)
      c.base := by
    rw [run_append] at htop ⊢
    exact records_run (records_current (belowTop_of_run hl htop) hcurrent) hl htop
  obtain ⟨e, he, hsnapshot⟩ := Ledger.records_iff.mp hrecords
  obtain rfl := hholds.unique he
  rw [hsnapshot, schema_run] at hsolve
  exact ⟨before, after, o, solved, rfl, hunderway, hmanner, hcurrent, hbatch, hsolve, rfl, rfl⟩

/-- **Accepted means installed.** In every run of a fleet in which the greatest number is not in
use, the newest number that a site has seen is not beyond the head of its environment. When the
ledger has accepted a submission of a site, the operation ends with the accepted version as soon as
the answer is delivered, whatever happens until then, if it is not dropped, and the version is
installed. Its resources and edges are what the solver makes, under the schema of the ledger, of the
version that was current when the operation was started and the batch as it was staged then. And no
operation of a site ever ends with a failure of transport. -/
theorem accepted_installed {schema : Schema} {keys : ι → EnvironmentKey} {permitted : ι → Bool}
    {i : ι} {ms : List (Move ι)}
    (htop : ((Fleet.new schema keys permitted).run ms).ledger.BelowTop (keys i)) :
    let z₀ := Fleet.new schema keys permitted
    let z := z₀.run ms
    (z.sites i).replica.knownHead ≤ (z.ledger.log? (keys i)).elim 0 VersionLog.head ∧
    (∀ earlier later name c m s, ms = earlier ++ .site i (.serve name) :: later →
      (z₀.run earlier).accepted? i name = some (c, m, s) →
      (∀ mv ∈ later, mv ≠ .site i (.deliver name) ∧ mv ≠ .site i (.drop name)) →
      (z.sites i).ending? name (.deliver name) = some (.returned (.version s)) ∧
      ((z.step (.site i (.deliver name))).sites i).replica.current = some s ∧
      ∃ before after o solved, earlier = before ++ after ∧
        Site.Underway ((z₀.run before).sites i) name o ((z₀.run before).turns i after) ∧
        o.manner? = some m ∧ ((z₀.run before).sites i).replica.current = some c.base ∧
        ((z₀.run before).sites i).replica.batch.constraints = c.submitted ∧
        solve c.base c.submitted schema = .ok solved ∧
        s.resources = solved.resources ∧ s.edges = solved.edges) ∧
    (∀ name mv e, (z.sites i).ending? name mv = some (.failed e) → e.kind ≠ .transport) := by
  intro z₀ z
  refine ⟨knownHead_le htop, ?_, fun name mv e h => kind_of_failed htop h⟩
  rintro earlier later name c m s rfl haccepted hquiet
  have hl : (z₀.run earlier).ledger.WellFormed :=
    wellFormed_run (wellFormed_new schema keys permitted) earlier
  have hserved : ((z₀.run earlier).step (.site i (.serve name))).ledger.BelowTop (keys i) := by
    rw [run_append, run_cons] at htop
    exact belowTop_of_run (hl.advance (advance_step _ hl)) htop
  obtain ⟨hflight, hsubmit⟩ := accepted?_eq_some_iff.mp haccepted
  have hanswered : (z.sites i).flights name =
      some ⟨.submitting c m, some (z₀.run earlier).ledger.oracle⟩ := by
    simp only [z, run_append]
    exact flights_of_served hflight hquiet
  have hkey : (z.sites i).replica.key = keys i := run_new_key schema keys permitted i _
  have hanswer : (z₀.run earlier).ledger.oracle (.apply (z.sites i).replica.key (m.request c)) =
      .ok s := by
    rw [hkey, ← run_new_key schema keys permitted i earlier]
    exact hsubmit
  obtain ⟨hends, hinstalls⟩ : _ ∧ ((z.sites i).step ⟨.deliver name, z.ledger.oracle⟩).replica =
      ((z.sites i).replica.installApplied c s).release m :=
    Site.deliver_result hanswered hanswer ((key_of_accepted haccepted).trans hkey.symm)
      (knownHead_lt_accepted haccepted hserved)
  refine ⟨hends, ?_, accepted_solved haccepted (hserved.of_advance hl (advance_step _ hl))⟩
  rw [step_sites]
  simp only [turn?, if_true, Option.elim, hinstalls]
  simp

/-- A client has been told that it is up to date, and its batch is on its way to the ledger. -/
def requesting : List (Move Bool) :=
  preparing ++
    [.site false (.start 1 (.apply false)), .site false (.serve 1), .site false (.deliver 1)]

/-- While the answer is on its way, the other client makes version 3, and the first one loads it. -/
def meanwhile : List (Move Bool) :=
  Move.whole true 0 (.load none) 3 ++
    [.site true (.stage (.addResource ⟨"aws", "db", "users"⟩))] ++
    Move.whole true 1 (.apply false) 2 ++ Move.whole false 2 (.load none) 3

/-- A batch that has been accepted as version 2 is installed as that, also when its answer comes
after version 3 has been loaded. -/
theorem accepted_installed_overtaken :
    (pair.run overtaken).ledger.BelowTop shop ∧
    overtaken = requesting ++ .site false (.serve 1) :: meanwhile ∧
    (∀ mv ∈ meanwhile, mv ≠ .site false (.deliver 1) ∧ mv ≠ .site false (.drop 1)) ∧
    ∃ c s, (pair.run requesting).accepted? false 1 = some (c, .checked, s) ∧ s.version = 2 ∧
      ((pair.run overtaken).sites false).ending? 1 (.deliver 1) =
        some (.returned (.version s)) ∧
      (((pair.run overtaken).step (.site false (.deliver 1))).sites false).replica.current =
        some s := by
  have htop : (pair.run overtaken).ledger.BelowTop shop := Ledger.belowTop_of_all (by rfl)
  have hsplit : overtaken = requesting ++ .site false (.serve 1) :: meanwhile := by rfl
  have hquiet : ∀ mv ∈ meanwhile,
      mv ≠ .site false (.deliver 1) ∧ mv ≠ .site false (.drop 1) := by
    simp [meanwhile, Move.whole]
  obtain ⟨c, s, haccepted, hversion⟩ : ∃ c s,
      (pair.run requesting).accepted? false 1 = some (c, .checked, s) ∧ s.version = 2 :=
    ⟨_, _, rfl, rfl⟩
  obtain ⟨-, hinstalled, -⟩ := accepted_installed htop
  obtain ⟨hends, hcurrent, -⟩ := hinstalled requesting _ 1 c .checked s hsplit haccepted hquiet
  exact ⟨htop, hsplit, hquiet, c, s, haccepted, hversion, hends, hcurrent⟩

end Fleet
end VersionedTopology

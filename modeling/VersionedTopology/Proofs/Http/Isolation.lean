/-
  VersionedTopology.Proofs.Http.Isolation

  What one request to a server can change.

  Nothing, unless it succeeds. A request that succeeds changes the log of the one environment that
  its path names, and that in one step: the environment is started, another stored version becomes
  current, or one version is added. This holds of every server as long as the greatest version
  number is not in use; how it has been filled before, over the network or otherwise, does not
  matter.
-/

import VersionedTopology.Proofs.Http.Reachable

namespace VersionedTopology.Http
namespace Server

/-- A server as it may be found: filled in any way, and asked anything in between. -/
inductive Reached : Server → Prop
  | new (settings : ServerSettings) : Reached (new settings)
  | acted {s : Server} (h : Reached s) (a : Ledger.Act) (ha : a.InRange) :
      Reached { s with ledger := s.ledger.act a }
  | asked {s : Server} (h : Reached s) (r : Request) : Reached (s.respond r).1

variable {s : Server}

theorem Reached.sound (h : Reached s) : s.ledger.WellFormed ∧ s.ledger.Ranged := by
  induction h with
  | new settings => exact ⟨Ledger.wellFormed_new _, Ledger.ranged_new _⟩
  | acted _ a ha ih =>
    exact ⟨ih.1.advance (Ledger.advance_act a ih.1), Ledger.ranged_act ih.1 ih.2 ha⟩
  | @asked s _ r ih =>
    have houtcome := s.outcome_respond r
    generalize (s.respond r).1.ledger = l' at houtcome ⊢
    cases houtcome with
    | kept => exact ih
    | acted k a _ hnames hasks =>
      exact ⟨ih.1.advance (Ledger.advance_act a ih.1), Ledger.ranged_act ih.1 ih.2 hasks.inRange⟩

/-- No version has the greatest number. -/
def Untopped (l : Ledger) : Prop :=
  ∀ k log, l.log? k = some log → log.entryAt? VersionNumber.top = none

theorem belowTop_of_untopped {l : Ledger} (hl : l.WellFormed) (hr : l.Ranged) (h : Untopped l)
    (k : EnvironmentKey) : l.BelowTop k := by
  intro log hlog
  refine Nat.lt_of_le_of_ne (hr k log hlog).head_le fun heq => ?_
  have hstored := (hl k log hlog).headStored
  rw [heq, h k log hlog] at hstored
  exact absurd hstored (by simp)

/-! ## One step of a log -/

/-- How the log of an environment changes by a request of a method. -/
inductive LogStep : String → Option VersionLog → VersionLog → Prop
  /-- The environment is started with version 1. -/
  | started (e : LogEntry) (log : VersionLog) (hversion : e.snapshot.version = 1)
      (hparent : e.parent = none) (hadded : VersionLog.Extends none e log) :
      LogStep "PUT" none log
  | moved (log : VersionLog) (v : VersionNumber) (hstored : (log.entryAt? v).isSome) :
      LogStep "POST" (some log) { log with current := v }
  /-- One version is added, and becomes head and current version. -/
  | added (log log' : VersionLog) (e : LogEntry) (hnew : log.entryAt? e.snapshot.version = none)
      (hadded : VersionLog.Extends (some log) e log') : LogStep "POST" (some log) log'

theorem Asks.mem_writes {k : EnvironmentKey} {method : String} {a : Ledger.Act}
    (h : Asks k method a) : method ∈ ["PUT", "POST"] := by
  cases h <;> decide

theorem Asks.key_eq {k : EnvironmentKey} {method : String} {a : Ledger.Act} (h : Asks k method a) :
    a.key = k := by
  cases h <;> rfl

/-- An act that is asked for and done is one step of the log. -/
theorem Asks.logStep {l : Ledger} {k : EnvironmentKey} {method : String} {a : Ledger.Act}
    (h : Asks k method a) (hl : l.WellFormed) (htop : l.BelowTop k)
    (hmade : l.refusal? a = none) :
    ∃ log', (l.act a).log? k = some log' ∧ LogStep method (l.log? k) log' := by
  have hacted := Ledger.acted hl a
  generalize l.act a = l' at hacted
  cases hacted with
  | refused _ _ err herr => exact absurd (hmade.symm.trans herr) (by simp)
  | added _ _ e _ hadds hlogs =>
    have hlog' : l'.log? k = some (((l.log? k).getD {}).push e) := by
      rw [Ledger.log?_congr hlogs, Ledger.log?_withLog, h.key_eq, if_pos rfl]
    refine ⟨_, hlog', ?_⟩
    cases h with
    | create resources edges =>
      cases hadds with
      | created _ _ _ s hnew hkey hversion =>
        rw [hnew]
        exact .started _ _ hversion rfl (VersionLog.extends_push nofun)
    | select v => cases hadds
    | apply request =>
      cases hadds with
      | submitted _ _ log base s hlog =>
        -- below the greatest number, the number after the head is a new one
        have hnext := VersionNumber.next_eq_succ (htop log hlog)
        have habove : log.head < VersionNumber.next log.head := hnext ▸ Nat.lt_succ_self _
        have hnew : log.entryAt? (VersionNumber.next log.head) = none := by
          refine Option.not_isSome_iff_eq_none.mp fun hstored => ?_
          obtain ⟨x, hx⟩ := Option.isSome_iff_exists.mp hstored
          have hle := (hl k log hlog).bounded (htop log hlog) _ x hx
          exact absurd habove (Nat.not_lt.mpr hle)
        rw [hlog]
        refine .added log _ _ hnew (VersionLog.extends_push ?_)
        rintro _ ⟨rfl⟩
        exact habove
  | moved k' v log _ hlog hstored =>
    cases h with
    | select =>
      rw [hlog]
      exact ⟨_, by rw [Ledger.log?_withLog, if_pos rfl], .moved log v hstored⟩

/-- **What one request can change.** Without success, no log. With a method that only reads or
asks in advance, no log. And a request that succeeds in changing something changes the log of the
one environment that its path names, in one step, and no other log. -/
theorem respond_isolated (h : Reached s) (htop : Untopped s.ledger) (r : Request) :
    (Status.isSuccess (s.respond r).2.status = false →
      (s.respond r).1.ledger.logs = s.ledger.logs) ∧
    (r.method ∈ ["GET", "HEAD", "OPTIONS"] → (s.respond r).1.ledger.logs = s.ledger.logs) ∧
    (r.method ∈ ["PUT", "POST"] → Status.isSuccess (s.respond r).2.status = true →
      ∃ k log', r.Names k ∧ (s.respond r).1.ledger.log? k = some log' ∧
        LogStep r.method (s.ledger.log? k) log' ∧
        ∀ k', k' ≠ k → (s.respond r).1.ledger.log? k' = s.ledger.log? k') := by
  obtain ⟨hl, hr⟩ := h.sound
  have houtcome := s.outcome_respond r
  generalize (s.respond r).1.ledger = l' at houtcome ⊢
  generalize (s.respond r).2.status = status at houtcome ⊢
  cases houtcome with
  | kept _ hrefused =>
    refine ⟨fun _ => rfl, fun _ => rfl, fun hwrites hsuccess => ?_⟩
    exact absurd ((hrefused hwrites).symm.trans hsuccess) (by simp)
  | acted k a _ hnames hasks hportable hstatus =>
    have hacted := Ledger.acted hl a
    refine ⟨fun hfailed => ?_, fun hreads => ?_, fun _ hsuccess => ?_⟩
    · refine hacted.logs_of_refusal fun hnone => ?_
      exact absurd (hfailed.symm.trans (hstatus.mpr hnone)) (by simp)
    · -- a method that reads asks for no act
      have hwrites := hasks.mem_writes
      simp only [List.mem_cons, List.not_mem_nil, or_false] at hreads hwrites
      rcases hreads with hm | hm | hm <;> rw [hm] at hwrites <;> simp at hwrites
    · have hmade := hstatus.mp hsuccess
      obtain ⟨log', hlog', hstep⟩ :=
        hasks.logStep hl (belowTop_of_untopped hl hr htop k) hmade
      refine ⟨k, log', hnames, hlog', hstep, fun k' hne => ?_⟩
      exact hacted.log?_of_ne (hasks.key_eq.symm ▸ hne)

/-- Starts the environment `shop/prod`. -/
def launch : Request where
  method := "PUT"
  target := "/architecture/shop/environment/prod"
  headers := [("content-type", "application/json")]
  body := "\x7b\x7d"

/-- Adds a node to version 1 of `shop/prod`. -/
def extend : Request where
  method := "POST"
  target := "/architecture/shop/environment/prod/constraints"
  headers := [("content-type", "application/json")]
  body := "\x7b\"version\":1,\"expected_head\":1,\"constraints\":[\x7b\"scope\":\"global\"," ++
    "\"operator\":\"add\",\"node\":\"aws:db:orders\"\x7d]\x7d"

/-- A new server with a started environment, asked for the next version. -/
theorem respond_isolated_extend :
    ∃ s : Server, Reached s ∧ Untopped s.ledger ∧ Status.isSuccess (s.respond extend).2.status ∧
      ∃ k log', extend.Names k ∧ (s.respond extend).1.ledger.log? k = some log' ∧
        LogStep "POST" (s.ledger.log? k) log' := by
  have hempty : Untopped (new {}).ledger := nofun
  obtain ⟨k, log, -, hlog, hstep, hothers⟩ :=
    (respond_isolated (.new {}) hempty launch).2.2 (by decide) (by decide +kernel)
  have htop : Untopped ((new {}).respond launch).1.ledger := by
    intro k' log' hlog'
    by_cases hk : k' = k
    · subst hk
      obtain rfl := Option.some.inj (hlog.symm.trans hlog')
      -- nothing was stored before, so version 1 is all there is
      have hnone : (new {}).ledger.log? k' = none := rfl
      generalize (new {}).ledger.log? k' = before at hstep hnone
      generalize launch.method = method at hstep
      cases hstep with
      | started e _ hversion _ hadded =>
        rw [hadded.entries, if_neg (by rw [hversion]; decide)]
        rfl
      | moved => exact absurd hnone (by simp)
      | added => exact absurd hnone (by simp)
    · exact hempty k' log' ((hothers k' hk).symm.trans hlog')
  have hmade : Status.isSuccess ((((new {}).respond launch).1).respond extend).2.status := by
    decide +kernel
  obtain ⟨k, log', hnames, hlog', hstep, -⟩ :=
    (respond_isolated (.asked (.new {}) launch) htop extend).2.2 (by decide) hmade
  exact ⟨_, .asked (.new {}) launch, htop, hmade, k, log', hnames, hlog', hstep⟩

end Server
end VersionedTopology.Http

/-
  VersionedTopology.Proofs.History.Replay

  The history of a version explains it.

  An entry of a log keeps the constraints that led from its parent to it. Submissions may be
  based on any version and the current version may be moved about, so a graph has come
  from many solves with branches in between. Still every entry that a submission has made is its
  parent with the entry's constraints worked in, and the log keeps that parent. Along an
  ancestry these steps put together are one solve of the root with the whole history.

  Snapshots that are appended to a log come with no constraints, so a log is explained by
  its root only if it has been started once and nothing was appended to it afterwards.
-/

import VersionedTopology.Proofs.Constraint.Solve
import VersionedTopology.Proofs.History.Lineage

namespace VersionedTopology
namespace VersionLog

/-- Every entry is its parent with the constraints of the entry worked in, and a root has none. -/
structure Explained (schema : Schema) (log : VersionLog) : Prop where
  root : ∀ v e, log.entryAt? v = some e → e.parent = none → e.constraints = []
  derived : ∀ v e p, log.entryAt? v = some e → e.parent = some p → ∃ base,
    log.entryAt? p = some base ∧
      Solve.Leads schema base.snapshot.toGraph e.constraints e.snapshot.toGraph

variable {schema : Schema} {key : EnvironmentKey} {log : VersionLog}

theorem explained_founded (s : Snapshot) : Explained schema (push {} ⟨s, none, []⟩) where
  root := by
    intro v e he _
    obtain ⟨-, rfl⟩ := eq_of_entryAt?_founded he
    rfl
  derived := by
    intro v e p he hp
    obtain ⟨-, rfl⟩ := eq_of_entryAt?_founded he
    exact absurd hp (by simp)

/-- A version above the head that is computed from a recorded one is explained by it, and all others
stay so. -/
theorem Explained.push (h : log.Explained schema) (hlog : log.WellFormed key)
    {e base : LogEntry} {p : VersionNumber} (hparent : e.parent = some p)
    (hbase : log.entryAt? p = some base)
    (hleads : Solve.Leads schema base.snapshot.toGraph e.constraints e.snapshot.toGraph)
    (hlt : log.head < e.snapshot.version) (hbelow : log.head < VersionNumber.top) :
    (log.push e).Explained schema where
  root := by
    intro v x hx hroot
    obtain ⟨-, rfl⟩ | hx := eq_or_of_entryAt?_push hx
    · rw [hparent] at hroot
      exact absurd hroot (by simp)
    · exact h.root v x hx hroot
  derived := by
    intro v x q hx hq
    obtain ⟨-, rfl⟩ | hx := eq_or_of_entryAt?_push hx
    · obtain rfl := Option.some.inj (hparent.symm.trans hq)
      exact ⟨base, hlog.entryAt?_push hlt hbelow hbase, hleads⟩
    · obtain ⟨b, hb, hled⟩ := h.derived v x q hx hq
      exact ⟨b, hlog.entryAt?_push hlt hbelow hb, hled⟩

/-- The constraints of an ancestry lead from its root to its end. -/
theorem Explained.leads (h : log.Explained schema) {v : VersionNumber} {path : List LogEntry}
    (hpath : log.Ancestry v path) :
    ∃ root e, path.head? = some root ∧ root.parent = none ∧ log.entryAt? v = some e ∧
      Solve.Leads schema root.snapshot.toGraph (path.flatMap LogEntry.constraints)
        e.snapshot.toGraph := by
  induction hpath with
  | @root v e he hroot =>
    refine ⟨e, e, rfl, hroot, he, ?_⟩
    simp only [List.flatMap_singleton, h.root v e he hroot]
    exact Solve.leads_nil _
  | @child v p e path he hparent hpath ih =>
    obtain ⟨root, base, hhead, hroot, hbase, hled⟩ := ih
    obtain ⟨base', hbase', hstep⟩ := h.derived v e p he hparent
    obtain rfl := Option.some.inj (hbase.symm.trans hbase')
    refine ⟨root, e, by simp [List.head?_append, hhead], hroot, he, ?_⟩
    simp only [List.flatMap_append, List.flatMap_singleton]
    exact hled.append hstep

end VersionLog

namespace Ledger

/-! ## Along a list of requests -/

theorem schema_seed {l l' : Ledger} {s : Snapshot} (h : l.seed s = .ok l') :
    l'.schema = l.schema := by
  simp only [seed] at h
  split at h
  · exact absurd h (by simp)
  · rw [← Except.ok.inj h]
    rfl

theorem schema_create {l l' : Ledger} {key : EnvironmentKey} {resources : List Resource}
    {edges : List Edge} {s : Snapshot} (h : l.create key resources edges = .ok (s, l')) :
    l'.schema = l.schema := by
  simp only [create] at h
  split at h
  · exact absurd h (by simp)
  · split at h
    · rename_i l₁ hseed
      simp only [Except.ok.injEq, Prod.mk.injEq] at h
      rw [← h.2]
      exact schema_seed hseed
    · exact absurd h (by simp)

theorem schema_setCurrent {l l' : Ledger} {key : EnvironmentKey} {v : VersionNumber}
    (h : l.setCurrent key v = .ok l') : l'.schema = l.schema := by
  simp only [setCurrent] at h
  split at h
  · exact absurd h (by simp)
  · rw [← Except.ok.inj h]
    rfl

theorem schema_submit (l : Ledger) (key : EnvironmentKey) (request : ApplyRequest) :
    (l.submit key request).1.schema = l.schema := by
  simp only [submit]
  split
  · rfl
  · split
    · rfl
    · split
      · rfl
      · split <;> rfl

/-- The schema of a ledger never changes. -/
theorem schema_act (l : Ledger) (a : Act) : (l.act a).schema = l.schema := by
  cases a with
  | create key resources edges =>
    simp only [act]
    split
    · rename_i h
      exact schema_create h
    · rfl
  | seed s =>
    simp only [act]
    split
    · rename_i h
      exact schema_seed h
    · rfl
  | setCurrent key v =>
    simp only [act]
    split
    · rename_i h
      exact schema_setCurrent h
    · rfl
  | submit key request => exact l.schema_submit key request

theorem schema_acts (l : Ledger) (as : List Act) : (l.acts as).schema = l.schema := by
  induction as generalizing l with
  | nil => rfl
  | cons a as ih => rw [acts_cons, ih, schema_act]

/-- No snapshot is appended to the log of the environment once it has been started: from then on
only submissions change it, and requests for another current version. -/
def StartedOnce (l : Ledger) (key : EnvironmentKey) (as : List Act) : Prop :=
  ∀ earlier s later, as = earlier ++ .seed s :: later → s.key = key →
    ((l.acts earlier).log? key).isSome → ((l.acts earlier).refusal? (.seed s)).isSome

theorem StartedOnce.of_concat {l : Ledger} {key : EnvironmentKey} {as : List Act} {a : Act}
    (h : l.StartedOnce key (as ++ [a])) :
    l.StartedOnce key as ∧ ∀ s, a = .seed s → s.key = key →
      ((l.acts as).log? key).isSome → ((l.acts as).refusal? a).isSome := by
  constructor
  · rintro earlier s later rfl
    exact h earlier s (later ++ [a]) (by simp)
  · rintro s rfl
    exact h as s [] rfl

/-- A request leaves the log of an environment explained, unless it appends a snapshot to it. -/
theorem explained_act {l : Ledger} (hl : l.WellFormed) {key : EnvironmentKey} {a : Act}
    (h : ∀ log, l.log? key = some log → log.Explained l.schema)
    (honce : ∀ s, a = .seed s → s.key = key → (l.log? key).isSome → (l.refusal? a).isSome)
    (htop : (l.act a).BelowTop key) :
    ∀ log, (l.act a).log? key = some log → log.Explained l.schema := by
  have hacted := acted hl a
  generalize l.act a = l' at hacted htop
  intro log hlog
  by_cases hkey : key = a.key
  · subst hkey
    cases hacted with
    | refused _ _ e _ hlogs => exact h log (log?_congr hlogs _ ▸ hlog)
    | added _ _ e hnone hadds hlogs =>
      have hlog' : l'.log? a.key = some (((l.log? a.key).getD {}).push e) := by
        rw [log?_congr hlogs, log?_withLog, if_pos rfl]
      obtain rfl := Option.some.inj (hlog'.symm.trans hlog)
      -- the new version is the head now, so its number is below the top as well
      have hbelow : e.snapshot.version < VersionNumber.top := htop _ hlog'
      cases hadds with
      | created key resources edges s hnew =>
        simp only [Act.key, hnew, Option.getD_none]
        exact VersionLog.explained_founded s
      | founded s hnew =>
        simp only [Act.key, hnew, Option.getD_none]
        exact VersionLog.explained_founded s
      | seeded s old hold hversion =>
        have hrefused := honce s rfl rfl (by simp [Act.key, hold])
        rw [hnone] at hrefused
        exact absurd hrefused (by simp)
      | submitted key request old base s hold hbase hfresh hsolve =>
        obtain ⟨hlt, htop'⟩ := VersionLog.lt_of_extended (.inr rfl) hbelow
        simp only [Act.key, hold, Option.getD_some]
        exact (h old hold).push (hl key old hold) rfl hbase (solve_ok_iff.mp hsolve).1 hlt htop'
    | moved key v old hnone hold hstored =>
      have hlog' : (l.withLog key { old with current := v }).log? key =
          some { old with current := v } := by
        rw [log?_withLog, if_pos rfl]
      obtain rfl := Option.some.inj (hlog'.symm.trans hlog)
      exact ⟨(h old hold).root, (h old hold).derived⟩
  · rw [hacted.log?_of_ne hkey] at hlog
    exact h log hlog

theorem explained_acts {l : Ledger} (hl : l.WellFormed) {key : EnvironmentKey}
    (hnew : l.log? key = none) {as : List Act} (honce : l.StartedOnce key as)
    (htop : (l.acts as).BelowTop key) :
    ∀ log, (l.acts as).log? key = some log → log.Explained l.schema := by
  induction as using List.reverseRecOn with
  | nil =>
    intro log hlog
    exact absurd (hnew.symm.trans hlog) (by simp)
  | append_singleton as a ih =>
    obtain ⟨hbefore, hlast⟩ := honce.of_concat
    have hl' := wellFormed_acts hl as
    rw [acts_concat] at htop ⊢
    have hbelow := htop.of_advance hl' (advance_act a hl')
    have hacts := explained_act hl' (schema_acts l as ▸ ih hbefore hbelow) hlast htop
    rwa [schema_acts] at hacts

/-- **The history explains the current version.** Take an environment whose log has been started
once, by a creation or a snapshot of any number, and in which the greatest number is not in use;
submissions on any recorded base, accepted or refused, and requests for another current version
may have come in any order. Its history lists the constraints recorded along the way from a
version without parent to the current one, oldest first. Worked into the graph of that first
version in one go, they are all valid, and what comes out is exactly the graph of the current
version. -/
theorem history_explains_current (schema : Schema) {as : List Act} {key : EnvironmentKey}
    {log : VersionLog} (hlog : (({ schema } : Ledger).acts as).log? key = some log)
    (htop : log.head < VersionNumber.top)
    (honce : ({ schema } : Ledger).StartedOnce key as) :
    ∃ (path : List LogEntry) (root e : LogEntry) (solved : Snapshot),
      (({ schema } : Ledger).acts as).history key = .ok (path.flatMap LogEntry.constraints) ∧
      (∀ x ∈ path, log.entryAt? x.snapshot.version = some x) ∧
      path.IsChain (fun older newer => newer.parent = some older.snapshot.version) ∧
      path.head? = some root ∧ root.parent = none ∧ root.constraints = [] ∧
      path.getLast? = some e ∧ log.entryAt? log.current = some e ∧
      solve root.snapshot (path.flatMap LogEntry.constraints) schema = .ok solved ∧
      solved.resources = e.snapshot.resources ∧ solved.edges = e.snapshot.edges := by
  have hnew : ({ schema } : Ledger).WellFormed := wellFormed_new schema
  have hwell : log.WellFormed key := wellFormed_acts hnew as key log hlog
  have hbelow : (({ schema } : Ledger).acts as).BelowTop key := by
    intro log' hlog'
    obtain rfl := Option.some.inj (hlog.symm.trans hlog')
    exact htop
  have hexplained : log.Explained schema :=
    explained_acts hnew (by simp [log?]) honce hbelow log hlog
  obtain ⟨path, hpath, hlineage⟩ := VersionLog.exists_lineage_of_lt_top hwell htop
  obtain ⟨root, e, hhead, hroot, he, hleads⟩ := hexplained.leads hpath
  obtain ⟨solved, hsolved, hgraph⟩ := exists_solve_of_leads hleads
  have hstored := hpath.stored hwell
  refine ⟨path, root, e, solved, by simp [history, hlog, hlineage], hstored, hpath.linked hwell,
    hhead, hroot, ?_, hpath.getLast?.trans he, he, hsolved, by rw [hgraph], by rw [hgraph]⟩
  exact hexplained.root _ root (hstored root (List.mem_of_mem_head? hhead)) hroot

/-- After a branch on the first version the second one is made current again, and a batch on it
renames what it has added. -/
def regained : List Act :=
  rewound ++ [branch, .setCurrent depot 2, .submit depot ⟨2, some 2,
    [.node .replace ⟨"aws", "db", "orders"⟩ (some ⟨"aws", "db", "sales"⟩)]⟩]

/-- The history of version 4 passes over the branch. -/
theorem history_explains_current_regained :
    ({} : Ledger).StartedOnce depot regained ∧
    ∃ log, (({} : Ledger).acts regained).log? depot = some log ∧ log.head < VersionNumber.top ∧
      ∃ (root e : LogEntry) (solved : Snapshot), log.entryAt? 4 = some e ∧
        solve root.snapshot [.addResource ⟨"aws", "db", "orders"⟩,
          .node .replace ⟨"aws", "db", "orders"⟩ (some ⟨"aws", "db", "sales"⟩)] {} = .ok solved ∧
        solved.resources = e.snapshot.resources ∧ solved.edges = e.snapshot.edges := by
  have honce : ({} : Ledger).StartedOnce depot regained := by
    intro earlier s later has
    have hseed : Act.seed s ∈ regained := has ▸ List.mem_append_right _ List.mem_cons_self
    exact absurd hseed (by simp [regained, rewound, branch])
  obtain ⟨log, hlog, hhead, hcurrent⟩ : ∃ log, (({} : Ledger).acts regained).log? depot =
      some log ∧ log.head < VersionNumber.top ∧ log.current = 4 := ⟨_, rfl, by decide, rfl⟩
  obtain ⟨path, root, e, solved, hhistory, -, -, -, -, -, -, he, hsolve, hresources, hedges⟩ :=
    history_explains_current {} hlog hhead honce
  have hlisted : (({} : Ledger).acts regained).history depot =
      .ok [.addResource ⟨"aws", "db", "orders"⟩,
        .node .replace ⟨"aws", "db", "orders"⟩ (some ⟨"aws", "db", "sales"⟩)] := by rfl
  rw [← Except.ok.inj (hlisted.symm.trans hhistory)] at hsolve
  exact ⟨honce, log, hlog, hhead, root, e, solved, hcurrent ▸ he, hsolve, hresources, hedges⟩

end Ledger
end VersionedTopology

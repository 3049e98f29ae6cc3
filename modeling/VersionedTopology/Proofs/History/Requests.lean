/-
  VersionedTopology.Proofs.History.Requests

  Requests to a ledger, one after another.

  A request has one of three outcomes. It is refused, and all logs stay as they are; or it
  adds one version to the log of its environment, above everything recorded there; or it
  makes a recorded version the current one. `Acted` says so once, with what each kind of
  request adds and when. The invariant of the logs, and that nothing recorded ever
  changes, follow along a whole list of requests.

  All of this holds as long as the greatest number is not in use. A submission that finds
  it in use writes its result over the version of that number.
-/

import Mathlib.Data.List.Induction
import VersionedTopology.Proofs.History.Ledger

namespace VersionedTopology
namespace Ledger

/-- The environment that a request is for. -/
def Act.key : Act → EnvironmentKey
  | .create key _ _ => key
  | .seed s => s.key
  | .setCurrent key _ => key
  | .submit key _ => key

/-- The error of a request that fails. -/
def failure? : Except Error α → Option Error
  | .ok _ => none
  | .error e => some e

/-- The error with which a request is refused, if it is. -/
def refusal? (l : Ledger) : Act → Option Error
  | .create key resources edges => failure? (l.create key resources edges)
  | .seed s => failure? (l.seed s)
  | .setCurrent key version => failure? (l.setCurrent key version)
  | .submit key request => failure? (l.submit key request).2

/-- The ledger after a list of requests. -/
def acts (l : Ledger) (as : List Act) : Ledger := as.foldl act l

@[simp] theorem acts_nil (l : Ledger) : l.acts [] = l := rfl

@[simp] theorem acts_cons (l : Ledger) (a : Act) (as : List Act) :
    l.acts (a :: as) = (l.act a).acts as := rfl

@[simp] theorem acts_concat (l : Ledger) (as : List Act) (a : Act) :
    l.acts (as ++ [a]) = (l.acts as).act a := by
  simp [acts, List.foldl_append]

/-! ## The outcomes of a request -/

/-- What a request adds to the log of its environment, and when. -/
inductive Adds (l : Ledger) : Act → LogEntry → Prop
  /-- The first version of an environment that is created has number 1. -/
  | created (key : EnvironmentKey) (resources : List Resource) (edges : List Edge)
      (s : Snapshot) (hnew : l.log? key = none) (hkey : s.key = key) (hversion : s.version = 1)
      (hresources : s.resources = Resources.collect resources)
      (hedges : s.edges = EdgeSet.collect edges) :
      Adds l (.create key resources edges) ⟨s, none, []⟩
  /-- The first version may be a snapshot of any number. -/
  | founded (s : Snapshot) (hnew : l.log? s.key = none) : Adds l (.seed s) ⟨s, none, []⟩
  /-- A further snapshot has a number above the head. -/
  | seeded (s : Snapshot) (log : VersionLog) (hlog : l.log? s.key = some log)
      (hversion : log.head < s.version) : Adds l (.seed s) ⟨s, some log.current, []⟩
  /-- A batch that can be solved makes the next version. -/
  | submitted (key : EnvironmentKey) (request : ApplyRequest) (log : VersionLog)
      (base : LogEntry) (s : Snapshot) (hlog : l.log? key = some log)
      (hbase : log.entryAt? request.version = some base)
      (hfresh : ∀ seen, request.expectedHead = some seen → log.current ≤ seen)
      (hsolve : solve base.snapshot request.constraints l.schema = .ok s) :
      Adds l (.submit key request)
        ⟨{ s with version := VersionNumber.next log.head }, some request.version,
          request.constraints⟩

/-- What a request comes to. -/
inductive Acted (l : Ledger) : Act → Ledger → Prop
  | refused (a : Act) (l' : Ledger) (e : Error) (h : l.refusal? a = some e)
      (hlogs : l'.logs = l.logs) : Acted l a l'
  | added (a : Act) (l' : Ledger) (e : LogEntry) (h : l.refusal? a = none) (hadds : l.Adds a e)
      (hlogs : l'.logs = (l.withLog a.key (((l.log? a.key).getD {}).push e)).logs) :
      Acted l a l'
  | moved (key : EnvironmentKey) (v : VersionNumber) (log : VersionLog)
      (h : l.refusal? (.setCurrent key v) = none) (hlog : l.log? key = some log)
      (hstored : (log.entryAt? v).isSome) :
      Acted l (.setCurrent key v) (l.withLog key { log with current := v })

theorem contains_eq_isSome (l : Ledger) (key : EnvironmentKey) :
    l.logs.contains key = (l.log? key).isSome := by
  simp [log?]

/-- A snapshot is appended unless the environment has a version that is not older. -/
theorem seed_cases {l : Ledger} (hl : l.WellFormed) (s : Snapshot) :
    (∃ log, l.log? s.key = some log ∧ s.version ≤ log.head ∧
      l.seed s = .error (.staleVersion s.version log.head)) ∨
    (l.log? s.key = none ∧
      l.seed s = .ok (l.withLog s.key (({} : VersionLog).push ⟨s, none, []⟩))) ∨
    (∃ log, l.log? s.key = some log ∧ log.head < s.version ∧
      l.seed s = .ok (l.withLog s.key (log.push ⟨s, some log.current, []⟩))) := by
  cases hlog : l.log? s.key with
  | none => exact .inr (.inl ⟨rfl, by simp [seed, hlog, VersionLog.isEmpty]⟩)
  | some log =>
    -- a log has an entry, so its head is compared with the number
    have hfull : log.isEmpty = false := (hl s.key log hlog).not_isEmpty
    by_cases hle : s.version ≤ log.head
    · exact .inl ⟨log, rfl, hle, by simp [seed, hlog, hfull, hle]⟩
    · exact .inr (.inr ⟨log, rfl, Nat.lt_of_not_le hle, by simp [seed, hlog, hfull, hle]⟩)

theorem acted_seed {l : Ledger} (hl : l.WellFormed) (s : Snapshot) :
    l.Acted (.seed s) (l.act (.seed s)) := by
  rcases seed_cases hl s with ⟨log, hlog, -, hseed⟩ | ⟨hnew, hseed⟩ | ⟨log, hlog, hlt, hseed⟩
  · exact .refused _ _ _ (by rw [refusal?, hseed]; rfl) (by simp [act, hseed])
  · refine .added _ _ _ (by rw [refusal?, hseed]; rfl) (.founded s hnew) ?_
    simp [act, hseed, Act.key, hnew]
  · refine .added _ _ _ (by rw [refusal?, hseed]; rfl) (.seeded s log hlog hlt) ?_
    simp [act, hseed, Act.key, hlog]

theorem acted_create {l : Ledger} (hl : l.WellFormed) (key : EnvironmentKey)
    (resources : List Resource) (edges : List Edge) :
    l.Acted (.create key resources edges) (l.act (.create key resources edges)) := by
  cases hlog : l.log? key with
  | some log =>
    have hcreate : l.create key resources edges =
        .error (.invalidInput (key.text ++ " already exists")) := by
      simp [create, contains_eq_isSome, hlog]
    exact .refused _ _ _ (by rw [refusal?, hcreate]; rfl) (by simp [act, hcreate])
  | none =>
    -- the first snapshot of an environment is appended, whatever its number
    let s : Snapshot :=
      { architecture := key.architecture, environment := key.environment, version := 1
        resources := Resources.collect resources, edges := EdgeSet.collect edges }
    have hkey : s.key = key := rfl
    have hseed : l.seed s = .ok (l.withLog key (({} : VersionLog).push ⟨s, none, []⟩)) := by
      rcases seed_cases hl s with ⟨log, hsome, -⟩ | ⟨-, hseed⟩ | ⟨log, hsome, -⟩
      · rw [hkey, hlog] at hsome
        exact absurd hsome (by simp)
      · exact hseed
      · rw [hkey, hlog] at hsome
        exact absurd hsome (by simp)
    have hcreate : l.create key resources edges =
        .ok (s, l.withLog key (({} : VersionLog).push ⟨s, none, []⟩)) := by
      simp only [create, contains_eq_isSome, hlog, Option.isSome_none, Bool.false_eq_true,
        if_false]
      rw [hseed]
    refine .added _ _ _ (by rw [refusal?, hcreate]; rfl)
      (.created key resources edges s hlog hkey rfl rfl rfl) ?_
    simp [act, hcreate, Act.key, hlog]

theorem acted_setCurrent (l : Ledger) (key : EnvironmentKey) (v : VersionNumber) :
    l.Acted (.setCurrent key v) (l.act (.setCurrent key v)) := by
  cases hfind : l.find key v with
  | error e =>
    have hset : l.setCurrent key v = .error e := by simp [setCurrent, hfind]
    exact .refused _ _ e (by rw [refusal?, hset]; rfl) (by simp [act, hset])
  | ok found =>
    obtain ⟨log, base⟩ := found
    obtain ⟨hlog, hbase⟩ := find_ok hfind
    have hset : l.setCurrent key v = .ok (l.withLog key { log with current := v }) := by
      simp [setCurrent, hfind]
    have hact : l.act (.setCurrent key v) = l.withLog key { log with current := v } := by
      simp [act, hset]
    rw [hact]
    exact .moved key v log (by rw [refusal?, hset]; rfl) hlog (by simp [hbase])

theorem acted_submit (l : Ledger) (key : EnvironmentKey) (request : ApplyRequest) :
    l.Acted (.submit key request) (l.act (.submit key request)) := by
  rcases hsubmit : l.submit key request with ⟨l', result⟩
  have hact : l.act (.submit key request) = l' := by simp [act, hsubmit]
  rw [hact]
  cases result with
  | error e =>
    exact .refused _ _ e (by rw [refusal?, hsubmit]; rfl) (submit_error hsubmit)
  | ok s =>
    obtain ⟨log, base, solved, hlog, hbase, hfresh, hsolve, rfl, hlogs⟩ := submit_solved hsubmit
    refine .added _ _ _ (by rw [refusal?, hsubmit]; rfl)
      (.submitted key request log base solved hlog hbase hfresh hsolve) ?_
    simpa [Act.key, hlog] using hlogs

/-- Every request comes to one of the three outcomes. -/
theorem acted {l : Ledger} (hl : l.WellFormed) (a : Act) : l.Acted a (l.act a) := by
  cases a with
  | create key resources edges => exact acted_create hl key resources edges
  | seed s => exact acted_seed hl s
  | setCurrent key v => exact acted_setCurrent l key v
  | submit key request => exact acted_submit l key request

/-- Requests for one environment leave the logs of all others as they are. -/
theorem Acted.log?_of_ne {l l' : Ledger} {a : Act} (h : l.Acted a l') {key : EnvironmentKey}
    (hkey : key ≠ a.key) : l'.log? key = l.log? key := by
  cases h with
  | refused _ _ e _ hlogs => exact log?_congr hlogs key
  | added _ _ e _ _ hlogs => rw [log?_congr hlogs, log?_withLog, if_neg hkey]
  | moved k v log _ _ _ => exact (log?_withLog l k key _).trans (if_neg hkey)

/-- A request that is refused leaves all logs as they are. -/
theorem Acted.logs_of_refusal {l l' : Ledger} {a : Act} (h : l.Acted a l')
    (hrefused : l.refusal? a ≠ none) : l'.logs = l.logs := by
  cases h with
  | refused _ _ e _ hlogs => exact hlogs
  | added _ _ e hnone => exact absurd hnone hrefused
  | moved k v log hnone => exact absurd hnone hrefused

/-- What a request adds is above everything recorded, below the greatest number. -/
theorem Adds.lt_of_belowTop {l : Ledger} {a : Act} {e : LogEntry} (h : l.Adds a e)
    {log : VersionLog} (hlog : l.log? a.key = some log) (htop : e.snapshot.version < .top) :
    log.head < e.snapshot.version := by
  cases h with
  | created key resources edges s hnew hkey =>
    exact absurd (hnew.symm.trans hlog) (by simp)
  | founded s hnew => exact absurd (hnew.symm.trans hlog) (by simp)
  | seeded s log' hlog' hversion =>
    rw [Act.key, hlog', Option.some.injEq] at hlog
    exact hlog ▸ hversion
  | submitted key request log' base s hlog' =>
    rw [Act.key, hlog', Option.some.injEq] at hlog
    subst hlog
    exact (VersionLog.lt_of_extended (.inr rfl) htop).1

/-! ## Along a list of requests -/

theorem wellFormed_acts {l : Ledger} (hl : l.WellFormed) (as : List Act) :
    (l.acts as).WellFormed := by
  induction as generalizing l with
  | nil => exact hl
  | cons a as ih => exact ih (hl.advance (advance_act a hl))

/-- If the greatest number is not in use after some requests, it was not in use before them. -/
theorem belowTop_of_acts {l : Ledger} (hl : l.WellFormed) {as : List Act} {key : EnvironmentKey}
    (htop : (l.acts as).BelowTop key) : l.BelowTop key := by
  induction as generalizing l with
  | nil => exact htop
  | cons a as ih =>
    have hadvance := advance_act a hl
    exact (ih (hl.advance hadvance) htop).of_advance hl hadvance

/-- What is recorded is never changed, and never removed. -/
theorem entryAt?_acts {l : Ledger} (hl : l.WellFormed) {as : List Act} {key : EnvironmentKey}
    (htop : (l.acts as).BelowTop key) {log : VersionLog} {v : VersionNumber} {e : LogEntry}
    (hlog : l.log? key = some log) (he : log.entryAt? v = some e) :
    ∃ log', (l.acts as).log? key = some log' ∧ log'.entryAt? v = some e := by
  induction as generalizing l log with
  | nil => exact ⟨log, hlog, he⟩
  | cons a as ih =>
    have hl' := hl.advance (advance_act a hl)
    have hadvance := advance_act a hl key
    rw [hlog] at hadvance
    obtain ⟨mid, hmid, -, -, hkeep⟩ :=
      hadvance.keeps (hl key log hlog) (belowTop_of_acts hl' htop)
    exact ih hl' htop hmid (hkeep v e he)

end Ledger

/-- One entry has come to a log, above what was there, and its version is head and current version;
nothing else has changed. -/
structure VersionLog.Extends (before : Option VersionLog) (e : LogEntry) (after : VersionLog) :
    Prop where
  head : after.head = e.snapshot.version
  current : after.current = e.snapshot.version
  above : ∀ log, before = some log → log.head < e.snapshot.version
  entries : ∀ v, after.entryAt? v =
    if v = e.snapshot.version then some e else before.bind fun log => log.entryAt? v

theorem VersionLog.extends_push {before : Option VersionLog} {e : LogEntry}
    (habove : ∀ log, before = some log → log.head < e.snapshot.version) :
    Extends before e ((before.getD {}).push e) where
  head := rfl
  current := rfl
  above := habove
  entries := by
    intro v
    rw [entryAt?_push]
    cases before with
    | none => rw [Option.getD_none, entryAt?_of_isEmpty (by rfl)]; rfl
    | some log => rfl

namespace Ledger

/-- **The logs of a ledger.** After any list of requests, the log of an environment in which the
greatest number is not in use has entries, each stored under the number of its snapshot, which
belongs to the environment; head and current version are stored, nothing stored is beyond the
head, and every parent is stored and has a smaller number. A further request either fails and
leaves all logs as they are, or adds one version above the head and makes it current, or makes
a recorded version current; a submission adds the number after the head, with the version and the
constraints of its request. No request touches the log of another environment, and an entry stays
as it is through all further requests. -/
theorem log_invariant (schema : Schema) (as : List Act) :
    let l := ({ schema } : Ledger).acts as
    (∀ key log, l.log? key = some log → log.head < VersionNumber.top →
      (∃ v e, log.entryAt? v = some e) ∧
      (log.entryAt? log.head).isSome ∧ (log.entryAt? log.current).isSome ∧
      ∀ v e, log.entryAt? v = some e →
        e.snapshot.version = v ∧ e.snapshot.key = key ∧ v ≤ log.head ∧
        ∀ p, e.parent = some p → p < v ∧ (log.entryAt? p).isSome) ∧
    (∀ a, (l.act a).BelowTop a.key →
      ((∃ err, l.refusal? a = some err) ∧ (l.act a).logs = l.logs) ∨
      (l.refusal? a = none ∧ ∃ e log', (l.act a).log? a.key = some log' ∧
        VersionLog.Extends (l.log? a.key) e log' ∧
        ∀ key request, a = .submit key request → ∃ log, l.log? key = some log ∧
          e.snapshot.version = log.head + 1 ∧ e.parent = some request.version ∧
          e.constraints = request.constraints) ∨
      (l.refusal? a = none ∧ ∃ key v log, a = .setCurrent key v ∧ l.log? key = some log ∧
        (log.entryAt? v).isSome ∧ (l.act a).log? key = some { log with current := v })) ∧
    (∀ a key, key ≠ a.key → (l.act a).log? key = l.log? key) ∧
    (∀ later key log v e, (l.acts later).BelowTop key → l.log? key = some log →
      log.entryAt? v = some e →
      ∃ log', (l.acts later).log? key = some log' ∧ log'.entryAt? v = some e) := by
  intro l
  have hl : l.WellFormed := wellFormed_acts (wellFormed_new schema) as
  refine ⟨?_, ?_, fun a key hkey => (acted hl a).log?_of_ne hkey,
    fun later key log v e htop hlog he => entryAt?_acts hl htop hlog he⟩
  · intro key log hlog htop
    have h := hl key log hlog
    obtain ⟨e, he⟩ := Option.isSome_iff_exists.mp h.headStored
    refine ⟨⟨log.head, e, he⟩, h.headStored, h.currentStored, ?_⟩
    intro v x hx
    refine ⟨h.numbered v x hx, h.owned v x hx, h.bounded htop v x hx, ?_⟩
    intro p hp
    exact ⟨h.parentOlder htop v x p hx hp, h.parentStored v x p hx hp⟩
  · intro a htop
    have hacted := acted hl a
    generalize l.act a = l' at hacted htop ⊢
    cases hacted with
    | refused _ _ err herr hlogs => exact .inl ⟨⟨err, herr⟩, hlogs⟩
    | added _ _ e hnone hadds hlogs =>
      have hlog' : l'.log? a.key = some (((l.log? a.key).getD {}).push e) := by
        rw [log?_congr hlogs, log?_withLog, if_pos rfl]
      -- the new version is head now, so its number is below the top as well
      have hbelow : e.snapshot.version < VersionNumber.top := htop _ hlog'
      refine .inr (.inl ⟨hnone, e, _, hlog', VersionLog.extends_push ?_, ?_⟩)
      · intro log hlog
        exact hadds.lt_of_belowTop hlog hbelow
      · rintro key request rfl
        cases hadds with
        | submitted _ _ log base s hlog hbase hfresh hsolve =>
          have hhead := (VersionLog.lt_of_extended (.inr rfl) hbelow).2
          exact ⟨log, hlog, VersionNumber.next_eq_succ hhead, rfl, rfl⟩
    | moved key v log hnone hlog hstored =>
      refine .inr (.inr ⟨hnone, key, v, log, rfl, hlog, hstored, ?_⟩)
      rw [log?_withLog, if_pos rfl]

/-- The environment of the example requests. -/
def depot : EnvironmentKey := ⟨"shop", "prod"⟩

/-- A new environment gets a second version and goes back to its first one. -/
def rewound : List Act :=
  [.create depot [] [], .submit depot ⟨1, some 1, [.addResource ⟨"aws", "db", "orders"⟩]⟩,
    .setCurrent depot 1]

/-- A batch on the first version. -/
def branch : Act := .submit depot ⟨1, some 2, [.addResource ⟨"aws", "db", "users"⟩]⟩

/-- The batch makes version 3 beside version 2, which stays as it is. -/
theorem log_invariant_branch :
    ((({} : Ledger).acts rewound).act branch).BelowTop depot ∧
    ∃ e log log', (({} : Ledger).acts rewound).log? depot = some log ∧ log.current = 1 ∧
      ((({} : Ledger).acts rewound).act branch).log? depot = some log' ∧ log'.current = 3 ∧
      log'.entryAt? 3 = some e ∧ e.parent = some 1 ∧ log'.entryAt? 2 = log.entryAt? 2 := by
  have htop : ((({} : Ledger).acts rewound).act branch).BelowTop depot :=
    belowTop_of_all (by rfl)
  have hnone : (({} : Ledger).acts rewound).refusal? branch = none := by rfl
  obtain ⟨log, hlog, hcurrent, hhead⟩ : ∃ log, (({} : Ledger).acts rewound).log? depot = some log ∧
      log.current = 1 ∧ log.head = 2 := ⟨_, rfl, rfl, rfl⟩
  obtain ⟨-, hact, -, -⟩ := log_invariant {} rewound
  rcases hact branch htop with ⟨⟨err, herr⟩, -⟩ | ⟨-, e, log', hlog', hextends, hsubmit⟩ |
    ⟨-, key, v, _, hmove, -⟩
  · exact absurd (hnone.symm.trans herr) (by simp)
  · obtain ⟨_, hlog₂, hversion, hparent, -⟩ := hsubmit depot _ rfl
    obtain rfl := Option.some.inj (hlog.symm.trans hlog₂)
    have hthree : e.snapshot.version = 3 := by rw [hversion, hhead]
    refine ⟨htop, e, log, log', hlog, hcurrent, hlog', hextends.current.trans hthree, ?_, hparent,
      ?_⟩
    · rw [hextends.entries, if_pos hthree.symm]
    · have htwo : 2 ≠ e.snapshot.version := by rw [hthree]; decide
      have hold : (({} : Ledger).acts rewound).log? branch.key = some log := hlog
      rw [hextends.entries, if_neg htwo, hold]
      rfl
  · exact absurd hmove (by simp [branch])

end Ledger
end VersionedTopology

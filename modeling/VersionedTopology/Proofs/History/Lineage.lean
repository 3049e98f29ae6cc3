/-
  VersionedTopology.Proofs.History.Lineage

  The walk from the current version along its parents.

  `Ancestry` lists the versions from the root to a version, each with the one before it as
  its parent. A walk finds exactly the ancestry of its start, given enough steps. Parents
  are stored and, with one exception, older, so every version has an ancestry, no longer
  than the log, unless it is its own parent. Only the greatest version can be that, and
  only after a batch based on it: then a walk that starts there never ends.
-/

import Mathlib.Data.List.Chain
import VersionedTopology.Proofs.History.Range

namespace VersionedTopology
namespace VersionLog

/-- The versions from a root to the given version, oldest first. -/
inductive Ancestry (log : VersionLog) : VersionNumber → List LogEntry → Prop
  | root {v : VersionNumber} {e : LogEntry} (he : log.entryAt? v = some e)
      (hroot : e.parent = none) : Ancestry log v [e]
  | child {v p : VersionNumber} {e : LogEntry} {path : List LogEntry}
      (he : log.entryAt? v = some e) (hparent : e.parent = some p) (h : Ancestry log p path) :
      Ancestry log v (path ++ [e])

/-- The current version is its own parent. -/
def SelfParented (log : VersionLog) : Prop :=
  ∃ e, log.entryAt? log.current = some e ∧ e.parent = some log.current

/-! ## Walks -/

section walks

variable {log : VersionLog}

/-- A walk that ends at a root has found the ancestry of its start. -/
theorem walk_eq_root_iff {fuel : Nat} {v : VersionNumber} {newer all : List LogEntry} :
    log.walk fuel v newer = .root all ↔
      ∃ path, log.Ancestry v path ∧ path.length ≤ fuel ∧ all = path ++ newer := by
  induction fuel generalizing v newer with
  | zero =>
    constructor
    · intro h
      exact absurd h (by simp [walk])
    · rintro ⟨path, hpath, hlength, -⟩
      -- an ancestry is never empty
      cases hpath <;> simp at hlength
  | succ fuel ih =>
    cases he : log.entryAt? v with
    | none =>
      simp only [walk, he, reduceCtorEq, false_iff]
      rintro ⟨path, hpath, -⟩
      cases hpath with
      | root he' => exact absurd (he.symm.trans he') (by simp)
      | child he' => exact absurd (he.symm.trans he') (by simp)
    | some e =>
      cases hparent : e.parent with
      | none =>
        simp only [walk, he, hparent, Walk.root.injEq]
        constructor
        · rintro rfl
          exact ⟨[e], .root he hparent, by simp, rfl⟩
        · rintro ⟨path, hpath, -, rfl⟩
          cases hpath with
          | root he' =>
            obtain rfl := Option.some.inj (he.symm.trans he')
            rfl
          | child he' hparent' =>
            obtain rfl := Option.some.inj (he.symm.trans he')
            exact absurd (hparent.symm.trans hparent') (by simp)
      | some p =>
        simp only [walk, he, hparent, ih]
        constructor
        · rintro ⟨path, hpath, hlength, rfl⟩
          exact ⟨path ++ [e], .child he hparent hpath, by simpa using hlength, by simp⟩
        · rintro ⟨path, hpath, hlength, rfl⟩
          cases hpath with
          | root he' hroot =>
            obtain rfl := Option.some.inj (he.symm.trans he')
            exact absurd (hparent.symm.trans hroot) (by simp)
          | child he' hparent' hpath =>
            obtain rfl := Option.some.inj (he.symm.trans he')
            obtain rfl := Option.some.inj (hparent.symm.trans hparent')
            exact ⟨_, hpath, by simpa using hlength, by simp⟩

/-- A walk over a well-formed log never leaves it. -/
theorem walk_ne_missing {key : EnvironmentKey} (hlog : log.WellFormed key) {fuel : Nat}
    {v w : VersionNumber} {newer : List LogEntry} (hv : (log.entryAt? v).isSome) :
    log.walk fuel v newer ≠ .missing w := by
  induction fuel generalizing v newer with
  | zero => simp [walk]
  | succ fuel ih =>
    obtain ⟨e, he⟩ := Option.isSome_iff_exists.mp hv
    cases hparent : e.parent with
    | none => simp [walk, he, hparent]
    | some p =>
      simp only [walk, he, hparent]
      exact ih (hlog.parentStored v e p he hparent)

/-- A walk that comes to a version which is its own parent never ends. -/
theorem walk_eq_endless {v : VersionNumber} {e : LogEntry} (he : log.entryAt? v = some e)
    (hparent : e.parent = some v) (fuel : Nat) (newer : List LogEntry) :
    log.walk fuel v newer = .endless := by
  induction fuel generalizing newer with
  | zero => rfl
  | succ fuel ih =>
    simp only [walk, he, hparent]
    exact ih (e :: newer)

end walks

/-! ## Ancestries -/

section ancestries

variable {key : EnvironmentKey} {log : VersionLog} {v : VersionNumber} {path : List LogEntry}

theorem Ancestry.stored (h : log.Ancestry v path) (hlog : log.WellFormed key) :
    ∀ e ∈ path, log.entryAt? e.snapshot.version = some e := by
  induction h with
  | root he hroot =>
    intro x hx
    obtain rfl := List.mem_singleton.mp hx
    rw [hlog.numbered _ _ he]
    exact he
  | child he hparent h ih =>
    intro x hx
    rcases List.mem_append.mp hx with hx | hx
    · exact ih x hx
    · obtain rfl := List.mem_singleton.mp hx
      rw [hlog.numbered _ _ he]
      exact he

/-- It ends with the version itself. -/
theorem Ancestry.getLast? (h : log.Ancestry v path) : path.getLast? = log.entryAt? v := by
  cases h with
  | root he hroot => simp [he]
  | child he hparent h => simp [he]

/-- It begins with a version that has no parent. -/
theorem Ancestry.head? (h : log.Ancestry v path) : ∃ e, path.head? = some e ∧ e.parent = none := by
  induction h with
  | root he hroot => exact ⟨_, rfl, hroot⟩
  | child he hparent h ih =>
    obtain ⟨e, hhead, hroot⟩ := ih
    exact ⟨e, by simp [List.head?_append, hhead], hroot⟩

/-- Each version follows its parent. -/
theorem Ancestry.linked (h : log.Ancestry v path) (hlog : log.WellFormed key) :
    path.IsChain fun older newer => newer.parent = some older.snapshot.version := by
  induction h with
  | root he hroot => exact List.isChain_singleton _
  | child he hparent h ih =>
    refine List.isChain_append.mpr ⟨ih, List.isChain_singleton _, ?_⟩
    intro older holder newer hnewer
    -- the last version of the parent's ancestry is the parent
    rw [h.getLast?] at holder
    obtain rfl := Option.some.inj hnewer
    rw [hparent, hlog.numbered _ older holder]

/-- What is its own parent has no ancestry. -/
theorem Ancestry.parent_ne (h : log.Ancestry v path) {e : LogEntry}
    (he : log.entryAt? v = some e) : e.parent ≠ some v := by
  induction h with
  | root he' hroot =>
    obtain rfl := Option.some.inj (he.symm.trans he')
    simp [hroot]
  | child he' hparent h ih =>
    obtain rfl := Option.some.inj (he.symm.trans he')
    intro hself
    obtain rfl := Option.some.inj (hparent.symm.trans hself)
    exact ih he hself

/-- The numbers in an ancestry increase. -/
theorem Ancestry.increasing (h : log.Ancestry v path) (hlog : log.WellFormed key)
    (hranged : log.Ranged) :
    path.Pairwise (fun older newer => older.snapshot.version < newer.snapshot.version) ∧
      ∀ e ∈ path, e.snapshot.version ≤ v := by
  induction h with
  | root he hroot =>
    refine ⟨List.pairwise_singleton _ _, ?_⟩
    intro x hx
    obtain rfl := List.mem_singleton.mp hx
    exact Nat.le_of_eq (hlog.numbered _ _ he)
  | @child v p e path he hparent h ih =>
    obtain ⟨hpairwise, hle⟩ := ih
    have hversion : e.snapshot.version = v := hlog.numbered v e he
    have hlt : p < v := by
      rcases hranged.parentOlder v e p he hparent with hlt | ⟨hv, hp⟩
      · exact hlt
      · -- a parent that is the version itself would have no ancestry
        subst hv hp
        exact absurd hparent (h.parent_ne he)
    refine ⟨?_, ?_⟩
    · refine List.pairwise_append.mpr ⟨hpairwise, List.pairwise_singleton _ _, ?_⟩
      intro older holder newer hnewer
      obtain rfl := List.mem_singleton.mp hnewer
      rw [hversion]
      exact Nat.lt_of_le_of_lt (hle older holder) hlt
    · intro x hx
      rcases List.mem_append.mp hx with hx | hx
      · exact Nat.le_trans (hle x hx) (Nat.le_of_lt hlt)
      · obtain rfl := List.mem_singleton.mp hx
        exact Nat.le_of_eq hversion

/-- An ancestry passes each version of the log at most once. -/
theorem Ancestry.length_le (h : log.Ancestry v path) (hlog : log.WellFormed key)
    (hranged : log.Ranged) : path.length ≤ log.entries.size := by
  let numbers := path.map fun e => e.snapshot.version
  have hnodup : numbers.Nodup := by
    refine List.pairwise_map.mpr ((h.increasing hlog hranged).1.imp ?_)
    intro older newer hlt
    exact Nat.ne_of_lt hlt
  have hsubset : numbers ⊆ log.entries.keys := by
    intro n hn
    obtain ⟨e, he, rfl⟩ := List.mem_map.mp hn
    have hstored : log.entries[e.snapshot.version]? = some e := h.stored hlog e he
    rw [Std.ExtTreeMap.mem_keys, Std.ExtTreeMap.mem_iff_isSome_getElem?, hstored]
    rfl
  have hlength := hnodup.length_le_of_subset hsubset
  rwa [Std.ExtTreeMap.length_keys, List.length_map] at hlength

/-- Whatever is stored and not its own parent has an ancestry. -/
theorem exists_ancestry (hlog : log.WellFormed key) (hranged : log.Ranged) {e : LogEntry}
    (he : log.entryAt? v = some e) (hself : e.parent ≠ some v) : ∃ path, log.Ancestry v path := by
  induction v using Nat.strong_induction_on generalizing e with
  | _ v ih =>
    cases hparent : e.parent with
    | none => exact ⟨[e], .root he hparent⟩
    | some p =>
      have hlt : p < v := by
        rcases hranged.parentOlder v e p he hparent with hlt | ⟨hv, hp⟩
        · exact hlt
        · exact absurd (hparent.trans (by rw [hv, hp])) hself
      obtain ⟨x, hx⟩ := Option.isSome_iff_exists.mp (hlog.parentStored v e p he hparent)
      -- only the greatest version can be its own parent, and the parent is not that
      have hx' : x.parent ≠ some p := by
        intro hloop
        have hv : v ≤ VersionNumber.top := Nat.le_trans (hranged.bounded v e he) hranged.head_le
        rcases hranged.parentOlder p x p hx hloop with hlt' | ⟨hp, -⟩
        · exact Nat.lt_irrefl p hlt'
        · exact Nat.lt_irrefl v (Nat.lt_of_le_of_lt hv (hp ▸ hlt))
      obtain ⟨path, hpath⟩ := ih p hlt hx hx'
      exact ⟨path ++ [e], .child he hparent hpath⟩

/-- A walk from the current version ends with its ancestry, unless it is its own parent. -/
theorem exists_lineage (hlog : log.WellFormed key) (hranged : log.Ranged)
    (hself : ¬ log.SelfParented) :
    ∃ path, log.Ancestry log.current path ∧ log.lineage = .root path := by
  obtain ⟨e, he⟩ := Option.isSome_iff_exists.mp hlog.currentStored
  have hparent : e.parent ≠ some log.current := fun h => hself ⟨e, he, h⟩
  obtain ⟨path, hpath⟩ := exists_ancestry hlog hranged he hparent
  refine ⟨path, hpath, walk_eq_root_iff.mpr ⟨path, hpath, ?_, by simp⟩⟩
  exact Nat.le_succ_of_le (hpath.length_le hlog hranged)

/-- Below the top a walk from the current version always ends with its ancestry. -/
theorem exists_lineage_of_lt_top (hlog : log.WellFormed key) (htop : log.head < VersionNumber.top) :
    ∃ path, log.Ancestry log.current path ∧ log.lineage = .root path := by
  refine exists_lineage hlog (hlog.ranged htop) ?_
  rintro ⟨e, he, hself⟩
  exact Nat.lt_irrefl _ (hlog.parentOlder htop _ e _ he hself)

end ancestries

end VersionLog

namespace Ledger

/-! ## Which versions are their own parents -/

/-- Only a submission adds a version that is its own parent. -/
theorem Adds.eq_submit_of_selfParented {l : Ledger} {a : Act} {e : LogEntry} (h : l.Adds a e)
    (hl : l.WellFormed) (hr : l.Ranged) (hself : e.parent = some e.snapshot.version) :
    ∃ key request, a = .submit key request ∧ request.version = e.snapshot.version := by
  cases h with
  | created => exact absurd hself (by simp)
  | founded => exact absurd hself (by simp)
  | seeded s log hlog hversion =>
    -- the parent was the current version, which is not beyond the head
    have hcurrent : log.current = s.version := Option.some.inj hself
    obtain ⟨x, hx⟩ := Option.isSome_iff_exists.mp (hl _ log hlog).currentStored
    have hle : log.current ≤ log.head := (hr _ log hlog).bounded _ x hx
    exact absurd (Nat.lt_of_le_of_lt hle hversion) (hcurrent ▸ Nat.lt_irrefl _)
  | submitted key request log base s => exact ⟨key, request, rfl, Option.some.inj hself⟩

/-- A version that is its own parent was made by a submission based on its number. -/
theorem exists_submit_of_selfParented {l : Ledger} (hl : l.WellFormed) (hr : l.Ranged)
    {as : List Act} (has : ∀ a ∈ as, a.InRange) {key : EnvironmentKey} {v : VersionNumber}
    (hold : ∀ log e, l.log? key = some log → log.entryAt? v = some e → e.parent ≠ some v)
    {log : VersionLog} {e : LogEntry} (hlog : (l.acts as).log? key = some log)
    (he : log.entryAt? v = some e) (hself : e.parent = some v) :
    ∃ earlier request later, as = earlier ++ .submit key request :: later ∧
      request.version = v ∧ (l.acts earlier).refusal? (.submit key request) = none := by
  -- by the last request: if it did not make the version, the version was there before it
  induction as using List.reverseRecOn generalizing log e with
  | nil => exact absurd hself (hold log e hlog he)
  | append_singleton as a ih =>
    have has' : ∀ b ∈ as, b.InRange := fun b hb => has b (List.mem_append_left _ hb)
    have hearlier : (∃ old, (l.acts as).log? key = some old ∧ old.entryAt? v = some e) →
        ∃ earlier request later, as ++ [a] = earlier ++ .submit key request :: later ∧
          request.version = v ∧ (l.acts earlier).refusal? (.submit key request) = none := by
      rintro ⟨old, hold', he'⟩
      obtain ⟨earlier, request, later, rfl, hrest⟩ := ih has' hold' he' hself
      exact ⟨earlier, request, later ++ [a], by simp, hrest⟩
    have hacted := acted (wellFormed_acts hl as) a
    rw [acts_concat] at hlog
    generalize hl' : (l.acts as).act a = l' at hacted hlog
    cases hacted with
    | refused _ _ err herr hlogs =>
      exact hearlier ⟨log, log?_congr hlogs key ▸ hlog, he⟩
    | added _ _ x hnone hadds hlogs =>
      rw [log?_congr hlogs, log?_withLog] at hlog
      split at hlog
      · rename_i hkey
        obtain rfl := Option.some.inj hlog
        rcases VersionLog.eq_or_of_entryAt?_push he with ⟨rfl, rfl⟩ | he'
        · obtain ⟨key', request, rfl, hversion⟩ :=
            hadds.eq_submit_of_selfParented (wellFormed_acts hl as) (ranged_acts hl hr has') hself
          obtain rfl : key = key' := hkey
          exact ⟨as, request, [], by simp, hversion, hnone⟩
        · -- what the log held before the addition
          cases hbefore : (l.acts as).log? a.key with
          | none =>
            rw [hbefore, Option.getD_none, VersionLog.entryAt?_of_isEmpty (by rfl)] at he'
            exact absurd he' (by simp)
          | some old =>
            rw [hbefore, Option.getD_some] at he'
            exact hearlier ⟨old, hkey ▸ hbefore, he'⟩
      · exact hearlier ⟨log, hlog, he⟩
    | moved k w old hnone hold' hstored =>
      rw [log?_withLog] at hlog
      split at hlog
      · rename_i hkey
        obtain rfl := Option.some.inj hlog
        exact hearlier ⟨old, hkey ▸ hold', he⟩
      · exact hearlier ⟨log, hlog, he⟩

/-! ## The history of an environment -/

/-- **The history of an environment.** After any list of requests for numbers within range, the
history of an environment that has a log lists the constraints of the versions on the way from a
version without parent to the current one. Each of them is stored, each is the parent of the next
one, and their numbers increase, so that none comes twice. The exception is a current version that
is its own parent, from which no number of steps leads to an end. Such a version has the greatest
number, and was made by a submission based on that number. No history comes to a version that is
not stored. -/
theorem history_ends (schema : Schema) {as : List Act} (has : ∀ a ∈ as, a.InRange)
    {key : EnvironmentKey} {log : VersionLog}
    (hlog : (({ schema } : Ledger).acts as).log? key = some log) :
    (¬ log.SelfParented → ∃ path : List LogEntry,
      (({ schema } : Ledger).acts as).history key = .ok (path.flatMap LogEntry.constraints) ∧
      (∀ e ∈ path, log.entryAt? e.snapshot.version = some e) ∧
      path.Pairwise (fun older newer => older.snapshot.version < newer.snapshot.version) ∧
      path.IsChain (fun older newer => newer.parent = some older.snapshot.version) ∧
      (∃ root, path.head? = some root ∧ root.parent = none) ∧
      path.getLast? = log.entryAt? log.current) ∧
    (log.SelfParented →
      (∀ fuel, log.walk fuel log.current [] = .endless) ∧
      log.current = VersionNumber.top ∧
      ∃ earlier request later, as = earlier ++ .submit key request :: later ∧
        request.version = VersionNumber.top ∧
        (({ schema } : Ledger).acts earlier).refusal? (.submit key request) = none) ∧
    ∀ architecture environment v,
      (({ schema } : Ledger).acts as).history key ≠
        .error (.notFound architecture environment v) := by
  have hwell : log.WellFormed key := wellFormed_acts (wellFormed_new schema) as key log hlog
  have hranged : log.Ranged :=
    ranged_acts (wellFormed_new schema) (ranged_new schema) has key log hlog
  refine ⟨?_, ?_, ?_⟩
  · intro hself
    obtain ⟨path, hpath, hlineage⟩ := VersionLog.exists_lineage hwell hranged hself
    have hhistory : (({ schema } : Ledger).acts as).history key =
        .ok (path.flatMap LogEntry.constraints) := by
      simp [history, hlog, hlineage]
    exact ⟨path, hhistory, hpath.stored hwell, (hpath.increasing hwell hranged).1,
      hpath.linked hwell, hpath.head?, hpath.getLast?⟩
  · rintro ⟨e, he, hparent⟩
    have htop : log.current = VersionNumber.top := by
      rcases hranged.parentOlder _ e _ he hparent with hlt | ⟨hcurrent, -⟩
      · exact absurd hlt (Nat.lt_irrefl _)
      · exact hcurrent
    obtain ⟨earlier, request, later, has', hversion, hnone⟩ :=
      exists_submit_of_selfParented (wellFormed_new schema) (ranged_new schema) has
        (fun log e hnew => absurd hnew (by simp [log?])) hlog he hparent
    exact ⟨fun fuel => VersionLog.walk_eq_endless he hparent fuel [], htop, earlier, request,
      later, has', hversion.trans htop, hnone⟩
  · intro architecture environment v
    have hmissing : ∀ w, log.lineage ≠ .missing w := fun w =>
      VersionLog.walk_ne_missing hwell hwell.currentStored
    simp only [history, hlog]
    cases hlineage : log.lineage with
    | root entries => simp
    | missing w => exact absurd hlineage (hmissing w)
    | endless => simp

/-- After going back to its first version, an environment has that version for its history. -/
theorem history_ends_rewound :
    (∀ a ∈ rewound, a.InRange) ∧ ∃ log, (({} : Ledger).acts rewound).log? depot = some log ∧
      ¬ log.SelfParented ∧ ∃ path : List LogEntry,
        (({} : Ledger).acts rewound).history depot = .ok (path.flatMap LogEntry.constraints) ∧
        path.getLast? = log.entryAt? 1 := by
  have hrange : ∀ a ∈ rewound, a.InRange := by simp [rewound, Act.InRange]
  obtain ⟨log, hlog, hcurrent, e, he, hroot⟩ : ∃ log,
      (({} : Ledger).acts rewound).log? depot = some log ∧ log.current = 1 ∧
      ∃ e, log.entryAt? 1 = some e ∧ e.parent = none := ⟨_, rfl, rfl, _, rfl, rfl⟩
  have hself : ¬ log.SelfParented := by
    rintro ⟨x, hx, hparent⟩
    rw [hcurrent, he] at hx
    obtain rfl := Option.some.inj hx
    exact absurd (hroot.symm.trans hparent) (by simp)
  obtain ⟨hends, -, -⟩ := history_ends {} hrange hlog
  obtain ⟨path, hhistory, -, -, -, -, hlast⟩ := hends hself
  exact ⟨hrange, log, hlog, hself, path, hhistory, hcurrent ▸ hlast⟩

/-- The greatest number, for a first version. -/
def summit : Snapshot where
  architecture := depot.architecture
  environment := depot.environment
  version := VersionNumber.top
  resources := ∅
  edges := ∅

/-- An environment starts with the greatest number, and a batch is based on it. -/
def saturated : List Act :=
  [.seed summit, .submit depot ⟨VersionNumber.top, some VersionNumber.top,
    [.addResource ⟨"aws", "db", "orders"⟩]⟩]

/-- The batch has taken the place of the version that it was based on, and is its own parent: the
walk from it passes it again and again. -/
theorem history_of_saturated_endless :
    (∀ a ∈ saturated, a.InRange) ∧
    ∃ log, (({} : Ledger).acts saturated).log? depot = some log ∧
      (∀ fuel, log.walk fuel log.current [] = .endless) ∧
      ∀ cs, (({} : Ledger).acts saturated).history depot ≠ .ok cs := by
  have hrange : ∀ a ∈ saturated, a.InRange := by
    simp [saturated, Act.InRange, summit]
  obtain ⟨log, e, hlog, he, hparent⟩ : ∃ log e,
      (({} : Ledger).acts saturated).log? depot = some log ∧
      log.entryAt? log.current = some e ∧ e.parent = some log.current :=
    ⟨_, _, rfl, rfl, rfl⟩
  have hendless : ∀ fuel, log.walk fuel log.current [] = .endless :=
    fun fuel => VersionLog.walk_eq_endless he hparent fuel []
  refine ⟨hrange, log, hlog, hendless, ?_⟩
  intro cs
  simp [history, hlog, VersionLog.lineage, hendless]

end Ledger
end VersionedTopology

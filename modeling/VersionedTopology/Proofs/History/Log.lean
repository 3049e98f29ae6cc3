/-
  VersionedTopology.Proofs.History.Log

  What holds of the log of an environment, and how it changes.

  A log is well formed when its entries belong to its environment and carry the
  numbers that they are stored under, when head and current version are stored, and
  when every parent is stored. As long as the greatest number of all has not been
  given out, no stored number is beyond the head and parents have smaller numbers.
  `Advance` lists the ways in which a log changes. Each keeps it well formed, and
  below the greatest number each leaves every entry as it is.
-/

import Mathlib.Order.Defs.LinearOrder
import VersionedTopology.History.Log

namespace VersionedTopology

theorem VersionNumber.next_eq_succ {n : VersionNumber} (h : n < top) : next n = n + 1 :=
  if_pos h

/-- At the top, numbers stay. -/
theorem VersionNumber.next_eq_top {n : VersionNumber} (h : ¬ n < top) : next n = top :=
  if_neg h

namespace VersionLog

theorem entryAt?_push (log : VersionLog) (e : LogEntry) (v : VersionNumber) :
    (log.push e).entryAt? v = if v = e.snapshot.version then some e else log.entryAt? v := by
  simp only [push, entryAt?, Std.ExtTreeMap.getElem?_insert, Std.compare_eq_iff_eq]
  by_cases h : e.snapshot.version = v
  · rw [if_pos h, if_pos h.symm]
  · rw [if_neg h, if_neg (Ne.symm h)]

@[simp] theorem head_push (log : VersionLog) (e : LogEntry) :
    (log.push e).head = e.snapshot.version := rfl

@[simp] theorem current_push (log : VersionLog) (e : LogEntry) :
    (log.push e).current = e.snapshot.version := rfl

theorem entryAt?_of_isEmpty {log : VersionLog} (h : log.isEmpty = true) (v : VersionNumber) :
    log.entryAt? v = none := by
  have hnone : log.entries = ∅ := Std.ExtTreeMap.isEmpty_iff.mp h
  rw [entryAt?, hnone, Std.ExtTreeMap.getElem?_empty]

/-- An entry of a log with one more version is the new one or an old one. -/
theorem eq_or_of_entryAt?_push {log : VersionLog} {e x : LogEntry} {v : VersionNumber}
    (h : (log.push e).entryAt? v = some x) :
    v = e.snapshot.version ∧ x = e ∨ log.entryAt? v = some x := by
  rw [entryAt?_push] at h
  split at h
  · rename_i hv
    exact .inl ⟨hv, (Option.some.inj h).symm⟩
  · exact .inr h

/-- The first version of a log is its only entry. -/
theorem eq_of_entryAt?_founded {s : Snapshot} {x : LogEntry} {v : VersionNumber}
    (h : (push {} ⟨s, none, []⟩).entryAt? v = some x) : v = s.version ∧ x = ⟨s, none, []⟩ := by
  obtain hnew | hold := eq_or_of_entryAt?_push h
  · exact hnew
  · rw [entryAt?_of_isEmpty (by rfl)] at hold
    exact absurd hold (by simp)

/-- The log of an environment as it is kept by the ledger. -/
structure WellFormed (key : EnvironmentKey) (log : VersionLog) : Prop where
  numbered : ∀ v e, log.entryAt? v = some e → e.snapshot.version = v
  owned : ∀ v e, log.entryAt? v = some e → e.snapshot.key = key
  headStored : (log.entryAt? log.head).isSome
  currentStored : (log.entryAt? log.current).isSome
  parentStored : ∀ v e p, log.entryAt? v = some e → e.parent = some p → (log.entryAt? p).isSome
  bounded : log.head < VersionNumber.top → ∀ v e, log.entryAt? v = some e → v ≤ log.head
  parentOlder : log.head < VersionNumber.top →
    ∀ v e p, log.entryAt? v = some e → e.parent = some p → p < v

theorem WellFormed.not_isEmpty {key : EnvironmentKey} {log : VersionLog}
    (h : log.WellFormed key) : log.isEmpty = false := by
  cases hempty : log.isEmpty with
  | false => rfl
  | true =>
    have hstored := h.headStored
    rw [entryAt?_of_isEmpty hempty] at hstored
    exact absurd hstored (by simp)

/-- How the log of an environment grows; `none` stands for an environment without a log. -/
inductive Grows (key : EnvironmentKey) : Option VersionLog → Option VersionLog → Prop
  | same (log : Option VersionLog) : Grows key log log
  /-- The first version, of any number. -/
  | founded (s : Snapshot) (hkey : s.key = key) :
      Grows key none (some (push {} ⟨s, none, []⟩))
  /-- A new version above the head, or at the top of the numbers. -/
  | extended (log : VersionLog) (e : LogEntry) (p : VersionNumber) (hparent : e.parent = some p)
      (hstored : (log.entryAt? p).isSome) (hkey : e.snapshot.key = key)
      (hversion : log.head < e.snapshot.version ∨
        e.snapshot.version = VersionNumber.next log.head) :
      Grows key (some log) (some (log.push e))

/-- How the log of an environment changes: it grows, or another stored version becomes current. -/
inductive Advance (key : EnvironmentKey) : Option VersionLog → Option VersionLog → Prop
  | grown (before after : Option VersionLog) (h : Grows key before after) :
      Advance key before after
  | repointed (log : VersionLog) (v : VersionNumber) (hv : (log.entryAt? v).isSome) :
      Advance key (some log) (some { log with current := v })

/-- A version that is added below the top is above the head. -/
theorem lt_of_extended {head v : VersionNumber} (h : head < v ∨ v = VersionNumber.next head)
    (htop : v < VersionNumber.top) : head < v ∧ head < VersionNumber.top := by
  obtain h | h := h
  · exact ⟨h, Nat.lt_trans h htop⟩
  · by_cases hhead : head < VersionNumber.top
    · rw [VersionNumber.next_eq_succ hhead] at h
      exact ⟨h ▸ Nat.lt_succ_self head, hhead⟩
    · rw [VersionNumber.next_eq_top hhead] at h
      exact absurd htop (h ▸ Nat.lt_irrefl _)

section advance

variable {key : EnvironmentKey} {log log' : VersionLog}

theorem wellFormed_founded {s : Snapshot} (hkey : s.key = key) :
    WellFormed key (push {} ⟨s, none, []⟩) := by
  have hhead : ((push {} ⟨s, none, []⟩).entryAt? s.version).isSome := by
    rw [entryAt?_push, if_pos rfl]
    rfl
  refine ⟨?_, ?_, hhead, hhead, ?_, ?_, ?_⟩
  · intro v e h
    obtain ⟨rfl, rfl⟩ := eq_of_entryAt?_founded h
    rfl
  · intro v e h
    obtain ⟨rfl, rfl⟩ := eq_of_entryAt?_founded h
    exact hkey
  · intro v e p h hp
    obtain ⟨rfl, rfl⟩ := eq_of_entryAt?_founded h
    exact absurd hp (by simp)
  · intro _ v e h
    obtain ⟨rfl, rfl⟩ := eq_of_entryAt?_founded h
    exact Nat.le_refl _
  · intro _ v e p h hp
    obtain ⟨rfl, rfl⟩ := eq_of_entryAt?_founded h
    exact absurd hp (by simp)

/-- What is stored stays stored, perhaps with another entry at the top. -/
theorem isSome_entryAt?_push {e : LogEntry} {v : VersionNumber} (h : (log.entryAt? v).isSome) :
    ((log.push e).entryAt? v).isSome := by
  rw [entryAt?_push]
  split
  · rfl
  · exact h

theorem WellFormed.push (h : log.WellFormed key) {e : LogEntry} {p : VersionNumber}
    (hparent : e.parent = some p) (hstored : (log.entryAt? p).isSome) (hkey : e.snapshot.key = key)
    (hversion : log.head < e.snapshot.version ∨
      e.snapshot.version = VersionNumber.next log.head) :
    (log.push e).WellFormed key := by
  have hhead : ((log.push e).entryAt? e.snapshot.version).isSome := by
    rw [entryAt?_push, if_pos rfl]
    rfl
  refine ⟨?_, ?_, hhead, hhead, ?_, ?_, ?_⟩
  · intro v x hx
    obtain ⟨rfl, rfl⟩ | hx := eq_or_of_entryAt?_push hx
    · rfl
    · exact h.numbered v x hx
  · intro v x hx
    obtain ⟨rfl, rfl⟩ | hx := eq_or_of_entryAt?_push hx
    · exact hkey
    · exact h.owned v x hx
  · intro v x q hx hq
    obtain ⟨rfl, rfl⟩ | hx := eq_or_of_entryAt?_push hx
    · rw [hparent, Option.some.injEq] at hq
      exact isSome_entryAt?_push (hq ▸ hstored)
    · exact isSome_entryAt?_push (h.parentStored v x q hx hq)
  · -- below the top the new number is above the old head, which bounds the old ones
    intro htop v x hx
    obtain ⟨hlt, hbelow⟩ := lt_of_extended hversion htop
    obtain ⟨rfl, rfl⟩ | hx := eq_or_of_entryAt?_push hx
    · exact Nat.le_refl _
    · exact Nat.le_of_lt (Nat.lt_of_le_of_lt (h.bounded hbelow v x hx) hlt)
  · intro htop v x q hx hq
    obtain ⟨hlt, hbelow⟩ := lt_of_extended hversion htop
    obtain ⟨rfl, rfl⟩ | hx := eq_or_of_entryAt?_push hx
    · rw [hparent, Option.some.injEq] at hq
      obtain ⟨y, hy⟩ := Option.isSome_iff_exists.mp hstored
      exact Nat.lt_of_le_of_lt (h.bounded hbelow q y (hq ▸ hy)) hlt
    · exact h.parentOlder hbelow v x q hx hq

/-- Every change keeps a log well formed. -/
theorem Advance.wellFormed {before after : Option VersionLog} (h : Advance key before after)
    (hbefore : ∀ log, before = some log → log.WellFormed key) :
    ∀ log, after = some log → log.WellFormed key := by
  intro log hlog
  cases h with
  | grown _ _ hgrows =>
    cases hgrows with
    | same => exact hbefore log hlog
    | founded s hkey =>
      obtain rfl := Option.some.inj hlog
      exact wellFormed_founded hkey
    | extended old e p hparent hstored hkey hversion =>
      obtain rfl := Option.some.inj hlog
      exact (hbefore old rfl).push hparent hstored hkey hversion
  | repointed old v hv =>
    have hold := hbefore old rfl
    obtain rfl := Option.some.inj hlog
    exact ⟨hold.numbered, hold.owned, hold.headStored, hv, hold.parentStored, hold.bounded,
      hold.parentOlder⟩

/-- A number above the head is new, so recording it replaces no entry. -/
theorem WellFormed.entryAt?_push (h : log.WellFormed key) {e x : LogEntry} {v : VersionNumber}
    (hlt : log.head < e.snapshot.version) (hbelow : log.head < VersionNumber.top)
    (hx : log.entryAt? v = some x) : (log.push e).entryAt? v = some x := by
  have hle : v ≤ log.head := h.bounded hbelow v x hx
  rw [VersionLog.entryAt?_push, if_neg (Nat.ne_of_lt (Nat.lt_of_le_of_lt hle hlt)), hx]

/-- Below the top, a log keeps its entries, and its head does not go down. -/
theorem Advance.keeps {after : Option VersionLog} (h : Advance key (some log) after)
    (hlog : log.WellFormed key)
    (htop : ∀ log', after = some log' → log'.head < VersionNumber.top) :
    ∃ log', after = some log' ∧ log.head < VersionNumber.top ∧ log.head ≤ log'.head ∧
      ∀ v e, log.entryAt? v = some e → log'.entryAt? v = some e := by
  cases h with
  | grown _ _ hgrows =>
    cases hgrows with
    | same => exact ⟨log, rfl, htop log rfl, Nat.le_refl _, fun _ _ h => h⟩
    | extended _ e p hparent hstored hkey hversion =>
      obtain ⟨hlt, hbelow⟩ := lt_of_extended hversion (htop _ rfl)
      exact ⟨_, rfl, hbelow, Nat.le_of_lt hlt, fun _ _ hx => hlog.entryAt?_push hlt hbelow hx⟩
  | repointed _ v hv =>
    have hbelow : log.head < VersionNumber.top := htop { log with current := v } rfl
    exact ⟨_, rfl, hbelow, Nat.le_refl _, fun _ _ h => h⟩

/-- The current version of a log that has only grown is its head. -/
theorem Grows.current_eq_head {before after : Option VersionLog} (h : Grows key before after)
    (hbefore : ∀ log, before = some log → log.current = log.head) :
    ∀ log, after = some log → log.current = log.head := by
  intro log hlog
  cases h with
  | same => exact hbefore log hlog
  | founded s hkey =>
    obtain rfl := Option.some.inj hlog
    rfl
  | extended old e p hparent hstored hkey hversion =>
    obtain rfl := Option.some.inj hlog
    rfl

end advance

end VersionLog
end VersionedTopology

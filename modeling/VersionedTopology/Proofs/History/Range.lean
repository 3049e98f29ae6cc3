/-
  VersionedTopology.Proofs.History.Range

  Logs whose numbers stay within range.

  As long as the greatest number is not in use, a new version is above everything recorded
  before it. Once it is in use, a submission gives it out again, and what is recorded under
  it is replaced. Even so the head does not go down and nothing recorded is beyond it; and
  a parent is older than its version, with one exception: a batch that is based on the
  greatest version makes that version its own parent.

  Numbers beyond the range never come up, unless a snapshot is appended that has one.
-/

import VersionedTopology.Proofs.History.Requests

namespace VersionedTopology

theorem VersionNumber.next_le (n : VersionNumber) : next n ≤ top := by
  unfold next
  split
  · assumption
  · exact Nat.le_refl _

namespace VersionLog

/-- A log of numbers within range. -/
structure Ranged (log : VersionLog) : Prop where
  head_le : log.head ≤ VersionNumber.top
  bounded : ∀ v e, log.entryAt? v = some e → v ≤ log.head
  parentOlder : ∀ v e p, log.entryAt? v = some e → e.parent = some p →
    p < v ∨ v = VersionNumber.top ∧ p = VersionNumber.top

/-- Below the top every well-formed log is within range. -/
theorem WellFormed.ranged {key : EnvironmentKey} {log : VersionLog} (h : log.WellFormed key)
    (htop : log.head < VersionNumber.top) : log.Ranged where
  head_le := Nat.le_of_lt htop
  bounded := h.bounded htop
  parentOlder := fun v e p he hp => .inl (h.parentOlder htop v e p he hp)

/-- A version that is added within range is not below the head, and is the head only at the top. -/
theorem le_of_extended {head v : VersionNumber} (hhead : head ≤ VersionNumber.top)
    (h : head < v ∨ v = VersionNumber.next head) :
    head < v ∨ head = VersionNumber.top ∧ v = VersionNumber.top := by
  rcases h with h | h
  · exact .inl h
  · by_cases hlt : head < VersionNumber.top
    · rw [VersionNumber.next_eq_succ hlt] at h
      exact .inl (h ▸ Nat.lt_succ_self head)
    · rw [VersionNumber.next_eq_top hlt] at h
      exact .inr ⟨Nat.le_antisymm hhead (Nat.le_of_not_lt hlt), h⟩

section advance

variable {key : EnvironmentKey} {log log' : VersionLog}

theorem ranged_founded {s : Snapshot} (hs : s.version ≤ VersionNumber.top) :
    Ranged (push {} ⟨s, none, []⟩) where
  head_le := hs
  bounded := by
    intro v e h
    obtain ⟨rfl, -⟩ := eq_of_entryAt?_founded h
    exact Nat.le_refl _
  parentOlder := by
    intro v e p h hp
    obtain ⟨-, rfl⟩ := eq_of_entryAt?_founded h
    exact absurd hp (by simp)

theorem Ranged.push (h : log.Ranged) {e : LogEntry} {p : VersionNumber}
    (hparent : e.parent = some p) (hstored : (log.entryAt? p).isSome)
    (hversion : log.head < e.snapshot.version ∨ e.snapshot.version = VersionNumber.next log.head)
    (hle : e.snapshot.version ≤ VersionNumber.top) : (log.push e).Ranged where
  head_le := hle
  bounded := by
    intro v x hx
    obtain ⟨rfl, -⟩ | hx := eq_or_of_entryAt?_push hx
    · exact Nat.le_refl _
    · have hold : v ≤ log.head := h.bounded v x hx
      rcases le_of_extended h.head_le hversion with hlt | ⟨hhead, htop⟩
      · exact Nat.le_trans hold (Nat.le_of_lt hlt)
      · rw [head_push, htop, ← hhead]
        exact hold
  parentOlder := by
    intro v x q hx hq
    obtain ⟨rfl, rfl⟩ | hx := eq_or_of_entryAt?_push hx
    · rw [hparent, Option.some.injEq] at hq
      subst hq
      obtain ⟨y, hy⟩ := Option.isSome_iff_exists.mp hstored
      have hle' : p ≤ log.head := h.bounded p y hy
      rcases le_of_extended h.head_le hversion with hlt | ⟨hhead, htop⟩
      · exact .inl (Nat.lt_of_le_of_lt hle' hlt)
      · -- the new version takes the place of the greatest one, which may be its parent
        rw [hhead] at hle'
        rw [htop]
        rcases Nat.lt_or_eq_of_le hle' with hlt | heq
        · exact .inl hlt
        · exact .inr ⟨rfl, heq⟩
    · exact h.parentOlder v x q hx hq

/-- Changes keep a log within range, if the head after them is. -/
theorem Advance.ranged {before after : Option VersionLog} (h : Advance key before after)
    (hbefore : ∀ log, before = some log → log.Ranged)
    (hle : ∀ log, after = some log → log.head ≤ VersionNumber.top) :
    ∀ log, after = some log → log.Ranged := by
  intro log hlog
  cases h with
  | grown _ _ hgrows =>
    cases hgrows with
    | same => exact hbefore log hlog
    | founded s hkey =>
      obtain rfl := Option.some.inj hlog
      exact ranged_founded (hle _ rfl)
    | extended old e p hparent hstored hkey hversion =>
      obtain rfl := Option.some.inj hlog
      exact (hbefore old rfl).push hparent hstored hversion (hle _ rfl)
  | repointed old v hv =>
    have hold := hbefore old rfl
    obtain rfl := Option.some.inj hlog
    exact ⟨hold.head_le, hold.bounded, hold.parentOlder⟩

/-- What is stored after a change was stored before it or is above the old head, and the head does
not go down. -/
theorem Advance.stored_or_above {after : Option VersionLog} (h : Advance key (some log) after)
    (hlog : log.Ranged) (hfull : (log.entryAt? log.head).isSome) :
    ∃ log', after = some log' ∧ log.head ≤ log'.head ∧
      ∀ v, (log'.entryAt? v).isSome → (log.entryAt? v).isSome ∨ log.head < v := by
  cases h with
  | grown _ _ hgrows =>
    cases hgrows with
    | same => exact ⟨log, rfl, Nat.le_refl _, fun v hv => .inl hv⟩
    | extended _ e p hparent hstored hkey hversion =>
      have hnew := le_of_extended hlog.head_le hversion
      refine ⟨_, rfl, ?_, ?_⟩
      · rcases hnew with hlt | ⟨hhead, htop⟩
        · exact Nat.le_of_lt hlt
        · exact Nat.le_of_eq (hhead.trans htop.symm)
      · intro v hv
        obtain ⟨x, hx⟩ := Option.isSome_iff_exists.mp hv
        obtain ⟨rfl, -⟩ | hx := eq_or_of_entryAt?_push hx
        · rcases hnew with hlt | ⟨hhead, htop⟩
          · exact .inr hlt
          · -- the greatest number was the head already
            exact .inl (by rw [htop, ← hhead]; exact hfull)
        · exact .inl (by simp [hx])
  | repointed _ v hv => exact ⟨_, rfl, Nat.le_refl _, fun v hv => .inl hv⟩

end advance

end VersionLog

namespace Ledger

/-- All logs are within range. -/
def Ranged (l : Ledger) : Prop := ∀ key log, l.log? key = some log → log.Ranged

/-- A request names no number beyond the range. Numbers of versions that are not recorded do not
matter: a request that names one is refused. -/
def Act.InRange : Act → Prop
  | .seed s => s.version ≤ VersionNumber.top
  | _ => True

theorem Adds.version_le {l : Ledger} {a : Act} {e : LogEntry} (h : l.Adds a e) (ha : a.InRange) :
    e.snapshot.version ≤ VersionNumber.top := by
  cases h with
  | created key resources edges s hnew hkey hversion =>
    rw [hversion]
    decide
  | founded s hnew => exact ha
  | seeded s log hlog hversion => exact ha
  | submitted key request log base s => exact VersionNumber.next_le log.head

theorem ranged_new (schema : Schema) : ({ schema } : Ledger).Ranged := by
  intro key log h
  exact absurd h (by simp [log?])

theorem ranged_act {l : Ledger} (hl : l.WellFormed) (hr : l.Ranged) {a : Act} (ha : a.InRange) :
    (l.act a).Ranged := by
  intro key log hlog
  refine (advance_act a hl key).ranged (hr key) ?_ log hlog
  -- the head is that of before, or the number of what has been added
  intro log hlog
  have hacted := acted hl a
  generalize l.act a = l' at hacted hlog
  cases hacted with
  | refused _ _ e _ hlogs => exact (hr key log (log?_congr hlogs key ▸ hlog)).head_le
  | added _ _ e _ hadds hlogs =>
    rw [log?_congr hlogs, log?_withLog] at hlog
    split at hlog
    · rw [← Option.some.inj hlog]
      exact hadds.version_le ha
    · exact (hr key log hlog).head_le
  | moved k v old _ hold _ =>
    rw [log?_withLog] at hlog
    split at hlog
    · rw [← Option.some.inj hlog]
      exact (hr k old hold).head_le
    · exact (hr key log hlog).head_le

/-- Answering leaves the ledger as it is, or as a request within range does. -/
theorem exists_act_answer (l : Ledger) (c : Backend.Call) :
    (l.answer c).1 = l ∨ ∃ a : Act, a.InRange ∧ (l.answer c).1 = l.act a := by
  cases c with
  | select key v =>
    refine .inr ⟨.setCurrent key v, trivial, ?_⟩
    simp only [answer, act]
    cases l.setCurrent key v <;> rfl
  | apply key request => exact .inr ⟨.submit key request, trivial, rfl⟩
  | _ => exact .inl rfl

theorem ranged_answer {l : Ledger} (hl : l.WellFormed) (hr : l.Ranged) (c : Backend.Call) :
    (l.answer c).1.Ranged := by
  rcases l.exists_act_answer c with hsame | ⟨a, ha, hact⟩
  · rw [hsame]
    exact hr
  · rw [hact]
    exact ranged_act hl hr ha

theorem ranged_acts {l : Ledger} (hl : l.WellFormed) (hr : l.Ranged) {as : List Act}
    (has : ∀ a ∈ as, a.InRange) : (l.acts as).Ranged := by
  induction as generalizing l with
  | nil => exact hr
  | cons a as ih =>
    have ha : a.InRange := has a (by simp)
    exact ih (hl.advance (advance_act a hl)) (ranged_act hl hr ha)
      (fun b hb => has b (List.mem_cons_of_mem _ hb))

end Ledger
end VersionedTopology

/-
  VersionedTopology.Proofs.Replica.BatchHistory

  A batch told from its history.

  A batch is changed by staging and by clearing. What it holds is told by what has happened to it:
  look back from the end as far as all calls are stagings on one version, take the constraints that
  were accepted there, and of those with one key the last. This is `reference`, and it is the batch
  after any calls. A refusal is the delicate case, since staging starts over and drops what has the
  key before it looks for room; `stageInPlace` does it in that order, and a refused constraint turns
  out to have changed nothing by then.
-/

import Mathlib.Data.List.DropRight
import VersionedTopology.Proofs.Replica.Batch

namespace VersionedTopology
namespace Batch

variable {b b' : Batch} {base : VersionNumber} {c : Constraint} {replaced : Bool} {e : Error}

/-! ## When staging is refused -/

/-- A constraint is refused when its key is new to a batch of its version that is full. -/
theorem stage_error_iff (hb : b.WellFormed) :
    b.stage base c = .error e ↔ e = .batchFull limit ∧ b.base = some base ∧
      (∀ d ∈ b.constraints, d.key ≠ c.key) ∧ b.constraints.length = limit := by
  rw [stage_eq]
  by_cases hbase : b.base = some base
  · have hheld : b.heldFor base = b.constraints := if_pos hbase
    have hnew : (others b.constraints c).length = b.constraints.length ↔
        ∀ d ∈ b.constraints, d.key ≠ c.key := by
      simp [others, List.length_filter_eq_length_iff]
    have hbounded := hb.bounded
    -- a batch within its limit has no room only when it is at the limit
    rw [hheld, ← hnew]
    split
    · rename_i hfull
      have hlimit : b.constraints.length = limit := by omega
      exact ⟨fun h => ⟨(Except.error.inj h).symm, hbase, hfull.1, hlimit⟩, fun h => h.1 ▸ rfl⟩
    · rename_i hroom
      refine iff_of_false (by simp) ?_
      rintro ⟨-, -, hsame, hlimit⟩
      exact hroom ⟨hsame, by omega⟩
  · -- on another version the batch starts over, so there is room
    have hheld : b.heldFor base = [] := if_neg hbase
    have hlimit : ¬ limit ≤ 0 := by decide
    simp [hheld, others, hlimit, hbase]

/-- Staging replaces a constraint exactly when the batch has its key, on the same version. -/
theorem exists_replaced_iff (hb : b.WellFormed) :
    (∃ b', b.stage base c = .ok (true, b')) ↔
      b.base = some base ∧ ∃ d ∈ b.constraints, d.key = c.key := by
  have hheld : (∃ d ∈ b.heldFor base, d.key = c.key) ↔
      b.base = some base ∧ ∃ d ∈ b.constraints, d.key = c.key := by
    by_cases hbase : b.base = some base <;> simp [heldFor, hbase]
  rw [← hheld]
  constructor
  · rintro ⟨b', h⟩
    exact (replaced_iff h).mp rfl
  · intro hkey
    cases h : b.stage base c with
    | error e =>
      -- a key that the batch has is not new, so this staging was not refused
      obtain ⟨-, -, hnew, -⟩ := (stage_error_iff hb).mp h
      obtain ⟨-, d, hd, heq⟩ := hheld.mp hkey
      exact absurd heq (hnew d hd)
    | ok answer =>
      obtain ⟨replaced, b'⟩ := answer
      obtain rfl : replaced = true := (replaced_iff h).mpr hkey
      exact ⟨b', rfl⟩

/-! ## Staging in place -/

/-- Staging step by step: the batch starts over on another version, drops what has the key, looks
for room, and appends. What was changed before a refusal is not taken back. -/
def stageInPlace (b : Batch) (base : VersionNumber) (c : Constraint) : Except Error Bool × Batch :=
  let started := if b.base = some base then b else ⟨some base, []⟩
  let kept := { started with constraints := others started.constraints c }
  let replaced := kept.size ≠ started.size
  if !replaced && limit ≤ kept.size then (.error (.batchFull limit), kept)
  else (.ok replaced, { kept with constraints := kept.constraints ++ [c] })

theorem stageInPlace_of_ok (h : b.stage base c = .ok (replaced, b')) :
    b.stageInPlace base c = (.ok replaced, b') := by
  have hheld : (if b.base = some base then b else ⟨some base, []⟩) =
      Batch.mk (some base) (b.heldFor base) := by
    by_cases hbase : b.base = some base
    · rw [if_pos hbase, heldFor, if_pos hbase, ← hbase]
    · rw [if_neg hbase, heldFor, if_neg hbase]
  rw [stage_eq] at h
  split at h
  · exact absurd h (by simp)
  · rename_i hroom
    obtain ⟨rfl, rfl⟩ := Prod.mk.inj (Except.ok.inj h)
    simp only [stageInPlace, hheld, size]
    rw [if_neg (by simpa using hroom)]

/-- A refused constraint leaves the batch as it was. -/
theorem stageInPlace_of_error (hb : b.WellFormed) (h : b.stage base c = .error e) :
    b.stageInPlace base c = (.error e, b) := by
  obtain ⟨rfl, hbase, hnew, hfull⟩ := (stage_error_iff hb).mp h
  -- the version is the same and the key is new: nothing was started over, nothing dropped
  have hothers : others b.constraints c = b.constraints := others_eq_self hnew
  simp only [stageInPlace, hbase, if_true, hothers]
  rw [if_pos (by simp [size, hfull]), ← hbase]

/-! ## Calls and what has happened -/

/-- A call that changes a batch. -/
inductive Call where
  | stage (base : VersionNumber) (c : Constraint)
  | clear
deriving DecidableEq, Repr, Inhabited

/-- What has happened to a batch. -/
inductive Event where
  | staged (base : VersionNumber) (c : Constraint) (replaced : Bool)
  | refused (base : VersionNumber) (c : Constraint) (e : Error)
  | cleared
deriving DecidableEq, Inhabited

/-- Takes a call, and tells what has happened. -/
def serve (b : Batch) : Call → Batch × Event
  | .stage base c =>
    match b.stage base c with
    | .ok (replaced, b') => (b', .staged base c replaced)
    | .error e => (b, .refused base c e)
  | .clear => (empty, .cleared)

/-- Takes calls one after another, from an empty batch on. -/
def history (calls : List Call) : Batch × List Event :=
  calls.foldl (fun s call => ((s.1.serve call).1, s.2 ++ [(s.1.serve call).2])) (empty, [])

theorem history_concat (calls : List Call) (call : Call) :
    history (calls ++ [call]) =
      (((history calls).1.serve call).1,
        (history calls).2 ++ [((history calls).1.serve call).2]) := by
  rw [history, List.foldl_append]
  rfl

theorem WellFormed.serve (hb : b.WellFormed) (call : Call) : (b.serve call).1.WellFormed := by
  cases call with
  | clear => exact wellFormed_empty
  | stage base c =>
    simp only [Batch.serve]
    split
    · rename_i replaced b' h
      exact hb.stage h
    · exact hb

theorem wellFormed_history (calls : List Call) : (history calls).1.WellFormed := by
  induction calls using List.reverseRecOn with
  | nil => exact wellFormed_empty
  | append_singleton calls call ih =>
    rw [history_concat]
    exact ih.serve call

/-! ## The reference -/

/-- The version that something was staged on, or was to be. -/
def Event.base? : Event → Option VersionNumber
  | staged base _ _ => some base
  | refused base _ _ => some base
  | cleared => none

/-- The constraint that was accepted. -/
def Event.accepted? : Event → Option Constraint
  | staged _ c _ => some c
  | refused _ _ _ => none
  | cleared => none

/-- The version of the last staging, unless the batch was cleared since. -/
def lastBase (events : List Event) : Option VersionNumber := events.getLast?.bind Event.base?

/-- The constraints accepted since the batch was last cleared or its version last changed. -/
def accepted (events : List Event) : List Constraint :=
  (events.rtakeWhile fun e => e.base? = lastBase events).filterMap Event.accepted?

/-- Of the constraints with one key the last, each where it stands. -/
def lastOfEachKey : List Constraint → List Constraint
  | [] => []
  | c :: cs => if ∃ d ∈ cs, d.key = c.key then lastOfEachKey cs else c :: lastOfEachKey cs

/-- What a batch should be, from what has happened to it. -/
def reference (events : List Event) : Batch := ⟨lastBase events, lastOfEachKey (accepted events)⟩

@[simp] theorem lastBase_concat (events : List Event) (e : Event) :
    lastBase (events ++ [e]) = e.base? := by
  simp [lastBase]

/-- A constraint takes the place of the one with its key. -/
theorem lastOfEachKey_concat (cs : List Constraint) (c : Constraint) :
    lastOfEachKey (cs ++ [c]) = others (lastOfEachKey cs) c ++ [c] := by
  -- the head goes for a later one of its key in `cs`, or for `c`, or it stays
  induction cs with
  | nil => simp [lastOfEachKey, others]
  | cons d cs ih =>
    by_cases hcs : ∃ e ∈ cs, e.key = d.key
    · have hlater : ∃ e ∈ cs ++ [c], e.key = d.key := by
        obtain ⟨e, he, heq⟩ := hcs
        exact ⟨e, List.mem_append_left _ he, heq⟩
      rw [List.cons_append, lastOfEachKey, if_pos hlater, ih, lastOfEachKey, if_pos hcs]
    · by_cases hkey : d.key = c.key
      · have hlater : ∃ e ∈ cs ++ [c], e.key = d.key := ⟨c, by simp, hkey.symm⟩
        have hdrop : others (d :: lastOfEachKey cs) c = others (lastOfEachKey cs) c := by
          simp [others, hkey]
        rw [List.cons_append, lastOfEachKey, if_pos hlater, ih, lastOfEachKey, if_neg hcs, hdrop]
      · have hlast : ¬ ∃ e ∈ cs ++ [c], e.key = d.key := by
          simpa [Ne.symm hkey] using hcs
        have hkeep : others (d :: lastOfEachKey cs) c = d :: others (lastOfEachKey cs) c := by
          simp [others, hkey]
        rw [List.cons_append, lastOfEachKey, if_neg hlast, ih, lastOfEachKey, if_neg hcs, hkeep,
          List.cons_append]

/-- Looking back from the last event, what comes before counts if it is on the same version. -/
theorem accepted_concat (events : List Event) (e : Event) :
    accepted (events ++ [e]) =
      (if lastBase events = e.base? then accepted events else []) ++ e.accepted?.toList := by
  have hbefore : (events.rtakeWhile fun d => d.base? = e.base?).filterMap Event.accepted? =
      if lastBase events = e.base? then accepted events else [] := by
    split
    · rename_i hsame
      rw [accepted, hsame]
    · rename_i hother
      -- the event before the last one is on another version, or there is none
      cases events using List.reverseRecOn with
      | nil => rfl
      | append_singleton events d =>
        rw [lastBase_concat] at hother
        rw [List.rtakeWhile_concat_neg _ _ _ (by simpa using hother), List.filterMap_nil]
  have hlast : [e].filterMap Event.accepted? = e.accepted?.toList := by
    cases e <;> rfl
  rw [accepted, lastBase_concat, List.rtakeWhile_concat_pos _ _ _ (by simp),
    List.filterMap_append, hbefore, hlast]

/-- Once a batch is cleared, nothing that was accepted before counts. -/
theorem accepted_of_lastBase_eq_none {events : List Event} (h : lastBase events = none) :
    accepted events = [] := by
  rw [accepted, List.filterMap_eq_nil_iff]
  intro e he
  -- only clearings are on no version
  have hbase : e.base? = none := by simpa [h] using List.mem_rtakeWhile_imp he
  cases e with
  | cleared => rfl
  | staged base c replaced => exact absurd hbase (by simp [Event.base?])
  | refused base c e => rfl

theorem reference_staged (events : List Event) (base : VersionNumber) (c : Constraint)
    (replaced : Bool) :
    reference (events ++ [.staged base c replaced]) =
      ⟨some base, others ((reference events).heldFor base) c ++ [c]⟩ := by
  have hheld : (reference events).heldFor base =
      lastOfEachKey (if lastBase events = some base then accepted events else []) := by
    rw [heldFor, reference]
    split <;> rfl
  rw [hheld, ← lastOfEachKey_concat, reference, lastBase_concat, accepted_concat]
  rfl

theorem reference_refused {events : List Event} (h : lastBase events = some base) (c : Constraint)
    (e : Error) : reference (events ++ [.refused base c e]) = reference events := by
  rw [reference, lastBase_concat, accepted_concat, Event.base?, if_pos h, reference, h]
  simp [Event.accepted?]

theorem reference_cleared (events : List Event) : reference (events ++ [.cleared]) = empty := by
  have hnone : accepted (events ++ [.cleared]) = [] :=
    accepted_of_lastBase_eq_none (lastBase_concat events .cleared)
  rw [reference, lastBase_concat, hnone]
  rfl

/-- What a call makes of a batch is what the reference makes of what has happened. -/
theorem serve_eq_reference (hb : b.WellFormed) {events : List Event} (h : b = reference events)
    (call : Call) : (b.serve call).1 = reference (events ++ [(b.serve call).2]) := by
  cases call with
  | clear => exact (reference_cleared events).symm
  | stage base c =>
    simp only [serve]
    split
    · rename_i replaced b' hstage
      rw [stage_ok hstage, reference_staged, ← h]
    · rename_i e hstage
      -- a refusal is on the version of the batch, which the reference knows
      have hbase : lastBase events = some base := by
        rw [← ((stage_error_iff hb).mp hstage).2.1, h]
        rfl
      rw [reference_refused hbase, ← h]

theorem history_eq_reference (calls : List Call) :
    (history calls).1 = reference (history calls).2 := by
  induction calls using List.reverseRecOn with
  | nil => rfl
  | append_singleton calls call ih =>
    rw [history_concat]
    exact serve_eq_reference (wellFormed_history calls) ih call

/-- **A batch is what its history says.** After any calls a batch holds, of the constraints accepted
since it was last cleared or its version last changed, the last one of each key, in the order in
which these were staged, and it belongs to the version of the last staging since it was cleared; it
never holds more than its limit. The next staging replaces a constraint exactly when the batch has
its key on the same version. It is refused exactly when the key is new to a full batch of the same
version, and then the batch is unchanged, although staging drops constraints before it looks for
room. -/
theorem batch_follows_history (calls : List Call) (base : VersionNumber) (c : Constraint) :
    (history calls).1.base = lastBase (history calls).2 ∧
    (history calls).1.constraints = lastOfEachKey (accepted (history calls).2) ∧
    (history calls).1.size ≤ limit ∧
    ((∃ b', (history calls).1.stage base c = .ok (true, b')) ↔ (history calls).1.base = some base ∧
      ∃ d ∈ (history calls).1.constraints, d.key = c.key) ∧
    (∀ e, (history calls).1.stage base c = .error e ↔ e = .batchFull limit ∧
      (history calls).1.base = some base ∧
      (∀ d ∈ (history calls).1.constraints, d.key ≠ c.key) ∧ (history calls).1.size = limit) ∧
    (∀ e, (history calls).1.stage base c = .error e →
      (history calls).1.stageInPlace base c = (.error e, (history calls).1)) ∧
    ∀ replaced b', (history calls).1.stage base c = .ok (replaced, b') →
      (history calls).1.stageInPlace base c = (.ok replaced, b') := by
  have hb := wellFormed_history calls
  have hreference := history_eq_reference calls
  refine ⟨congrArg Batch.base hreference, congrArg Batch.constraints hreference, hb.bounded,
    exists_replaced_iff hb, fun e => stage_error_iff hb, fun e h => stageInPlace_of_error hb h,
    fun replaced b' h => stageInPlace_of_ok h⟩

end Batch
end VersionedTopology

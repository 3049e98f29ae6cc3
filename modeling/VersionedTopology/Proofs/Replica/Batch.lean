/-
  VersionedTopology.Proofs.Replica.Batch

  What staging makes of a batch.

  A batch that was built by staging alone has a base exactly when it holds
  something, holds each key once, and is within its limit. Staging keeps all
  constraints with other keys, in their order. A list of constraints with
  different keys that fits into a batch is staged onto an empty batch unchanged,
  which is how constraints are carried over to a new version.
-/

import Mathlib.Data.List.Dedup
import Mathlib.Data.List.Induction
import Mathlib.Data.List.Perm.Subperm
import VersionedTopology.Constraint.Batch

namespace VersionedTopology
namespace Batch

/-- A batch as staging leaves it. -/
structure WellFormed (b : Batch) : Prop where
  based : b.base.isSome ↔ b.constraints ≠ []
  distinct : (b.constraints.map Constraint.key).Nodup
  bounded : b.constraints.length ≤ limit

theorem wellFormed_empty : WellFormed empty := by
  constructor <;> simp [empty]

/-- Without a base there are no constraints. -/
theorem WellFormed.eq_empty {b : Batch} (h : b.WellFormed) (hbase : b.base = none) :
    b = empty := by
  have hnil : b.constraints = [] := by
    by_contra hne
    have hsome := h.based.mpr hne
    rw [hbase] at hsome
    exact absurd hsome (by simp)
  cases b
  simp_all [empty]

@[simp] theorem isEmpty_iff {b : Batch} : b.isEmpty = true ↔ b.constraints = [] := by
  simp [isEmpty]

/-! ## Staging one constraint -/

/-- The constraints with other keys. -/
def others (cs : List Constraint) (c : Constraint) : List Constraint :=
  cs.filter fun d => d.key ≠ c.key

theorem others_eq_self {cs : List Constraint} {c : Constraint}
    (h : ∀ d ∈ cs, d.key ≠ c.key) : others cs c = cs := by
  rw [others, List.filter_eq_self]
  intro d hd
  simpa using h d hd

/-- Staging is refused only when the key is new and there is no room for it. -/
theorem stage_eq (b : Batch) (base : VersionNumber) (c : Constraint) :
    b.stage base c =
      if (others (b.heldFor base) c).length = (b.heldFor base).length ∧
          limit ≤ (others (b.heldFor base) c).length then .error (.batchFull limit)
      else .ok (decide ((others (b.heldFor base) c).length ≠ (b.heldFor base).length),
        ⟨some base, others (b.heldFor base) c ++ [c]⟩) := by
  by_cases hfull : (others (b.heldFor base) c).length = (b.heldFor base).length ∧
      limit ≤ (others (b.heldFor base) c).length
  · rw [if_pos hfull]
    simp only [others] at hfull
    simp only [stage]
    rw [if_pos (by simpa using hfull)]
  · rw [if_neg hfull]
    simp only [others] at hfull ⊢
    simp only [stage]
    rw [if_neg (by simpa using hfull)]
    simp

/-- A successful staging appends the constraint to those with other keys. -/
theorem stage_ok {b b' : Batch} {base : VersionNumber} {c : Constraint} {replaced : Bool}
    (h : b.stage base c = .ok (replaced, b')) :
    b' = ⟨some base, others (b.heldFor base) c ++ [c]⟩ := by
  rw [stage_eq] at h
  split at h
  · exact absurd h (by simp)
  · simp only [Except.ok.injEq, Prod.mk.injEq] at h
    exact h.2.symm

/-- Staging tells whether an earlier constraint has the key. -/
theorem replaced_iff {b b' : Batch} {base : VersionNumber} {c : Constraint} {replaced : Bool}
    (h : b.stage base c = .ok (replaced, b')) :
    replaced = true ↔ ∃ d ∈ b.heldFor base, d.key = c.key := by
  rw [stage_eq] at h
  split at h
  · exact absurd h (by simp)
  · obtain ⟨rfl, -⟩ := Prod.mk.inj (Except.ok.inj h)
    rw [decide_eq_true_eq, others, ne_eq, List.length_filter_eq_length_iff]
    simp

theorem heldFor_sublist (b : Batch) (base : VersionNumber) :
    (b.heldFor base).Sublist b.constraints := by
  simp only [heldFor]
  split
  · exact List.Sublist.refl _
  · exact List.nil_sublist _

theorem distinct_others_append {cs : List Constraint} {c : Constraint}
    (h : (cs.map Constraint.key).Nodup) :
    ((others cs c ++ [c]).map Constraint.key).Nodup := by
  have hsub : ((others cs c).map Constraint.key).Sublist (cs.map Constraint.key) :=
    List.Sublist.map _ List.filter_sublist
  rw [List.map_append, List.nodup_append]
  refine ⟨h.sublist hsub, by simp, ?_⟩
  -- the constraint that is appended shares its key with none of the others
  intro k hk k' hk'
  simp only [List.map_cons, List.map_nil, List.mem_singleton] at hk'
  simp only [others, List.mem_map, List.mem_filter, decide_eq_true_eq] at hk
  obtain ⟨d, ⟨-, hne⟩, rfl⟩ := hk
  exact hk' ▸ hne

/-- A replaced constraint makes room for the one that takes its place. -/
theorem length_others_lt {b b' : Batch} {base : VersionNumber} {c : Constraint} {replaced : Bool}
    (hb : (b.heldFor base).length ≤ limit) (h : b.stage base c = .ok (replaced, b')) :
    (others (b.heldFor base) c).length < limit := by
  have hle : (others (b.heldFor base) c).length ≤ (b.heldFor base).length :=
    List.length_filter_le _ _
  by_contra hfull
  -- at the limit nothing was replaced, so the constraint was refused
  rw [stage_eq, if_pos (by omega)] at h
  exact absurd h (by simp)

theorem WellFormed.stage {b b' : Batch} {base : VersionNumber} {c : Constraint}
    {replaced : Bool} (hb : b.WellFormed) (h : b.stage base c = .ok (replaced, b')) :
    b'.WellFormed := by
  have hsub := b.heldFor_sublist base
  have hroom := length_others_lt (Nat.le_trans hsub.length_le hb.bounded) h
  rw [stage_ok h]
  constructor
  · simp
  · exact distinct_others_append (hb.distinct.sublist (hsub.map _))
  · simp only [List.length_append, List.length_singleton]
    omega

/-! ## Staging a list -/

/-- Constraints with new keys that fit are appended as they are. -/
theorem stageAll_append {base : VersionNumber} {cs : List Constraint} {b : Batch}
    (hheld : b.heldFor base = b.constraints)
    (hdistinct : ((b.constraints ++ cs).map Constraint.key).Nodup)
    (hbounded : (b.constraints ++ cs).length ≤ limit) :
    b.stageAll base cs =
      ⟨if cs = [] then b.base else some base, b.constraints ++ cs⟩ := by
  -- by induction on what is still to be staged; the batch so far counts for the base
  induction cs generalizing b with
  | nil => simp [stageAll]
  | cons c cs ih =>
    have hnew : ∀ d ∈ b.constraints, d.key ≠ c.key := by
      intro d hd heq
      rw [List.map_append, List.nodup_append] at hdistinct
      exact hdistinct.2.2 _ (List.mem_map_of_mem hd) _ (List.mem_map_of_mem List.mem_cons_self) heq
    have hothers : others (b.heldFor base) c = b.constraints := by
      rw [hheld, others_eq_self hnew]
    have hroom : (others (b.heldFor base) c).length < limit := by
      rw [hothers]
      simp only [List.length_append, List.length_cons] at hbounded
      omega
    have hnext : stageAll b base (c :: cs) =
        stageAll ⟨some base, b.constraints ++ [c]⟩ base cs := by
      simp only [stageAll, List.foldl_cons]
      rw [stage_eq, if_neg (by omega), hothers]
    rw [hnext, ih (by simp [heldFor]) (by simpa using hdistinct) (by simpa using hbounded)]
    simp

/-- What fits is staged onto an empty batch unchanged. -/
theorem stageAll_empty {base : VersionNumber} {cs : List Constraint}
    (hdistinct : (cs.map Constraint.key).Nodup) (hbounded : cs.length ≤ limit) :
    empty.stageAll base cs = ⟨if cs = [] then none else some base, cs⟩ := by
  have h : empty.stageAll base cs = ⟨if cs = [] then none else some base, [] ++ cs⟩ :=
    stageAll_append (by simp [heldFor, empty]) (by simpa [empty] using hdistinct)
      (by simpa [empty] using hbounded)
  rw [h, List.nil_append]

/-! ## Staging one after another -/

/-- Stages one after another, and fails with the first that is refused. -/
def stageEach (b : Batch) (base : VersionNumber) (cs : List Constraint) : Except Error Batch :=
  cs.foldlM (fun b c => Prod.snd <$> b.stage base c) b

theorem stageEach_concat (b : Batch) (base : VersionNumber) (cs : List Constraint)
    (c : Constraint) :
    b.stageEach base (cs ++ [c]) =
      b.stageEach base cs >>= fun b' => Prod.snd <$> b'.stage base c := by
  rw [stageEach, List.foldlM_append]
  simp only [List.foldlM_cons, List.foldlM_nil, bind_pure, stageEach]

/-- Of the constraints with one key the last, in the order in which these come. -/
def coalesce (cs : List Constraint) : List Constraint :=
  cs.foldl (fun held c => others held c ++ [c]) []

theorem coalesce_concat (cs : List Constraint) (c : Constraint) :
    coalesce (cs ++ [c]) = others (coalesce cs) c ++ [c] := by
  rw [coalesce, List.foldl_append]
  rfl

theorem mem_of_mem_coalesce {cs : List Constraint} {d : Constraint} (h : d ∈ coalesce cs) :
    d ∈ cs := by
  induction cs using List.reverseRecOn with
  | nil => exact h
  | append_singleton cs c ih =>
    rw [coalesce_concat] at h
    obtain h | h := List.mem_append.mp h
    · exact List.mem_append_left _ (ih (List.mem_of_mem_filter h))
    · exact List.mem_append_right _ h

theorem distinct_coalesce (cs : List Constraint) :
    ((coalesce cs).map Constraint.key).Nodup := by
  induction cs using List.reverseRecOn with
  | nil => exact List.nodup_nil
  | append_singleton cs c ih =>
    rw [coalesce_concat]
    exact distinct_others_append ih

/-- No key is lost. -/
theorem mem_keys_coalesce {cs : List Constraint} {k : ConstraintKey} :
    k ∈ (coalesce cs).map Constraint.key ↔ k ∈ cs.map Constraint.key := by
  constructor
  · intro h
    obtain ⟨d, hd, rfl⟩ := List.mem_map.mp h
    exact List.mem_map_of_mem (mem_of_mem_coalesce hd)
  · intro h
    induction cs using List.reverseRecOn with
    | nil => exact h
    | append_singleton cs c ih =>
      rw [coalesce_concat, List.map_append, List.mem_append]
      by_cases hc : k = c.key
      · exact .inr (by simp [hc])
      · -- the key belongs to an earlier constraint, which stays
        have hearlier : k ∈ cs.map Constraint.key := by simpa [hc] using h
        obtain ⟨d, hd, rfl⟩ := List.mem_map.mp (ih hearlier)
        exact .inl (List.mem_map_of_mem (List.mem_filter.mpr ⟨hd, by simpa using hc⟩))

theorem length_coalesce (cs : List Constraint) :
    (coalesce cs).length = (cs.map Constraint.key).dedup.length := by
  have hperm : ((coalesce cs).map Constraint.key).Perm (cs.map Constraint.key).dedup := by
    refine (List.perm_ext_iff_of_nodup (distinct_coalesce cs) (List.nodup_dedup _)).mpr fun k => ?_
    rw [mem_keys_coalesce, List.mem_dedup]
  rw [← hperm.length_eq, List.length_map]

theorem length_coalesce_le_concat (cs : List Constraint) (c : Constraint) :
    (coalesce cs).length ≤ (coalesce (cs ++ [c])).length := by
  have hsub : (coalesce cs).map Constraint.key ⊆ (coalesce (cs ++ [c])).map Constraint.key := by
    intro k hk
    rw [mem_keys_coalesce, List.map_append]
    exact List.mem_append_left _ (mem_keys_coalesce.mp hk)
  simpa using (List.subperm_of_subset (distinct_coalesce cs) hsub).length_le

/-- A batch takes any constraints that have no more keys than it can hold, and holds the last one
of each key. -/
theorem stageEach_empty {base : VersionNumber} {cs : List Constraint}
    (h : (cs.map Constraint.key).dedup.length ≤ limit) :
    empty.stageEach base cs = .ok ⟨if cs = [] then none else some base, coalesce cs⟩ := by
  rw [← length_coalesce] at h
  induction cs using List.reverseRecOn with
  | nil => rfl
  | append_singleton cs c ih =>
    have hheld : (Batch.mk (if cs = [] then none else some base) (coalesce cs)).heldFor base =
        coalesce cs := by
      by_cases hcs : cs = []
      · subst hcs
        rfl
      · simp [heldFor, hcs]
    have hroom : ¬ ((others (coalesce cs) c).length = (coalesce cs).length ∧
        limit ≤ (others (coalesce cs) c).length) := by
      rw [coalesce_concat, List.length_append, List.length_singleton] at h
      omega
    have hnext : stage ⟨if cs = [] then none else some base, coalesce cs⟩ base c = .ok
        (decide ((others (coalesce cs) c).length ≠ (coalesce cs).length),
          ⟨some base, others (coalesce cs) c ++ [c]⟩) := by
      rw [stage_eq, hheld, if_neg hroom]
    have hbase : (if cs ++ [c] = [] then none else some base) = some base := if_neg (by simp)
    rw [stageEach_concat, ih (Nat.le_trans (length_coalesce_le_concat cs c) h), coalesce_concat,
      hbase]
    exact congrArg (Prod.snd <$> ·) hnext

/-- What the last constraint of a kind says is kept, when constraints with one key are of that kind
together. -/
theorem getLast?_filterMap_coalesce {α : Type} {f : Constraint → Option α} {cs : List Constraint}
    (h : ∀ c ∈ cs, ∀ d ∈ cs, c.key = d.key → (f c).isSome = (f d).isSome) :
    ((coalesce cs).filterMap f).getLast? = (cs.filterMap f).getLast? := by
  induction cs using List.reverseRecOn with
  | nil => rfl
  | append_singleton cs c ih =>
    have hcs : ∀ d ∈ cs, d ∈ cs ++ [c] := fun d => List.mem_append_left _
    have hlast : c ∈ cs ++ [c] := List.mem_append_right _ (List.mem_singleton_self c)
    specialize ih fun d hd e he => h d (hcs d hd) e (hcs e he)
    rw [coalesce_concat, List.filterMap_append, List.filterMap_append]
    cases hc : f c with
    | some a => simp [hc]
    | none =>
      -- nothing of the kind makes way for the last constraint
      have hsame : (others (coalesce cs) c).filterMap f = (coalesce cs).filterMap f := by
        rw [others, List.filterMap_filter]
        refine List.filterMap_congr fun d hd => ?_
        by_cases hkey : d.key = c.key
        · have hd' := h d (hcs d (mem_of_mem_coalesce hd)) c hlast hkey
          rw [hc, Option.isSome_none, Option.isSome_eq_false_iff, Option.isNone_iff_eq_none] at hd'
          simp [hd']
        · simp [hkey]
      simp [hsame, ih, hc]

end Batch
end VersionedTopology

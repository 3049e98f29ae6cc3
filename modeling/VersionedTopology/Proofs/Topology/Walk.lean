/-
  VersionedTopology.Proofs.Topology.Walk

  Walks that insert under names.

  A map is often made from another one by going through it and inserting something for some of its
  entries, under a name that is made from the key. What is found under a name then comes from the
  last entry whose key has that name; where no two keys share it, from the one entry.
-/

import Std.Data.ExtTreeMap
import Mathlib.Data.List.Basic

namespace VersionedTopology

variable {κ ν ρ δ : Type} [Ord ρ] [Std.TransOrd ρ] [Std.LawfulEqOrd ρ]
  {f : Std.ExtTreeMap ρ δ → κ → ν → Std.ExtTreeMap ρ δ} {n : κ → ρ} {g : κ → ν → Option δ}

/-- A step of a walk inserts what `g` gives, if anything, under the name that `n` gives. -/
def Inserts (f : Std.ExtTreeMap ρ δ → κ → ν → Std.ExtTreeMap ρ δ) (n : κ → ρ)
    (g : κ → ν → Option δ) : Prop :=
  ∀ acc k v, f acc k v = ((g k v).map fun d => acc.insert (n k) d).getD acc

omit [Std.LawfulEqOrd ρ] in
theorem Inserts.unless {p : κ → ν → Prop} [∀ k v, Decidable (p k v)] {e : κ → ν → δ} :
    Inserts (fun m k v => if p k v then m else m.insert (n k) (e k v)) n
      fun k v => if p k v then none else some (e k v) := by
  intro acc k v
  by_cases h : p k v <;> simp [h]

/-- Where nothing is inserted under a name, it stays as it was. -/
theorem getElem?_foldl_of_forall_none (hf : Inserts f n g)
    {xs : List (κ × ν)} {r : ρ} (h : ∀ x ∈ xs, n x.1 = r → g x.1 x.2 = none)
    (acc : Std.ExtTreeMap ρ δ) : (xs.foldl (fun m x => f m x.1 x.2) acc)[r]? = acc[r]? := by
  induction xs generalizing acc with
  | nil => rfl
  | cons x xs ih =>
    obtain ⟨hx, hxs⟩ := List.forall_mem_cons.mp h
    rw [List.foldl_cons, ih hxs, hf]
    cases hg : g x.1 x.2 with
    | none => rfl
    | some d =>
      have hne : n x.1 ≠ r := fun heq => absurd (hx heq) (by simp [hg])
      simp [Std.ExtTreeMap.getElem?_insert, hne]

/-- What is inserted under a name is found there, when nothing else is inserted under it. -/
theorem getElem?_foldl_of_mem (hf : Inserts f n g)
    {xs : List (κ × ν)} {x : κ × ν} (hx : x ∈ xs) {d : δ} (hd : g x.1 x.2 = some d)
    (h : ∀ y ∈ xs, n y.1 = n x.1 → ∀ e, g y.1 y.2 = some e → e = d) (acc : Std.ExtTreeMap ρ δ) :
    (xs.foldl (fun m x => f m x.1 x.2) acc)[n x.1]? = some d := by
  induction xs generalizing acc x with
  | nil => exact absurd hx List.not_mem_nil
  | cons y xs ih =>
    obtain ⟨-, hxs⟩ := List.forall_mem_cons.mp h
    rw [List.foldl_cons]
    by_cases hlater : ∃ z ∈ xs, n z.1 = n x.1 ∧ g z.1 z.2 = some d
    · obtain ⟨z, hz, hname, hzd⟩ := hlater
      rw [← hname]
      exact ih hz hzd (fun y hy heq => hxs y hy (heq.trans hname)) _
    · have hlast : ∀ z ∈ xs, n z.1 = n x.1 → g z.1 z.2 = none := by
        intro z hz hname
        cases hg : g z.1 z.2 with
        | none => rfl
        | some e => exact absurd ⟨z, hz, hname, hxs z hz hname e hg ▸ hg⟩ hlater
      obtain rfl : x = y :=
        (List.mem_cons.mp hx).resolve_right fun hin => hlater ⟨x, hin, rfl, hd⟩
      rw [getElem?_foldl_of_forall_none hf hlast, hf, hd]
      simp

/-- What is found under a name was inserted there, or was there before. -/
theorem exists_of_getElem?_foldl (hf : Inserts f n g) {xs : List (κ × ν)}
    {acc : Std.ExtTreeMap ρ δ} {r : ρ} {d : δ}
    (h : (xs.foldl (fun m x => f m x.1 x.2) acc)[r]? = some d) :
    (∃ x ∈ xs, n x.1 = r ∧ g x.1 x.2 = some d) ∨ acc[r]? = some d := by
  induction xs generalizing acc with
  | nil => exact .inr h
  | cons x xs ih =>
    obtain ⟨y, hy, hd⟩ | hacc := ih h
    · exact .inl ⟨y, List.mem_cons_of_mem _ hy, hd⟩
    · change (f acc x.1 x.2)[r]? = some d at hacc
      rw [hf] at hacc
      cases hg : g x.1 x.2 with
      | none => exact .inr (by simpa [hg] using hacc)
      | some e =>
        simp only [hg, Option.map_some, Option.getD_some, Std.ExtTreeMap.getElem?_insert] at hacc
        split at hacc
        · rename_i heq
          refine .inl ⟨x, List.mem_cons_self, Std.LawfulEqOrd.eq_of_compare heq, ?_⟩
          rw [hg, hacc]
        · exact .inr hacc

/-- A name is taken by what is inserted under it, whatever else is. -/
theorem isSome_getElem?_foldl (hf : Inserts f n g) {xs : List (κ × ν)} {acc : Std.ExtTreeMap ρ δ}
    {r : ρ} : (xs.foldl (fun m x => f m x.1 x.2) acc)[r]?.isSome ↔
      (∃ x ∈ xs, n x.1 = r ∧ (g x.1 x.2).isSome) ∨ acc[r]?.isSome := by
  induction xs generalizing acc with
  | nil => simp
  | cons x xs ih =>
    have hstep : (f acc x.1 x.2)[r]?.isSome ↔ n x.1 = r ∧ (g x.1 x.2).isSome ∨ acc[r]?.isSome := by
      rw [hf]
      cases g x.1 x.2 with
      | none => simp
      | some d => by_cases hname : n x.1 = r <;> simp [Std.ExtTreeMap.getElem?_insert, hname]
    rw [List.foldl_cons, ih, hstep, List.exists_mem_cons_iff, or_assoc, or_left_comm]

variable [Ord κ] [Std.TransOrd κ] [Std.LawfulEqOrd κ]

/-- A walk over a map that inserts nothing under a name. -/
theorem getElem?_foldl_of_forall_getElem? (hf : Inserts f n g) {m : Std.ExtTreeMap κ ν} {r : ρ}
    (h : ∀ k v, m[k]? = some v → n k = r → g k v = none) (acc : Std.ExtTreeMap ρ δ) :
    (m.foldl f acc)[r]? = acc[r]? := by
  rw [Std.ExtTreeMap.foldl_eq_foldl_toList]
  refine getElem?_foldl_of_forall_none hf (fun x hx heq => ?_) acc
  exact h x.1 x.2 (Std.ExtTreeMap.mem_toList_iff_getElem?_eq_some.mp hx) heq

/-- A walk over a map that inserts nothing else under a name than this. -/
theorem getElem?_foldl_of_getElem? (hf : Inserts f n g) {m : Std.ExtTreeMap κ ν} {k : κ} {v : ν}
    {d : δ} (hk : m[k]? = some v) (hd : g k v = some d)
    (h : ∀ k' v', m[k']? = some v' → n k' = n k → ∀ e, g k' v' = some e → e = d)
    (acc : Std.ExtTreeMap ρ δ) : (m.foldl f acc)[n k]? = some d := by
  rw [Std.ExtTreeMap.foldl_eq_foldl_toList]
  refine getElem?_foldl_of_mem hf (x := (k, v))
    (Std.ExtTreeMap.mem_toList_iff_getElem?_eq_some.mpr hk) hd (fun y hy heq => ?_) acc
  exact h y.1 y.2 (Std.ExtTreeMap.mem_toList_iff_getElem?_eq_some.mp hy) heq

/-- A walk over a map, looked up under the name of a key that no other key of the map shares. -/
theorem getElem?_foldl_name (hf : Inserts f n g)
    {m : Std.ExtTreeMap κ ν} {k : κ} (hname : ∀ k' v, m[k']? = some v → n k' = n k → k' = k)
    (acc : Std.ExtTreeMap ρ δ) :
    (m.foldl f acc)[n k]? = (m[k]?.bind (g k)).or acc[n k]? := by
  cases hg : m[k]?.bind (g k) with
  | none =>
    refine getElem?_foldl_of_forall_getElem? hf (fun k' v hv heq => ?_) acc
    obtain rfl := hname k' v hv heq
    rwa [hv] at hg
  | some d =>
    obtain ⟨v, hv, hd⟩ := Option.bind_eq_some_iff.mp hg
    refine getElem?_foldl_of_getElem? hf hv hd (fun k' v' hv' heq e he => ?_) acc
    obtain rfl := hname k' v' hv' heq
    obtain rfl := Option.some.inj (hv.symm.trans hv')
    exact Option.some.inj (he.symm.trans hd)

theorem exists_of_getElem?_foldl_name (hf : Inserts f n g) {m : Std.ExtTreeMap κ ν}
    {acc : Std.ExtTreeMap ρ δ} {r : ρ} {d : δ} (h : (m.foldl f acc)[r]? = some d) :
    (∃ k v, m[k]? = some v ∧ n k = r ∧ g k v = some d) ∨ acc[r]? = some d := by
  rw [Std.ExtTreeMap.foldl_eq_foldl_toList] at h
  refine (exists_of_getElem?_foldl hf h).imp_left ?_
  rintro ⟨x, hx, hname, hd⟩
  exact ⟨x.1, x.2, Std.ExtTreeMap.mem_toList_iff_getElem?_eq_some.mp hx, hname, hd⟩

theorem isSome_getElem?_foldl_name (hf : Inserts f n g) {m : Std.ExtTreeMap κ ν}
    {acc : Std.ExtTreeMap ρ δ} {r : ρ} : (m.foldl f acc)[r]?.isSome ↔
      (∃ k v, m[k]? = some v ∧ n k = r ∧ (g k v).isSome) ∨ acc[r]?.isSome := by
  rw [Std.ExtTreeMap.foldl_eq_foldl_toList, isSome_getElem?_foldl hf, Prod.exists]
  simp only [Std.ExtTreeMap.mem_toList_iff_getElem?_eq_some]

end VersionedTopology

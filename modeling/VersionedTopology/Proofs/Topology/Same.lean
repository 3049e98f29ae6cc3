/-
  VersionedTopology.Proofs.Topology.Same

  When two graphs are in sync.

  Values are compared as JSON, whatever the order of the members of an object. Two maps of
  properties are the same when they have the same names with the same values under each, which is
  what comparing their sizes and looking up every name of the one in the other comes to. Resources
  are alike when their properties are the same, imported or not, and whatever identifier they carry.
  Graphs are in sync when they store resources that are alike under the same identifiers and have
  the same links, whatever the metadata; this is an equivalence.
-/

import Mathlib.Data.List.Perm.Subperm
import VersionedTopology.Topology.Graph

namespace VersionedTopology

/-! ## Values -/

namespace Json

variable {a b c : Option Json}

theorem SameOption.refl (a : Option Json) : SameOption a a := by
  cases a with
  | none => trivial
  | some j => exact Same.refl j

theorem sameOption_comm : SameOption a b ↔ SameOption b a := by
  cases a <;> cases b <;> simp [SameOption, Same, eq_comm]

theorem SameOption.trans (hab : SameOption a b) (hbc : SameOption b c) : SameOption a c := by
  cases a <;> cases b <;> cases c <;> simp_all [SameOption, Same]

theorem canonItems_eq_map (items : List Json) : canonItems items = items.map canon := by
  induction items with
  | nil => rfl
  | cons x items ih => rw [canonItems, ih, List.map_cons]

/-- Lists are the same when their items are, one by one. -/
theorem same_array_iff {xs ys : List Json} :
    Same (.array xs) (.array ys) ↔ xs.map canon = ys.map canon := by
  simp [Same, canon, canonItems_eq_map]

/-- Only a list is the same as a list. -/
theorem exists_array_of_same {xs : List Json} {j : Json} (h : Same (.array xs) j) :
    ∃ ys, j = .array ys := by
  cases j <;> simp_all [Same, canon]

/-- Values that are the same are both absent, both lists with the same items, or both something
else. -/
theorem SameOption.shape (hab : SameOption a b) :
    (a = none ∧ b = none) ∨
    (∃ xs ys, a = some (.array xs) ∧ b = some (.array ys) ∧ xs.map canon = ys.map canon) ∨
    ∃ j k, a = some j ∧ b = some k ∧ (∀ items, j ≠ .array items) ∧ ∀ items, k ≠ .array items := by
  cases a with
  | none =>
    cases b with
    | none => exact .inl ⟨rfl, rfl⟩
    | some k => exact hab.elim
  | some j =>
    cases b with
    | none => exact hab.elim
    | some k =>
      by_cases hj : ∃ xs, j = .array xs
      · -- the other side is a list as well
        obtain ⟨xs, rfl⟩ := hj
        obtain ⟨ys, rfl⟩ := exists_array_of_same hab
        exact .inr (.inl ⟨xs, ys, rfl, rfl, same_array_iff.mp hab⟩)
      · have hk : ¬ ∃ ys, k = .array ys := by
          rintro ⟨ys, rfl⟩
          exact hj (exists_array_of_same hab.symm)
        rw [not_exists] at hj hk
        exact .inr (.inr ⟨j, k, rfl, rfl, hj, hk⟩)

/-- What is in a list is told by the canonical forms of its items. -/
theorem member_eq_decide (v : Json) (items : List Json) :
    member v items = decide (v.canon ∈ items.map canon) := by
  rw [member, Bool.eq_iff_iff, List.any_eq_true, decide_eq_true_eq, List.mem_map]
  exact exists_congr fun x => and_congr_right fun _ => decide_eq_true_iff

/-- What is left of a list without a value is told by the canonical forms of its items. -/
theorem map_canon_filter (v : Json) (items : List Json) :
    (items.filter fun x => !decide (Same x v)).map canon =
      (items.map canon).filter fun x => x ≠ v.canon := by
  rw [List.filter_map]
  refine congrArg (List.map canon) (List.filter_congr fun x _ => ?_)
  rw [Function.comp_apply, decide_not]
  exact congrArg not (decide_eq_decide.mpr Iff.rfl)

end Json

/-! ## Maps -/

section maps

variable {κ ν : Type} [Ord κ] [Std.TransOrd κ] [Std.LawfulEqOrd κ] {related : ν → ν → Bool}
  {a b : Std.ExtTreeMap κ ν}

omit [Std.LawfulEqOrd κ] in
theorem size_eq_iff_length_keys : a.size = b.size ↔ a.keys.length = b.keys.length := by
  rw [Std.ExtTreeMap.length_keys, Std.ExtTreeMap.length_keys]

/-- Every value of the one map is looked up in the other. -/
theorem sameMap_iff_size : sameMap related a b = true ↔
    a.size = b.size ∧ ∀ (k : κ) v, a[k]? = some v → ∃ w, b[k]? = some w ∧ related v w = true := by
  simp only [sameMap, Bool.and_eq_true, decide_eq_true_eq, List.all_eq_true, Prod.forall,
    Std.ExtTreeMap.mem_toList_iff_getElem?_eq_some]
  refine and_congr_right fun _ => forall_congr' fun k => forall_congr' fun v =>
    imp_congr_right fun _ => ?_
  cases b[k]? <;> simp

/-- Maps are the same when they have related values, or none, under each key. -/
theorem sameMap_iff : sameMap related a b = true ↔
    ∀ k : κ, Option.Rel (fun v w => related v w = true) a[k]? b[k]? := by
  rw [sameMap_iff_size, size_eq_iff_length_keys]
  constructor
  · rintro ⟨hlength, hall⟩ k
    -- every key of `a` is one of `b`, and there are as many
    have hsub : a.keys ⊆ b.keys := by
      intro k hk
      rw [Std.ExtTreeMap.mem_keys, Std.ExtTreeMap.mem_iff_isSome_getElem?] at hk ⊢
      obtain ⟨v, hv⟩ := Option.isSome_iff_exists.mp hk
      obtain ⟨w, hw, -⟩ := hall k v hv
      rw [hw]
      rfl
    have hperm : a.keys.Perm b.keys :=
      (List.subperm_of_subset a.nodup_keys hsub).perm_of_length_le (Nat.le_of_eq hlength.symm)
    cases ha : a[k]? with
    | some v =>
      obtain ⟨w, hw, hrelated⟩ := hall k v ha
      rw [hw]
      exact .some hrelated
    | none =>
      have hnone : b[k]? = none := by
        refine Std.ExtTreeMap.getElem?_eq_none fun hk => ?_
        have hka : k ∈ a.keys := hperm.mem_iff.mpr (Std.ExtTreeMap.mem_keys.mpr hk)
        rw [Std.ExtTreeMap.mem_keys, Std.ExtTreeMap.mem_iff_isSome_getElem?, ha] at hka
        exact absurd hka (by simp)
      rw [hnone]
      exact .none
  · intro hrel
    -- the keys are the same without repetition, so they are as many
    have hfound : ∀ (k : κ) v, a[k]? = some v → ∃ w, b[k]? = some w ∧ related v w = true := by
      intro k v hv
      have hk := hrel k
      rw [hv] at hk
      generalize b[k]? = o at hk
      cases hk with
      | some hrelated => exact ⟨_, rfl, hrelated⟩
    have hperm : a.keys.Perm b.keys := by
      refine (List.perm_ext_iff_of_nodup a.nodup_keys b.nodup_keys).mpr fun k => ?_
      have hk := hrel k
      simp only [Std.ExtTreeMap.mem_keys, Std.ExtTreeMap.mem_iff_isSome_getElem?]
      generalize a[k]? = o, b[k]? = o' at hk
      cases hk <;> simp
    exact ⟨hperm.length_eq, hfound⟩

end maps

theorem Properties.same_iff {p q : Properties} :
    Properties.same p q = true ↔ ∀ name : String, Json.SameOption p[name]? q[name]? := by
  rw [Properties.same, sameMap_iff]
  refine forall_congr' fun name => ?_
  cases p[name]? <;> cases q[name]? <;> simp [Json.SameOption]

/-! ## Resources -/

/-- Two resources have the same properties. -/
def Resource.Alike (r s : Resource) : Prop :=
  ∀ p : String, Json.SameOption r.properties[p]? s.properties[p]?

namespace Resource.Alike

variable {r s t : Resource}

theorem refl (r : Resource) : r.Alike r := fun _ => .refl _

theorem symm (hrs : r.Alike s) : s.Alike r := fun p => Json.sameOption_comm.mp (hrs p)

theorem trans (hrs : r.Alike s) (hst : s.Alike t) : r.Alike t := fun p => (hrs p).trans (hst p)

end Resource.Alike

theorem Resource.alike_iff {r s : Resource} :
    r.Alike s ↔ r.properties.same s.properties = true :=
  Properties.same_iff.symm

/-! ## What may be absent -/

section related

variable {α : Type} {R : α → α → Prop} {a b c : Option α}

theorem rel_iff : Option.Rel R a b ↔
    (a.isSome = true ↔ b.isSome = true) ∧ ∀ x y, a = some x → b = some y → R x y := by
  cases a <;> cases b <;> simp

theorem rel_eq_iff : Option.Rel Eq a b ↔ a = b := by
  cases a <;> cases b <;> simp

theorem rel_refl (hR : ∀ x, R x x) (a : Option α) : Option.Rel R a a := by
  cases a with
  | none => exact .none
  | some x => exact .some (hR x)

theorem rel_symm (hR : ∀ {x y}, R x y → R y x) (hab : Option.Rel R a b) : Option.Rel R b a := by
  cases hab with
  | none => exact .none
  | some hxy => exact .some (hR hxy)

theorem rel_trans (hR : ∀ {x y z}, R x y → R y z → R x z) (hab : Option.Rel R a b)
    (hbc : Option.Rel R b c) : Option.Rel R a c := by
  cases hab with
  | none => exact hbc
  | some hxy =>
    cases hbc with
    | some hyz => exact .some (hR hxy hyz)

end related

/-! ## Graphs -/

namespace Graph

/-- Related resources, or none, under every identifier, and edges between the same ends. -/
structure Like (R : Resource → Resource → Prop) (g h : Graph) : Prop where
  resources : ∀ id : TopologyId, Option.Rel R g.resources[id]? h.resources[id]?
  edges : ∀ l, l ∈ g.edges ↔ l ∈ h.edges

/-- The same identifiers of resources, the same properties under each, and the same links. -/
def InSync (g h : Graph) : Prop := g.Like Resource.Alike h

variable {g h k : Graph}

namespace InSync

theorem refl (g : Graph) : g.InSync g := ⟨fun _ => rel_refl .refl _, fun _ => Iff.rfl⟩

theorem symm (hgh : g.InSync h) : h.InSync g :=
  ⟨fun id => rel_symm .symm (hgh.resources id), fun l => (hgh.edges l).symm⟩

theorem trans (hgh : g.InSync h) (hhk : h.InSync k) : g.InSync k :=
  ⟨fun id => rel_trans .trans (hgh.resources id) (hhk.resources id),
    fun l => (hgh.edges l).trans (hhk.edges l)⟩

end InSync

theorem inSync_iff : g.InSync h ↔ (∀ id, id ∈ g.resources ↔ id ∈ h.resources) ∧
    (∀ (id : TopologyId) r s, g.resources[id]? = some r → h.resources[id]? = some s →
      r.properties.same s.properties = true) ∧
    ∀ l, l ∈ g.edges ↔ l ∈ h.edges := by
  have hrel : ∀ id : TopologyId,
      Option.Rel Resource.Alike g.resources[id]? h.resources[id]? ↔
        (id ∈ g.resources ↔ id ∈ h.resources) ∧ ∀ r s, g.resources[id]? = some r →
          h.resources[id]? = some s → r.properties.same s.properties = true := by
    intro id
    simp only [rel_iff, Resource.alike_iff, Std.ExtTreeMap.mem_iff_isSome_getElem?]
  constructor
  · rintro ⟨hresources, hedges⟩
    exact ⟨fun id => ((hrel id).mp (hresources id)).1, fun id => ((hrel id).mp (hresources id)).2,
      hedges⟩
  · rintro ⟨hids, hproperties, hedges⟩
    exact ⟨fun id => (hrel id).mpr ⟨hids id, hproperties id⟩, hedges⟩

end Graph

end VersionedTopology

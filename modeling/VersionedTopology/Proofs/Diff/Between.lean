/-
  VersionedTopology.Proofs.Diff.Between

  What a diff holds.

  A diff is put together in two walks, over the target and over the source, and its entries are
  stored under written forms. Both walks insert under a name that tells the keys apart, so each
  entry can be looked up on its own: it depends on what either side has under its key and on
  nothing else.
-/

import VersionedTopology.Diff.Basic
import VersionedTopology.Proofs.Topology.Same
import VersionedTopology.Proofs.Topology.Walk
import VersionedTopology.Proofs.Wire.Graph

namespace VersionedTopology

/-! ## Properties -/

namespace TopologyDiff

/-- A property is among the changes when its sides are not the same; both sides are kept. -/
theorem getElem?_propertyChanges (before after : Properties) (p : String) :
    (propertyChanges before after)[p]? =
      if Json.SameOption before[p]? after[p]? then none else some ⟨before[p]?, after[p]?⟩ := by
  have hchanged := getElem?_foldl_name (m := after) (n := id) (k := p)
    (.unless (p := fun name new => Json.SameOption before[name]? (some new))
      (e := fun name new => PropertyChange.mk before[name]? (some new))) (fun _ _ _ h => h) ∅
  have hremoved := getElem?_foldl_name (m := before) (n := id) (k := p)
    (.unless (p := fun name _ => after.contains name)
      (e := fun _ old => PropertyChange.mk (some old) none)) (fun _ _ _ h => h)
  refine ((hremoved _).trans (congrArg (Option.or _) hchanged)).trans ?_
  rw [Std.ExtTreeMap.contains_eq_isSome_getElem?]
  cases hb : before[p]? <;> cases ha : after[p]? <;> simp [Json.SameOption]

/-- There are changes unless the properties are the same. -/
theorem isEmpty_propertyChanges {before after : Properties} :
    (propertyChanges before after).isEmpty = true ↔ before.same after = true := by
  rw [Std.ExtTreeMap.isEmpty_iff, Std.ExtTreeMap.eq_empty_iff_forall_not_mem, Properties.same_iff]
  refine forall_congr' fun p => ?_
  rw [Std.ExtTreeMap.mem_iff_isSome_getElem?, getElem?_propertyChanges]
  split <;> simp [*]

/-! ## Resources -/

/-- The entry of a resource, from what either side has under its identifier. -/
def entryOf (id : TopologyId) : Option Resource → Option Resource → Option Difference
  | none, none => none
  | none, some _ => some { status := .added, target := some id }
  | some _, none => some { status := .removed, target := some id }
  | some before, some after =>
    let changes := propertyChanges before.properties after.properties
    if changes.isEmpty then none
    else some { status := .changed, properties := changes, target := some id }

/-- Only a resource that both sides have has changed properties. -/
theorem change_of_entryOf {id : TopologyId} {before after : Option Resource} {d : Difference}
    (h : entryOf id before after = some d) {p : String} {c : PropertyChange}
    (hc : d.properties[p]? = some c) :
    ∃ b a, before = some b ∧ after = some a ∧
      (propertyChanges b.properties a.properties)[p]? = some c := by
  cases before with
  | none =>
    cases after with
    | none => exact absurd h (by simp [entryOf])
    | some a =>
      obtain rfl := Option.some.inj h
      exact absurd hc (by simp)
  | some b =>
    cases after with
    | none =>
      obtain rfl := Option.some.inj h
      exact absurd hc (by simp)
    | some a =>
      rw [entryOf] at h
      split at h
      · exact absurd h (by simp)
      · obtain rfl := Option.some.inj h
        exact ⟨b, a, rfl, rfl, hc⟩

theorem target_of_entryOf {id : TopologyId} {before after : Option Resource} {d : Difference}
    (h : entryOf id before after = some d) : d.target = some id := by
  cases before <;> cases after <;> simp only [entryOf] at h
  · exact absurd h (by simp)
  · rw [← Option.some.inj h]
  · rw [← Option.some.inj h]
  · split at h
    · exact absurd h (by simp)
    · rw [← Option.some.inj h]

theorem inserts_present (source : Resources) :
    Inserts (fun m (id : TopologyId) r =>
      match resourceEntry source id r with
      | none => m
      | some d => m.insert id.text d) TopologyId.text (resourceEntry source) := by
  intro acc id r
  dsimp only
  cases resourceEntry source id r <;> rfl

/-- What the walk over the target inserts for a resource is its entry. -/
theorem resourceEntry_eq_entryOf (source : Resources) (id : TopologyId) (r : Resource) :
    resourceEntry source id r = entryOf id source[id]? (some r) := by
  rw [resourceEntry]
  cases source[id]? <;> rfl

/-- The entry of a resource is found under its written form. -/
theorem getElem?_resourceEntries {source target : Resources} (hs : source.Named)
    (ht : target.Named) {id : TopologyId} (hid : id.Portable) :
    (resourceEntries source target)[id.text]? = entryOf id source[id]? target[id]? := by
  have hname : ∀ {m : Resources}, m.Named → ∀ id' r, m[id']? = some r → id'.text = id.text →
      id' = id := fun hm id' r hr htext =>
    TopologyId.text_inj (hm id' (by simp [Std.ExtTreeMap.mem_iff_isSome_getElem?, hr])) hid htext
  have hpresent := getElem?_foldl_name (inserts_present source) (hname ht) ∅
  have hmissing := getElem?_foldl_name (m := source) (n := TopologyId.text) (k := id)
    (.unless (p := fun id _ => target.contains id)
      (e := fun id _ => ({ status := .removed, target := some id } : Difference))) (hname hs)
  refine ((hmissing _).trans (congrArg (Option.or _) hpresent)).trans ?_
  rw [Std.ExtTreeMap.contains_eq_isSome_getElem?]
  cases hsource : source[id]? with
  | none =>
    cases htarget : target[id]? with
    | none => simp [entryOf]
    | some after => simp [entryOf, resourceEntry, hsource]
  | some before =>
    cases htarget : target[id]? with
    | none => simp [entryOf]
    | some after => simp [entryOf, resourceEntry, hsource]

/-- What is stored under a name is the entry of a resource with that written form. -/
theorem exists_entryOf_of_getElem? {source target : Resources} {key : String} {d : Difference}
    (h : (resourceEntries source target)[key]? = some d) :
    ∃ id : TopologyId, id.text = key ∧ entryOf id source[id]? target[id]? = some d := by
  obtain ⟨id, r, hr, hname, hd⟩ | h := exists_of_getElem?_foldl_name .unless h
  · split at hd
    · exact absurd hd (by simp)
    · rename_i hmissing
      have hnone : target[id]? = none := Std.ExtTreeMap.getElem?_eq_none (by simpa using hmissing)
      exact ⟨id, hname, by rw [hr, hnone]; exact hd⟩
  · obtain ⟨id, r, hr, hname, hd⟩ | h := exists_of_getElem?_foldl_name (inserts_present source) h
    · exact ⟨id, hname, by rw [hr, ← resourceEntry_eq_entryOf, hd]⟩
    · exact absurd h (by simp)

/-- Only resources that one of the sides has have an entry. -/
theorem mem_or_mem_of_entryOf {source target : Resources} {id : TopologyId} {d : Difference}
    (h : entryOf id source[id]? target[id]? = some d) : id ∈ source ∨ id ∈ target := by
  simp only [Std.ExtTreeMap.mem_iff_isSome_getElem?]
  cases hs : source[id]? with
  | some before => exact .inl rfl
  | none =>
    cases ht : target[id]? with
    | some after => exact .inr rfl
    | none => exact absurd h (by simp [hs, ht, entryOf])

/-- The names of the entries are the written forms of the resources that have one. -/
theorem mem_resourceEntries {source target : Resources} {key : String} :
    key ∈ resourceEntries source target ↔
      ∃ id : TopologyId, id.text = key ∧ (entryOf id source[id]? target[id]?).isSome := by
  rw [Std.ExtTreeMap.mem_iff_isSome_getElem?]
  constructor
  · intro h
    obtain ⟨d, hd⟩ := Option.isSome_iff_exists.mp h
    obtain ⟨id, hname, hentry⟩ := exists_entryOf_of_getElem? hd
    exact ⟨id, hname, by rw [hentry]; rfl⟩
  · rintro ⟨id, hname, hentry⟩
    refine (isSome_getElem?_foldl_name .unless).mpr ?_
    cases htarget : target[id]? with
    | some after =>
      refine .inr ((isSome_getElem?_foldl_name (inserts_present source)).mpr (.inl ?_))
      rw [htarget, ← resourceEntry_eq_entryOf] at hentry
      exact ⟨id, after, htarget, hname, hentry⟩
    | none =>
      obtain ⟨d, hd⟩ := Option.isSome_iff_exists.mp hentry
      have hsource : id ∈ source := (mem_or_mem_of_entryOf hd).resolve_right
        (by simp [Std.ExtTreeMap.mem_iff_isSome_getElem?, htarget])
      obtain ⟨before, hbefore⟩ :=
        Option.isSome_iff_exists.mp (Std.ExtTreeMap.mem_iff_isSome_getElem?.mp hsource)
      exact .inl ⟨id, before, hbefore, hname,
        by simp [Std.ExtTreeMap.contains_eq_isSome_getElem?, htarget]⟩

/-! ## Edges -/

/-- The links that exactly one side has. -/
def oneSided (source target : EdgeSet) : List Link :=
  (source.keys.filter fun l => l ∉ target) ++ target.keys.filter fun l => l ∉ source

section edges

variable {source target : EdgeSet} {l : Link}

theorem mem_oneSided :
    l ∈ oneSided source target ↔ l ∈ source ∧ l ∉ target ∨ l ∈ target ∧ l ∉ source := by
  simp [oneSided]

theorem nodup_oneSided (source target : EdgeSet) : (oneSided source target).Nodup := by
  refine List.nodup_append.mpr ⟨source.nodup_keys.filter _, target.nodup_keys.filter _, ?_⟩
  rintro l hl k hk rfl
  simp only [List.mem_filter, Std.ExtTreeMap.mem_keys, decide_eq_true_eq] at hl hk
  exact hk.2 hl.1

/-- The walk over one side inserts entries of links that the other side does not have. -/
theorem exists_of_getElem?_missing {side other : EdgeSet} {status : DiffStatus}
    {acc : Differences} {key : String} {d : Difference}
    (h : (side.foldl (fun m l _ => if other.contains l then m else m.insert l.text { status })
      acc)[key]? = some d) :
    (∃ l ∈ side, l ∉ other ∧ l.text = key ∧ d = { status }) ∨ acc[key]? = some d := by
  refine (exists_of_getElem?_foldl_name .unless h).imp_left ?_
  rintro ⟨l, m, hm, hname, hd⟩
  split at hd
  · exact absurd hd (by simp)
  · rename_i hnot
    have hin : l ∈ side := by simp [Std.ExtTreeMap.mem_iff_isSome_getElem?, hm]
    exact ⟨l, hin, by simpa using hnot, hname, (Option.some.inj hd).symm⟩

/-- The walk over the source comes last, so what it finds missing has its entry. -/
theorem getElem?_edgeEntries_of_removed (hs : l ∈ source) (ht : l ∉ target) :
    (edgeEntries source target)[l.text]? = some { status := .removed } := by
  obtain ⟨m, hm⟩ := Option.isSome_iff_exists.mp (Std.ExtTreeMap.mem_iff_isSome_getElem?.mp hs)
  refine getElem?_foldl_of_getElem? (.unless (p := fun l _ => target.contains l)
    (e := fun _ _ => ({ status := .removed } : Difference))) hm ?_ (fun k _ _ _ e he => ?_) _
  · simp [ht]
  · split at he
    · exact absurd he (by simp)
    · exact (Option.some.inj he).symm

/-- What only the target has is added, unless a missing link is written alike. -/
theorem getElem?_edgeEntries_of_added (ht : l ∈ target) (hs : l ∉ source)
    (hnone : ∀ k ∈ source, k.text = l.text → k ∈ target) :
    (edgeEntries source target)[l.text]? = some { status := .added } := by
  obtain ⟨m, hm⟩ := Option.isSome_iff_exists.mp (Std.ExtTreeMap.mem_iff_isSome_getElem?.mp ht)
  refine (getElem?_foldl_of_forall_getElem? (.unless (p := fun l _ => target.contains l)
    (e := fun _ _ => ({ status := .removed } : Difference))) (fun k v hk hname => ?_) _).trans
    (getElem?_foldl_of_getElem? (.unless (p := fun l _ => source.contains l)
      (e := fun _ _ => ({ status := .added } : Difference))) hm ?_ (fun k _ _ _ e he => ?_) ∅)
  · have hin : k ∈ source := by simp [Std.ExtTreeMap.mem_iff_isSome_getElem?, hk]
    simp [hnone k hin hname]
  · simp [hs]
  · split at he
    · exact absurd he (by simp)
    · exact (Option.some.inj he).symm

/-- The walk over one side inserts under the written forms of the links that the other side does
not have. -/
theorem isSome_getElem?_missing {side other : EdgeSet} {status : DiffStatus} {acc : Differences}
    {key : String} :
    (side.foldl (fun m l _ => if other.contains l then m else m.insert l.text { status })
      acc)[key]?.isSome ↔ (∃ l ∈ side, l ∉ other ∧ l.text = key) ∨ acc[key]?.isSome := by
  refine (isSome_getElem?_foldl_name .unless).trans (or_congr_left ?_)
  constructor
  · rintro ⟨l, m, hm, hname, hsome⟩
    exact ⟨l, by simp [Std.ExtTreeMap.mem_iff_isSome_getElem?, hm], by simpa using hsome, hname⟩
  · rintro ⟨l, hin, hnot, hname⟩
    obtain ⟨m, hm⟩ := Option.isSome_iff_exists.mp (Std.ExtTreeMap.mem_iff_isSome_getElem?.mp hin)
    exact ⟨l, m, hm, hname, by simp [hnot]⟩

/-- The entries are stored under the written forms of the links that only one side has. -/
theorem mem_edgeEntries {key : String} :
    key ∈ edgeEntries source target ↔ ∃ l ∈ oneSided source target, l.text = key := by
  have hempty : ¬ (∅ : Differences)[key]?.isSome := by simp
  rw [Std.ExtTreeMap.mem_iff_isSome_getElem?, edgeEntries, isSome_getElem?_missing,
    isSome_getElem?_missing, or_iff_left hempty]
  simp only [mem_oneSided, or_and_right, exists_or, and_assoc]

end edges

/-- The entry of an edge holds a status and nothing else. -/
theorem exists_of_getElem?_edgeEntries {source target : EdgeSet} {key : String} {d : Difference}
    (h : (edgeEntries source target)[key]? = some d) : ∃ status, d = { status } := by
  obtain ⟨l, -, -, -, hd⟩ | h := exists_of_getElem?_missing h
  · exact ⟨_, hd⟩
  · obtain ⟨l, -, -, -, hd⟩ | h := exists_of_getElem?_missing h
    · exact ⟨_, hd⟩
    · exact absurd h (by simp)

end TopologyDiff
end VersionedTopology

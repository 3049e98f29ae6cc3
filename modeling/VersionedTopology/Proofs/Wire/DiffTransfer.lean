/-
  VersionedTopology.Proofs.Wire.DiffTransfer

  Diffs between two snapshots, sent and received.

  A diff keeps apart a property that is null and one that is absent, but both are written as null,
  and null is read as absent. Changes with null on one side are all that is lost on the way.
-/

import VersionedTopology.Proofs.Diff.Between
import VersionedTopology.Proofs.Wire.Diff

namespace VersionedTopology

/-- No property has a floating-point number in it. -/
def Properties.Exact (p : Properties) : Prop := ∀ (name : String) v, p[name]? = some v → v.Exact

def Resources.Exact (m : Resources) : Prop :=
  ∀ (id : TopologyId) r, m[id]? = some r → r.properties.Exact

namespace Json

theorem canon_eq_null {j : Json} (h : j.canon = .null) : j = .null := by
  cases j <;> simp_all [canon]

/-- Null is the same as null only. -/
theorem sameOption_null {o : Option Json} : SameOption (some .null) o ↔ o = some .null := by
  cases o with
  | none => simp [SameOption]
  | some j =>
    rw [Option.some.injEq]
    exact ⟨fun h => canon_eq_null (Same.symm h), fun h => h ▸ Same.refl _⟩

/-- No side of a change is null, when null on one side goes with null on the other. -/
theorem ne_null_iff_null_shared {a b : Option Json} :
    (¬ SameOption a b → a ≠ some .null ∧ b ≠ some .null) ↔ (a = some .null ↔ b = some .null) := by
  by_cases ha : a = some .null
  · rw [ha, sameOption_null]
    simp
  · by_cases hb : b = some .null
    · rw [hb, sameOption_comm, sameOption_null]
      simp
    · simp [ha, hb]

end Json

namespace TopologyDiff

/-- Where a resource that both sides have has a property that is null on one side, it is null on the
other one. -/
def NullShared (source target : Resources) : Prop :=
  ∀ (id : TopologyId) before after, source[id]? = some before → target[id]? = some after →
    ∀ p : String, before.properties[p]? = some .null ↔ after.properties[p]? = some .null

/-! ## Changes of one resource -/

/-- The changes of a resource can be written and read again exactly when nulls are shared. -/
theorem portable_propertyChanges {before after : Properties} (hb : before.Portable)
    (ha : after.Portable) :
    (∀ (p : String) c, (propertyChanges before after)[p]? = some c → c.Portable) ↔
      ∀ p : String, before[p]? = some .null ↔ after[p]? = some .null := by
  refine forall_congr' fun p => ?_
  rw [getElem?_propertyChanges, ← Json.ne_null_iff_null_shared]
  constructor
  · intro h hdiffer
    have hc := h _ (if_neg hdiffer)
    exact ⟨fun hnull => (hc.old _ hnull).2 rfl, fun hnull => (hc.new _ hnull).2 rfl⟩
  · intro h c hc
    split at hc
    · exact absurd hc (by simp)
    · rename_i hdiffer
      obtain rfl := Option.some.inj hc
      obtain ⟨hold, hnew⟩ := h hdiffer
      refine ⟨fun j hj => ⟨hb p j hj, ?_⟩, fun j hj => ⟨ha p j hj, ?_⟩⟩
      · rintro rfl
        exact hold hj
      · rintro rfl
        exact hnew hj

/-! ## Whole diffs -/

variable {source target : Graph}

/-- The entry of a resource can be written and read again exactly when its changes can. -/
theorem portable_entryOf {id : TopologyId} (hid : id.Portable) {before after : Option Resource} :
    (∀ d, entryOf id before after = some d → d.Portable) ↔
      ∀ b a, before = some b → after = some a → ∀ (p : String) c,
        (propertyChanges b.properties a.properties)[p]? = some c → c.Portable := by
  constructor
  · rintro h b a rfl rfl p c hc
    have hsome : propertyChanges b.properties a.properties ≠ ∅ := by
      intro hempty
      simp [hempty] at hc
    have hentry : entryOf id (some b) (some a) =
        some { status := .changed
               properties := propertyChanges b.properties a.properties
               target := some id } := by
      simp only [entryOf, Std.ExtTreeMap.isEmpty_iff, hsome, reduceIte]
    exact (h _ hentry).properties p c hc
  · intro h d hd
    refine ⟨fun p c hc => ?_, fun id' hid' => ?_⟩
    · obtain ⟨b, a, hb, ha, hchange⟩ := change_of_entryOf hd hc
      exact h b a hb ha p c hchange
    · rw [target_of_entryOf hd] at hid'
      exact Option.some.inj hid' ▸ hid

/-- A diff can be written and read again exactly when nulls are shared. -/
theorem portable_between (hs : source.resources.Portable) (ht : target.resources.Portable) :
    (between source target).Portable ↔ NullShared source.resources target.resources := by
  constructor
  · intro h id before after hbefore hafter
    obtain ⟨hid, hb⟩ := hs id before hbefore
    have hentry := getElem?_resourceEntries hs.named ht.named hid
    refine (portable_propertyChanges hb.properties (ht id after hafter).2.properties).mp ?_
    refine (portable_entryOf hid).mp (fun d hd => ?_) before after hbefore hafter
    exact h.resources id.text d (hentry.trans hd)
  · intro h
    refine ⟨fun key d hd => ?_, fun key d hd => ?_⟩
    · obtain ⟨id, rfl, hentry⟩ := exists_entryOf_of_getElem? hd
      have hid : id.Portable := (mem_or_mem_of_entryOf hentry).elim (hs.named id) (ht.named id)
      refine (portable_entryOf hid).mpr (fun b a hb ha => ?_) d hentry
      exact (portable_propertyChanges (hs id b hb).2.properties (ht id a ha).2.properties).mpr
        (h id b a hb ha)
    · obtain ⟨status, rfl⟩ := exists_of_getElem?_edgeEntries hd
      exact ⟨by simp, by simp⟩

/-! ## Values without floating-point numbers -/

/-- A map is printed without floating-point numbers when its values are. -/
theorem exact_map {ν : Type} {m : Std.ExtTreeMap String ν} {f : ν → Json}
    (h : ∀ (k : String) v, m[k]? = some v → (f v).Exact) :
    (Json.object (m.toList.map fun x => (x.1, f x.2))).Exact := by
  rw [Json.exact_object, List.forall_mem_map]
  exact fun x hx => h _ _ (Std.ExtTreeMap.mem_toList_iff_getElem?_eq_some.mp hx)

theorem exact_change {c : PropertyChange} (hold : ∀ j ∈ c.old, j.Exact)
    (hnew : ∀ j ∈ c.new, j.Exact) : c.toJson.Exact := by
  obtain ⟨old, new⟩ := c
  cases old <;> cases new <;> simp_all [PropertyChange.toJson]

theorem exact_difference {d : Difference}
    (h : ∀ (p : String) c, d.properties[p]? = some c → c.toJson.Exact) : d.toJson.Exact := by
  have hproperties := exact_map h
  have htarget : ∀ m ∈ Json.optionalMember "target" TopologyId.toJson d.target, m.2.Exact := by
    cases d.target <;> simp [Json.optionalMember, TopologyId.toJson]
  simp only [Difference.toJson, Json.exact_object, List.forall_mem_append,
    List.forall_mem_singleton]
  refine ⟨⟨Json.exact_string _, ?_⟩, htarget⟩
  split
  · simp
  · rw [List.forall_mem_singleton]
    exact hproperties

theorem exact_propertyChanges {before after : Properties} (hb : before.Exact) (ha : after.Exact)
    (p : String) (c : PropertyChange)
    (h : (propertyChanges before after)[p]? = some c) : c.toJson.Exact := by
  rw [getElem?_propertyChanges] at h
  split at h
  · exact absurd h (by simp)
  · obtain rfl := Option.some.inj h
    exact exact_change (hb p) (ha p)

theorem exact_between (hexact : source.resources.Exact) (hexact' : target.resources.Exact) :
    (between source target).toJson.Exact := by
  have hresources : (between source target).resources.toJson.Exact := by
    refine exact_map fun key d hd => exact_difference fun p c hc => ?_
    obtain ⟨id, rfl, hentry⟩ := exists_entryOf_of_getElem? hd
    obtain ⟨b, a, hb, ha, hchange⟩ := change_of_entryOf hentry hc
    exact exact_propertyChanges (hexact id b hb) (hexact' id a ha) p c hchange
  have hedges : (between source target).edges.toJson.Exact := by
    refine exact_map fun key d hd => ?_
    obtain ⟨status, rfl⟩ := exists_of_getElem?_edgeEntries hd
    exact exact_difference (by simp)
  simp [toJson, hresources, hedges]

/-- A diff is read as itself when it can be, and nests no more brackets than a text may. -/
theorem ofText_compact_iff {d : TopologyDiff} (hexact : d.toJson.Exact) :
    decoder.ofText d.toJson.compact = .ok d ↔
      d.toJson.depth ≤ Document.maxDepth ∧ d.Portable := by
  constructor
  · intro hread
    exact (codec.of_ofText (by decide) hread).symm
  · rintro ⟨hdepth, hportable⟩
    exact codec.ofText_compact hportable hexact hdepth

/-- **A diff survives the wire where nulls are shared.** What is sent of the diff of two snapshots
is read as that diff exactly when it nests no more brackets than a text may, and no resource of
both has a property that is null on one side only. -/
theorem between_survives_iff {source target : Snapshot} (hs : source.resources.Portable)
    (ht : target.resources.Portable) (hexact : source.resources.Exact)
    (hexact' : target.resources.Exact) :
    decoder.ofText (between source.toGraph target.toGraph).toJson.compact =
        .ok (between source.toGraph target.toGraph) ↔
      (between source.toGraph target.toGraph).toJson.depth ≤ Document.maxDepth ∧
        NullShared source.resources target.resources := by
  rw [ofText_compact_iff (exact_between hexact hexact')]
  exact and_congr_right' (portable_between hs ht)

/-! ## A shop with one database -/

def orders : TopologyId := ⟨"aws", "db", "orders"⟩

/-- An environment of the shop in which the database has the given properties. -/
def shop (environment : String) (p : Properties) : Snapshot :=
  { architecture := "shop", environment, version := 1
    resources := (∅ : Resources).insert orders { id := orders, properties := p } }

/-- Properties in which the owner is null. -/
def unowned : Properties := (∅ : Properties).insert "owner" .null

theorem portable_shop {environment : String} {p : Properties} (hp : p.Portable) :
    (shop environment p).resources.Portable := by
  have horders : orders.Portable := by decide +kernel
  exact Resources.portable_empty.insert horders ⟨horders, hp⟩

theorem exact_shop {environment : String} {p : Properties} (hp : p.Exact) :
    (shop environment p).resources.Exact := by
  refine forall_getElem?_insert (P := fun _ (r : Resource) => r.properties.Exact) ?_ hp
  simp

theorem exact_insert {p : Properties} (hp : p.Exact) {name : String} {v : Json} (hv : v.Exact) :
    Properties.Exact (p.insert name v) :=
  forall_getElem?_insert (P := fun (_ : String) (v : Json) => v.Exact) hp hv

theorem nullShared_shop {a b : String} {p q : Properties}
    (h : ∀ name : String, p[name]? = some .null ↔ q[name]? = some .null) :
    NullShared (shop a p).resources (shop b q).resources := by
  intro id before after hbefore hafter
  simp only [shop, Std.ExtTreeMap.getElem?_insert] at hbefore hafter
  split at hbefore
  · rename_i heq
    rw [if_pos heq] at hafter
    obtain rfl := Option.some.inj hbefore
    obtain rfl := Option.some.inj hafter
    exact h
  · exact absurd hbefore (by simp)

/-- A property that grows while another one stays null is read as it was sent. -/
theorem between_survives_sized :
    decoder.ofText (between (shop "prod" (unowned.insert "size" (.ofNat 1))).toGraph
        (shop "dev" (unowned.insert "size" (.ofNat 2))).toGraph).toJson.compact =
      .ok (between (shop "prod" (unowned.insert "size" (.ofNat 1))).toGraph
        (shop "dev" (unowned.insert "size" (.ofNat 2))).toGraph) := by
  have hunowned : unowned.Portable := Properties.portable_empty.insert _ Json.regular_null
  have hexact : unowned.Exact := exact_insert (by simp [Properties.Exact]) Json.exact_null
  refine (between_survives_iff (portable_shop (hunowned.insert _ (by decide)))
    (portable_shop (hunowned.insert _ (by decide))) (exact_shop (exact_insert hexact (by decide)))
    (exact_shop (exact_insert hexact (by decide)))).mpr ⟨by decide +kernel, ?_⟩
  refine nullShared_shop fun name => ?_
  by_cases hname : "size" = name <;>
    simp [Std.ExtTreeMap.getElem?_insert, hname, Json.ofNat]

/-- **A null that replaces nothing is lost.** A property that is absent in one environment and null
in the other one is not read as such a change. -/
theorem between_null_lost :
    (shop "prod" ∅).resources.Portable ∧ (shop "dev" unowned).resources.Portable ∧
      (shop "prod" ∅).resources.Exact ∧ (shop "dev" unowned).resources.Exact ∧
      decoder.ofText (between (shop "prod" ∅).toGraph (shop "dev" unowned).toGraph).toJson.compact ≠
        .ok (between (shop "prod" ∅).toGraph (shop "dev" unowned).toGraph) := by
  have hprod : (shop "prod" ∅).resources.Portable := portable_shop Properties.portable_empty
  have hdev : (shop "dev" unowned).resources.Portable :=
    portable_shop (Properties.portable_empty.insert "owner" Json.regular_null)
  have hempty : (∅ : Properties).Exact := by simp [Properties.Exact]
  refine ⟨hprod, hdev, exact_shop hempty, exact_shop (exact_insert hempty Json.exact_null), ?_⟩
  intro hread
  have hshared := (portable_between hprod hdev).mp (codec.of_ofText (by decide) hread).1
  have hboth := hshared orders _ _ Std.ExtTreeMap.getElem?_insert_self
    Std.ExtTreeMap.getElem?_insert_self "owner"
  exact absurd (hboth.mpr Std.ExtTreeMap.getElem?_insert_self) (by simp)

end TopologyDiff

end VersionedTopology

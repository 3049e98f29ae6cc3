/-
  VersionedTopology.Proofs.Diff.Exact

  A diff says what differs, and read backwards it is the diff the other way.

  `Tells` says what the entry of a resource is from what either side stores under its identifier:
  one side only, or both with different properties. Where identifiers were parsed and no two links
  are written alike, every resource and every link has its own name in the diff, so the entries are
  exactly these. The rules of `Tells` come in pairs that are turned into each other by changing
  sides, and that is why the diff the other way is the same diff with its sides changed, although it
  is computed in other walks.
-/

import VersionedTopology.Proofs.Diff.Between

namespace VersionedTopology

/-! ## The other way -/

/-- The change seen from the other side. -/
def PropertyChange.flip (c : PropertyChange) : PropertyChange := ⟨c.new, c.old⟩

/-- The entry seen from the other side: added is removed, and old is new. -/
def Difference.flip (d : Difference) : Difference :=
  { d with status := d.status.flip, properties := d.properties.map fun _ c => c.flip }

/-- The diff seen from the other side. -/
def TopologyDiff.flip (d : TopologyDiff) : TopologyDiff :=
  ⟨d.resources.map fun _ e => e.flip, d.edges.map fun _ e => e.flip⟩

@[simp] theorem DiffStatus.flip_flip (s : DiffStatus) : s.flip.flip = s := by
  cases s <;> rfl

@[simp] theorem Difference.flip_flip (d : Difference) : d.flip.flip = d := by
  obtain ⟨status, properties, target⟩ := d
  have hproperties : (properties.map fun _ c => c.flip).map (fun _ c => c.flip) = properties := by
    refine Std.ExtTreeMap.ext_getElem? fun p => ?_
    rw [Std.ExtTreeMap.getElem?_map, Std.ExtTreeMap.getElem?_map]
    cases properties[p]? <;> rfl
  simp [Difference.flip, hproperties]

namespace TopologyDiff

/-! ## Entries of resources -/

/-- What a diff says of a resource, from what the source and the target store under its
identifier. -/
inductive Tells (id : TopologyId) : Option Resource → Option Resource → Difference → Prop
  | added (after : Resource) : Tells id none (some after) { status := .added, target := some id }
  | removed (before : Resource) :
      Tells id (some before) none { status := .removed, target := some id }
  /-- Each property that is not the same on both sides, with its value on either side. -/
  | changed (before after : Resource) (changes : Std.ExtTreeMap String PropertyChange)
      (hdiffer : ¬ before.properties.same after.properties = true)
      (hchanges : ∀ p : String, changes[p]? =
        if Json.SameOption before.properties[p]? after.properties[p]? then none
        else some (PropertyChange.mk before.properties[p]? after.properties[p]?)) :
      Tells id (some before) (some after)
        { status := .changed, properties := changes, target := some id }

variable {id : TopologyId} {before after : Option Resource} {d : Difference}

theorem entryOf_eq_some_iff : entryOf id before after = some d ↔ Tells id before after d := by
  cases before with
  | none =>
    cases after with
    | none => exact ⟨nofun, nofun⟩
    | some a =>
      constructor
      · rintro ⟨⟩
        exact .added a
      · rintro ⟨⟩
        rfl
  | some b =>
    cases after with
    | none =>
      constructor
      · rintro ⟨⟩
        exact .removed b
      · rintro ⟨⟩
        rfl
    | some a =>
      rw [entryOf]
      constructor
      · intro h
        split at h
        · exact absurd h (by simp)
        · rename_i hsome
          obtain rfl := Option.some.inj h
          exact .changed b a _ (isEmpty_propertyChanges.not.mp hsome) (getElem?_propertyChanges _ _)
      · rintro (_ | _ | ⟨_, _, changes, hdiffer, hchanges⟩)
        -- the changes are told by their lookups
        obtain rfl : changes = propertyChanges b.properties a.properties :=
          Std.ExtTreeMap.ext_getElem? fun p => by rw [hchanges, getElem?_propertyChanges]
        exact if_neg (isEmpty_propertyChanges.not.mpr hdiffer)

namespace Tells

/-- Each rule seen from the other side is a rule again. -/
theorem flip (h : Tells id before after d) : Tells id after before d.flip := by
  cases h with
  | added a => exact .removed a
  | removed b => exact .added b
  | changed b a changes hdiffer hchanges =>
    refine .changed a b (changes.map fun _ c => c.flip) ?_ fun p => ?_
    · rw [Properties.same_iff] at hdiffer ⊢
      simpa only [Json.sameOption_comm] using hdiffer
    · rw [Std.ExtTreeMap.getElem?_map, hchanges]
      by_cases hsame : Json.SameOption b.properties[p]? a.properties[p]?
      · rw [if_pos hsame, if_pos (Json.sameOption_comm.mp hsame)]
        rfl
      · rw [if_neg hsame, if_neg fun h => hsame (Json.sameOption_comm.mp h)]
        rfl

/-- Exactly the entries of changed resources have properties. -/
theorem isConsistent (h : Tells id before after d) : d.isConsistent = true := by
  cases h with
  | added a => rfl
  | removed b => rfl
  | changed b a changes hdiffer hchanges =>
    -- without changes all properties would be the same
    have hsome : ¬ changes.isEmpty = true := by
      rw [Std.ExtTreeMap.isEmpty_iff]
      rintro rfl
      refine hdiffer (Properties.same_iff.mpr fun p => ?_)
      have hnone := hchanges p
      by_contra hdiffers
      simp [hdiffers] at hnone
    simpa [Difference.isConsistent] using hsome

end Tells

/-- The entries of resources are what the rules tell of them. -/
theorem getElem?_resourceEntries_iff {source target : Resources} (hs : source.Named)
    (ht : target.Named) {key : String} : (resourceEntries source target)[key]? = some d ↔
      ∃ id : TopologyId, id.text = key ∧ Tells id source[id]? target[id]? d := by
  simp only [← entryOf_eq_some_iff]
  constructor
  · exact exists_entryOf_of_getElem?
  · rintro ⟨id, rfl, hentry⟩
    have hid : id.Portable := (mem_or_mem_of_entryOf hentry).elim (hs id) (ht id)
    rw [getElem?_resourceEntries hs ht hid, hentry]

/-! ## Entries of edges -/

/-- What a diff says of a link, by the sides that have it. -/
inductive TellsLink (source target : EdgeSet) (l : Link) : Difference → Prop
  | added (hs : l ∉ source) (ht : l ∈ target) : TellsLink source target l { status := .added }
  | removed (hs : l ∈ source) (ht : l ∉ target) : TellsLink source target l { status := .removed }

/-- No two links of either side are written alike. -/
def LinksApart (source target : EdgeSet) : Prop :=
  ∀ l k : Link, (l ∈ source ∨ l ∈ target) → (k ∈ source ∨ k ∈ target) → l.text = k.text → l = k

section edges

variable {source target : EdgeSet} {l : Link}

theorem LinksApart.symm (h : LinksApart source target) : LinksApart target source :=
  fun l k hl hk => h l k hl.symm hk.symm

theorem TellsLink.flip (h : TellsLink source target l d) : TellsLink target source l d.flip := by
  cases h with
  | added hs ht => exact .removed ht hs
  | removed hs ht => exact .added ht hs

theorem TellsLink.isConsistent (h : TellsLink source target l d) : d.isConsistent = true := by
  cases h <;> rfl

/-- The entries of edges are what the rules tell of them. -/
theorem getElem?_edgeEntries_iff (h : LinksApart source target) {key : String} :
    (edgeEntries source target)[key]? = some d ↔
      ∃ l : Link, l.text = key ∧ TellsLink source target l d := by
  constructor
  · intro hd
    obtain ⟨l, hs, ht, hname, rfl⟩ | hd := exists_of_getElem?_missing hd
    · exact ⟨l, hname, .removed hs ht⟩
    · obtain ⟨l, ht, hs, hname, rfl⟩ | hd := exists_of_getElem?_missing hd
      · exact ⟨l, hname, .added hs ht⟩
      · exact absurd hd (by simp)
  · rintro ⟨l, rfl, hl⟩
    cases hl with
    | removed hs ht => exact getElem?_edgeEntries_of_removed hs ht
    | added hs ht =>
      -- no link of the source is written alike, so the later walk leaves the entry
      refine getElem?_edgeEntries_of_added ht hs fun k hk hname => ?_
      rwa [h k l (.inl hk) (.inr ht) hname]

end edges

/-! ## Whole diffs -/

/-- A diff with consistent entries is valid. -/
theorem validate_of_forall {d : TopologyDiff}
    (hresources : ∀ (key : String) e, d.resources[key]? = some e → e.isConsistent = true)
    (hedges : ∀ (key : String) e, d.edges[key]? = some e → e.isConsistent = true) :
    d.validate = .ok () := by
  have hnone : d.entries.find? (fun e => !e.2.isConsistent) = none := by
    rw [List.find?_eq_none]
    rintro ⟨key, e⟩ he
    simp only [entries, List.mem_append, Std.ExtTreeMap.mem_toList_iff_getElem?_eq_some] at he
    simp [he.elim (hresources key e) (hedges key e)]
  simp only [validate, hnone]

/-- Entries are the same under the same names, seen from the other side. -/
theorem eq_map_flip {es fs : Differences} {P Q : String → Difference → Prop}
    (hes : ∀ key e, es[key]? = some e ↔ P key e) (hfs : ∀ key e, fs[key]? = some e ↔ Q key e)
    (hP : ∀ key e, P key e → Q key e.flip) (hQ : ∀ key e, Q key e → P key e.flip) :
    fs = es.map fun _ e => e.flip := by
  -- an entry of the one is the entry of the other, changed back
  refine Std.ExtTreeMap.ext_getElem? fun key => Option.ext fun e => ?_
  rw [Std.ExtTreeMap.getElem?_map, Option.map_eq_some_iff, hfs]
  constructor
  · intro he
    exact ⟨e.flip, (hes key _).mpr (hQ key e he), e.flip_flip⟩
  · rintro ⟨f, hf, rfl⟩
    exact hP key f ((hes key f).mp hf)

/-- **A diff is exact and reversible.** Let the identifiers of resources be parsed, and no two links
be written alike. Then no two resources are written alike either, and under the written form of a
resource stands what differs: that only the target has it, that only the source has it, or each
property that is not the same on both sides, with both values. Under the written form of a link
stands which side alone has it. There is nothing else in the diff, it is valid, and the diff the
other way is this one with its sides changed. -/
theorem between_exact {source target : Graph} (hs : source.resources.Named)
    (ht : target.resources.Named) (hlinks : LinksApart source.edges target.edges) :
    (∀ a b : TopologyId, (a ∈ source.resources ∨ a ∈ target.resources) →
      (b ∈ source.resources ∨ b ∈ target.resources) → a.text = b.text → a = b) ∧
    (∀ key d, (between source target).resources[key]? = some d ↔
      ∃ id : TopologyId, id.text = key ∧ Tells id source.resources[id]? target.resources[id]? d) ∧
    (∀ key d, (between source target).edges[key]? = some d ↔
      ∃ l : Link, l.text = key ∧ TellsLink source.edges target.edges l d) ∧
    (between source target).validate = .ok () ∧
    between target source = (between source target).flip := by
  have hresources : ∀ key d, (between source target).resources[key]? = some d ↔
      ∃ id : TopologyId, id.text = key ∧ Tells id source.resources[id]? target.resources[id]? d :=
    fun key d => getElem?_resourceEntries_iff hs ht
  have hedges : ∀ key d, (between source target).edges[key]? = some d ↔
      ∃ l : Link, l.text = key ∧ TellsLink source.edges target.edges l d :=
    fun key d => getElem?_edgeEntries_iff hlinks
  refine ⟨fun a b ha hb => ?_, hresources, hedges, ?_, ?_⟩
  · exact TopologyId.text_inj (ha.elim (hs a) (ht a)) (hb.elim (hs b) (ht b))
  · refine validate_of_forall (fun key e he => ?_) fun key e he => ?_
    · obtain ⟨id, -, htells⟩ := (hresources key e).mp he
      exact htells.isConsistent
    · obtain ⟨l, -, htells⟩ := (hedges key e).mp he
      exact htells.isConsistent
  · -- the entries the other way follow the same rules, with the sides changed
    have hresources' := eq_map_flip hresources (fun key d => getElem?_resourceEntries_iff ht hs)
      (fun key d ⟨id, hname, htells⟩ => ⟨id, hname, htells.flip⟩)
      (fun key d ⟨id, hname, htells⟩ => ⟨id, hname, htells.flip⟩)
    have hedges' := eq_map_flip hedges (fun key d => getElem?_edgeEntries_iff hlinks.symm)
      (fun key d ⟨l, hname, htells⟩ => ⟨l, hname, htells.flip⟩)
      (fun key d ⟨l, hname, htells⟩ => ⟨l, hname, htells.flip⟩)
    rw [between, flip, hresources', hedges']

/-! ## A store with a new owner -/

def store : TopologyId := ⟨"aws", "rds", "store"⟩

def mirror : TopologyId := ⟨"aws", "rds", "mirror"⟩

/-- A store in a zone that is null, with its mirror. -/
def zoned : Properties :=
  (((∅ : Properties).insert "engine" (.string "sql")).insert "size" (.ofNat 1)).insert "zone" .null

/-- The store has no zone any more, and an owner that is null. -/
def owned : Properties :=
  (((∅ : Properties).insert "engine" (.string "sql")).insert "size" (.ofNat 2)).insert "owner" .null

def mirrored : Graph where
  resources := Resources.collect [{ id := store, properties := zoned }, { id := mirror }]
  edges := EdgeSet.collect [⟨⟨store, mirror⟩, none⟩, ⟨⟨store, store⟩, none⟩]

def alone : Graph where
  resources := Resources.collect [{ id := store, properties := owned, imported := true }]
  edges := EdgeSet.collect [⟨⟨store, store⟩, some (.string "tls")⟩]

/-- The imported mark and the metadata do not count, null is not the same as nothing, and the mirror
is removed with its edge. -/
theorem between_exact_alone :
    mirrored.resources.Named ∧ alone.resources.Named ∧ LinksApart mirrored.edges alone.edges ∧
      (between mirrored alone).resources[store.text]? =
        some { status := .changed, properties := propertyChanges zoned owned,
               target := some store } ∧
      (propertyChanges zoned owned).toList =
        [("owner", ⟨none, some .null⟩), ("size", ⟨some (.ofNat 1), some (.ofNat 2)⟩),
          ("zone", ⟨some .null, none⟩)] ∧
      (between mirrored alone).edges[(Link.mk store mirror).text]? = some { status := .removed } ∧
      (between mirrored alone).validate = .ok () ∧
      between alone mirrored = (between mirrored alone).flip := by
  have hmirrored : mirrored.resources.Named := by
    have hkeys : ∀ id ∈ mirrored.resources.keys, id.Portable := by decide
    exact fun id hid => hkeys id (Std.ExtTreeMap.mem_keys.mpr hid)
  have halone : alone.resources.Named := by
    have hkeys : ∀ id ∈ alone.resources.keys, id.Portable := by decide
    exact fun id hid => hkeys id (Std.ExtTreeMap.mem_keys.mpr hid)
  have hlinks : LinksApart mirrored.edges alone.edges := by
    have hkeys : ∀ l ∈ mirrored.edges.keys ++ alone.edges.keys,
        ∀ k ∈ mirrored.edges.keys ++ alone.edges.keys, l.text = k.text → l = k := by decide
    exact fun l k hl hk => hkeys l (by simpa using hl) k (by simpa using hk)
  obtain ⟨-, hresources, hedges, hvalid, hflip⟩ := between_exact hmirrored halone hlinks
  refine ⟨hmirrored, halone, hlinks, ?_, by decide, ?_, hvalid, hflip⟩
  · exact (hresources _ _).mpr ⟨store, rfl, entryOf_eq_some_iff.mp rfl⟩
  · exact (hedges _ _).mpr ⟨⟨store, mirror⟩, rfl, .removed (by decide) (by decide)⟩

end TopologyDiff

end VersionedTopology

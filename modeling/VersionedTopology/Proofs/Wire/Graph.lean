/-
  VersionedTopology.Proofs.Wire.Graph

  The parts of a graph on the wire.
-/

import VersionedTopology.Proofs.Json.Record
import VersionedTopology.Wire.Graph

namespace VersionedTopology

open Decoder

@[simp] theorem Member.written_maybe {α β : Type} {decoder : Decoder β} {write : β → Json}
    {valid : Option β → Prop} (name : String) (get : α → Option β) (set : Option β → α → α)
    (a : α) :
    (maybe name decoder get set write valid).written a =
      Json.optionalMember name write (get a) := by
  simp only [written, maybe]
  cases get a <;> rfl

/-! ## Entries of maps -/

section entries

variable {κ ν : Type} [Ord κ] [Std.TransOrd κ] [Std.LawfulEqOrd κ] {m : Std.ExtTreeMap κ ν}
  {P : κ → ν → Prop}

/-- What holds of every entry still does when an entry is put in that it holds of. -/
theorem forall_getElem?_insert (h : ∀ k v, m[k]? = some v → P k v) {k : κ} {v : ν} (hv : P k v) :
    ∀ k' v', (m.insert k v)[k']? = some v' → P k' v' := by
  intro k' v' hget
  rw [Std.ExtTreeMap.getElem?_insert] at hget
  split at hget
  · rename_i heq
    obtain rfl := Std.LawfulEqOrd.eq_of_compare heq
    exact Option.some.inj hget ▸ hv
  · exact h k' v' hget

theorem forall_getElem?_insertIfNew (h : ∀ k v, m[k]? = some v → P k v) {k : κ} {v : ν}
    (hv : P k v) : ∀ k' v', (m.insertIfNew k v)[k']? = some v' → P k' v' := by
  intro k' v' hget
  rw [Std.ExtTreeMap.getElem?_insertIfNew] at hget
  split at hget
  · rename_i heq
    obtain rfl := Std.LawfulEqOrd.eq_of_compare heq.1
    exact Option.some.inj hget ▸ hv
  · exact h k' v' hget

theorem forall_getElem?_filter (h : ∀ k v, m[k]? = some v → P k v) (p : κ → ν → Bool) :
    ∀ k' v', (m.filter p)[k']? = some v' → P k' v' := by
  intro k' v' hget
  rw [Std.ExtTreeMap.getElem?_filter'] at hget
  exact h k' v' (Option.eq_some_of_filter_eq_some hget)

omit [Std.LawfulEqOrd κ] in
theorem forall_getElem?_erase (h : ∀ k v, m[k]? = some v → P k v) (k : κ) :
    ∀ k' v', (m.erase k)[k']? = some v' → P k' v' := by
  intro k' v' hget
  rw [Std.ExtTreeMap.getElem?_erase] at hget
  split at hget
  · exact absurd hget (by simp)
  · exact h k' v' hget

end entries

/-! ## Identifiers -/

theorem cutColon_eq_some {cs a b : List Char} (h : cutColon cs = some (a, b)) :
    cs = a ++ ':' :: b := by
  induction cs generalizing a with
  | nil => exact absurd h (by simp [cutColon])
  | cons c cs ih =>
    rw [cutColon] at h
    split at h
    · rename_i hc
      simp only [Option.some.injEq, Prod.mk.injEq] at h
      obtain ⟨rfl, rfl⟩ := h
      simp [hc]
    · simp only [Option.map_eq_some_iff, Prod.mk.injEq] at h
      obtain ⟨⟨a', b'⟩, hcut, rfl, rfl⟩ := h
      rw [ih hcut, List.cons_append]

namespace TopologyId

/-- The written form of an identifier is read as that identifier. -/
def Portable (id : TopologyId) : Prop := parse? id.text = some id

instance : DecidablePred Portable := fun _ => inferInstanceAs (Decidable (_ = _))

/-- An identifier that was parsed is written as it was. -/
theorem text_of_parse? {s : String} {id : TopologyId} (h : parse? s = some id) : id.text = s := by
  unfold parse? at h
  split at h
  · exact absurd h (by simp)
  · rename_i provider rest hcut
    split at h
    · exact absurd h (by simp)
    · rename_i kind name hrest
      split at h
      · exact absurd h (by simp)
      · obtain rfl := Option.some.inj h
        rw [← String.toList_inj, cutColon_eq_some hcut, cutColon_eq_some hrest]
        simp [text]

/-- Two identifiers are not written alike. -/
theorem text_inj {a b : TopologyId} (ha : a.Portable) (hb : b.Portable) (h : a.text = b.text) :
    a = b :=
  Option.some.inj (ha.symm.trans ((congrArg parse? h).trans hb))

theorem codec : Codec decoder toJson Portable 0 := .parsed fun _ _ => text_of_parse?

theorem toJson_ne_null (id : TopologyId) : id.toJson ≠ .null := nofun

end TopologyId

/-! ## Resources -/

/-- Every value can be written and read again. -/
def Properties.Portable (p : Properties) : Prop :=
  ∀ (name : String) v, p[name]? = some v → v.Regular

theorem Properties.codec : Codec decoder toJson Portable 1 := by
  have h : Codec decoder (fun p => .object (p.toList.map fun x => (x.1, id x.2))) _ 1 :=
    Codec.json.map fun _ _ _ => rfl
  exact h.congr (fun p => congrArg Json.object (List.map_id _).symm) fun p => by simp [Portable]

theorem Properties.portable_empty : Portable ∅ := by
  simp [Portable]

theorem Properties.Portable.insert {p : Properties} (h : p.Portable) (name : String) {v : Json}
    (hv : v.Regular) : Portable (p.insert name v) :=
  forall_getElem?_insert h hv

theorem Properties.Portable.erase {p : Properties} (h : p.Portable) (name : String) :
    Portable (p.erase name) := by
  unfold Portable at h ⊢
  exact forall_getElem?_erase h name

namespace Resource

/-- Identifier and properties can be written and read again. -/
structure Portable (r : Resource) : Prop where
  id : r.id.Portable
  properties : r.properties.Portable

def members : List (Member Resource) :=
  [ .plain "id" .required TopologyId.decoder (·.id) (fun id r => { r with id }) TopologyId.toJson
      TopologyId.Portable,
    .plain "properties" .defaulted Properties.decoder (·.properties)
      (fun properties r => { r with properties }) Properties.toJson Properties.Portable,
    .plain "imported" .defaulted bool (·.imported) (fun imported r => { r with imported }) .bool
      fun _ => True ]

theorem isRecord : IsRecord members { id := default } 1 where
  lawful := by
    simp only [members, List.forall_mem_cons]
    refine ⟨?_, ?_, ?_, by simp⟩
    · exact Member.lawful_plain TopologyId.codec (by decide) (fun _ _ => rfl) (by simp)
    · exact Member.lawful_plain Properties.codec (by decide) (fun _ _ => rfl) fun _ =>
        ⟨Properties.portable_empty, by decide⟩
    · exact Member.lawful_plain Codec.bool (by decide) (fun _ _ => rfl) fun _ =>
        ⟨trivial, by decide⟩
  names := by decide
  apart := by simp [members, Member.Apart, Member.plain]
  ext := by
    rintro ⟨⟩ ⟨⟩ h
    simpa [members, Member.plain] using h

theorem codec : Codec decoder toJson Portable 2 :=
  isRecord.codec rfl (fun _ => rfl) fun r => by
    simp only [members, Member.plain, List.forall_mem_cons, List.not_mem_nil, false_implies,
      implies_true, and_true]
    exact ⟨fun h => ⟨h.id, h.properties⟩, fun h => ⟨h.1, h.2⟩⟩

end Resource

theorem TopologyId.ofMemberName_text {id : TopologyId} :
    ofMemberName id.text = .ok id ↔ id.Portable := by
  unfold ofMemberName Portable
  split <;> simp_all

/-- Every resource and the identifier that it is stored under can be written and read again. -/
def Resources.Portable (m : Resources) : Prop :=
  ∀ (id : TopologyId) r, m[id]? = some r → id.Portable ∧ r.Portable

/-- Every identifier that a resource is stored under was parsed. -/
def Resources.Named (m : Resources) : Prop := ∀ id ∈ m, id.Portable

theorem Resources.Portable.named {m : Resources} (h : m.Portable) : m.Named := by
  intro id hid
  obtain ⟨r, hr⟩ := Option.isSome_iff_exists.mp (Std.ExtTreeMap.mem_iff_isSome_getElem?.mp hid)
  exact (h id r hr).1

theorem Resources.portable_empty : Portable ∅ := by
  simp [Portable]

theorem Resources.Portable.insert {m : Resources} (h : m.Portable) {id : TopologyId} {r : Resource}
    (hid : id.Portable) (hr : r.Portable) : Portable (m.insert id r) :=
  forall_getElem?_insert h ⟨hid, hr⟩

theorem Resources.Portable.insertIfNew {m : Resources} (h : m.Portable) {id : TopologyId}
    {r : Resource} (hid : id.Portable) (hr : r.Portable) : Portable (m.insertIfNew id r) :=
  forall_getElem?_insertIfNew h ⟨hid, hr⟩

theorem Resources.Portable.erase {m : Resources} (h : m.Portable) (id : TopologyId) :
    Portable (m.erase id) := by
  unfold Portable at h ⊢
  exact forall_getElem?_erase h id

theorem Resources.codec : Codec decoder toJson Portable 3 := by
  have hkey : ∀ s id, TopologyId.ofMemberName s = .ok id →
      TopologyId.ofMemberName id.text = .ok id := by
    intro s id h
    have hparse : TopologyId.parse? s = some id := by
      unfold TopologyId.ofMemberName at h
      split at h <;> simp_all
    rw [TopologyId.text_of_parse? hparse, h]
  exact (Resource.codec.map hkey).congr (fun _ => rfl) fun m => by
    simp only [Portable, TopologyId.ofMemberName_text]

/-! ## Edges -/

namespace Edge

/-- Endpoints and metadata can be written and read again, and the metadata are not null, which
stands for none. -/
structure Portable (e : Edge) : Prop where
  source : e.link.source.Portable
  target : e.link.target.Portable
  metadata : ∀ j ∈ e.metadata, j.Regular ∧ j ≠ .null

def members : List (Member Edge) :=
  [ .plain "source" .required TopologyId.decoder (·.link.source)
      (fun source e => { e with link := { e.link with source } }) TopologyId.toJson
      TopologyId.Portable,
    .plain "target" .required TopologyId.decoder (·.link.target)
      (fun target e => { e with link := { e.link with target } }) TopologyId.toJson
      TopologyId.Portable,
    .maybe "metadata" json (·.metadata) (fun metadata e => { e with metadata }) id
      fun o => ∀ j ∈ o, j.Regular ∧ j ≠ .null ]

theorem isRecord : IsRecord members { link := default } 0 where
  lawful := by
    simp only [members, List.forall_mem_cons]
    refine ⟨?_, ?_, ?_, by simp⟩
    · exact Member.lawful_plain TopologyId.codec (by decide) (fun _ _ => rfl) (by simp)
    · exact Member.lawful_plain TopologyId.codec (by decide) (fun _ _ => rfl) (by simp)
    · exact Member.lawful_maybe Codec.optionJson (by decide) (fun _ _ => rfl) rfl nofun
  names := by decide
  apart := by simp [members, Member.Apart, Member.plain, Member.maybe]
  ext := by
    rintro ⟨⟨⟩, _⟩ ⟨⟨⟩, _⟩ h
    simpa [members, Member.plain, Member.maybe, and_assoc] using h

theorem codec : Codec decoder toJson Portable 1 :=
  isRecord.codec rfl (fun e => by simp [toJson, members]) fun e => by
    simp only [members, Member.plain, Member.maybe, List.forall_mem_cons, List.not_mem_nil,
      false_implies, implies_true, and_true]
    exact ⟨fun h => ⟨h.source, h.target, h.metadata⟩, fun h => ⟨h.1, h.2.1, h.2.2⟩⟩

end Edge

namespace EdgeSet

/-- Every edge can be written and read again. -/
def Portable (s : EdgeSet) : Prop := ∀ e ∈ s.toEdges, e.Portable

theorem mem_toEdges {s : EdgeSet} {e : Edge} : e ∈ s.toEdges ↔ s[e.link]? = some e.metadata := by
  obtain ⟨l, m⟩ := e
  simp only [toEdges, List.mem_map, Edge.mk.injEq]
  constructor
  · rintro ⟨⟨l, m⟩, hmem, rfl, rfl⟩
    exact Std.ExtTreeMap.mem_toList_iff_getElem?_eq_some.mp hmem
  · intro h
    exact ⟨(l, m), Std.ExtTreeMap.mem_toList_iff_getElem?_eq_some.mpr h, rfl, rfl⟩

theorem portable_empty : Portable ∅ := by
  intro e he
  rw [mem_toEdges] at he
  exact absurd he (by simp)

theorem gather_concat (es : List Edge) (e : Edge) : gather (es ++ [e]) = (gather es).add e := by
  simp [gather]

/-- The edges of a gathered set are among those that were listed. -/
theorem mem_of_mem_gather {es : List Edge} {e : Edge} (h : e ∈ (gather es).toEdges) : e ∈ es := by
  rw [mem_toEdges] at h
  induction es using List.reverseRecOn with
  | nil => exact absurd h (by simp [gather])
  | append_singleton es f ih =>
    rw [gather_concat, add, Std.ExtTreeMap.getElem?_insertIfNew] at h
    split at h
    · rename_i heq
      have hlink := Std.LawfulEqOrd.eq_of_compare heq.1
      have hmetadata := Option.some.inj h
      refine List.mem_append_right _ (List.mem_singleton.mpr ?_)
      cases e
      cases f
      simp_all
    · exact List.mem_append_left _ (ih h)

/-- Listed edges no two of which have equal endpoints are all new when they are added. -/
theorem gather_eq_foldl {ps : List (Link × Option Json)}
    (h : ps.Pairwise fun a b => ¬ compare a.1 b.1 = .eq) :
    gather (ps.map fun (l, m) => ⟨l, m⟩) =
      ps.foldl (fun m x => m.insert x.1 x.2) (∅ : EdgeSet) := by
  induction ps using List.reverseRecOn with
  | nil => rfl
  | append_singleton ps p ih =>
    rw [List.pairwise_append] at h
    obtain ⟨hps, -, hnew⟩ := h
    rw [List.map_append, List.map_singleton, gather_concat, ih hps, List.foldl_append,
      List.foldl_cons, List.foldl_nil, add]
    have hnot : p.1 ∉ ps.foldl (fun m x => m.insert x.1 x.2) (∅ : EdgeSet) := by
      intro hin
      rw [Std.ExtTreeMap.mem_iff_isSome_getElem?, Option.isSome_iff_exists] at hin
      obtain ⟨m, hm⟩ := hin
      exact hnew _ (Codec.mem_of_getElem?_foldl_insert hm) p (List.mem_singleton_self p)
        Std.ReflOrd.compare_self
    refine Std.ExtTreeMap.ext_getElem? fun l => ?_
    rw [Std.ExtTreeMap.getElem?_insertIfNew, Std.ExtTreeMap.getElem?_insert]
    simp only [hnot, not_false_eq_true, and_true]

/-- The edges of a set put it together again. -/
theorem gather_toEdges (s : EdgeSet) : gather s.toEdges = s := by
  rw [toEdges, gather_eq_foldl Std.ExtTreeMap.distinct_keys_toList, Codec.foldl_insert_toList]

theorem codec : Codec decoder toJson Portable 2 :=
  Edge.codec.collection gather_toEdges fun _ _ => mem_of_mem_gather

end EdgeSet

/-! ## Issues -/

namespace Issue

/-- The resource that an issue is about can be written and read again. -/
def Portable (i : Issue) : Prop := ∀ id ∈ i.resource, id.Portable

def members : List (Member Issue) :=
  [ .maybe "resource" TopologyId.decoder (·.resource) (fun resource i => { i with resource })
      TopologyId.toJson fun o => ∀ id ∈ o, id.Portable,
    .maybe "property" string (·.property) (fun property i => { i with property }) .string
      fun o => ∀ s ∈ o, True,
    .plain "message" .required string (·.message) (fun message i => { i with message }) .string
      fun _ => True ]

theorem isRecord : IsRecord members ⟨none, none, ""⟩ 0 where
  lawful := by
    simp only [members, List.forall_mem_cons]
    refine ⟨?_, ?_, ?_, by simp⟩
    · exact Member.lawful_maybe (TopologyId.codec.option_of_ne_null TopologyId.toJson_ne_null)
        (by decide) (fun _ _ => rfl) rfl nofun
    · exact Member.lawful_maybe (Codec.string.option_of_ne_null nofun) (by decide)
        (fun _ _ => rfl) rfl nofun
    · exact Member.lawful_plain Codec.string (by decide) (fun _ _ => rfl) (by simp)
  names := by decide
  apart := by simp [members, Member.Apart, Member.plain, Member.maybe]
  ext := by
    rintro ⟨⟩ ⟨⟩ h
    simpa [members, Member.plain, Member.maybe] using h

theorem codec : Codec decoder toJson Portable 1 :=
  isRecord.codec rfl (fun i => by simp [toJson, members]) fun i => by
    simp [members, Member.plain, Member.maybe, Portable]

end Issue

/-! ## Snapshots -/

namespace Snapshot

/-- Number, resources, edges and issues can be written and read again. -/
structure Portable (s : Snapshot) : Prop where
  version : s.version ≤ Number.maxUnsigned
  resources : s.resources.Portable
  edges : s.edges.Portable
  issues : ∀ i ∈ s.issues, i.Portable

def members : List (Member Snapshot) :=
  [ .plain "architecture_id" .required string (·.architecture)
      (fun architecture s => { s with architecture }) .string fun _ => True,
    .plain "environment_id" .required string (·.environment)
      (fun environment s => { s with environment }) .string fun _ => True,
    .plain "version" .required unsigned64 (·.version) (fun version s => { s with version }) .ofNat
      (· ≤ Number.maxUnsigned),
    .plain "resources" .defaulted Resources.decoder (·.resources)
      (fun resources s => { s with resources }) Resources.toJson Resources.Portable,
    .plain "edges" .defaulted EdgeSet.decoder (·.edges) (fun edges s => { s with edges })
      EdgeSet.toJson EdgeSet.Portable,
    .plain "config_errors" .defaulted (list Issue.decoder) (·.issues)
      (fun issues s => { s with issues }) (fun is => .array (is.map Issue.toJson))
      fun is => ∀ i ∈ is, i.Portable ]

theorem isRecord :
    IsRecord members { architecture := "", environment := "", version := 0 } 3 where
  lawful := by
    simp only [members, List.forall_mem_cons]
    refine ⟨?_, ?_, ?_, ?_, ?_, ?_, by simp⟩
    · exact Member.lawful_plain Codec.string (by decide) (fun _ _ => rfl) (by simp)
    · exact Member.lawful_plain Codec.string (by decide) (fun _ _ => rfl) (by simp)
    · exact Member.lawful_plain Codec.unsigned64 (by decide) (fun _ _ => rfl) (by simp)
    · exact Member.lawful_plain Resources.codec (by decide) (fun _ _ => rfl) fun _ =>
        ⟨Resources.portable_empty, by decide⟩
    · exact Member.lawful_plain EdgeSet.codec (by decide) (fun _ _ => rfl) fun _ =>
        ⟨EdgeSet.portable_empty, by decide⟩
    · exact Member.lawful_plain Issue.codec.list (by decide) (fun _ _ => rfl) fun _ =>
        ⟨nofun, by decide⟩
  names := by decide
  apart := by simp [members, Member.Apart, Member.plain]
  ext := by
    rintro ⟨⟨⟩, _⟩ ⟨⟨⟩, _⟩ h
    simp only [members, Member.plain, List.forall_mem_cons] at h
    obtain ⟨rfl, rfl, rfl, rfl, rfl, rfl, -⟩ := h
    rfl

theorem codec : Codec decoder toJson Portable 4 :=
  isRecord.codec rfl (fun _ => rfl) fun s => by
    simp only [members, Member.plain, List.forall_mem_cons, List.not_mem_nil, false_implies,
      implies_true, and_true, true_and]
    exact ⟨fun h => ⟨h.version, h.resources, h.edges, h.issues⟩,
      fun h => ⟨h.1, h.2.1, h.2.2.1, h.2.2.2⟩⟩

end Snapshot

namespace EnvironmentKey

def members : List (Member EnvironmentKey) :=
  [ .plain "architecture_id" .required string (·.architecture)
      (fun architecture k => { k with architecture }) .string fun _ => True,
    .plain "environment_id" .required string (·.environment)
      (fun environment k => { k with environment }) .string fun _ => True ]

theorem isRecord : IsRecord members ⟨"", ""⟩ 0 where
  lawful := by
    simp only [members, List.forall_mem_cons]
    refine ⟨?_, ?_, by simp⟩
    · exact Member.lawful_plain Codec.string (by decide) (fun _ _ => rfl) (by simp)
    · exact Member.lawful_plain Codec.string (by decide) (fun _ _ => rfl) (by simp)
  names := by decide
  apart := by simp [members, Member.Apart, Member.plain]
  ext := by
    rintro ⟨⟩ ⟨⟩ h
    simpa [members, Member.plain] using h

theorem codec : Codec decoder toJson (fun _ => True) 1 :=
  isRecord.codec rfl (fun _ => rfl) fun k => by simp [members, Member.plain]

end EnvironmentKey

end VersionedTopology

/-
  VersionedTopology.Proofs.Topology.Identifier

  Identifiers and their written forms.

  Writing puts two colons between three strings, and reading cuts at the first two colons. So a
  string can be read exactly when both cuts leave something on every side, and what is read is
  written as that string again. Three strings that were never read can hold colons anywhere or be
  empty, and then their written form is read as something else or not at all; two such identifiers
  can be written alike. Identifiers that were read cannot, so a written form may stand for one: as
  the name of a member of an object, and as the key of a constraint.
-/

import VersionedTopology.Constraint.Basic
import VersionedTopology.Proofs.Topology.WrittenForm

namespace VersionedTopology

namespace TopologyId

theorem wellFormed_mk_iff {provider kind name : String} :
    WellFormed ⟨provider, kind, name⟩ ↔ (provider ≠ "" ∧ ':' ∉ provider.toList) ∧
      (kind ≠ "" ∧ ':' ∉ kind.toList) ∧ name ≠ "" :=
  ⟨fun h => ⟨h.provider, h.kind, h.name⟩,
    fun ⟨hprovider, hkind, hname⟩ => ⟨hprovider, hkind, hname⟩⟩

/-- What is read is written as it was, so it is read again. -/
theorem portable_of_parse? {s : String} {id : TopologyId} (h : parse? s = some id) :
    id.Portable := by
  rw [Portable, text_of_parse? h, h]

theorem isSome_parse?_iff {s : String} : (parse? s).isSome ↔ ∃ provider kind name : String,
    (provider ≠ "" ∧ ':' ∉ provider.toList) ∧ (kind ≠ "" ∧ ':' ∉ kind.toList) ∧ name ≠ "" ∧
      s = provider ++ ":" ++ kind ++ ":" ++ name := by
  rw [Option.isSome_iff_exists]
  constructor
  · rintro ⟨⟨provider, kind, name⟩, h⟩
    obtain ⟨hwell, rfl⟩ := parse?_eq_some_iff.mp h
    obtain ⟨hprovider, hkind, hname⟩ := wellFormed_mk_iff.mp hwell
    exact ⟨provider, kind, name, hprovider, hkind, hname, rfl⟩
  · rintro ⟨provider, kind, name, hprovider, hkind, hname, rfl⟩
    exact ⟨⟨provider, kind, name⟩,
      parse?_eq_some_iff.mpr ⟨wellFormed_mk_iff.mpr ⟨hprovider, hkind, hname⟩, rfl⟩⟩

/-- Identifiers that were parsed are written alike only if they are equal. -/
theorem text_eq_iff {a b : TopologyId} (ha : a.Portable) (hb : b.Portable) :
    a.text = b.text ↔ a = b :=
  ⟨text_inj ha hb, congrArg text⟩

end TopologyId

/-! ## What stands under written forms -/

/-- Written forms are read as the identifiers that they were written from. -/
theorem TopologyId.mapM_ofMemberName {ids : List TopologyId} (h : ∀ id ∈ ids, id.Portable) :
    (ids.map text).mapM ofMemberName = .ok ids := by
  induction ids with
  | nil => rfl
  | cons id ids ih =>
    obtain ⟨hid, hids⟩ := List.forall_mem_cons.mp h
    rw [List.map_cons, List.mapM_cons, ofMemberName_text.mpr hid, ih hids]
    rfl

namespace Resources

variable {m : Resources}

/-- Resources are written as an object with the written forms of their identifiers as names. -/
theorem exists_toJson_eq (m : Resources) :
    ∃ members, m.toJson = .object members ∧ members.map Prod.fst = m.keys.map TopologyId.text := by
  refine ⟨_, rfl, ?_⟩
  rw [← Std.ExtTreeMap.map_fst_toList_eq_keys, List.map_map, List.map_map]
  rfl

/-- No two resources are written under one name. -/
theorem Named.nodup_text (h : m.Named) : (m.keys.map TopologyId.text).Nodup := by
  refine List.Nodup.map_on (fun a ha b hb htext => ?_) m.nodup_keys
  rw [Std.ExtTreeMap.mem_keys] at ha hb
  exact TopologyId.text_inj (h a ha) (h b hb) htext

end Resources

namespace Constraint

/-- Two changes of properties have one key when they change one property of one resource. -/
theorem key_property_eq_iff {s t : TopologyId} (hs : s.Portable) (ht : t.Portable)
    (o o' : PropertyOperator) (p q : String) (v w : Json) :
    (property o s p v).key = (property o' t q w).key ↔ s = t ∧ p = q := by
  simp [key, TopologyId.text_eq_iff hs ht]

/-- Two changes of nodes have one key when they change one node. -/
theorem key_node_eq_iff {s t : TopologyId} (hs : s.Portable) (ht : t.Portable)
    (o o' : NodeOperator) (new new' : Option TopologyId) :
    (node o s new).key = (node o' t new').key ↔ s = t := by
  simp [key, TopologyId.text_eq_iff hs ht]

end Constraint

/-- **Identifiers are written and read exactly.** A string is read exactly when it is a provider, a
kind and a name with colons between them, none of them empty and no colon in the first two, and then
what is read is written as that string. Any three strings are read again from their written form
exactly when they are such. So identifiers that were read are written alike only if they are equal:
resources are written under different names, which are read as their identifiers, and constraints
on properties or on nodes have one key only if they are about one of these. -/
theorem TopologyId.parse_exact :
    (∀ s : String, (parse? s).isSome ↔ ∃ provider kind name : String,
      (provider ≠ "" ∧ ':' ∉ provider.toList) ∧ (kind ≠ "" ∧ ':' ∉ kind.toList) ∧ name ≠ "" ∧
        s = provider ++ ":" ++ kind ++ ":" ++ name) ∧
    (∀ s id, parse? s = some id → id.text = s) ∧
    (∀ provider kind name : String,
      parse? (text ⟨provider, kind, name⟩) = some ⟨provider, kind, name⟩ ↔
        (provider ≠ "" ∧ ':' ∉ provider.toList) ∧ (kind ≠ "" ∧ ':' ∉ kind.toList) ∧ name ≠ "") ∧
    (∀ s t a b, parse? s = some a → parse? t = some b → a.text = b.text → a = b) ∧
    (∀ m : Resources, (∀ id ∈ m, ∃ s, parse? s = some id) → ∃ members, m.toJson = .object members ∧
      (members.map Prod.fst).Nodup ∧ (members.map Prod.fst).mapM ofMemberName = .ok m.keys) ∧
    ∀ s t a b, parse? s = some a → parse? t = some b →
      (∀ o o' p q v w, (Constraint.property o a p v).key = (Constraint.property o' b q w).key ↔
        a = b ∧ p = q) ∧
      ∀ o o' new new', (Constraint.node o a new).key = (Constraint.node o' b new').key ↔ a = b := by
  refine ⟨fun s => isSome_parse?_iff, fun s id => text_of_parse?, fun provider kind name => ?_,
    fun s t a b ha hb => ?_, fun m hm => ?_, fun s t a b ha hb => ⟨?_, ?_⟩⟩
  · exact portable_iff_wellFormed.trans wellFormed_mk_iff
  · exact text_inj (portable_of_parse? ha) (portable_of_parse? hb)
  · have hnamed : m.Named := by
      intro id hid
      obtain ⟨s, hs⟩ := hm id hid
      exact portable_of_parse? hs
    obtain ⟨members, hmembers, hnames⟩ := m.exists_toJson_eq
    refine ⟨members, hmembers, ?_⟩
    rw [hnames]
    exact ⟨hnamed.nodup_text,
      mapM_ofMemberName fun id hid => hnamed id (Std.ExtTreeMap.mem_keys.mp hid)⟩
  · exact Constraint.key_property_eq_iff (portable_of_parse? ha) (portable_of_parse? hb)
  · exact Constraint.key_node_eq_iff (portable_of_parse? ha) (portable_of_parse? hb)

/-- Identifiers that were not parsed can be written alike, and read as a third one. -/
example :
    TopologyId.text ⟨"aws:db", "orders", "eu"⟩ = TopologyId.text ⟨"aws", "db:orders", "eu"⟩ ∧
      TopologyId.parse? "aws:db:orders:eu" = some ⟨"aws", "db", "orders:eu"⟩ := by
  decide

end VersionedTopology

/-
  VersionedTopology.Proofs.Wire.Diff

  Diffs on the wire.

  Both sides of a property change are always printed, an absent one as null, and null is read as
  an absent value. So a change can be written and read again exactly when no side of it is null.
-/

import VersionedTopology.Proofs.Wire.Graph
import VersionedTopology.Wire.Diff

namespace VersionedTopology

open Decoder

theorem DiffStatus.ofWord?_word (s : DiffStatus) : ofWord? s.word = some s := by
  cases s <;> decide

namespace PropertyChange

/-- Both values can be written and read again, and neither is null, which stands for no value. -/
structure Portable (c : PropertyChange) : Prop where
  old : ∀ j ∈ c.old, j.Regular ∧ j ≠ .null
  new : ∀ j ∈ c.new, j.Regular ∧ j ≠ .null

def members : List (Member PropertyChange) :=
  [ .plain "old" .optional (option json) (·.old) (fun old c => { c with old }) (Json.orNull id)
      fun o => ∀ j ∈ o, j.Regular ∧ j ≠ .null,
    .plain "new" .optional (option json) (·.new) (fun new c => { c with new }) (Json.orNull id)
      fun o => ∀ j ∈ o, j.Regular ∧ j ≠ .null ]

theorem isRecord : IsRecord members ⟨none, none⟩ 0 where
  lawful := by
    simp only [members, List.forall_mem_cons]
    refine ⟨?_, ?_, by simp⟩
    · exact Member.lawful_plain Codec.optionJson (by decide) (fun _ _ => rfl) fun _ =>
        ⟨nofun, by decide⟩
    · exact Member.lawful_plain Codec.optionJson (by decide) (fun _ _ => rfl) fun _ =>
        ⟨nofun, by decide⟩
  names := by decide
  apart := by simp [members, Member.Apart, Member.plain]
  ext := by
    rintro ⟨⟩ ⟨⟩ h
    simpa [members, Member.plain] using h

theorem codec : Codec decoder toJson Portable 1 :=
  isRecord.codec rfl (fun c => by
    obtain ⟨old, new⟩ := c
    cases old <;> cases new <;> rfl) fun c => by
    simp only [members, Member.plain, List.forall_mem_cons, List.not_mem_nil, false_implies,
      implies_true, and_true]
    exact ⟨fun h => ⟨h.old, h.new⟩, fun h => ⟨h.1, h.2⟩⟩

end PropertyChange

namespace Difference

/-- Every change of a property and the identifier can be written and read again. -/
structure Portable (d : Difference) : Prop where
  properties : ∀ (name : String) c, d.properties[name]? = some c → c.Portable
  target : ∀ id ∈ d.target, id.Portable

theorem propertiesCodec : Codec propertiesDecoder
    (fun p => .object (p.toList.map fun x => (x.1, x.2.toJson)))
    (fun p => ∀ (name : String) c, p[name]? = some c → c.Portable) 2 :=
  (PropertyChange.codec.map fun _ _ _ => rfl).congr (fun _ => rfl) fun p => by simp

def members : List (Member Difference) :=
  [ .plain "status" .required (word DiffStatus.ofWord?) (·.status)
      (fun status d => { d with status }) (fun s => .string s.word) fun _ => True,
    .filled "properties" propertiesDecoder (·.properties)
      (fun properties d => { d with properties }) (·.isEmpty)
      (fun p => .object (p.toList.map fun x => (x.1, x.2.toJson)))
      fun p => ∀ (name : String) c, p[name]? = some c → c.Portable,
    .maybe "target" TopologyId.decoder (·.target) (fun target d => { d with target })
      TopologyId.toJson fun o => ∀ id ∈ o, id.Portable ]

theorem isRecord : IsRecord members { status := .added } 2 where
  lawful := by
    simp only [members, List.forall_mem_cons]
    refine ⟨?_, ?_, ?_, by simp⟩
    · exact Member.lawful_plain (Codec.word DiffStatus.ofWord?_word) (by decide)
        (fun _ _ => rfl) (by simp)
    · exact Member.lawful_filled propertiesCodec (by decide) (fun _ _ => rfl)
        (fun _ => Std.ExtTreeMap.isEmpty_iff) (by simp)
    · exact Member.lawful_maybe (TopologyId.codec.option_of_ne_null TopologyId.toJson_ne_null)
        (by decide) (fun _ _ => rfl) rfl nofun
  names := by decide
  apart := by simp [members, Member.Apart, Member.plain, Member.maybe, Member.filled]
  ext := by
    rintro ⟨⟩ ⟨⟩ h
    simpa [members, Member.plain, Member.maybe, Member.filled] using h

theorem codec : Codec decoder toJson Portable 3 :=
  isRecord.codec rfl (fun d => by simp [toJson, members]) fun d => by
    simp only [members, Member.plain, Member.maybe, Member.filled, List.forall_mem_cons,
      List.not_mem_nil, false_implies, implies_true, and_true, true_and]
    exact ⟨fun h => ⟨h.properties, h.target⟩, fun h => ⟨h.1, h.2⟩⟩

end Difference

/-- Every entry can be written and read again. -/
def Differences.Portable (m : Differences) : Prop :=
  ∀ (key : String) d, m[key]? = some d → d.Portable

theorem Differences.portable_empty : Portable ∅ := by
  simp [Portable]

theorem Differences.codec : Codec decoder toJson Portable 4 :=
  (Difference.codec.map fun _ _ _ => rfl).congr (fun _ => rfl) fun m => by simp [Portable]

namespace TopologyDiff

/-- Every entry can be written and read again. -/
structure Portable (d : TopologyDiff) : Prop where
  resources : d.resources.Portable
  edges : d.edges.Portable

def members : List (Member TopologyDiff) :=
  [ .plain "resources" .defaulted Differences.decoder (·.resources)
      (fun resources d => { d with resources }) Differences.toJson Differences.Portable,
    .plain "edges" .defaulted Differences.decoder (·.edges) (fun edges d => { d with edges })
      Differences.toJson Differences.Portable ]

theorem isRecord : IsRecord members {} 4 where
  lawful := by
    simp only [members, List.forall_mem_cons]
    refine ⟨?_, ?_, by simp⟩
    · exact Member.lawful_plain Differences.codec (by decide) (fun _ _ => rfl) fun _ =>
        ⟨Differences.portable_empty, by decide⟩
    · exact Member.lawful_plain Differences.codec (by decide) (fun _ _ => rfl) fun _ =>
        ⟨Differences.portable_empty, by decide⟩
  names := by decide
  apart := by simp [members, Member.Apart, Member.plain]
  ext := by
    rintro ⟨⟩ ⟨⟩ h
    simpa [members, Member.plain] using h

theorem codec : Codec decoder toJson Portable 5 :=
  isRecord.codec rfl (fun _ => rfl) fun d => by
    simp only [members, Member.plain, List.forall_mem_cons, List.not_mem_nil, false_implies,
      implies_true, and_true]
    exact ⟨fun h => ⟨h.resources, h.edges⟩, fun h => ⟨h.1, h.2⟩⟩

end TopologyDiff

end VersionedTopology

/-
  VersionedTopology.Proofs.Wire.Request

  Requests, short answers and failures on the wire.
-/

import VersionedTopology.Proofs.Wire.Constraint
import VersionedTopology.Proofs.Wire.Diff
import VersionedTopology.Wire.ErrorBody
import VersionedTopology.Wire.Request

namespace VersionedTopology

open Decoder

/-- A number that may be missing. -/
theorem Codec.optionUnsigned64 :
    Codec (Decoder.option Decoder.unsigned64) (Json.orNull .ofNat)
      (fun o => ∀ n ∈ o, n ≤ Number.maxUnsigned) 0 :=
  Codec.unsigned64.option_of_ne_null nofun

/-- A text that may be missing. -/
theorem Codec.optionString :
    Codec (Decoder.option Decoder.string) (Json.orNull .string) (fun o => ∀ s ∈ o, True) 0 :=
  Codec.string.option_of_ne_null nofun

theorem Constraint.listCodec :
    Codec (list Constraint.decoder) listToJson (fun cs => ∀ c ∈ cs, c.Portable) 2 :=
  Constraint.codec.list

/-! ## Submissions -/

namespace ApplyRequest

/-- Numbers and constraints can be written and read again. -/
structure Portable (r : ApplyRequest) : Prop where
  version : r.version ≤ Number.maxUnsigned
  expectedHead : ∀ n ∈ r.expectedHead, n ≤ Number.maxUnsigned
  constraints : ∀ c ∈ r.constraints, c.Portable

def members : List (Member ApplyRequest) :=
  [ .plain "version" .required unsigned64 (·.version) (fun version r => { r with version }) .ofNat
      (· ≤ Number.maxUnsigned),
    .maybe "expected_head" unsigned64 (·.expectedHead)
      (fun expectedHead r => { r with expectedHead }) .ofNat
      fun o => ∀ n ∈ o, n ≤ Number.maxUnsigned,
    .plain "constraints" .required (list Constraint.decoder) (·.constraints)
      (fun constraints r => { r with constraints }) Constraint.listToJson
      fun cs => ∀ c ∈ cs, c.Portable ]

theorem isRecord : IsRecord members ⟨0, none, []⟩ 2 where
  lawful := by
    simp only [members, List.forall_mem_cons]
    refine ⟨?_, ?_, ?_, by simp⟩
    · exact Member.lawful_plain Codec.unsigned64 (by decide) (fun _ _ => rfl) (by simp)
    · exact Member.lawful_maybe Codec.optionUnsigned64 (by decide) (fun _ _ => rfl) rfl nofun
    · exact Member.lawful_plain Constraint.listCodec (by decide) (fun _ _ => rfl) (by simp)
  names := by decide
  apart := by simp [members, Member.Apart, Member.plain, Member.maybe]
  ext := by
    rintro ⟨⟩ ⟨⟩ h
    simpa [members, Member.plain, Member.maybe] using h

theorem codec : Codec decoder toJson Portable 3 :=
  isRecord.codec rfl (fun r => by simp [toJson, members]) fun r => by
    simp only [members, Member.plain, Member.maybe, List.forall_mem_cons, List.not_mem_nil,
      false_implies, implies_true, and_true]
    exact ⟨fun h => ⟨h.version, h.expectedHead, h.constraints⟩, fun h => ⟨h.1, h.2.1, h.2.2⟩⟩

end ApplyRequest

/-! ## History -/

namespace Pointers

/-- Both numbers can be written and read again. -/
structure Portable (p : Pointers) : Prop where
  previous : ∀ n ∈ p.previous, n ≤ Number.maxUnsigned
  next : ∀ n ∈ p.next, n ≤ Number.maxUnsigned

def members : List (Member Pointers) :=
  [ .plain "previous" .optional (option unsigned64) (·.previous)
      (fun previous p => { p with previous }) (Json.orNull .ofNat)
      fun o => ∀ n ∈ o, n ≤ Number.maxUnsigned,
    .plain "next" .optional (option unsigned64) (·.next) (fun next p => { p with next })
      (Json.orNull .ofNat) fun o => ∀ n ∈ o, n ≤ Number.maxUnsigned ]

theorem isRecord : IsRecord members {} 0 where
  lawful := by
    simp only [members, List.forall_mem_cons]
    refine ⟨?_, ?_, by simp⟩
    · exact Member.lawful_plain Codec.optionUnsigned64 (by decide) (fun _ _ => rfl) fun _ =>
        ⟨nofun, by decide⟩
    · exact Member.lawful_plain Codec.optionUnsigned64 (by decide) (fun _ _ => rfl) fun _ =>
        ⟨nofun, by decide⟩
  names := by decide
  apart := by simp [members, Member.Apart, Member.plain]
  ext := by
    rintro ⟨⟩ ⟨⟩ h
    simpa [members, Member.plain] using h

theorem codec : Codec decoder toJson Portable 1 :=
  isRecord.codec rfl (fun _ => rfl) fun p => by
    simp only [members, Member.plain, List.forall_mem_cons, List.not_mem_nil, false_implies,
      implies_true, and_true]
    exact ⟨fun h => ⟨h.previous, h.next⟩, fun h => ⟨h.1, h.2⟩⟩

end Pointers

/-! ## Schemas -/

namespace Schema

/-- The names allowed for a kind, gathered from a list. -/
def names (xs : List String) : Std.ExtTreeSet String := xs.foldl (fun t n => t.insert n) ∅

theorem mem_names {xs : List String} {s : String} : s ∈ names xs ↔ s ∈ xs := by
  rw [names, ← Std.ExtTreeSet.ofList_eq_foldl, Std.ExtTreeSet.mem_ofList, List.contains_iff_mem]

theorem names_toList (t : Std.ExtTreeSet String) : names t.toList = t :=
  Std.ExtTreeSet.ext_mem fun s => by rw [mem_names, Std.ExtTreeSet.mem_toList]

theorem namesCodec :
    Codec (fun src d => (list string src d).map names) (fun t => Json.strings t.toList)
      (fun t => ∀ s ∈ t.toList, True) 1 :=
  Codec.string.collection names_toList fun xs s hs => by
    rwa [Std.ExtTreeSet.mem_toList, mem_names] at hs

theorem foldl_restrict (ms : List (String × List String)) :
    (ms.foldl (fun s (kind, xs) => s.restrict kind xs) ({} : Schema)).kinds =
      (ms.map fun x => (x.1, names x.2)).foldl (fun m x => m.insert x.1 x.2) ∅ := by
  induction ms using List.reverseRecOn with
  | nil => rfl
  | append_singleton ms m ih =>
    rw [List.foldl_append, List.map_append, List.foldl_append, ← ih]
    rfl

/-- A schema is read as the map of its kinds. -/
theorem decoder_eq (src : Source) (d : Document) :
    decoder src d =
      ((pairs .ok (fun src d => (list string src d).map names) src d).map fun ms =>
        ms.foldl (fun m x => m.insert x.1 x.2) ∅).map Schema.mk := by
  rw [decoder, Codec.pairs_mapped]
  cases pairs .ok (list string) src d with
  | error f => rfl
  | ok ms => exact congrArg Except.ok (congrArg Schema.mk (foldl_restrict ms))

theorem codec : Codec decoder toJson (fun _ => True) 2 := by
  have hkinds := namesCodec.map fun _ _ _ => rfl
  have h := hkinds.image (f := Schema.mk) (g := Schema.kinds) (fun _ => rfl) fun _ hk hd => ⟨hk, hd⟩
  have hdecoder := funext fun src => funext fun d => decoder_eq src d
  rw [hdecoder]
  exact h.congr (fun _ => rfl) fun _ => by simp

end Schema

/-! ## Bodies of the server's routes -/

namespace NewEnvironment

/-- Resources and edges can be written and read again. -/
structure Portable (n : NewEnvironment) : Prop where
  resources : ∀ r ∈ n.resources, r.Portable
  edges : ∀ e ∈ n.edges, e.Portable

def members : List (Member NewEnvironment) :=
  [ .plain "resources" .defaulted (list Resource.decoder) (·.resources)
      (fun resources n => { n with resources }) (fun rs => .array (rs.map Resource.toJson))
      fun rs => ∀ r ∈ rs, r.Portable,
    .plain "edges" .defaulted (list Edge.decoder) (·.edges) (fun edges n => { n with edges })
      (fun es => .array (es.map Edge.toJson)) fun es => ∀ e ∈ es, e.Portable ]

theorem isRecord : IsRecord members {} 3 where
  lawful := by
    simp only [members, List.forall_mem_cons]
    refine ⟨?_, ?_, by simp⟩
    · exact Member.lawful_plain Resource.codec.list (by decide) (fun _ _ => rfl) fun _ =>
        ⟨nofun, by decide⟩
    · exact Member.lawful_plain Edge.codec.list (by decide) (fun _ _ => rfl) fun _ =>
        ⟨nofun, by decide⟩
  names := by decide
  apart := by simp [members, Member.Apart, Member.plain]
  ext := by
    rintro ⟨⟩ ⟨⟩ h
    simpa [members, Member.plain] using h

theorem codec : Codec decoder toJson Portable 4 :=
  isRecord.codec rfl (fun _ => rfl) fun n => by
    simp only [members, Member.plain, List.forall_mem_cons, List.not_mem_nil, false_implies,
      implies_true, and_true]
    exact ⟨fun h => ⟨h.resources, h.edges⟩, fun h => ⟨h.1, h.2⟩⟩

end NewEnvironment

namespace SelectVersion

def members : List (Member SelectVersion) :=
  [ .plain "version" .required unsigned64 (·.version) (fun version _ => ⟨version⟩) .ofNat
      (· ≤ Number.maxUnsigned) ]

theorem isRecord : IsRecord members ⟨0⟩ 0 where
  lawful := by
    simp only [members, List.forall_mem_cons]
    refine ⟨?_, by simp⟩
    exact Member.lawful_plain Codec.unsigned64 (by decide) (fun _ _ => rfl) (by simp)
  names := by decide
  apart := by simp [members]
  ext := by
    rintro ⟨⟩ ⟨⟩ h
    simpa [members, Member.plain] using h

theorem codec : Codec decoder toJson (fun s => s.version ≤ Number.maxUnsigned) 1 :=
  isRecord.codec rfl (fun _ => rfl) fun s => by simp [members, Member.plain]

end SelectVersion

/-! ## Failures -/

namespace ErrorBody

/-- Numbers and issues can be written and read again. -/
structure Portable (b : ErrorBody) : Prop where
  version : ∀ n ∈ b.version, n ≤ Number.maxUnsigned
  serverVersion : ∀ n ∈ b.serverVersion, n ≤ Number.maxUnsigned
  clientVersion : ∀ n ∈ b.clientVersion, n ≤ Number.maxUnsigned
  errors : ∀ i ∈ b.errors, i.Portable

def members : List (Member ErrorBody) :=
  [ .plain "error" .required string (·.error) (fun error b => { b with error }) .string
      fun _ => True,
    .plain "message" .defaulted string (·.message) (fun message b => { b with message }) .string
      fun _ => True,
    .maybe "architecture" string (·.architecture) (fun architecture b => { b with architecture })
      .string fun o => ∀ s ∈ o, True,
    .maybe "environment" string (·.environment) (fun environment b => { b with environment })
      .string fun o => ∀ s ∈ o, True,
    .maybe "version" unsigned64 (·.version) (fun version b => { b with version }) .ofNat
      fun o => ∀ n ∈ o, n ≤ Number.maxUnsigned,
    .maybe "server_version" unsigned64 (·.serverVersion)
      (fun serverVersion b => { b with serverVersion }) .ofNat
      fun o => ∀ n ∈ o, n ≤ Number.maxUnsigned,
    .maybe "client_version" unsigned64 (·.clientVersion)
      (fun clientVersion b => { b with clientVersion }) .ofNat
      fun o => ∀ n ∈ o, n ≤ Number.maxUnsigned,
    .filled "errors" (list Issue.decoder) (·.errors) (fun errors b => { b with errors })
      List.isEmpty (fun is => .array (is.map Issue.toJson)) fun is => ∀ i ∈ is, i.Portable ]

theorem isRecord : IsRecord members { error := "" } 2 where
  lawful := by
    simp only [members, List.forall_mem_cons]
    refine ⟨?_, ?_, ?_, ?_, ?_, ?_, ?_, ?_, by simp⟩
    · exact Member.lawful_plain Codec.string (by decide) (fun _ _ => rfl) (by simp)
    · exact Member.lawful_plain Codec.string (by decide) (fun _ _ => rfl) fun _ =>
        ⟨trivial, by decide⟩
    · exact Member.lawful_maybe Codec.optionString (by decide) (fun _ _ => rfl) rfl nofun
    · exact Member.lawful_maybe Codec.optionString (by decide) (fun _ _ => rfl) rfl nofun
    · exact Member.lawful_maybe Codec.optionUnsigned64 (by decide) (fun _ _ => rfl) rfl nofun
    · exact Member.lawful_maybe Codec.optionUnsigned64 (by decide) (fun _ _ => rfl) rfl nofun
    · exact Member.lawful_maybe Codec.optionUnsigned64 (by decide) (fun _ _ => rfl) rfl nofun
    · exact Member.lawful_filled Issue.codec.list (by decide) (fun _ _ => rfl)
        (fun _ => List.isEmpty_iff) nofun
  names := by decide
  apart := by simp [members, Member.Apart, Member.plain, Member.maybe, Member.filled]
  ext := by
    rintro ⟨⟩ ⟨⟩ h
    simpa [members, Member.plain, Member.maybe, Member.filled] using h

theorem codec : Codec decoder toJson Portable 3 :=
  isRecord.codec rfl (fun b => by simp [toJson, members]) fun b => by
    simp only [members, Member.plain, Member.maybe, Member.filled, List.forall_mem_cons,
      List.not_mem_nil, false_implies, implies_true, and_true, true_and]
    exact ⟨fun h => ⟨h.version, h.serverVersion, h.clientVersion, h.errors⟩,
      fun h => ⟨h.1, h.2.1, h.2.2.1, h.2.2.2⟩⟩

end ErrorBody

end VersionedTopology

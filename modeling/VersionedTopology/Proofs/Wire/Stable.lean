/-
  VersionedTopology.Proofs.Wire.Stable

  What is read can be written and read again.

  A decoder accepts many spellings of a value: members in any order or as an array, defaults left
  out, nulls, unknown members. The written form is one of them, and it is one that the decoder
  reads as the same value.
-/

import VersionedTopology.Proofs.Wire.Request

namespace VersionedTopology

/-- The types that go over the wire. -/
inductive WireType where
  | resource
  | edge
  | issue
  | snapshot
  | constraint
  | constraints
  | difference
  | topologyDiff
  | applyRequest
  | environmentKey
  | schema
  | pointers
  | newEnvironment
  | errorBody
deriving DecidableEq, Repr

namespace WireType

/-- The values of a type. -/
abbrev Value : WireType → Type
  | resource => Resource
  | edge => Edge
  | issue => Issue
  | snapshot => Snapshot
  | constraint => Constraint
  | constraints => List Constraint
  | difference => Difference
  | topologyDiff => TopologyDiff
  | applyRequest => ApplyRequest
  | environmentKey => EnvironmentKey
  | schema => Schema
  | pointers => Pointers
  | newEnvironment => NewEnvironment
  | errorBody => ErrorBody

def decoder : (t : WireType) → Decoder t.Value
  | resource => Resource.decoder
  | edge => Edge.decoder
  | issue => Issue.decoder
  | snapshot => Snapshot.decoder
  | constraint => Constraint.decoder
  | constraints => Decoder.list Constraint.decoder
  | difference => Difference.decoder
  | topologyDiff => TopologyDiff.decoder
  | applyRequest => ApplyRequest.decoder
  | environmentKey => EnvironmentKey.decoder
  | schema => Schema.decoder
  | pointers => Pointers.decoder
  | newEnvironment => NewEnvironment.decoder
  | errorBody => ErrorBody.decoder

def toJson : (t : WireType) → t.Value → Json
  | resource => Resource.toJson
  | edge => Edge.toJson
  | issue => Issue.toJson
  | snapshot => Snapshot.toJson
  | constraint => Constraint.toJson
  | constraints => Constraint.listToJson
  | difference => Difference.toJson
  | topologyDiff => TopologyDiff.toJson
  | applyRequest => ApplyRequest.toJson
  | environmentKey => EnvironmentKey.toJson
  | schema => Schema.toJson
  | pointers => Pointers.toJson
  | newEnvironment => NewEnvironment.toJson
  | errorBody => ErrorBody.toJson

/-- Every type has a codec, and none of them needs more brackets than a text may nest. -/
theorem exists_codec (t : WireType) :
    ∃ valid k, k ≤ Document.maxDepth ∧ Codec t.decoder t.toJson valid k := by
  cases t with
  | resource => exact ⟨_, _, by decide, Resource.codec⟩
  | edge => exact ⟨_, _, by decide, Edge.codec⟩
  | issue => exact ⟨_, _, by decide, Issue.codec⟩
  | snapshot => exact ⟨_, _, by decide, Snapshot.codec⟩
  | constraint => exact ⟨_, _, by decide, Constraint.codec⟩
  | constraints => exact ⟨_, _, by decide, Constraint.listCodec⟩
  | difference => exact ⟨_, _, by decide, Difference.codec⟩
  | topologyDiff => exact ⟨_, _, by decide, TopologyDiff.codec⟩
  | applyRequest => exact ⟨_, _, by decide, ApplyRequest.codec⟩
  | environmentKey => exact ⟨_, _, by decide, EnvironmentKey.codec⟩
  | schema => exact ⟨_, _, by decide, Schema.codec⟩
  | pointers => exact ⟨_, _, by decide, Pointers.codec⟩
  | newEnvironment => exact ⟨_, _, by decide, NewEnvironment.codec⟩
  | errorBody => exact ⟨_, _, by decide, ErrorBody.codec⟩

/-- **Wire formats are stable.** Whatever text a value was read from, writing the value gives a text
that is read as that value again, as long as it has no floating-point numbers. -/
theorem stable (t : WireType) {text : String} {x : t.Value} (h : t.decoder.ofText text = .ok x)
    (hexact : (t.toJson x).Exact) : t.decoder.ofText (t.toJson x).compact = .ok x := by
  obtain ⟨valid, k, hk, hcodec⟩ := t.exists_codec
  obtain ⟨hvalid, hdepth⟩ := hcodec.of_ofText hk h
  exact hcodec.ofText_compact hvalid hexact hdepth

/-- A constraint whose scope comes last, with an unknown member and without its value. -/
def scopeLast : String :=
  "\x7b\"property\":\"size\",\"since\":1.5,\"target\":\"aws:vm:web\"," ++
    "\"operator\":\"remove\",\"scope\":\"resource\"\x7d"

theorem stable_scopeLast :
    (decoder .constraint).ofText scopeLast =
        .ok (.property .remove ⟨"aws", "vm", "web"⟩ "size" .null) ∧
      (decoder .constraint).ofText
        (toJson .constraint (.property .remove ⟨"aws", "vm", "web"⟩ "size" .null)).compact =
          .ok (.property .remove ⟨"aws", "vm", "web"⟩ "size" .null) := by
  have hread : (decoder .constraint).ofText scopeLast =
      .ok (.property .remove ⟨"aws", "vm", "web"⟩ "size" .null) := by
    show Constraint.decoder.ofText scopeLast = _
    decide +kernel
  have hexact : (toJson .constraint
      (.property .remove ⟨"aws", "vm", "web"⟩ "size" .null)).Exact := by
    decide +kernel
  exact ⟨hread, stable .constraint hread hexact⟩

end WireType

end VersionedTopology

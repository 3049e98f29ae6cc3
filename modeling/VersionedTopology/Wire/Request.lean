/-
  VersionedTopology.Wire.Request

  Requests and short answers as JSON.
-/

import VersionedTopology.Backend
import VersionedTopology.Constraint.Solve
import VersionedTopology.Wire.Constraint
import VersionedTopology.Wire.Diff

namespace VersionedTopology

open Decoder

/-! ## Submissions -/

namespace ApplyRequest

def toJson (r : ApplyRequest) : Json :=
  .object ([("version", .ofNat r.version)] ++
    Json.optionalMember "expected_head" .ofNat r.expectedHead ++
    [("constraints", Constraint.listToJson r.constraints)])

def fields : List (RecordField ApplyRequest) :=
  [ field "version" .required unsigned64 fun version r => { r with version },
    field "expected_head" .defaulted (option unsigned64) fun expectedHead r =>
      { r with expectedHead },
    field "constraints" .required (list Constraint.decoder) fun constraints r =>
      { r with constraints } ]

def decoder : Decoder ApplyRequest := record fields ⟨0, none, []⟩ false

end ApplyRequest

/-! ## History -/

def Direction.decoder : Decoder Direction := Decoder.word Direction.ofWord?

namespace Pointers

def toJson (p : Pointers) : Json :=
  .object [("previous", Json.orNull .ofNat p.previous), ("next", Json.orNull .ofNat p.next)]

def fields : List (RecordField Pointers) :=
  [ field "previous" .optional (option unsigned64) fun previous p => { p with previous },
    field "next" .optional (option unsigned64) fun next p => { p with next } ]

def decoder : Decoder Pointers := record fields {} false

end Pointers

/-! ## Schemas -/

namespace Schema

def toJson (s : Schema) : Json :=
  .object (s.kinds.toList.map fun (kind, names) => (kind, Json.strings names.toList))

def decoder : Decoder Schema := fun src d =>
  (pairs .ok (list string) src d).map fun ms =>
    ms.foldl (fun s (kind, names) => s.restrict kind names) {}

end Schema

/-! ## Bodies of the server's routes -/

/-- The graph of an environment's first version. -/
structure NewEnvironment where
  resources : List Resource := []
  edges : List Edge := []
deriving Inhabited

namespace NewEnvironment

def toJson (n : NewEnvironment) : Json :=
  .object [("resources", .array (n.resources.map Resource.toJson)),
    ("edges", .array (n.edges.map Edge.toJson))]

def fields : List (RecordField NewEnvironment) :=
  [ field "resources" .defaulted (list Resource.decoder) fun resources n => { n with resources },
    field "edges" .defaulted (list Edge.decoder) fun edges n => { n with edges } ]

def decoder : Decoder NewEnvironment := record fields {} false

end NewEnvironment

/-- A version number alone, as a request to select it and as the answer. -/
structure SelectVersion where
  version : VersionNumber
deriving DecidableEq, Repr, Inhabited

namespace SelectVersion

def toJson (s : SelectVersion) : Json := .object [("version", .ofNat s.version)]

def decoder : Decoder SelectVersion :=
  record [field "version" .required unsigned64 fun version _ => ⟨version⟩] ⟨0⟩ false

end SelectVersion

/-- The answer of a comparison. -/
structure InSync where
  inSync : Bool
deriving DecidableEq, Repr, Inhabited

namespace InSync

def toJson (s : InSync) : Json := .object [("inSync", .bool s.inSync)]

def decoder : Decoder InSync :=
  record [field "inSync" .required bool fun inSync _ => ⟨inSync⟩] ⟨false⟩ false

end InSync

/-- The answer to a health check. -/
structure Health where
  status : String
  version : String
deriving DecidableEq, Repr, Inhabited

namespace Health

/-- The version of the program. -/
def programVersion : String := "0.4.2"

def healthy : Health := ⟨"ok", programVersion⟩

def toJson (h : Health) : Json :=
  .object [("status", .string h.status), ("version", .string h.version)]

def fields : List (RecordField Health) :=
  [ field "status" .required string fun status h => { h with status },
    field "version" .required string fun version h => { h with version } ]

def decoder : Decoder Health := record fields ⟨"", ""⟩ false

end Health

end VersionedTopology

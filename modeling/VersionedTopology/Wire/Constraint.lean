/-
  VersionedTopology.Wire.Constraint

  Constraints as JSON.

  The member `scope` tells which kind of constraint a record is, wherever it
  stands. So a record is first held back whole, and its scope noted in passing;
  only then are the other members read, in the order of the text.
-/

import VersionedTopology.Constraint.Basic
import VersionedTopology.Wire.Graph

namespace VersionedTopology

open Decoder

/-! ## Words -/

def PropertyOperator.word : PropertyOperator → String
  | equals => "equals"
  | add => "add"
  | remove => "remove"

def PropertyOperator.ofWord? (s : String) : Option PropertyOperator :=
  [equals, add, remove].find? fun o => o.word = s

def EdgeOperator.word : EdgeOperator → String
  | mustExist => "must_exist"
  | mustNotExist => "must_not_exist"

def EdgeOperator.ofWord? (s : String) : Option EdgeOperator :=
  [mustExist, mustNotExist].find? fun o => o.word = s

def NodeOperator.word : NodeOperator → String
  | add => "add"
  | remove => "remove"
  | replace => "replace"
  | adopt => "import"

def NodeOperator.ofWord? (s : String) : Option NodeOperator :=
  [add, remove, replace, adopt].find? fun o => o.word = s

def Scope.ofWord? (s : String) : Option Scope :=
  [resource, edge, global].find? fun o => o.word = s

namespace Constraint

/-- The scope comes first; the value is always written, the replacement only if there is one. -/
def toJson : Constraint → Json
  | property o t p v =>
    .object [("scope", .string "resource"), ("operator", .string o.word), ("target", t.toJson),
      ("property", .string p), ("value", v)]
  | edge o s t =>
    .object [("scope", .string "edge"), ("operator", .string o.word), ("source", s.toJson),
      ("target", t.toJson)]
  | node o n r =>
    .object ([("scope", .string "global"), ("operator", .string o.word), ("node", n.toJson)] ++
      Json.optionalMember "replacement" TopologyId.toJson r)

/-! ## Reading -/

/-- The members of a resource constraint. -/
structure PropertyParts where
  operator : PropertyOperator := .equals
  target : TopologyId := default
  property : String := ""
  value : Json := .null

def propertyFields : List (RecordField PropertyParts) :=
  [ field "operator" .required (word PropertyOperator.ofWord?) fun operator c =>
      { c with operator },
    field "target" .required TopologyId.decoder fun target c => { c with target },
    field "property" .required string fun property c => { c with property },
    field "value" .defaulted json fun value c => { c with value } ]

/-- The members of an edge constraint. -/
structure EdgeParts where
  operator : EdgeOperator := .mustExist
  source : TopologyId := default
  target : TopologyId := default

def edgeFields : List (RecordField EdgeParts) :=
  [ field "operator" .required (word EdgeOperator.ofWord?) fun operator c => { c with operator },
    field "source" .required TopologyId.decoder fun source c => { c with source },
    field "target" .required TopologyId.decoder fun target c => { c with target } ]

/-- The members of a global constraint. -/
structure NodeParts where
  operator : NodeOperator := .add
  node : TopologyId := default
  replacement : Option TopologyId := none

def nodeFields : List (RecordField NodeParts) :=
  [ field "operator" .required (word NodeOperator.ofWord?) fun operator c => { c with operator },
    field "node" .required TopologyId.decoder fun node c => { c with node },
    field "replacement" .defaulted (option TopologyId.decoder) fun replacement c =>
      { c with replacement } ]

/-- Reads the members of a constraint whose scope is known. -/
def decodeHeld (scope : Scope) (held : Document) : Except Failure Constraint :=
  let result : Except Failure Constraint :=
    match scope with
    | .resource => (record propertyFields {} false .heldBack held).map fun c =>
        .property c.operator c.target c.property c.value
    | .edge => (record edgeFields {} false .heldBack held).map fun c =>
        .edge c.operator c.source c.target
    | .global => (record nodeFields {} false .heldBack held).map fun c =>
        .node c.operator c.node c.replacement
  result.mapError Failure.asShape

/-- Reads the word that tells the scope. -/
def scopeDecoder : Decoder Scope := fun src d => do
  let s ← string src d
  match Scope.ofWord? s with
  | some scope => .ok scope
  | none => .error (.shape none)

/-- Holds back the members of a record, and notes its scope. -/
def holdBack (src : Source) :
    Option Scope → List (Option String × Document) →
      Except Failure (Option Scope × List (Option String × Document))
  | scope, [] => .ok (scope, [])
  | _, (none, _) :: _ => .error (.text .malformed)
  | scope, (some k, d) :: rest =>
    if k = "scope" then
      if scope.isSome then .error (.shape none)
      else do
        let s ← scopeDecoder src d
        holdBack src (some s) rest
    else do
      let _ ← json src d
      let (scope, held) ← holdBack src scope rest
      .ok (scope, (some k, d) :: held)

def decoder : Decoder Constraint := fun src d =>
  match d with
  | .object ms ending => do
    let src ← src.enter
    let (scope, held) ← holdBack src none ms
    failText ending
    match scope with
    | none => .error (.shape none)
    | some scope => decodeHeld scope (.object held none)
  | .array ds ending => do
    let src ← src.enter
    match ds with
    | [] =>
      failText ending
      .error (.shape none)
    | d :: ds => do
      let scope ← scopeDecoder src d
      let _ ← items json src ds
      failText ending
      decodeHeld scope (.array ds none)
  | _ => .error d.mismatch

end Constraint

def Constraint.listToJson (cs : List Constraint) : Json := .array (cs.map Constraint.toJson)

end VersionedTopology

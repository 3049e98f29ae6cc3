/-
  VersionedTopology.Constraint.Basic

  Pending edits of a graph.

  A constraint is one edit that the solver has to work in: a change to a property
  of a resource, an edge that must or must not exist, or a change to the set of
  resources. Its key tells what it is about: of two constraints with one key only
  the later counts within a batch.
-/

import VersionedTopology.Json.Printer
import VersionedTopology.Topology.Graph

namespace VersionedTopology

/-- What a constraint does to a property: set it, append to a list, or take a value out of a list
(the whole property when the value is null). -/
inductive PropertyOperator where
  | equals
  | add
  | remove
deriving DecidableEq, Repr, Inhabited

/-- What a constraint asks of an edge. -/
inductive EdgeOperator where
  | mustExist
  | mustNotExist
deriving DecidableEq, Repr, Inhabited

/-- What a constraint does to the set of resources. `replace` renames a resource and keeps its
properties and edges; `adopt` takes over existing infrastructure. -/
inductive NodeOperator where
  | add
  | remove
  | replace
  | adopt
deriving DecidableEq, Repr, Inhabited

/-- A pending edit. -/
inductive Constraint where
  | property (operator : PropertyOperator) (target : TopologyId) (property : String) (value : Json)
  | edge (operator : EdgeOperator) (source target : TopologyId)
  | node (operator : NodeOperator) (node : TopologyId) (replacement : Option TopologyId)
deriving DecidableEq, Repr, Inhabited

/-! ## Names of the operators -/

def PropertyOperator.label : PropertyOperator → String
  | equals => "Equals"
  | add => "Add"
  | remove => "Remove"

def EdgeOperator.label : EdgeOperator → String
  | mustExist => "MustExist"
  | mustNotExist => "MustNotExist"

def NodeOperator.label : NodeOperator → String
  | add => "Add"
  | remove => "Remove"
  | replace => "Replace"
  | adopt => "Import"

/-! ## Keys -/

/-- What a constraint is about, as a class. -/
inductive Scope where
  | resource
  | edge
  | global
deriving DecidableEq, Repr, Inhabited

namespace Scope

def word : Scope → String
  | resource => "resource"
  | edge => "edge"
  | global => "global"

/-- Resource constraints come first, then edges, then global ones. -/
def rank : Scope → Nat
  | resource => 0
  | edge => 1
  | global => 2

end Scope

/-- Identity of a constraint within a batch. -/
structure ConstraintKey where
  scope : Scope
  target : String
  property : Option String
deriving DecidableEq, Repr, Inhabited

namespace ConstraintKey

/-- Order by scope, then target, then property; no property comes first. -/
def le (a b : ConstraintKey) : Bool :=
  match compare a.scope.rank b.scope.rank, compare a.target b.target with
  | .lt, _ => true
  | .gt, _ => false
  | .eq, .lt => true
  | .eq, .gt => false
  | .eq, .eq =>
    match a.property, b.property with
    | none, _ => true
    | some _, none => false
    | some p, some q => (compare p q).isLE

end ConstraintKey

namespace Constraint

def scope : Constraint → Scope
  | property .. => .resource
  | edge .. => .edge
  | node .. => .global

/-- Scope, target and property. An edge is named by both endpoints. -/
def key : Constraint → ConstraintKey
  | property _ target p _ => ⟨.resource, target.text, some p⟩
  | edge _ s t => ⟨.edge, (Link.mk s t).text, none⟩
  | node _ n _ => ⟨.global, n.text, none⟩

/-- The identifiers that a constraint names. -/
def footprint : Constraint → List TopologyId
  | property _ target _ _ => [target]
  | edge _ s t => [s, t]
  | node _ n r => n :: r.toList

/-- Equality of constraints, with values compared as JSON. -/
def Same : Constraint → Constraint → Prop
  | property o t p v, property o' t' p' v' => o = o' ∧ t = t' ∧ p = p' ∧ Json.Same v v'
  | edge o s t, edge o' s' t' => o = o' ∧ s = s' ∧ t = t'
  | node o n r, node o' n' r' => o = o' ∧ n = n' ∧ r = r'
  | _, _ => False

instance : (a b : Constraint) → Decidable (Same a b)
  | property o t p v, property o' t' p' v' =>
    inferInstanceAs (Decidable (o = o' ∧ t = t' ∧ p = p' ∧ Json.Same v v'))
  | edge o s t, edge o' s' t' => inferInstanceAs (Decidable (o = o' ∧ s = s' ∧ t = t'))
  | node o n r, node o' n' r' => inferInstanceAs (Decidable (o = o' ∧ n = n' ∧ r = r'))
  | property .., edge .. => isFalse id
  | property .., node .. => isFalse id
  | edge .., property .. => isFalse id
  | edge .., node .. => isFalse id
  | node .., property .. => isFalse id
  | node .., edge .. => isFalse id

/-- The constraint in one line. -/
def text : Constraint → String
  | property o target p v => target.text ++ "." ++ p ++ " " ++ o.label ++ " " ++ v.compact
  | edge o s t => (Link.mk s t).text ++ " " ++ o.label
  | node o n (some r) => o.label ++ " " ++ n.text ++ " => " ++ r.text
  | node o n none => o.label ++ " " ++ n.text

/-! ## The common edits -/

/-- Sets a property. -/
def setProperty (target : TopologyId) (p : String) (v : Json) : Constraint :=
  .property .equals target p v

/-- Asks for an edge. -/
def connect (s t : TopologyId) : Constraint := .edge .mustExist s t

/-- Forbids an edge. -/
def disconnect (s t : TopologyId) : Constraint := .edge .mustNotExist s t

/-- Adds a resource. -/
def addResource (n : TopologyId) : Constraint := .node .add n none

/-- Removes a resource and the edges that touch it. -/
def removeResource (n : TopologyId) : Constraint := .node .remove n none

end Constraint

end VersionedTopology

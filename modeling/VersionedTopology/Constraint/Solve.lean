/-
  VersionedTopology.Constraint.Solve

  The reference solver.

  Constraints are worked into a graph from left to right. One that is invalid
  where it stands leaves the graph as it is and adds its issues; when any issue
  was found the whole batch is rejected with all of them.
-/

import Std.Data.ExtTreeSet
import VersionedTopology.Constraint.Basic
import VersionedTopology.Error

namespace VersionedTopology

/-- The property names allowed for resources of a kind. A kind that is not listed is free. -/
structure Schema where
  kinds : Std.ExtTreeMap String (Std.ExtTreeSet String) := ∅
deriving Inhabited

namespace Schema

/-- Restricts a kind to the given names, in place of an earlier restriction. -/
def restrict (s : Schema) (kind : String) (names : List String) : Schema :=
  ⟨s.kinds.insert kind (names.foldl (fun t n => t.insert n) ∅)⟩

/-- Whether a name is allowed for resources of a kind. -/
def allows (s : Schema) (kind name : String) : Bool :=
  match s.kinds[kind]? with
  | none => true
  | some names => names.contains name

end Schema

namespace Solve

/-- A constraint's effect: the new graph, or why the constraint is invalid. -/
abbrev Effect := Except (List Issue) Graph

/-- Sets the properties of a stored resource. -/
def store (g : Graph) (id : TopologyId) (r : Resource) (p : Properties) : Graph :=
  { g with resources := g.resources.insert id { r with properties := p } }

/-- A change to one property. -/
def property (schema : Schema) (g : Graph) (operator : PropertyOperator) (target : TopologyId)
    (name : String) (value : Json) : Effect :=
  match g.resources[target]? with
  | none => .error [Issue.ofResource target "resource does not exist"]
  | some r =>
    if !schema.allows target.kind name then
      .error [Issue.ofProperty target name
        ("unknown property for resource type '" ++ target.kind ++ "'")]
    else
      let noList : Effect := .error [Issue.ofProperty target name "property is not a list"]
      match operator with
      | .equals => .ok (store g target r (r.properties.insert name value))
      | .add =>
        match r.properties[name]? with
        | none => .ok (store g target r (r.properties.insert name (.array [value])))
        | some (.array items) =>
          if Json.member value items then .ok g
          else .ok (store g target r (r.properties.insert name (.array (items ++ [value]))))
        | some _ => noList
      | .remove =>
        if value.isNull then .ok (store g target r (r.properties.erase name))
        else
          match r.properties[name]? with
          | none => .ok g
          | some (.array items) =>
            .ok (store g target r (r.properties.insert name
              (.array (items.filter fun item => !decide (Json.Same item value)))))
          | some _ => noList

/-- A demand on an edge. Both endpoints have to exist for an edge to be asked for. -/
def edge (g : Graph) (operator : EdgeOperator) (l : Link) : Effect :=
  match operator with
  | .mustExist =>
    let missing := [l.source, l.target].filter fun id => !g.resources.contains id
    if missing.isEmpty then .ok { g with edges := g.edges.add ⟨l, none⟩ }
    else .error (missing.map fun id => Issue.ofResource id "edge endpoint does not exist")
  | .mustNotExist => .ok { g with edges := g.edges.erase l }

/-- The edges with one node renamed at both ends. -/
def renameEdges (edges : EdgeSet) (old new : TopologyId) : EdgeSet :=
  EdgeSet.collect (edges.toEdges.map fun e => { e with link := e.link.rename old new })

/-- Renames a resource. -/
def replace (g : Graph) (node : TopologyId) (replacement : Option TopologyId) : Effect :=
  match replacement with
  | none => .error [Issue.ofResource node "replace requires a replacement"]
  | some new =>
    if g.resources.contains new then
      .error [Issue.ofResource new "replacement already exists"]
    else
      match g.resources[node]? with
      | none => .error [Issue.ofResource node "resource does not exist"]
      | some r =>
        .ok { resources := (g.resources.erase node).insert new { r with id := new }
              edges := renameEdges g.edges node new }

/-- A change to the set of resources. -/
def node (g : Graph) (operator : NodeOperator) (node : TopologyId)
    (replacement : Option TopologyId) : Effect :=
  match operator with
  | .add => .ok { g with resources := g.resources.insertIfNew node { id := node } }
  | .adopt =>
    let r : Resource := (g.resources[node]?).getD { id := node }
    .ok { g with resources := g.resources.insert node { r with imported := true } }
  | .remove =>
    if g.resources.contains node then
      .ok { resources := g.resources.erase node
            edges := g.edges.filter fun l _ => !l.touches node }
    else .error [Issue.ofResource node "resource does not exist"]
  | .replace => replace g node replacement

/-- Works one constraint into a graph. -/
def step (schema : Schema) (g : Graph) : Constraint → Effect
  | .property o t p v => property schema g o t p v
  | .edge o s t => edge g o ⟨s, t⟩
  | .node o n r => node g o n r

/-- A graph being worked on, and the issues found so far. -/
structure Work where
  graph : Graph
  issues : List Issue := []

/-- Takes up the next constraint. -/
def Work.take (schema : Schema) (w : Work) (c : Constraint) : Work :=
  match step schema w.graph c with
  | .ok g => { w with graph := g }
  | .error issues => { w with issues := w.issues ++ issues }

/-- Takes up a list of constraints. -/
def run (schema : Schema) (g : Graph) (cs : List Constraint) : Work :=
  cs.foldl (Work.take schema) ⟨g, []⟩

end Solve

/-- Works constraints into a snapshot, which keeps its names and its number and loses the issues
it had. -/
def solve (base : Snapshot) (cs : List Constraint) (schema : Schema) : Except Error Snapshot :=
  let w := Solve.run schema base.toGraph cs
  if w.issues.isEmpty then .ok { base with toGraph := w.graph, issues := [] }
  else .error (.config w.issues)

end VersionedTopology

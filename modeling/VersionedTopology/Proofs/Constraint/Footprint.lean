/-
  VersionedTopology.Proofs.Constraint.Footprint

  What a constraint can change.

  Of the resources, a constraint writes only those that it names. Edges join named and other nodes,
  so a constraint can change edges of nodes that it does not name; but it does so link by link. It
  demands a link, drops links, or renames the ends of all of them, and which ones it drops or
  renames is told by the named ends alone.
-/

import Mathlib.Data.List.Basic
import VersionedTopology.Proofs.Constraint.Frame

namespace VersionedTopology

/-! ## Resources -/

namespace Constraint

variable {id : TopologyId}

@[simp] theorem mem_footprint_property {o : PropertyOperator} {t : TopologyId} {p : String}
    {v : Json} : id ∈ (property o t p v).footprint ↔ id = t := by
  simp [footprint]

@[simp] theorem mem_footprint_edge {o : EdgeOperator} {s t : TopologyId} :
    id ∈ (edge o s t).footprint ↔ id = s ∨ id = t := by
  simp [footprint]

@[simp] theorem mem_footprint_node {o : NodeOperator} {n : TopologyId} {new : Option TopologyId} :
    id ∈ (node o n new).footprint ↔ id = n ∨ new = some id := by
  simp [footprint]

end Constraint

namespace Solve

variable {schema : Schema} {g g' : Graph} {c : Constraint}

/-- What is not named stays. -/
theorem Worked.frame (hworked : Worked schema g c g') {id : TopologyId} (hid : id ∉ c.footprint) :
    g'.resources[id]? = g.resources[id]? :=
  hworked.getElem?_resources fun h => hid (Constraint.mem_footprint_of_mem_rewrites h)

end Solve

/-! ## Links -/

/-- The link between the images of both ends. -/
def Link.map (f : TopologyId → TopologyId) (l : Link) : Link := ⟨f l.source, f l.target⟩

namespace Constraint

/-- The links that a constraint asks for. -/
def Demands : Constraint → Link → Prop
  | .edge .mustExist s t, l => l = ⟨s, t⟩
  | _, _ => False

/-- The links that a constraint takes away. -/
def Drops : Constraint → Link → Prop
  | .edge .mustNotExist s t, l => l = ⟨s, t⟩
  | .node .remove n _, l => l.source = n ∨ l.target = n
  | _, _ => False

/-- The names that a constraint gives to nodes. -/
def renames : Constraint → TopologyId → TopologyId
  | .node .replace n (some new), id => if id = n then new else id
  | _, id => id

/-- What a constraint makes of a set of links: it drops and renames some, and adds what it demands.
-/
def act (c : Constraint) (links : Link → Prop) (l : Link) : Prop :=
  c.Demands l ∨ ∃ k, links k ∧ ¬ c.Drops k ∧ k.map c.renames = l

variable {c : Constraint} {l : Link} {id : TopologyId}

theorem Demands.ends (h : c.Demands l) : l.source ∈ c.footprint ∧ l.target ∈ c.footprint := by
  unfold Demands at h
  split at h
  · simp [h]
  · exact h.elim

theorem Drops.ends (h : c.Drops l) : l.source ∈ c.footprint ∨ l.target ∈ c.footprint := by
  unfold Drops at h
  split at h
  · simp [h]
  · simpa using h.imp Or.inl Or.inl
  · exact h.elim

/-- Which links are dropped is told by their named ends. -/
theorem drops_congr {k : Link} (hsource : ∀ id ∈ c.footprint, k.source = id ↔ l.source = id)
    (htarget : ∀ id ∈ c.footprint, k.target = id ↔ l.target = id) : c.Drops k ↔ c.Drops l := by
  cases c with
  | property o t p v => rfl
  | edge o s t =>
    cases o with
    | mustExist => rfl
    | mustNotExist =>
      have hs := hsource s (by simp)
      have ht := htarget t (by simp)
      obtain ⟨ks, kt⟩ := k
      obtain ⟨ls, lt⟩ := l
      simp_all [Drops]
  | node o n new =>
    cases o with
    | remove =>
      have hs := hsource n (by simp)
      have ht := htarget n (by simp)
      simp only [Drops, hs, ht]
    | _ => rfl

theorem renames_of_not_mem (h : id ∉ c.footprint) : c.renames id = id := by
  unfold renames
  split
  · rename_i n new
    have hne : id ≠ n := by rintro rfl; simp at h
    rw [if_neg hne]
  · rfl

theorem renames_mem (h : id ∈ c.footprint) : c.renames id ∈ c.footprint := by
  unfold renames
  split
  · split
    · simp
    · exact h
  · exact h

end Constraint

namespace Solve

variable {schema : Schema} {g g' : Graph} {c : Constraint} {l : Link}

/-- What a valid constraint makes of the edges. -/
theorem Worked.mem_edges (hworked : Worked schema g c g') :
    l ∈ g'.edges ↔ c.act (· ∈ g.edges) l := by
  rw [Constraint.act]
  cases hworked with
  | property => simp [Constraint.Demands, Constraint.Drops, Constraint.renames, Link.map, store]
  | connect s t =>
    simp [Constraint.Demands, Constraint.Drops, Constraint.renames, Link.map, EdgeSet.add,
      Std.ExtTreeMap.mem_insertIfNew, eq_comm (a := l)]
  | disconnect s t =>
    simp [Constraint.Demands, Constraint.Drops, Constraint.renames, Link.map,
      Std.ExtTreeMap.mem_erase, and_comm, eq_comm (a := l)]
  | add => simp [Constraint.Demands, Constraint.Drops, Constraint.renames, Link.map]
  | adopt => simp [Constraint.Demands, Constraint.Drops, Constraint.renames, Link.map]
  | remove n =>
    simpa [Constraint.Demands, Constraint.Drops, Constraint.renames, Link.map, Link.touches,
      Std.ExtTreeMap.mem_filter] using and_left_comm
  | replace n new =>
    rw [mem_renameEdges]
    simp [Constraint.Demands, Constraint.Drops, Constraint.renames, Link.map, Link.rename]

end Solve

end VersionedTopology

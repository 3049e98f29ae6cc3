/-
  VersionedTopology.Proofs.Constraint.InSync

  Solving cannot tell graphs that are in sync apart.

  No constraint looks at what is left out when graphs are compared: the imported mark of a resource,
  the metadata of an edge, the order of the members of a value. So a constraint is valid in both
  graphs or invalid in both for the same reason, and what it makes of resources that are alike is
  alike. Being alike is unseen, then, and batches follow by congruence.
-/

import VersionedTopology.Proofs.Constraint.Congruence

namespace VersionedTopology

/-! ## Values -/

/-- What an operator makes of values that are the same is the same, if it makes anything of them. -/
theorem PropertyOperator.outcome?_same (o : PropertyOperator) (v : Json) {old old' : Option Json}
    (hsame : Json.SameOption old old') :
    Option.Rel Json.SameOption (o.outcome? v old) (o.outcome? v old') := by
  by_cases ho : o = .add ∨ o = .remove ∧ v.isNull = false
  · obtain ⟨rfl, rfl⟩ | ⟨xs, ys, rfl, rfl, hitems⟩ | ⟨j, k, rfl, rfl, hj, hk⟩ := hsame.shape
    · obtain rfl | ⟨rfl, hv⟩ := ho
      · exact .some (.refl _)
      · simpa [outcome?, hv] using Json.SameOption.refl none
    · -- what is put in or taken out is told by the canonical forms of the items
      obtain rfl | ⟨rfl, hv⟩ := ho
      · refine .some (Json.same_array_iff.mpr ?_)
        simp only [Json.member_eq_decide, hitems]
        split
        · exact hitems
        · rw [List.map_append, List.map_append, hitems]
      · simp only [outcome?, hv, Bool.false_eq_true, if_false]
        refine .some (Json.same_array_iff.mpr ?_)
        rw [Json.map_canon_filter, Json.map_canon_filter, hitems]
    · rw [outcome?_eq_none_iff.mpr ⟨ho, j, rfl, hj⟩, outcome?_eq_none_iff.mpr ⟨ho, k, rfl, hk⟩]
      exact .none
  · -- the old value does not count
    have hfixed : o.outcome? v old = o.outcome? v old' := by
      cases o with
      | equals => rfl
      | add => simp at ho
      | remove => simp_all [outcome?]
    rw [hfixed]
    cases o.outcome? v old' with
    | none => exact .none
    | some new => exact .some (.refl new)

/-- Resources that are alike stay so when a property of theirs gets the same value. -/
theorem Resource.Alike.put {r s : Resource} (hrs : r.Alike s) (name : String)
    {v w : Option Json} (hvw : Json.SameOption v w) :
    Resource.Alike { r with properties := r.properties.put name v }
      { s with properties := s.properties.put name w } := by
  intro q
  simp only [Properties.getElem?_put]
  split
  · exact hvw
  · exact hrs q

/-- Resources with the same properties differ in nothing that a constraint sees. -/
theorem Resource.unseen_alike : Resource.Unseen Resource.Alike where
  refl := .refl
  edited := by
    intro r s hrs o v p
    have hnew := o.outcome?_same v (hrs p)
    generalize o.outcome? v r.properties[p]? = new, o.outcome? v s.properties[p]? = new' at hnew
    cases hnew with
    | none => exact .none
    | some hsame => exact .some (hrs.put p hsame)
  named h _ := h
  adopted h := h

/-- A batch on snapshots that are in sync is refused for the same issues, or it is accepted on both
and they are in sync afterwards. -/
theorem solve_inSync {a b : Snapshot} (hsync : a.toGraph.InSync b.toGraph) (cs : List Constraint)
    (schema : Schema) :
    (∃ issues, solve a cs schema = .error (.config issues) ∧
      solve b cs schema = .error (.config issues)) ∨
    ∃ s t, solve a cs schema = .ok s ∧ solve b cs schema = .ok t ∧ s.toGraph.InSync t.toGraph := by
  obtain ⟨hgraph, hissues⟩ := Solve.run_like Resource.unseen_alike schema hsync cs
  simp only [solve, hissues]
  split
  · exact .inr ⟨_, _, rfl, rfl, hgraph⟩
  · exact .inl ⟨_, rfl, rfl⟩

end VersionedTopology

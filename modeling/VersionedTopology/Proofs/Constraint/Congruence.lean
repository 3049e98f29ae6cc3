/-
  VersionedTopology.Proofs.Constraint.Congruence

  Graphs that constraints cannot tell apart.

  `Unseen` says what it takes of a relation between resources that no constraint sees which of two
  related ones it meets: editing a property succeeds for both or for neither, and all that a
  constraint does to a resource leads to related resources again. Then a constraint tells the same
  in graphs with related resources under the identifiers that it names, and leaves related ones
  there; and where the links are the same too, a whole batch tells the same and leaves such graphs
  again. Equal resources are the first case; a relation that forgets something is another.
-/

import VersionedTopology.Proofs.Constraint.Footprint
import VersionedTopology.Proofs.Topology.Same

namespace VersionedTopology

/-- What differs between related resources is not seen by any constraint, and stays unseen. -/
structure Resource.Unseen (R : Resource → Resource → Prop) : Prop where
  refl (r : Resource) : R r r
  edited {r s : Resource} (h : R r s) (o : PropertyOperator) (v : Json) (p : String) :
    Option.Rel (fun new new' => R { r with properties := r.properties.put p new }
        { s with properties := s.properties.put p new' })
      (o.outcome? v r.properties[p]?) (o.outcome? v s.properties[p]?)
  named {r s : Resource} (h : R r s) (id : TopologyId) : R { r with id } { s with id }
  adopted {r s : Resource} (h : R r s) : R { r with imported := true } { s with imported := true }

theorem Resource.unseen_eq : Resource.Unseen Eq where
  refl _ := rfl
  edited := by
    rintro r _ rfl o v p
    cases o.outcome? v r.properties[p]? with
    | none => exact .none
    | some new => exact .some rfl
  named := by
    rintro r _ rfl id
    rfl
  adopted := by
    rintro r _ rfl
    rfl

namespace Graph

variable {R : Resource → Resource → Prop} {ids : List TopologyId} {g h : Graph} {id : TopologyId}

/-- Under each of the identifiers both graphs have related resources, or none. -/
def RelatedOn (R : Resource → Resource → Prop) (ids : List TopologyId) (g h : Graph) : Prop :=
  ∀ id ∈ ids, Option.Rel R g.resources[id]? h.resources[id]?

/-- Two graphs store the same resources under the listed identifiers. -/
def AgreeOn (ids : List TopologyId) (g h : Graph) : Prop :=
  ∀ id ∈ ids, g.resources[id]? = h.resources[id]?

theorem AgreeOn.relatedOn (hagree : AgreeOn ids g h) : RelatedOn Eq ids g h :=
  fun id hid => rel_eq_iff.mpr (hagree id hid)

namespace RelatedOn

theorem mem_iff (hrelated : RelatedOn R ids g h) (hid : id ∈ ids) :
    id ∈ g.resources ↔ id ∈ h.resources := by
  simp only [Std.ExtTreeMap.mem_iff_isSome_getElem?]
  exact (rel_iff.mp (hrelated id hid)).1

/-- A resource of the one graph has a related one in the other. -/
theorem exists_of_getElem? (hrelated : RelatedOn R ids g h) (hid : id ∈ ids) {r : Resource}
    (hr : g.resources[id]? = some r) : ∃ s, h.resources[id]? = some s ∧ R r s := by
  have hrel := hrelated id hid
  rw [hr] at hrel
  generalize h.resources[id]? = s at hrel
  cases hrel with
  | some hrs => exact ⟨_, rfl, hrs⟩

end RelatedOn

end Graph

namespace Solve

variable {R : Resource → Resource → Prop} {schema : Schema} {g g' h : Graph} {c : Constraint}
  {issues : List Issue} {l : Link}

/-! ## What a constraint tells and makes -/

/-- Why a constraint is invalid lies in what it names, and related resources give the same reason.
-/
theorem Invalid.congr (hR : Resource.Unseen R) (hinvalid : Invalid schema g c issues)
    (hrelated : Graph.RelatedOn R c.footprint g h) : Invalid schema h c issues := by
  cases hinvalid with
  | noTarget o t p v habsent =>
    exact .noTarget o t p v (by rwa [← hrelated.mem_iff (by simp)])
  | unknownProperty o t p v hpresent hname =>
    exact .unknownProperty o t p v (by rwa [← hrelated.mem_iff (by simp)]) hname
  | noList o t p v r old hr hname ho hold hlist =>
    obtain ⟨s, hs, hrs⟩ := hrelated.exists_of_getElem? (by simp) hr
    -- there is no outcome for the one resource, so there is none for the other
    have hnone : o.outcome? v r.properties[p]? = none :=
      PropertyOperator.outcome?_eq_none_iff.mpr ⟨ho, old, hold, hlist⟩
    have hrel := hR.edited hrs o v p
    rw [hnone] at hrel
    generalize hnew : o.outcome? v s.properties[p]? = new at hrel
    cases hrel with
    | none =>
      obtain ⟨-, old', hold', hlist'⟩ := PropertyOperator.outcome?_eq_none_iff.mp hnew
      exact .noList o t p v s old' hs hname ho hold' hlist'
  | dangling s t hends =>
    have hs : s ∈ g.resources ↔ s ∈ h.resources := hrelated.mem_iff (by simp)
    have ht : t ∈ g.resources ↔ t ∈ h.resources := hrelated.mem_iff (by simp)
    -- the issues list the ends that are missing
    have hmissing : ([s, t].filter fun id => !g.resources.contains id) =
        [s, t].filter fun id => !h.resources.contains id := by
      refine List.filter_congr fun id hid => ?_
      have hsame := hrelated.mem_iff hid
      simp only [Std.ExtTreeMap.mem_iff_contains, Bool.coe_iff_coe] at hsame
      rw [hsame]
    rw [hmissing]
    exact .dangling s t (by rwa [← hs, ← ht])
  | nothingToRemove n r habsent =>
    exact .nothingToRemove n r (by rwa [← hrelated.mem_iff (by simp)])
  | noReplacement n => exact .noReplacement n
  | replacementTaken n new htaken =>
    exact .replacementTaken n new (by rwa [← hrelated.mem_iff (by simp)])
  | nothingToReplace n new hfree habsent =>
    exact .nothingToReplace n new (by rwa [← hrelated.mem_iff (by simp)])
      (by rwa [← hrelated.mem_iff (by simp)])

/-- What a valid constraint makes of the resources that it names is related where these are. -/
theorem Worked.congr (hR : Resource.Unseen R) (hworked : Worked schema g c g')
    (hrelated : Graph.RelatedOn R c.footprint g h) :
    ∃ h', Worked schema h c h' ∧ Graph.RelatedOn R c.footprint g' h' := by
  cases hworked with
  | property o t p v r new hr hname hnew =>
    obtain ⟨s, hs, hrs⟩ := hrelated.exists_of_getElem? (by simp) hr
    -- there is an outcome for the one resource, so there is one for the other
    have hrel := hR.edited hrs o v p
    rw [hnew] at hrel
    generalize hnew' : o.outcome? v s.properties[p]? = out at hrel
    cases hrel with
    | some hedited =>
      refine ⟨_, .property o t p v s _ hs hname hnew', fun id hid => ?_⟩
      obtain rfl : id = t := by simpa using hid
      simp only [store, Std.ExtTreeMap.getElem?_insert_self]
      exact .some hedited
  | connect s t hs ht =>
    refine ⟨_, .connect s t ?_ ?_, hrelated⟩
    · rwa [← hrelated.mem_iff (by simp)]
    · rwa [← hrelated.mem_iff (by simp)]
  | disconnect s t => exact ⟨_, .disconnect s t, hrelated⟩
  | add n new =>
    -- a resource is made on both sides or on neither
    refine ⟨_, .add n new, fun id hid => ?_⟩
    have hn : n ∈ g.resources ↔ n ∈ h.resources := hrelated.mem_iff (by simp)
    simp only [Std.ExtTreeMap.getElem?_insertIfNew, hn]
    split
    · exact .some (hR.refl _)
    · exact hrelated id hid
  | adopt n new r hr =>
    refine ⟨_, .adopt n new _ rfl, fun id hid => ?_⟩
    simp only [Std.ExtTreeMap.getElem?_insert]
    split
    · -- what is adopted was there on both sides, or is made on both
      have hn := hrelated n (by simp)
      rw [hr]
      generalize g.resources[n]? = o, h.resources[n]? = o' at hn
      cases hn with
      | none => exact .some (hR.refl _)
      | some hrs => exact .some (hR.adopted hrs)
    · exact hrelated id hid
  | remove n new hn =>
    refine ⟨_, .remove n new ?_, fun id hid => ?_⟩
    · rwa [← hrelated.mem_iff (by simp)]
    · simp only [Std.ExtTreeMap.getElem?_erase]
      split
      · exact .none
      · exact hrelated id hid
  | replace n new r hfree hr =>
    obtain ⟨s, hs, hrs⟩ := hrelated.exists_of_getElem? (by simp) hr
    refine ⟨_, .replace n new s ?_ hs, fun id hid => ?_⟩
    · rwa [← hrelated.mem_iff (by simp)]
    · simp only [Std.ExtTreeMap.getElem?_insert, Std.ExtTreeMap.getElem?_erase]
      split
      · exact .some (hR.named hrs new)
      · -- the old name is free now on both sides
        split
        · exact .none
        · exact hrelated id hid

/-! ## The next graph -/

/-- The graph that the constraints after `c` meet. -/
def next (schema : Schema) (g : Graph) (c : Constraint) : Graph :=
  match step schema g c with
  | .ok g' => g'
  | .error _ => g

theorem run_cons (g : Graph) (c : Constraint) (cs : List Constraint) :
    run schema g (c :: cs) =
      ⟨(run schema (next schema g c) cs).graph,
        told schema g c ++ (run schema (next schema g c) cs).issues⟩ := by
  cases hstep : step schema g c with
  | ok g' => simp [run_cons_of_ok hstep, next, told, hstep]
  | error issues => simp [run_cons_of_error hstep, next, told, hstep]

/-- A constraint is valid and worked in, or it is invalid and changes nothing. -/
theorem next_cases (schema : Schema) (g : Graph) (c : Constraint) :
    told schema g c = [] ∧ Worked schema g c (next schema g c) ∨
      Invalid schema g c (told schema g c) ∧ next schema g c = g := by
  cases hstep : step schema g c with
  | ok g' =>
    refine .inl ⟨by rw [told, hstep], ?_⟩
    rw [next, hstep]
    exact step_ok_iff.mp hstep
  | error issues =>
    refine .inr ⟨?_, by rw [next, hstep]⟩
    rw [told, hstep]
    exact step_error_iff.mp hstep

theorem Worked.next_eq (hworked : Worked schema g c g') :
    next schema g c = g' ∧ told schema g c = [] := by
  simp [next, told, hworked.step_eq]

theorem Invalid.next_eq (hinvalid : Invalid schema g c issues) :
    next schema g c = g ∧ told schema g c = issues := by
  simp [next, told, hinvalid.step_eq]

theorem next_frame {id : TopologyId} (hid : id ∉ c.footprint) :
    (next schema g c).resources[id]? = g.resources[id]? := by
  obtain ⟨-, hworked⟩ | ⟨-, hnext⟩ := next_cases schema g c
  · exact hworked.frame hid
  · rw [hnext]

/-- What is told about a constraint, and what it makes of the resources that it names, are told by
these alone. -/
theorem next_congr (hR : Resource.Unseen R) (schema : Schema)
    (hrelated : Graph.RelatedOn R c.footprint g h) :
    told schema g c = told schema h c ∧
      Graph.RelatedOn R c.footprint (next schema g c) (next schema h c) := by
  obtain ⟨htold, hworked⟩ | ⟨hinvalid, hnext⟩ := next_cases schema g c
  · obtain ⟨h', hworked', hrelated'⟩ := hworked.congr hR hrelated
    rw [htold, hworked'.next_eq.1, hworked'.next_eq.2]
    exact ⟨rfl, hrelated'⟩
  · obtain ⟨hnext', htold'⟩ := (hinvalid.congr hR hrelated).next_eq
    rw [hnext, hnext', htold']
    exact ⟨rfl, hrelated⟩

theorem mem_next_edges : l ∈ (next schema g c).edges ↔
    if told schema g c = [] then c.act (· ∈ g.edges) l else l ∈ g.edges := by
  obtain ⟨htold, hworked⟩ | ⟨hinvalid, hnext⟩ := next_cases schema g c
  · rw [if_pos htold, hworked.mem_edges]
  · rw [if_neg hinvalid.ne_nil, hnext]

/-! ## Graphs that are alike -/

theorem next_like (hR : Resource.Unseen R) (schema : Schema) (hlike : g.Like R h)
    (c : Constraint) :
    told schema g c = told schema h c ∧ (next schema g c).Like R (next schema h c) := by
  obtain ⟨htold, hnext⟩ := next_congr hR schema fun id _ => hlike.resources id
  refine ⟨htold, fun id => ?_, fun l => ?_⟩
  · -- what is not named stays, and the rest is related by congruence
    by_cases hid : id ∈ c.footprint
    · exact hnext id hid
    · rw [next_frame hid, next_frame hid]
      exact hlike.resources id
  · simp only [mem_next_edges, htold, Constraint.act, hlike.edges]

/-- A batch cannot tell graphs apart whose resources differ only in what is not seen. -/
theorem run_like (hR : Resource.Unseen R) (schema : Schema) (hlike : g.Like R h)
    (cs : List Constraint) :
    (run schema g cs).graph.Like R (run schema h cs).graph ∧
      (run schema g cs).issues = (run schema h cs).issues := by
  induction cs generalizing g h with
  | nil => exact ⟨hlike, rfl⟩
  | cons c cs ih =>
    obtain ⟨htold, hnext⟩ := next_like hR schema hlike c
    obtain ⟨hgraph, hissues⟩ := ih hnext
    rw [run_cons, run_cons, htold, hissues]
    exact ⟨hgraph, rfl⟩

end Solve

end VersionedTopology

/-
  VersionedTopology.Proofs.Constraint.Worked

  What a valid constraint makes of a graph.

  `Worked` has one rule for every kind of constraint: what the graph has to hold for the
  constraint to be valid, and the graph that it makes. The rules say exactly what a step of the
  solver does, so what a constraint keeps, moves or takes away is read off them and not off the
  solver. An accepted batch applies such a rule for each of its constraints, one after the other.
-/

import VersionedTopology.Proofs.Constraint.Verdict
import VersionedTopology.Proofs.Wire.Graph

namespace VersionedTopology

/-! ## Properties -/

namespace Properties

/-- Gives a property a value, or takes the property away. -/
def put (p : Properties) (name : String) : Option Json → Properties
  | some v => p.insert name v
  | none => p.erase name

theorem getElem?_put (p : Properties) (name q : String) (v : Option Json) :
    (p.put name v)[q]? = if name = q then v else p[q]? := by
  cases v with
  | some v => simp [put, Std.ExtTreeMap.getElem?_insert]
  | none => simp [put, Std.ExtTreeMap.getElem?_erase]

theorem put_getElem? (p : Properties) (name : String) : p.put name p[name]? = p := by
  refine Std.ExtTreeMap.ext_getElem? fun q => ?_
  rw [getElem?_put]
  split
  · rename_i heq
    rw [heq]
  · rfl

end Properties

/-- What an operator makes of the value that a property has, if it has one: its value from now on,
or none when the property is taken away. There is no outcome where a list was expected and
something else is found. -/
def PropertyOperator.outcome? (v : Json) : PropertyOperator → Option Json → Option (Option Json)
  | .equals, _ => some (some v)
  | .add, none => some (some (.array [v]))
  | .add, some (.array items) =>
    some (some (.array (if Json.member v items then items else items ++ [v])))
  | .add, some _ => none
  | .remove, old =>
    if v.isNull then some none
    else match old with
      | none => some none
      | some (.array items) =>
        some (some (.array (items.filter fun item => !decide (Json.Same item v))))
      | some _ => none

/-- There is no outcome exactly where a value is to be put into, or taken out of, what is no list.
-/
theorem PropertyOperator.outcome?_eq_none_iff {o : PropertyOperator} {v : Json}
    {old : Option Json} : o.outcome? v old = none ↔ (o = .add ∨ o = .remove ∧ v.isNull = false) ∧
      ∃ j, old = some j ∧ ∀ items, j ≠ .array items := by
  cases o with
  | equals => simp [outcome?]
  | add =>
    cases old with
    | none => simp [outcome?]
    | some j => cases j <;> simp [outcome?]
  | remove =>
    cases hv : v.isNull with
    | true => simp [outcome?, hv]
    | false =>
      cases old with
      | none => simp [outcome?, hv]
      | some j => cases j <;> simp [outcome?, hv]

/-! ## Edges -/

namespace EdgeSet

theorem mem_collect {es : List Edge} {l : Link} : l ∈ collect es ↔ ∃ e ∈ es, e.link = l := by
  induction es using List.reverseRecOn with
  | nil => simp [collect]
  | append_singleton es e ih =>
    rw [collect, List.foldl_append, List.foldl_cons, List.foldl_nil, ← collect,
      Std.ExtTreeMap.mem_insert, ih, Std.compare_eq_iff_eq]
    simp [or_and_right, exists_or, or_comm]

theorem mem_iff_exists_toEdges {s : EdgeSet} {l : Link} : l ∈ s ↔ ∃ e ∈ s.toEdges, e.link = l := by
  simp only [mem_toEdges, Std.ExtTreeMap.mem_iff_isSome_getElem?, Option.isSome_iff_exists]
  constructor
  · rintro ⟨m, hm⟩
    exact ⟨⟨l, m⟩, hm, rfl⟩
  · rintro ⟨e, he, rfl⟩
    exact ⟨e.metadata, he⟩

end EdgeSet

namespace Solve

variable {schema : Schema} {g g' : Graph} {c : Constraint}

/-- The edges of a renamed node are those that it had, under its new name. -/
theorem mem_renameEdges {edges : EdgeSet} {old new : TopologyId} {l : Link} :
    l ∈ renameEdges edges old new ↔ ∃ k ∈ edges, k.rename old new = l := by
  rw [renameEdges, EdgeSet.mem_collect]
  constructor
  · rintro ⟨f, hf, rfl⟩
    obtain ⟨e, he, rfl⟩ := List.mem_map.mp hf
    exact ⟨e.link, EdgeSet.mem_iff_exists_toEdges.mpr ⟨e, he, rfl⟩, rfl⟩
  · rintro ⟨k, hk, rfl⟩
    obtain ⟨e, he, rfl⟩ := EdgeSet.mem_iff_exists_toEdges.mp hk
    exact ⟨_, List.mem_map_of_mem he, rfl⟩

/-! ## Valid constraints -/

/-- What a valid constraint finds in a graph, and what it makes of it. -/
inductive Worked (schema : Schema) (g : Graph) : Constraint → Graph → Prop
  | property (o : PropertyOperator) (t : TopologyId) (p : String) (v : Json) (r : Resource)
      (new : Option Json) (hr : g.resources[t]? = some r) (hname : schema.allows t.kind p = true)
      (hnew : o.outcome? v r.properties[p]? = some new) :
      Worked schema g (.property o t p v) (store g t r (r.properties.put p new))
  | connect (s t : TopologyId) (hs : s ∈ g.resources) (ht : t ∈ g.resources) :
      Worked schema g (.edge .mustExist s t) { g with edges := g.edges.add ⟨⟨s, t⟩, none⟩ }
  | disconnect (s t : TopologyId) :
      Worked schema g (.edge .mustNotExist s t) { g with edges := g.edges.erase ⟨s, t⟩ }
  | add (n : TopologyId) (new : Option TopologyId) :
      Worked schema g (.node .add n new)
        { g with resources := g.resources.insertIfNew n { id := n } }
  | adopt (n : TopologyId) (new : Option TopologyId) (r : Resource)
      (hr : r = (g.resources[n]?).getD { id := n }) :
      Worked schema g (.node .adopt n new)
        { g with resources := g.resources.insert n { r with imported := true } }
  | remove (n : TopologyId) (new : Option TopologyId) (hn : n ∈ g.resources) :
      Worked schema g (.node .remove n new)
        { resources := g.resources.erase n, edges := g.edges.filter fun l _ => !l.touches n }
  | replace (n new : TopologyId) (r : Resource) (hfree : new ∉ g.resources)
      (hr : g.resources[n]? = some r) :
      Worked schema g (.node .replace n (some new))
        { resources := (g.resources.erase n).insert new { r with id := new }
          edges := renameEdges g.edges n new }

theorem store_self {id : TopologyId} {r : Resource} (hr : g.resources[id]? = some r) :
    store g id r r.properties = g := by
  have hsame : g.resources.insert id r = g.resources := by
    refine Std.ExtTreeMap.ext_getElem? fun k => ?_
    simp only [Std.ExtTreeMap.getElem?_insert, Std.compare_eq_iff_eq]
    split
    · rename_i heq
      rw [← heq, hr]
    · rfl
  rw [store, hsame]

/-- A property of a stored resource that may have it changes to the outcome, if there is one. -/
theorem property_eq {o : PropertyOperator} {t : TopologyId} {p : String} {v : Json} {r : Resource}
    (hr : g.resources[t]? = some r) (hname : schema.allows t.kind p = true) :
    property schema g o t p v =
      match o.outcome? v r.properties[p]? with
      | some new => .ok (store g t r (r.properties.put p new))
      | none => .error [Issue.ofProperty t p "property is not a list"] := by
  have hkept : ∀ {old}, r.properties[p]? = old → store g t r (r.properties.put p old) = g := by
    rintro _ rfl
    rw [Properties.put_getElem?, store_self hr]
  -- the operators differ only in what they make of the old value
  simp only [property, hr, hname]
  cases o with
  | equals => rfl
  | add =>
    cases hold : r.properties[p]? with
    | none => rfl
    | some old =>
      cases old with
      | array items =>
        -- a value that is in the list already leaves it, and so the whole graph
        by_cases hmember : Json.member v items = true
        · simp [PropertyOperator.outcome?, hmember, hkept hold]
        · simp [PropertyOperator.outcome?, hmember, Properties.put]
      | _ => rfl
  | remove =>
    by_cases hv : v.isNull = true
    · simp [PropertyOperator.outcome?, hv, Properties.put]
    · cases hold : r.properties[p]? with
      | none => simp [PropertyOperator.outcome?, hv, hkept hold]
      | some old => cases old <;> simp [PropertyOperator.outcome?, hv, Properties.put]

theorem Worked.step_eq (h : Worked schema g c g') : step schema g c = .ok g' := by
  cases h with
  | property o t p v r new hr hname hnew => rw [step, property_eq hr hname, hnew]
  | connect s t hs ht => simp [step, edge, hs, ht]
  | disconnect s t => rfl
  | add n new => rfl
  | adopt n new r hr => rw [hr]; rfl
  | remove n new hn => simp [step, node, hn]
  | replace n new r hfree hr => simp [step, node, Solve.replace, hfree, hr]

theorem worked_of_property {o : PropertyOperator} {t : TopologyId} {p : String} {v : Json}
    (h : property schema g o t p v = .ok g') : Worked schema g (.property o t p v) g' := by
  cases hr : g.resources[t]? with
  | none => exact absurd h (by simp [property, hr])
  | some r =>
    by_cases hname : schema.allows t.kind p = true
    · rw [property_eq hr hname] at h
      split at h
      · rename_i new hnew
        rw [← Except.ok.inj h]
        exact .property o t p v r new hr hname hnew
      · exact absurd h (by simp)
    · exact absurd h (by simp [property, hr, hname])

theorem worked_of_edge {o : EdgeOperator} {s t : TopologyId} (h : edge g o ⟨s, t⟩ = .ok g') :
    Worked schema g (.edge o s t) g' := by
  cases o with
  | mustExist =>
    by_cases hends : s ∈ g.resources ∧ t ∈ g.resources
    · have hworked : Worked schema g _ _ := .connect s t hends.1 hends.2
      rwa [← Except.ok.inj (hworked.step_eq.symm.trans h)]
    · have hinvalid : Invalid schema g _ _ := .dangling s t hends
      exact absurd (hinvalid.step_eq.symm.trans h) (by simp)
  | mustNotExist =>
    rw [← Except.ok.inj h]
    exact .disconnect s t

theorem worked_of_node {o : NodeOperator} {n : TopologyId} {new : Option TopologyId}
    (h : node g o n new = .ok g') : Worked schema g (.node o n new) g' := by
  cases o with
  | add =>
    rw [← Except.ok.inj h]
    exact .add n new
  | adopt =>
    rw [← Except.ok.inj h]
    exact .adopt n new _ rfl
  | remove =>
    simp only [node] at h
    split at h
    · rename_i hn
      rw [← Except.ok.inj h]
      exact .remove n new (by simpa using hn)
    · exact absurd h (by simp)
  | replace =>
    simp only [node, Solve.replace] at h
    split at h
    · exact absurd h (by simp)
    · split at h
      · exact absurd h (by simp)
      · rename_i hfree
        split at h
        · exact absurd h (by simp)
        · rename_i r hr
          rw [← Except.ok.inj h]
          exact .replace n _ r (by simpa using hfree) hr

/-- A constraint is worked in exactly as its rule says. -/
theorem step_ok_iff : step schema g c = .ok g' ↔ Worked schema g c g' := by
  refine ⟨fun h => ?_, Worked.step_eq⟩
  cases c with
  | property o t p v => exact worked_of_property h
  | edge o s t => exact worked_of_edge h
  | node o n new => exact worked_of_node h

/-! ## Accepted batches -/

theorem leads_nil_iff : Leads schema g [] g' ↔ g = g' := by
  simp [Leads]

theorem leads_cons_iff {cs : List Constraint} :
    Leads schema g (c :: cs) g' ↔ ∃ g₁, Worked schema g c g₁ ∧ Leads schema g₁ cs g' := by
  cases hstep : step schema g c with
  | ok g₁ =>
    rw [Leads, run_cons_of_ok hstep]
    constructor
    · intro h
      exact ⟨g₁, step_ok_iff.mp hstep, h⟩
    · rintro ⟨g₂, hworked, h⟩
      rwa [Except.ok.inj (hstep.symm.trans hworked.step_eq)]
  | error issues =>
    constructor
    · intro h
      -- an invalid constraint leaves an issue, so the batch was not accepted
      rw [Leads, run_cons_of_error hstep] at h
      have hsome := (step_error_iff.mp hstep).ne_nil
      simp_all
    · rintro ⟨g₁, hworked, -⟩
      exact absurd (hstep.symm.trans hworked.step_eq) (by simp)

/-- What every constraint of an accepted batch keeps, the batch keeps. -/
theorem Leads.keeps_of_mem {P : Graph → Prop} {cs : List Constraint} (h : Leads schema g cs g')
    (hkeeps : ∀ c ∈ cs, ∀ g g', Worked schema g c g' → P g → P g') (hg : P g) : P g' := by
  induction cs generalizing g with
  | nil => rwa [← leads_nil_iff.mp h]
  | cons c cs ih =>
    obtain ⟨g₁, hworked, hrest⟩ := leads_cons_iff.mp h
    obtain ⟨hc, hcs⟩ := List.forall_mem_cons.mp hkeeps
    exact ih hrest hcs (hc g g₁ hworked hg)

/-- What every valid constraint keeps, an accepted batch keeps. -/
theorem Leads.keeps {P : Graph → Prop} (hkeeps : ∀ g c g', Worked schema g c g' → P g → P g')
    {cs : List Constraint} (h : Leads schema g cs g') (hg : P g) : P g' :=
  h.keeps_of_mem (fun c _ g g' => hkeeps g c g') hg

end Solve

end VersionedTopology

/-
  VersionedTopology.Proofs.Constraint.Conforming

  Which results keep to the schema.

  The schema is asked when a property is set, added to or taken from, under the kind of the
  identifier that the resource has at that time. A renaming can change the kind and does not ask,
  so it may bring properties that the new kind does not allow. `Misfit` names such a property.
  What one constraint does to it is exact: it comes by a renaming, and goes only with the name
  that it came under, since no change to the property itself is valid. So the result of a batch
  keeps to the schema exactly when no renaming whose new name lasts to the end has brought a
  misfit.
-/

import VersionedTopology.Proofs.Constraint.Renaming

namespace VersionedTopology

/-- All properties are allowed for a kind. -/
def Resource.Conforms (schema : Schema) (kind : String) (r : Resource) : Prop :=
  ∀ p ∈ r.properties, schema.allows kind p = true

/-- Whether a constraint, when it is valid, takes a resource away from an identifier. -/
def Constraint.GivesUp (id : TopologyId) : Constraint → Prop
  | .node .remove n _ => n = id
  | .node .replace n _ => n = id
  | _ => False

namespace Graph

variable {schema : Schema} {g g' : Graph} {id : TopologyId} {p : String}

/-- Every stored resource has only properties that are allowed for the kind of the identifier that
it is stored under. -/
def Conforms (schema : Schema) (g : Graph) : Prop :=
  ∀ (id : TopologyId) r, g.resources[id]? = some r → r.Conforms schema id.kind

/-- The resource stored under an identifier has a property that is not allowed there. -/
def Misfit (schema : Schema) (g : Graph) (id : TopologyId) (p : String) : Prop :=
  ∃ r, g.resources[id]? = some r ∧ p ∈ r.properties ∧ schema.allows id.kind p = false

theorem conforms_iff : g.Conforms schema ↔ ∀ id p, ¬ g.Misfit schema id p := by
  constructor
  · rintro h id p ⟨r, hr, hp, hname⟩
    exact absurd (h id r hr p hp) (by simp [hname])
  · intro h id r hr p hp
    by_contra hname
    exact h id p ⟨r, hr, hp, by simpa using hname⟩

theorem misfit_congr (h : g'.resources[id]? = g.resources[id]?) :
    g'.Misfit schema id p ↔ g.Misfit schema id p := by
  simp only [Misfit, h]

end Graph

namespace Solve

variable {schema : Schema} {g g₁ g' : Graph} {c : Constraint} {cs : List Constraint}
  {id : TopologyId} {p : String}

/-! ## One constraint -/

/-- A renaming to an identifier that moves a property there which is not allowed. -/
def Misnamed (schema : Schema) (g : Graph) (c : Constraint) (id : TopologyId) (p : String) : Prop :=
  ∃ n r, c = .node .replace n (some id) ∧ g.resources[n]? = some r ∧ p ∈ r.properties ∧
    schema.allows id.kind p = false

/-- Where something else is stored, that alone decides. -/
theorem misfit_of_getElem? {r : Resource} (h : g.resources[id]? = some r) :
    g.Misfit schema id p ↔ p ∈ r.properties ∧ schema.allows id.kind p = false := by
  simp [Graph.Misfit, h]

theorem misfit_store {t : TopologyId} {q : String} {r : Resource} {new : Option Json}
    (hr : g.resources[t]? = some r) (hname : schema.allows t.kind q = true) :
    (store g t r (r.properties.put q new)).Misfit schema id p ↔ g.Misfit schema id p := by
  by_cases hid : t = id
  · subst hid
    rw [misfit_of_getElem? Std.ExtTreeMap.getElem?_insert_self, misfit_of_getElem? hr]
    refine and_congr_left fun hmisfit => ?_
    -- the changed property is allowed, so it is not the misfit
    have hne : q ≠ p := fun heq => absurd hmisfit (by simp [← heq, hname])
    simp only [Std.ExtTreeMap.mem_iff_isSome_getElem?, Properties.getElem?_put, if_neg hne]
  · refine Graph.misfit_congr ?_
    simp [store, Std.ExtTreeMap.getElem?_insert, hid]

/-- A misfit comes by a renaming, and stays for as long as its name is not given up. -/
theorem Worked.misfit_iff (h : Worked schema g c g') :
    g'.Misfit schema id p ↔
      Misnamed schema g c id p ∨ g.Misfit schema id p ∧ ¬ c.GivesUp id := by
  cases h with
  | property o t q v r new hr hname =>
    simpa [Misnamed, Constraint.GivesUp] using misfit_store hr hname
  | connect => simp [Misnamed, Constraint.GivesUp, Graph.Misfit]
  | disconnect => simp [Misnamed, Constraint.GivesUp, Graph.Misfit]
  | add n =>
    simp only [Misnamed, Constraint.GivesUp, Graph.Misfit, Std.ExtTreeMap.getElem?_insertIfNew,
      Std.compare_eq_iff_eq]
    by_cases hid : n = id ∧ n ∉ g.resources
    · have hstored : g.resources[id]? = none := by
        rw [← hid.1]
        exact getElem?_eq_none_iff.mpr hid.2
      simp [if_pos hid, hstored]
    · simp [if_neg hid]
  | adopt n new r hr =>
    simp only [Misnamed, Constraint.GivesUp, Graph.Misfit, Std.ExtTreeMap.getElem?_insert,
      Std.compare_eq_iff_eq]
    by_cases hid : n = id
    · cases hstored : g.resources[id]? with
      | none => simp [hr, hid, hstored]
      | some old => simp [hr, hid, hstored]
    · simp [if_neg hid]
  | remove n new hn =>
    simp only [Misnamed, Constraint.GivesUp, Graph.Misfit, Std.ExtTreeMap.getElem?_erase,
      Std.compare_eq_iff_eq]
    by_cases hid : n = id
    · simp [hid]
    · simp [hid]
  | replace n new r hfree hr =>
    simp only [Misnamed, Constraint.GivesUp, Graph.Misfit, Std.ExtTreeMap.getElem?_insert,
      Std.ExtTreeMap.getElem?_erase, Std.compare_eq_iff_eq]
    by_cases hnew : new = id
    · -- nothing was stored under the new name
      have hstored : g.resources[id]? = none := by
        rw [← hnew]
        exact getElem?_eq_none_iff.mpr hfree
      simp [hnew, hstored, hr]
    · by_cases hid : n = id
      · simp [hnew, hid]
      · simp [hnew, hid]

/-! ## Batches -/

/-- A batch brings a misfit to an identifier by a renaming, and keeps the name until its end. -/
def Brings (schema : Schema) (g : Graph) (cs : List Constraint) (id : TopologyId) (p : String) :
    Prop :=
  ∃ pre c post g₁, cs = pre ++ c :: post ∧ Leads schema g pre g₁ ∧ Misnamed schema g₁ c id p ∧
    ∀ d ∈ post, ¬ d.GivesUp id

/-- The first constraint brings the misfit, or the others do. -/
theorem brings_cons_iff (h : Worked schema g c g₁) :
    Brings schema g (c :: cs) id p ↔
      Misnamed schema g c id p ∧ (∀ d ∈ cs, ¬ d.GivesUp id) ∨ Brings schema g₁ cs id p := by
  constructor
  · rintro ⟨pre, d, post, g₂, hsplit, hleads, hmisnamed, hlasts⟩
    cases pre with
    | nil =>
      obtain ⟨rfl, rfl⟩ := List.cons.inj hsplit
      rw [← leads_nil_iff.mp hleads] at hmisnamed
      exact .inl ⟨hmisnamed, hlasts⟩
    | cons e pre =>
      obtain ⟨rfl, rfl⟩ := List.cons.inj hsplit
      obtain ⟨g₃, hworked, hrest⟩ := leads_cons_iff.mp hleads
      obtain rfl := Except.ok.inj (h.step_eq.symm.trans hworked.step_eq)
      exact .inr ⟨pre, d, post, g₂, rfl, hrest, hmisnamed, hlasts⟩
  · rintro (⟨hmisnamed, hlasts⟩ | ⟨pre, d, post, g₂, rfl, hleads, hmisnamed, hlasts⟩)
    · exact ⟨[], c, cs, g, rfl, leads_nil g, hmisnamed, hlasts⟩
    · exact ⟨c :: pre, d, post, g₂, rfl, leads_cons_iff.mpr ⟨g₁, h, hleads⟩, hmisnamed, hlasts⟩

/-- The misfits after an accepted batch: those that it has brought, and those from before whose
names it has not given up. -/
theorem Leads.misfit_iff (h : Leads schema g cs g') :
    g'.Misfit schema id p ↔
      Brings schema g cs id p ∨ g.Misfit schema id p ∧ ∀ c ∈ cs, ¬ c.GivesUp id := by
  induction cs generalizing g with
  | nil => simp [leads_nil_iff.mp h, Brings]
  | cons c cs ih =>
    obtain ⟨g₁, hworked, hrest⟩ := leads_cons_iff.mp h
    rw [ih hrest, hworked.misfit_iff, brings_cons_iff hworked, List.forall_mem_cons]
    tauto

end Solve

/-- **When a result keeps to the schema.** Let the base keep to it: every resource has only
properties that are allowed for the kind of the identifier that it is stored under. Then the result
of an accepted batch keeps to it exactly when every renaming whose new name lasts to the end of the
batch found, under the old name, only properties that are allowed for the kind of the new name.
Resources that are stored under their own identifiers still are, so there it is their own kind that
counts. -/
theorem solve_conforms_iff {base u : Snapshot} {cs : List Constraint} {schema : Schema}
    (hbase : base.Conforms schema) (h : solve base cs schema = .ok u) :
    (u.Conforms schema ↔
      ∀ pre n new post w r, cs = pre ++ .node .replace n (some new) :: post →
        solve base pre schema = .ok w → w.resources[n]? = some r →
        (∀ c ∈ post, ¬ c.GivesUp new) → r.Conforms schema new.kind) ∧
    (base.resources.Keyed → u.resources.Keyed) := by
  obtain ⟨hleads, -⟩ := solve_ok_iff.mp h
  refine ⟨?_, hleads.keeps fun _ _ _ hworked => hworked.keyed⟩
  have hmisfit : ∀ id p, u.Misfit schema id p ↔ Solve.Brings schema base.toGraph cs id p := by
    intro id p
    have hnone := Graph.conforms_iff.mp hbase id p
    simp [hleads.misfit_iff, hnone]
  -- the base has no misfit, so those of the result are the ones that the batch has brought
  simp only [Graph.conforms_iff, hmisfit]
  constructor
  · intro hnone pre n new post w r hsplit hw hr hlasts p hp
    by_contra hname
    refine hnone new p ⟨pre, _, post, w.toGraph, hsplit, (solve_ok_iff.mp hw).1, ?_, hlasts⟩
    exact ⟨n, r, rfl, hr, hp, by simpa using hname⟩
  · rintro hall id p ⟨pre, -, post, g₁, hsplit, hpre, ⟨n, r, rfl, hr, hp, hname⟩, hlasts⟩
    obtain ⟨w, hw, hgraph⟩ := exists_solve_of_leads hpre
    have hconforms := hall pre n id post w r hsplit hw (hgraph ▸ hr) hlasts
    exact absurd (hconforms p hp) (by simp [hname])

namespace Solve

/-- Databases of either kind have properties of their own. -/
def engines : Schema := (({} : Schema).restrict "rds" ["engine"]).restrict "dynamodb" ["billing"]

theorem conforms_paired : paired.Conforms engines := by
  have hweb : Resource.Conforms engines web.kind { id := web } := by simp [Resource.Conforms]
  have hdb : Resource.Conforms engines db.kind
      { id := db, properties := (∅ : Properties).insert "engine" (.string "sql") } := by
    intro p hp
    obtain rfl : "engine" = p := by simpa using hp
    decide
  exact forall_getElem?_insert
    (P := fun (id : TopologyId) (r : Resource) => r.Conforms engines id.kind)
    (forall_getElem?_insert (by simp) hweb) hdb

/-- A name that does not suit the resource is given up again within the batch. -/
theorem solve_conforms_restored : paired.Conforms engines ∧
    ∃ u, solve paired [.node .replace db (some table), .node .replace table (some db)] engines =
        .ok u ∧ u.Conforms engines := by
  obtain ⟨u, hu⟩ : ∃ u, solve paired
      [.node .replace db (some table), .node .replace table (some db)] engines = .ok u := ⟨_, rfl⟩
  refine ⟨conforms_paired, u, hu, (solve_conforms_iff conforms_paired hu).1.mpr ?_⟩
  -- the first name does not last, so only the renaming back counts
  intro pre n new post w r hsplit hw hr hlasts
  cases pre with
  | nil =>
    obtain ⟨hfirst, rfl⟩ := List.cons.inj hsplit
    obtain ⟨-, rfl, hnew⟩ := Constraint.node.inj hfirst
    obtain rfl := Option.some.inj hnew
    exact absurd rfl (hlasts _ (List.mem_singleton_self _))
  | cons c pre =>
    obtain ⟨rfl, hrest⟩ := List.cons.inj hsplit
    cases pre with
    | nil =>
      -- the renaming back finds the properties that the resource had before
      obtain ⟨hlast, rfl⟩ := List.cons.inj hrest
      obtain ⟨-, rfl, hnew⟩ := Constraint.node.inj hlast
      obtain rfl := Option.some.inj hnew
      obtain ⟨r₀, hr₀⟩ : ∃ r₀, paired.resources[db]? = some r₀ := ⟨_, rfl⟩
      have hfree : table ∉ paired.resources := by decide
      obtain ⟨w', hw', hresources, -⟩ := exists_solve_replace hr₀ hfree engines
      obtain rfl := Except.ok.inj (hw.symm.trans hw')
      rw [hresources, getElem?_renameResource, if_pos rfl] at hr
      obtain rfl := Option.some.inj hr
      exact conforms_paired db r₀ hr₀
    | cons d pre => exact absurd hrest (by simp)

/-- A renaming to another kind leaves the schema: the resource keeps a property that the new kind
does not have, and no later constraint can take that property away. -/
theorem conforms_lost : paired.Conforms engines ∧
    ∃ u, solve paired [.node .replace db (some table)] engines = .ok u ∧ ¬ u.Conforms engines ∧
      solve u [.property .remove table "engine" .null] engines =
        .error (.config [Issue.ofProperty table "engine"
          "unknown property for resource type 'dynamodb'"]) := by
  refine ⟨conforms_paired, _, rfl, ?_, rfl⟩
  rw [Graph.conforms_iff]
  intro hnone
  exact hnone table "engine" ⟨_, rfl, by decide, by decide⟩

end Solve

end VersionedTopology

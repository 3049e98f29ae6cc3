/-
  VersionedTopology.Proofs.Constraint.Renaming

  Renaming a node.

  A renaming collects the renamed edges into a new set, in which of two edges with the same ends
  only one would stay. In a well-formed graph none is lost: the new name is free, so no edge
  touches it, and links that do not touch the new name are told apart by their renamed forms. The
  renaming back therefore finds every edge again, with its metadata.
-/

import VersionedTopology.Proofs.Constraint.WellFormed

namespace VersionedTopology

/-! ## Renamed links -/

namespace Link

variable {l : Link} {old new : TopologyId}

/-- A link that does not touch the new name is found again from its renamed form. -/
theorem rename_rename (h : l.touches new = false) : (l.rename old new).rename new old = l := by
  obtain ⟨s, t⟩ := l
  have hends : s ≠ new ∧ t ≠ new := by simpa [touches] using h
  have hback : ∀ id, id ≠ new → (if (if id = old then new else id) = new then old
      else if id = old then new else id) = id := by
    intro id hid
    by_cases hold : id = old
    · simp [hold]
    · simp [hold, hid]
  simp only [rename, mk.injEq]
  exact ⟨hback s hends.1, hback t hends.2⟩

theorem not_touches_rename (h : old ≠ new) : (l.rename old new).touches old = false := by
  have hgone : ∀ id, (if id = old then new else id) ≠ old := by
    intro id
    split
    · exact h.symm
    · assumption
  simp [touches, rename, hgone]

end Link

/-! ## Collected edges -/

namespace EdgeSet

/-- No two edges of a set have the same ends. -/
theorem distinct_toEdges (s : EdgeSet) : s.toEdges.Pairwise fun e f => e.link ≠ f.link := by
  rw [toEdges, List.pairwise_map]
  refine Std.ExtTreeMap.distinct_keys_toList.imp fun {x y} hne heq => hne ?_
  exact Std.compare_eq_iff_eq.mpr heq

theorem nodup_of_distinct {es : List Edge} (h : es.Pairwise fun e f => e.link ≠ f.link) :
    es.Nodup :=
  h.imp fun hne heq => hne (congrArg Edge.link heq)

/-- When no two listed edges have the same ends, all of them are collected. -/
theorem getElem?_collect {es : List Edge} (h : es.Pairwise fun e f => e.link ≠ f.link) {l : Link}
    {m : Option Json} : (collect es)[l]? = some m ↔ (⟨l, m⟩ : Edge) ∈ es := by
  induction es using List.reverseRecOn with
  | nil => simp [collect]
  | append_singleton es e ih =>
    obtain ⟨hes, -, hnew⟩ := List.pairwise_append.mp h
    rw [collect, List.foldl_append, List.foldl_cons, List.foldl_nil, ← collect,
      Std.ExtTreeMap.getElem?_insert, List.mem_append, List.mem_singleton]
    -- the last edge decides for its own ends, which no earlier edge has
    split
    · rename_i heq
      obtain rfl := Std.LawfulEqOrd.eq_of_compare heq
      have hlisted : (⟨e.link, m⟩ : Edge) ∉ es := by
        intro hin
        exact hnew _ hin e (List.mem_singleton_self e) rfl
      obtain ⟨l, old⟩ := e
      simp [hlisted, eq_comm]
    · rename_i hne
      have hother : (⟨l, m⟩ : Edge) ≠ e := by
        rintro rfl
        exact hne Std.ReflOrd.compare_self
      simp [ih hes, hother]

theorem toEdges_collect_perm {es : List Edge} (h : es.Pairwise fun e f => e.link ≠ f.link) :
    (collect es).toEdges.Perm es := by
  refine (List.perm_ext_iff_of_nodup (nodup_of_distinct (distinct_toEdges _))
    (nodup_of_distinct h)).mpr fun e => ?_
  rw [mem_toEdges, getElem?_collect h]

end EdgeSet

namespace Solve

/-! ## Renamed edges -/

section

variable {edges : EdgeSet} {old new : TopologyId}

theorem distinct_renamed (h : ∀ l ∈ edges, l.touches new = false) :
    (edges.toEdges.map fun e => { e with link := e.link.rename old new }).Pairwise
      fun e f => e.link ≠ f.link := by
  have hfree : ∀ e ∈ edges.toEdges, e.link.touches new = false := fun e he =>
    h _ (EdgeSet.mem_iff_exists_toEdges.mpr ⟨e, he, rfl⟩)
  rw [List.pairwise_map]
  refine (EdgeSet.distinct_toEdges edges).imp_of_mem fun {e f} he hf hne heq => hne ?_
  calc e.link = (e.link.rename old new).rename new old := (Link.rename_rename (hfree e he)).symm
    _ = (f.link.rename old new).rename new old := congrArg (Link.rename · new old) heq
    _ = f.link := Link.rename_rename (hfree f hf)

/-- Where no edge touches the new name, none is merged with another or loses its metadata. -/
theorem toEdges_renameEdges_perm (h : ∀ l ∈ edges, l.touches new = false) :
    (renameEdges edges old new).toEdges.Perm
      (edges.toEdges.map fun e => { e with link := e.link.rename old new }) :=
  EdgeSet.toEdges_collect_perm (distinct_renamed h)

theorem getElem?_renameEdges (h : ∀ l ∈ edges, l.touches new = false) {l : Link}
    {m : Option Json} : (renameEdges edges old new)[l]? = some m ↔
      ∃ k : Link, edges[k]? = some m ∧ k.rename old new = l := by
  rw [renameEdges, EdgeSet.getElem?_collect (distinct_renamed h), List.mem_map]
  constructor
  · rintro ⟨e, he, heq⟩
    obtain ⟨rfl, rfl⟩ := Edge.mk.inj heq
    exact ⟨e.link, EdgeSet.mem_toEdges.mp he, rfl⟩
  · rintro ⟨k, hk, rfl⟩
    exact ⟨⟨k, m⟩, EdgeSet.mem_toEdges.mpr hk, rfl⟩

/-- A renaming is undone by the renaming back. -/
theorem renameEdges_renameEdges (hne : old ≠ new) (h : ∀ l ∈ edges, l.touches new = false) :
    renameEdges (renameEdges edges old new) new old = edges := by
  have hgone : ∀ l ∈ renameEdges edges old new, l.touches old = false := by
    intro l hl
    obtain ⟨k, -, rfl⟩ := mem_renameEdges.mp hl
    exact Link.not_touches_rename hne
  refine Std.ExtTreeMap.ext_getElem? fun l => Option.ext fun m => ?_
  -- neither renaming merges edges, so each lookup is followed back to one edge
  simp only [getElem?_renameEdges hgone, getElem?_renameEdges h]
  constructor
  · rintro ⟨-, ⟨k, hk, rfl⟩, rfl⟩
    rwa [Link.rename_rename (h k (by simp [Std.ExtTreeMap.mem_iff_isSome_getElem?, hk]))]
  · intro hl
    have hin : l ∈ edges := by simp [Std.ExtTreeMap.mem_iff_isSome_getElem?, hl]
    exact ⟨_, ⟨l, hl, rfl⟩, Link.rename_rename (h l hin)⟩

end

/-! ## Renamed resources -/

section

variable {resources : Resources} {old new : TopologyId} {r : Resource}

/-- The resources with one moved to another name. -/
def renameResource (resources : Resources) (old new : TopologyId) (r : Resource) : Resources :=
  (resources.erase old).insert new { r with id := new }

theorem getElem?_renameResource (id : TopologyId) :
    (renameResource resources old new r)[id]? =
      if id = new then some { r with id := new } else if id = old then none
      else resources[id]? := by
  simp only [renameResource, Std.ExtTreeMap.getElem?_insert, Std.ExtTreeMap.getElem?_erase,
    Std.compare_eq_iff_eq, eq_comm (a := id)]

/-- A resource that is stored under its own identifier moves back as it was. -/
theorem renameResource_renameResource (hold : resources[old]? = some r) (hid : r.id = old)
    (hnew : new ∉ resources) :
    renameResource (renameResource resources old new r) new old { r with id := new } =
      resources := by
  have hr : { r with id := old } = r := by rw [← hid]
  refine Std.ExtTreeMap.ext_getElem? fun id => ?_
  rw [getElem?_renameResource, getElem?_renameResource]
  by_cases hido : id = old
  · rw [if_pos hido, hido, hold, ← hr]
  · rw [if_neg hido]
    by_cases hidn : id = new
    · rw [if_pos hidn, hidn, getElem?_eq_none_iff.mpr hnew]
    · rw [if_neg hidn, if_neg hidn, if_neg hido]

end

end Solve

/-- A stored resource can be given any name that is free. -/
theorem exists_solve_replace {base : Snapshot} {a b : TopologyId} {r : Resource}
    (ha : base.resources[a]? = some r) (hb : b ∉ base.resources) (schema : Schema) :
    ∃ u, solve base [.node .replace a (some b)] schema = .ok u ∧
      u.resources = Solve.renameResource base.resources a b r ∧
      u.edges = Solve.renameEdges base.edges a b := by
  have hworked : Solve.Worked schema base.toGraph _ _ := .replace a b r hb ha
  obtain ⟨u, hu, hgraph⟩ := exists_solve_of_leads
    (Solve.leads_cons_iff.mpr ⟨_, hworked, Solve.leads_nil_iff.mpr rfl⟩)
  exact ⟨u, hu, congrArg Graph.resources hgraph, congrArg Graph.edges hgraph⟩

/-- **A renaming can be taken back.** In a well-formed snapshot a stored resource can be given any
name that is free. It moves there with its properties and its mark of adoption, and all else stays
where it is. The edges are those from before, renamed one by one: no two become one, and each keeps
its metadata. The renaming back is accepted too, and gives the resources and the edges from
before. -/
theorem replace_reversible {base : Snapshot} {a b : TopologyId} {r : Resource}
    (hbase : base.WellFormed) (ha : base.resources[a]? = some r) (hb : b ∉ base.resources)
    (schema : Schema) :
    ∃ u back, solve base [.node .replace a (some b)] schema = .ok u ∧
      (∀ id : TopologyId, u.resources[id]? =
        if id = b then some { r with id := b } else if id = a then none else base.resources[id]?) ∧
      u.edges.toEdges.Perm
        (base.edges.toEdges.map fun e => { e with link := e.link.rename a b }) ∧
      solve u [.node .replace b (some a)] schema = .ok back ∧
      back.resources = base.resources ∧ back.edges = base.edges := by
  have hain : a ∈ base.resources := by simp [Std.ExtTreeMap.mem_iff_isSome_getElem?, ha]
  have hne : a ≠ b := fun heq => hb (heq ▸ hain)
  have hfree : ∀ l ∈ base.edges, l.touches b = false := fun l hl => hbase.closed.not_touches hl hb
  obtain ⟨u, hu, hresources, hedges⟩ := exists_solve_replace ha hb schema
  have hub : u.resources[b]? = some { r with id := b } := by
    rw [hresources, Solve.getElem?_renameResource, if_pos rfl]
  have hua : a ∉ u.resources := by
    rw [← Solve.getElem?_eq_none_iff, hresources, Solve.getElem?_renameResource, if_neg hne,
      if_pos rfl]
  obtain ⟨back, hback, hresources', hedges'⟩ := exists_solve_replace hub hua schema
  refine ⟨u, back, hu, fun id => ?_, ?_, hback, ?_, ?_⟩
  · rw [hresources, Solve.getElem?_renameResource]
  · rw [hedges]
    exact Solve.toEdges_renameEdges_perm hfree
  · rw [hresources', hresources]
    exact Solve.renameResource_renameResource ha (hbase.keyed a r ha) hb
  · rw [hedges', hedges, Solve.renameEdges_renameEdges hne hfree]

namespace Solve

/-- The renamed resource has an edge to itself and one each way to its neighbour. -/
theorem replace_reversible_paired :
    paired.WellFormed ∧ table ∉ paired.resources ∧ ∃ r, paired.resources[db]? = some r ∧
      ∃ u back, solve paired [.node .replace db (some table)] {} = .ok u ∧
        solve u [.node .replace table (some db)] {} = .ok back ∧
        back.resources = paired.resources ∧ back.edges = paired.edges := by
  obtain ⟨r, hr⟩ : ∃ r, paired.resources[db]? = some r := ⟨_, rfl⟩
  have hfree : table ∉ paired.resources := by decide
  obtain ⟨u, back, hu, -, -, hback⟩ := replace_reversible wellFormed_paired hr hfree {}
  exact ⟨wellFormed_paired, hfree, r, hr, u, back, hu, hback⟩

end Solve

end VersionedTopology

/-
  VersionedTopology.Proofs.Constraint.WellFormed

  Nodes and edges stay together.

  Resources and edges are kept apart, and nothing in a graph itself ties one to the other. It is
  well formed when every resource is stored under its own identifier and every edge joins stored
  resources. Only removing and renaming change which nodes there are and touch edges as well;
  every kind of constraint, and so every accepted batch, leaves a well-formed graph well formed.
-/

import VersionedTopology.Proofs.Constraint.Worked

namespace VersionedTopology

/-- Every resource is stored under its own identifier. -/
def Resources.Keyed (m : Resources) : Prop :=
  ∀ (id : TopologyId) r, m[id]? = some r → r.id = id

theorem Resources.keyed_collect (rs : List Resource) : (collect rs).Keyed := by
  induction rs using List.reverseRecOn with
  | nil => simp [collect, Keyed]
  | append_singleton rs r ih =>
    rw [collect, List.foldl_append]
    exact forall_getElem?_insert ih rfl

namespace Graph

/-- Both endpoints of every edge are stored. -/
def Closed (g : Graph) : Prop :=
  ∀ l ∈ g.edges, l.source ∈ g.resources ∧ l.target ∈ g.resources

/-- Resources are stored under their own identifiers, and edges join stored resources. -/
structure WellFormed (g : Graph) : Prop where
  keyed : g.resources.Keyed
  closed : g.Closed

variable {g g' : Graph}

/-- More resources and fewer edges leave no edge open. -/
theorem Closed.mono (h : g.Closed) (hresources : ∀ id ∈ g.resources, id ∈ g'.resources)
    (hedges : ∀ l ∈ g'.edges, l ∈ g.edges) : g'.Closed := by
  intro l hl
  obtain ⟨hsource, htarget⟩ := h l (hedges l hl)
  exact ⟨hresources _ hsource, hresources _ htarget⟩

/-- An edge of a closed graph does not touch what is not stored. -/
theorem Closed.not_touches (h : g.Closed) {l : Link} (hl : l ∈ g.edges) {id : TopologyId}
    (hid : id ∉ g.resources) : l.touches id = false := by
  obtain ⟨hsource, htarget⟩ := h l hl
  have hs : l.source ≠ id := fun heq => hid (heq ▸ hsource)
  have ht : l.target ≠ id := fun heq => hid (heq ▸ htarget)
  simp [Link.touches, hs, ht]

end Graph

namespace Solve

variable {schema : Schema} {g g' : Graph} {c : Constraint}

theorem Worked.keyed (h : Worked schema g c g') (hg : g.resources.Keyed) :
    g'.resources.Keyed := by
  cases h with
  | property o t p v r new hr => exact forall_getElem?_insert hg (hg t r hr)
  | connect => exact hg
  | disconnect => exact hg
  | add n => exact forall_getElem?_insertIfNew hg rfl
  | adopt n new r hr =>
    -- what was not stored is made under its own identifier
    have hid : r.id = n := by
      cases hstored : g.resources[n]? with
      | none => rw [hr, hstored]; rfl
      | some old => rw [hr, hstored]; exact hg n old hstored
    exact forall_getElem?_insert hg hid
  | remove n => exact forall_getElem?_erase hg n
  | replace n new r =>
    exact forall_getElem?_insert (P := fun id (r : Resource) => r.id = id)
      (forall_getElem?_erase hg n) rfl

theorem Worked.closed (h : Worked schema g c g') (hg : g.Closed) : g'.Closed := by
  cases h with
  | property o t p v r new hr =>
    exact hg.mono (fun id hid => Std.ExtTreeMap.mem_insert.mpr (.inr hid)) fun l hl => hl
  | connect s t hs ht =>
    intro l hl
    obtain hnew | hold := Std.ExtTreeMap.mem_insertIfNew.mp hl
    · rw [← Std.LawfulEqOrd.eq_of_compare hnew]
      exact ⟨hs, ht⟩
    · exact hg l hold
  | disconnect s t =>
    exact hg.mono (fun id hid => hid) fun l hl => (Std.ExtTreeMap.mem_erase.mp hl).2
  | add n =>
    exact hg.mono (fun id hid => Std.ExtTreeMap.mem_insertIfNew.mpr (.inr hid)) fun l hl => hl
  | adopt n new r hr =>
    exact hg.mono (fun id hid => Std.ExtTreeMap.mem_insert.mpr (.inr hid)) fun l hl => hl
  | remove n new hn =>
    -- the edges that stay are those without the removed node at either end
    intro l hl
    obtain ⟨hold, hstays⟩ := Std.ExtTreeMap.mem_filter.mp hl
    have hends : l.source ≠ n ∧ l.target ≠ n := by simpa [Link.touches] using hstays
    obtain ⟨hsource, htarget⟩ := hg l hold
    simp only [Std.ExtTreeMap.mem_erase, ne_eq, Std.compare_eq_iff_eq]
    exact ⟨⟨fun heq => hends.1 heq.symm, hsource⟩, fun heq => hends.2 heq.symm, htarget⟩
  | replace n new r hfree hr =>
    -- the ends of an edge move where the renamed resource moves
    have hrenamed : ∀ id ∈ g.resources, (if id = n then new else id) ∈
        (g.resources.erase n).insert new { r with id := new } := by
      intro id hid
      rw [Std.ExtTreeMap.mem_insert, Std.ExtTreeMap.mem_erase]
      split
      · exact .inl Std.ReflOrd.compare_self
      · rename_i hne
        exact .inr ⟨fun heq => hne (Std.LawfulEqOrd.eq_of_compare heq).symm, hid⟩
    intro l hl
    obtain ⟨k, hk, rfl⟩ := mem_renameEdges.mp hl
    obtain ⟨hsource, htarget⟩ := hg k hk
    exact ⟨hrenamed _ hsource, hrenamed _ htarget⟩

theorem Worked.wellFormed (h : Worked schema g c g') (hg : g.WellFormed) : g'.WellFormed :=
  ⟨h.keyed hg.keyed, h.closed hg.closed⟩

end Solve

/-- **Solving keeps the graph well formed.** -/
theorem solve_wellFormed {base u : Snapshot} {cs : List Constraint} {schema : Schema}
    (hbase : base.WellFormed) (h : solve base cs schema = .ok u) : u.WellFormed :=
  (solve_ok_iff.mp h).1.keeps (fun _ _ _ hworked => hworked.wellFormed) hbase

namespace Solve

def web : TopologyId := ⟨"aws", "ec2", "web"⟩

def db : TopologyId := ⟨"aws", "rds", "db"⟩

def table : TopologyId := ⟨"aws", "dynamodb", "table"⟩

/-- Two resources with an edge each way, and one of them with an edge to itself. -/
def paired : Snapshot :=
  { architecture := "shop", environment := "prod", version := 1
    resources := Resources.collect
      [{ id := web }, { id := db, properties := (∅ : Properties).insert "engine" (.string "sql") }]
    edges := EdgeSet.collect
      [⟨⟨web, db⟩, some (.string "tls")⟩, ⟨⟨db, web⟩, none⟩, ⟨⟨db, db⟩, some .null⟩] }

theorem wellFormed_paired : paired.WellFormed where
  keyed := Resources.keyed_collect _
  closed := by
    intro l hl
    obtain ⟨e, he, rfl⟩ := EdgeSet.mem_collect.mp hl
    simp only [List.mem_cons, List.not_mem_nil, or_false] at he
    rcases he with rfl | rfl | rfl <;> decide

/-- A resource is renamed and gets its name back, and its neighbour is removed. -/
def renamings : List Constraint :=
  [.node .replace db (some table), .connect table table, .node .replace table (some db),
    .removeResource web]

theorem solve_wellFormed_renamings :
    paired.WellFormed ∧ ∃ u, solve paired renamings {} = .ok u ∧ u.WellFormed := by
  obtain ⟨u, hu⟩ : ∃ u, solve paired renamings {} = .ok u := ⟨_, rfl⟩
  exact ⟨wellFormed_paired, u, hu, solve_wellFormed wellFormed_paired hu⟩

end Solve

end VersionedTopology

/-
  VersionedTopology.Proofs.Constraint.Exchange

  Independent constraints in either order.

  Constraints that name no node in common are independent. Each tells the same, before the other
  or after it, since nothing that it looks at has changed; the resources come out the same, since
  each writes only what it names; and of the links, what one demands the other neither drops nor
  renames, while dropping and renaming by different names can be exchanged. Metadata are left out:
  where two renamed edges fall together, which one gives its metadata can depend on the order.
-/

import VersionedTopology.Proofs.Constraint.Congruence
import VersionedTopology.Proofs.Constraint.WellFormed

namespace VersionedTopology

/-- The same resources, and edges between the same ends. -/
structure Graph.Matches (g h : Graph) : Prop where
  resources : g.resources = h.resources
  edges : ∀ l, l ∈ g.edges ↔ l ∈ h.edges

namespace Graph.Matches

variable {g h k : Graph}

theorem refl (g : Graph) : Matches g g := ⟨rfl, fun _ => Iff.rfl⟩

theorem trans (hgh : Matches g h) (hhk : Matches h k) : Matches g k :=
  ⟨hgh.resources.trans hhk.resources, fun l => (hgh.edges l).trans (hhk.edges l)⟩

end Graph.Matches

theorem Graph.matches_iff {g h : Graph} : g.Matches h ↔ g.Like Eq h := by
  constructor
  · rintro ⟨hresources, hedges⟩
    exact ⟨fun id => rel_eq_iff.mpr (by rw [hresources]), hedges⟩
  · rintro ⟨hresources, hedges⟩
    exact ⟨Std.ExtTreeMap.ext_getElem? fun id => rel_eq_iff.mp (hresources id), hedges⟩

namespace Solve

variable {schema : Schema} {g h : Graph} {c d : Constraint} {l : Link}

/-! ## Graphs that match -/

theorem run_matches (schema : Schema) (hmatches : g.Matches h) (cs : List Constraint) :
    (run schema g cs).graph.Matches (run schema h cs).graph ∧
      (run schema g cs).issues = (run schema h cs).issues := by
  obtain ⟨hlike, hissues⟩ := run_like Resource.unseen_eq schema (Graph.matches_iff.mp hmatches) cs
  exact ⟨Graph.matches_iff.mpr hlike, hissues⟩

/-! ## Independent constraints -/

/-- Two constraints name no node in common. -/
def Independent (c d : Constraint) : Prop := c.footprint.Disjoint d.footprint

theorem Independent.symm (hcd : Independent c d) : Independent d c :=
  fun _ hd hc => hcd hc hd

namespace Independent

variable {id : TopologyId} {k : Link}

theorem renames_comm (hcd : Independent c d) (id : TopologyId) :
    c.renames (d.renames id) = d.renames (c.renames id) := by
  -- at most one of the two renames `id`, and not to a name of the other
  by_cases hc : id ∈ c.footprint
  · rw [Constraint.renames_of_not_mem (hcd hc),
      Constraint.renames_of_not_mem (hcd (Constraint.renames_mem hc))]
  · rw [Constraint.renames_of_not_mem hc]
    by_cases hd : id ∈ d.footprint
    · exact Constraint.renames_of_not_mem fun hmem => hcd hmem (Constraint.renames_mem hd)
    · rw [Constraint.renames_of_not_mem hd, Constraint.renames_of_not_mem hc]

/-- A renaming moves nothing to, or from, a name of the other constraint. -/
theorem renames_eq_iff (hcd : Independent c d) {x : TopologyId} (hx : x ∈ c.footprint) :
    d.renames id = x ↔ id = x := by
  by_cases hid : id ∈ d.footprint
  · have hne : id ≠ x := fun heq => hcd hx (heq ▸ hid)
    have hne' : d.renames id ≠ x := fun heq => hcd hx (heq ▸ Constraint.renames_mem hid)
    simp [hne, hne']
  · rw [Constraint.renames_of_not_mem hid]

theorem drops_map (hcd : Independent c d) : c.Drops (k.map d.renames) ↔ c.Drops k :=
  Constraint.drops_congr (fun _ hid => hcd.renames_eq_iff hid) fun _ hid => hcd.renames_eq_iff hid

theorem map_of_demands (hcd : Independent c d) (hl : c.Demands l) : l.map d.renames = l := by
  obtain ⟨hsource, htarget⟩ := hl.ends
  rw [Link.map, Constraint.renames_of_not_mem (hcd hsource),
    Constraint.renames_of_not_mem (hcd htarget)]

theorem not_drops_of_demands (hcd : Independent c d) (hl : c.Demands l) : ¬ d.Drops l := by
  obtain ⟨hsource, htarget⟩ := hl.ends
  exact fun hdrops => hdrops.ends.elim (hcd hsource) (hcd htarget)

/-- What both constraints together make of the links. -/
theorem act_act_iff (hcd : Independent c d) {links : Link → Prop} :
    d.act (c.act links) l ↔ d.Demands l ∨ c.Demands l ∨
      ∃ k, links k ∧ ¬ c.Drops k ∧ ¬ d.Drops k ∧ (k.map c.renames).map d.renames = l := by
  constructor
  · rintro (hd | ⟨k, hc | ⟨j, hj, hdrops, rfl⟩, hkept, rfl⟩)
    · exact .inl hd
    · rw [hcd.map_of_demands hc]
      exact .inr (.inl hc)
    · exact .inr (.inr ⟨j, hj, hdrops, by rwa [← hcd.symm.drops_map], rfl⟩)
  · rintro (hd | hc | ⟨j, hj, hdrops, hkept, rfl⟩)
    · exact .inl hd
    · exact .inr ⟨l, .inl hc, hcd.not_drops_of_demands hc, hcd.map_of_demands hc⟩
    · refine .inr ⟨_, .inr ⟨j, hj, hdrops, rfl⟩, ?_, rfl⟩
      rwa [hcd.symm.drops_map]

theorem act_comm (hcd : Independent c d) {links : Link → Prop} :
    d.act (c.act links) l ↔ c.act (d.act links) l := by
  have hmap : ∀ k : Link, (k.map c.renames).map d.renames = (k.map d.renames).map c.renames := by
    intro k
    simp only [Link.map, hcd.renames_comm]
  -- both sides drop the same links and rename the others by both constraints
  rw [hcd.act_act_iff, hcd.symm.act_act_iff]
  simp only [hmap, or_left_comm, and_left_comm]

/-- A constraint does not change what the other one names. -/
theorem agreeOn_next (hcd : Independent c d) (schema : Schema) (g : Graph) :
    Graph.AgreeOn d.footprint (next schema g c) g :=
  fun _ hid => next_frame fun hc => hcd hc hid

theorem told_next (hcd : Independent c d) (schema : Schema) (g : Graph) :
    told schema (next schema g c) d = told schema g d :=
  (next_congr Resource.unseen_eq schema (hcd.agreeOn_next schema g).relatedOn).1

/-- The first constraint leaves the second one the resources that it makes alone. -/
theorem getElem?_next_next (hcd : Independent c d) (schema : Schema) (g : Graph) {id : TopologyId}
    (hid : id ∈ d.footprint) :
    (next schema (next schema g c) d).resources[id]? = (next schema g d).resources[id]? :=
  rel_eq_iff.mp ((next_congr Resource.unseen_eq schema (hcd.agreeOn_next schema g).relatedOn).2 id
    hid)

theorem next_next_resources (hcd : Independent c d) (schema : Schema) (g : Graph) :
    (next schema (next schema g c) d).resources = (next schema (next schema g d) c).resources := by
  -- at most one of the two constraints decides what an identifier has
  refine Std.ExtTreeMap.ext_getElem? fun id => ?_
  by_cases hc : id ∈ c.footprint
  · rw [hcd.symm.getElem?_next_next schema g hc, next_frame (hcd hc)]
  · by_cases hd : id ∈ d.footprint
    · rw [hcd.getElem?_next_next schema g hd, next_frame hc]
    · rw [next_frame hd, next_frame hc, next_frame hc, next_frame hd]

theorem mem_next_next_edges (hcd : Independent c d) (schema : Schema) (g : Graph) :
    l ∈ (next schema (next schema g c) d).edges ↔
      l ∈ (next schema (next schema g d) c).edges := by
  simp only [mem_next_edges, hcd.told_next, hcd.symm.told_next]
  -- an invalid constraint drops out on both sides
  by_cases hc : told schema g c = [] <;> by_cases hd : told schema g d = []
  · simpa only [hc, hd, if_true] using hcd.act_comm
  · simp only [hc, hd, if_true, if_false]
  · simp only [hc, hd, if_true, if_false]
  · simp only [hc, hd, if_false]

/-- Independent constraints may be exchanged. -/
theorem next_next_matches (hcd : Independent c d) (schema : Schema) (g : Graph) :
    (next schema (next schema g c) d).Matches (next schema (next schema g d) c) :=
  ⟨hcd.next_next_resources schema g, fun _ => hcd.mem_next_next_edges schema g⟩

end Independent

/-! ## Batches -/

/-- Graphs that match, and the same issues up to their order. -/
structure Work.Alike (w v : Work) : Prop where
  graph : w.graph.Matches v.graph
  issues : w.issues.Perm v.issues

namespace Work.Alike

theorem refl (w : Work) : Alike w w := ⟨.refl _, .refl _⟩

theorem trans {u v w : Work} (huv : Alike u v) (hvw : Alike v w) : Alike u w :=
  ⟨huv.graph.trans hvw.graph, huv.issues.trans hvw.issues⟩

end Work.Alike

theorem alike_cons (g : Graph) (c : Constraint) {cs ds : List Constraint}
    (h : (run schema (next schema g c) cs).Alike (run schema (next schema g c) ds)) :
    (run schema g (c :: cs)).Alike (run schema g (c :: ds)) := by
  rw [run_cons, run_cons]
  exact ⟨h.graph, h.issues.append_left _⟩

theorem alike_append (g : Graph) (pre : List Constraint) {cs ds : List Constraint}
    (h : ∀ g, (run schema g cs).Alike (run schema g ds)) :
    (run schema g (pre ++ cs)).Alike (run schema g (pre ++ ds)) := by
  induction pre generalizing g with
  | nil => exact h g
  | cons c pre ih => exact alike_cons g c (ih _)

theorem Independent.alike_swap (hcd : Independent c d) (g : Graph) (cs : List Constraint) :
    (run schema g (c :: d :: cs)).Alike (run schema g (d :: c :: cs)) := by
  -- the rest of the batch meets graphs that match, and cannot tell them apart
  obtain ⟨hgraph, hissues⟩ := run_matches schema (hcd.next_next_matches schema g) cs
  simp only [run_cons, hcd.told_next, hcd.symm.told_next, hissues]
  exact ⟨hgraph, List.perm_append_comm_assoc _ _ _⟩

theorem alike_of_perm {cs ds : List Constraint} (hperm : cs.Perm ds)
    (hcs : cs.Pairwise Independent) (g : Graph) :
    (run schema g cs).Alike (run schema g ds) := by
  induction hperm generalizing g with
  | nil => exact .refl _
  | cons c _ ih => exact alike_cons g c (ih (List.pairwise_cons.mp hcs).2 _)
  | swap c d cs =>
    obtain ⟨hd, -⟩ := List.pairwise_cons.mp hcs
    exact (hd c (List.mem_cons_self ..)).alike_swap g cs
  | trans hfirst _ ih ih' =>
    -- the batch in between is pairwise independent as well
    exact (ih hcs g).trans (ih' ((hfirst.pairwise_iff Independent.symm).mp hcs) g)

end Solve

/-- Both batches were accepted, with the same resources and edges between the same ends, or both
were refused for the same issues in some order. -/
def SameOutcome : Except Error Snapshot → Except Error Snapshot → Prop
  | .ok s, .ok t =>
    s.key = t.key ∧ s.version = t.version ∧ s.issues = t.issues ∧ s.toGraph.Matches t.toGraph
  | .error (.config issues), .error (.config issues') => issues.Perm issues'
  | _, _ => False

theorem sameOutcome_of_alike {base : Snapshot} {cs ds : List Constraint} {schema : Schema}
    (h : (Solve.run schema base.toGraph cs).Alike (Solve.run schema base.toGraph ds)) :
    SameOutcome (solve base cs schema) (solve base ds schema) := by
  have hempty : (Solve.run schema base.toGraph cs).issues.isEmpty =
      (Solve.run schema base.toGraph ds).issues.isEmpty := h.issues.isEmpty_eq
  simp only [solve, hempty]
  split
  · exact ⟨rfl, rfl, rfl, h.graph⟩
  · exact h.issues

/-- **Independent constraints commute.** Two neighbours in a batch that name no node in common may
be exchanged, whatever else is in the batch and whatever graph it meets; and a batch no two
constraints of which name a node in common may be put in any order. -/
theorem solve_exchange (base : Snapshot) (schema : Schema) :
    (∀ pre c d post, c.footprint.Disjoint d.footprint →
      SameOutcome (solve base (pre ++ c :: d :: post) schema)
        (solve base (pre ++ d :: c :: post) schema)) ∧
    ∀ cs ds : List Constraint, cs.Perm ds →
      cs.Pairwise (fun c d => c.footprint.Disjoint d.footprint) →
      SameOutcome (solve base cs schema) (solve base ds schema) := by
  refine ⟨fun pre c d post hcd => ?_, fun cs ds hperm hcs => ?_⟩
  · exact sameOutcome_of_alike (Solve.alike_append _ pre fun g =>
      Solve.Independent.alike_swap hcd g post)
  · exact sameOutcome_of_alike (Solve.alike_of_perm hperm hcs _)

namespace Solve

def cache : TopologyId := ⟨"aws", "elasticache", "cache"⟩

/-- One end of an edge is renamed and the other one removed, and a resource is added. -/
def edits : List Constraint :=
  [.node .replace db (some table), .removeResource web, .addResource cache]

theorem solve_exchange_edits :
    (Constraint.node .replace db (some table)).footprint.Disjoint
        (Constraint.removeResource web).footprint ∧
      SameOutcome
        (solve paired [.node .replace db (some table), .removeResource web] {})
        (solve paired [.removeResource web, .node .replace db (some table)] {}) ∧
      edits.reverse.Perm edits ∧
      edits.reverse.Pairwise (fun c d => c.footprint.Disjoint d.footprint) ∧
      SameOutcome (solve paired edits.reverse {}) (solve paired edits {}) := by
  have hdisjoint : (Constraint.node .replace db (some table)).footprint.Disjoint
      (Constraint.removeResource web).footprint := by
    rw [List.disjoint_left]
    decide
  have hpairwise : edits.reverse.Pairwise fun c d => c.footprint.Disjoint d.footprint := by
    simp only [List.disjoint_left]
    decide
  have hperm : edits.reverse.Perm edits := List.reverse_perm edits
  obtain ⟨hswap, hreorder⟩ := solve_exchange paired {}
  exact ⟨hdisjoint, hswap [] _ _ [] hdisjoint, hperm, hpairwise, hreorder _ _ hperm hpairwise⟩

/-- Of two renamed edges that fall together the last one stays, and which one that is depends on the
order of the renamings. -/
example :
    let g : Graph :=
      { resources := Resources.collect [{ id := table }, { id := web }]
        edges := EdgeSet.collect
          [⟨⟨table, cache⟩, some (.string "left")⟩, ⟨⟨db, web⟩, some (.string "right")⟩] }
    let c : Constraint := .node .replace table (some db)
    let d : Constraint := .node .replace web (some cache)
    (run {} g [c, d]).graph.edges.toEdges = [⟨⟨db, cache⟩, some (.string "left")⟩] ∧
      (run {} g [d, c]).graph.edges.toEdges = [⟨⟨db, cache⟩, some (.string "right")⟩] := by
  decide

end Solve

end VersionedTopology

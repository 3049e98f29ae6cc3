/-
  VersionedTopology.Proofs.Constraint.Frame

  What a batch leaves as it is.

  Removing a node goes through all edges, and a renaming builds the set of edges anew, so the
  solver itself does not show how little one constraint changes. `rewrites` lists the identifiers
  under which a constraint can change what is stored, `uproots` the nodes whose edges it can take
  away or move. Everything else is found after a valid constraint as it was before, edges with
  their metadata; and so after a batch, whatever comes and goes within it.
-/

import VersionedTopology.Proofs.Constraint.WellFormed
import VersionedTopology.Proofs.Topology.Walk

namespace VersionedTopology

namespace Constraint

/-- The identifiers under which a constraint can change what is stored. No demand on an edge
changes a resource, and only a renaming writes under its replacement. -/
def rewrites : Constraint → List TopologyId
  | property _ target _ _ => [target]
  | edge .. => []
  | node .replace n new => n :: new.toList
  | node _ n _ => [n]

/-- The nodes whose edges a constraint can take away or move. -/
def uproots : Constraint → List TopologyId
  | node .remove n _ => [n]
  | node .replace n new => n :: new.toList
  | _ => []

/-- Whether a constraint is a demand on the given link. -/
def IsOn (l : Link) : Constraint → Prop
  | edge _ s t => l = ⟨s, t⟩
  | _ => False

instance (l : Link) : DecidablePred (IsOn l)
  | edge _ s t => inferInstanceAs (Decidable (l = ⟨s, t⟩))
  | property .. => isFalse id
  | node .. => isFalse id

theorem mem_footprint_of_mem_rewrites {c : Constraint} {id : TopologyId} (h : id ∈ c.rewrites) :
    id ∈ c.footprint := by
  cases c with
  | property o t p v => exact h
  | edge o s t => exact absurd h List.not_mem_nil
  | node o n new =>
    cases o with
    | replace => exact h
    | _ => exact List.mem_cons.mpr (.inl (List.mem_singleton.mp h))

end Constraint

namespace Solve

variable {schema : Schema} {g g' : Graph} {c : Constraint}

/-! ## One constraint -/

theorem Worked.getElem?_resources (hworked : Worked schema g c g') {id : TopologyId}
    (hid : id ∉ c.rewrites) : g'.resources[id]? = g.resources[id]? := by
  cases hworked with
  | property o t p v r new =>
    have hne : t ≠ id := by rintro rfl; simp [Constraint.rewrites] at hid
    simp [store, Std.ExtTreeMap.getElem?_insert, hne]
  | connect => rfl
  | disconnect => rfl
  | add n new =>
    have hne : n ≠ id := by rintro rfl; simp [Constraint.rewrites] at hid
    simp [Std.ExtTreeMap.getElem?_insertIfNew, hne]
  | adopt n new r =>
    have hne : n ≠ id := by rintro rfl; simp [Constraint.rewrites] at hid
    simp [Std.ExtTreeMap.getElem?_insert, hne]
  | remove n new =>
    have hne : n ≠ id := by rintro rfl; simp [Constraint.rewrites] at hid
    simp [Std.ExtTreeMap.getElem?_erase, hne]
  | replace n new r =>
    have hne : n ≠ id ∧ new ≠ id := by
      constructor <;> rintro rfl <;> simp [Constraint.rewrites] at hid
    simp [Std.ExtTreeMap.getElem?_insert, Std.ExtTreeMap.getElem?_erase, hne.1, hne.2]

/-- An edge that touches neither name is found after a renaming as it was: no other edge is renamed
to its ends. -/
theorem getElem?_renameEdges_of_not_touches {edges : EdgeSet} {old new : TopologyId} {l : Link}
    (hold : l.touches old = false) (hnew : l.touches new = false) :
    (renameEdges edges old new)[l]? = edges[l]? := by
  have hends : (l.source ≠ old ∧ l.target ≠ old) ∧ l.source ≠ new ∧ l.target ≠ new := by
    simpa [Link.touches] using And.intro hold hnew
  obtain ⟨⟨hso, hto⟩, hsn, htn⟩ := hends
  have hself : l.rename old new = l := by simp [Link.rename, hso, hto]
  -- a renamed end would be the new name
  have honly : ∀ k m, edges[k]? = some m → k.rename old new = l.rename old new → k = l := by
    rintro ⟨s, t⟩ m - heq
    rw [hself] at heq
    have hs : (if s = old then new else s) = l.source := congrArg Link.source heq
    have ht : (if t = old then new else t) = l.target := congrArg Link.target heq
    split at hs
    · exact absurd hs.symm hsn
    · split at ht
      · exact absurd ht.symm htn
      · rw [hs, ht]
  have hwalk : renameEdges edges old new =
      edges.foldl (fun s k m => s.insert (k.rename old new) m) ∅ := by
    rw [renameEdges, EdgeSet.collect, EdgeSet.toEdges, List.foldl_map, List.foldl_map,
      Std.ExtTreeMap.foldl_eq_foldl_toList]
  have hinserts : Inserts (fun (s : EdgeSet) k m => s.insert (k.rename old new) m)
      (Link.rename · old new) fun _ m => some m := fun _ _ _ => rfl
  have hfound := getElem?_foldl_name hinserts honly ∅
  rw [hself] at hfound
  rw [hwalk, hfound]
  simp

theorem Worked.getElem?_edges (hworked : Worked schema g c g') {l : Link}
    (hsource : l.source ∉ c.uproots) (htarget : l.target ∉ c.uproots) (hon : ¬ c.IsOn l) :
    g'.edges[l]? = g.edges[l]? := by
  have htouches : ∀ id ∈ c.uproots, l.touches id = false := by
    intro id hid
    have hs : l.source ≠ id := fun heq => hsource (heq ▸ hid)
    have ht : l.target ≠ id := fun heq => htarget (heq ▸ hid)
    simp [Link.touches, hs, ht]
  cases hworked with
  | property => rfl
  | connect s t =>
    have hne : (⟨s, t⟩ : Link) ≠ l := fun heq => hon heq.symm
    simp [EdgeSet.add, Std.ExtTreeMap.getElem?_insertIfNew, hne]
  | disconnect s t =>
    have hne : (⟨s, t⟩ : Link) ≠ l := fun heq => hon heq.symm
    simp [Std.ExtTreeMap.getElem?_erase, hne]
  | add => rfl
  | adopt => rfl
  | remove n =>
    have hstays := htouches n (by simp [Constraint.uproots])
    rw [Std.ExtTreeMap.getElem?_filter']
    cases g.edges[l]? with
    | none => rfl
    | some m => simp [hstays]
  | replace n new =>
    exact getElem?_renameEdges_of_not_touches (htouches n (by simp [Constraint.uproots]))
      (htouches new (by simp [Constraint.uproots]))

/-! ## Batches -/

theorem Leads.getElem?_resources {cs : List Constraint} (h : Leads schema g cs g')
    {id : TopologyId} (hid : ∀ c ∈ cs, id ∉ c.rewrites) :
    g'.resources[id]? = g.resources[id]? :=
  h.keeps_of_mem (P := fun k => k.resources[id]? = g.resources[id]?)
    (fun c hc _ _ hworked hk => (hworked.getElem?_resources (hid c hc)).trans hk) rfl

theorem Leads.getElem?_edges {cs : List Constraint} (h : Leads schema g cs g') {l : Link}
    (hl : ∀ c ∈ cs, l.source ∉ c.uproots ∧ l.target ∉ c.uproots ∧ ¬ c.IsOn l) :
    g'.edges[l]? = g.edges[l]? := by
  refine h.keeps_of_mem (P := fun k => k.edges[l]? = g.edges[l]?) ?_ rfl
  intro c hc k k' hworked hk
  obtain ⟨hsource, htarget, hon⟩ := hl c hc
  exact (hworked.getElem?_edges hsource htarget hon).trans hk

end Solve

/-- **Solving changes only what the batch names.** The result of an accepted batch has the names
and the number of its base. Under an identifier that is not the target of a property, the node of a
change to the resources or the replacement of a renaming, it has the same resource as the base, or
none like the base. A link on which there is no demand, and neither end of which is removed, renamed
or a new name, is an edge of the result exactly when it is one of the base, with the same
metadata. -/
theorem solve_frame {base u : Snapshot} {cs : List Constraint} {schema : Schema}
    (h : solve base cs schema = .ok u) :
    u.architecture = base.architecture ∧ u.environment = base.environment ∧
      u.version = base.version ∧
    (∀ id : TopologyId, (∀ c ∈ cs, id ∉ c.rewrites) → u.resources[id]? = base.resources[id]?) ∧
    ∀ l : Link, (∀ c ∈ cs, l.source ∉ c.uproots ∧ l.target ∉ c.uproots ∧ ¬ c.IsOn l) →
      (l ∈ u.edges ↔ l ∈ base.edges) ∧ u.edges[l]? = base.edges[l]? := by
  obtain ⟨hleads, hu⟩ := solve_ok_iff.mp h
  refine ⟨by rw [hu], by rw [hu], by rw [hu], fun id hid => hleads.getElem?_resources hid, ?_⟩
  intro l hl
  have hsame := hleads.getElem?_edges hl
  refine ⟨?_, hsame⟩
  simp only [Std.ExtTreeMap.mem_iff_isSome_getElem?, hsame]

namespace Solve

def jobs : TopologyId := ⟨"aws", "sqs", "jobs"⟩

/-- The two resources, and a third one that has an edge to itself. -/
def attended : Snapshot :=
  (paired.withResource { id := jobs, imported := true }).withEdge
    ⟨⟨jobs, jobs⟩, some (.string "retry")⟩

/-- Around the third resource, one node is renamed and gets its name back and one is removed. -/
theorem solve_frame_renamings : ∃ u, solve attended renamings {} = .ok u ∧
    (∀ c ∈ renamings, jobs ∉ c.rewrites) ∧ u.resources[jobs]? = attended.resources[jobs]? ∧
    (∀ c ∈ renamings, jobs ∉ c.uproots ∧ jobs ∉ c.uproots ∧ ¬ c.IsOn ⟨jobs, jobs⟩) ∧
    u.edges[(⟨jobs, jobs⟩ : Link)]? = some (some (.string "retry")) := by
  obtain ⟨u, hu⟩ : ∃ u, solve attended renamings {} = .ok u := ⟨_, rfl⟩
  have hresource : ∀ c ∈ renamings, jobs ∉ c.rewrites := by decide
  have hlink : ∀ c ∈ renamings,
      jobs ∉ c.uproots ∧ jobs ∉ c.uproots ∧ ¬ c.IsOn ⟨jobs, jobs⟩ := by decide
  obtain ⟨-, -, -, hresources, hedges⟩ := solve_frame hu
  refine ⟨u, hu, hresource, hresources jobs hresource, hlink, ?_⟩
  rw [(hedges ⟨jobs, jobs⟩ hlink).2]
  rfl

end Solve

end VersionedTopology

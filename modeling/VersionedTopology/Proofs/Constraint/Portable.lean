/-
  VersionedTopology.Proofs.Constraint.Portable

  Solving stays within what can be written.

  A graph whose identifiers and values can be written and read again stays one, whatever
  constraints are worked into it, as long as the constraints can be written and read again
  themselves; and the issues that are found name identifiers of the constraints only. One lemma
  for each kind of constraint says so, and the batch follows step by step.
-/

import VersionedTopology.Constraint.Solve
import VersionedTopology.Proofs.Wire.Constraint

namespace VersionedTopology

/-- Resources and edges can be written and read again. -/
structure Graph.Portable (g : Graph) : Prop where
  resources : g.resources.Portable
  edges : g.edges.Portable

/-! ## Collections -/

namespace EdgeSet

/-- Edges can be written and read again one by one. -/
theorem portable_iff {s : EdgeSet} :
    s.Portable ↔ ∀ l m, s[l]? = some m → (⟨l, m⟩ : Edge).Portable := by
  simp only [Portable, mem_toEdges]
  exact ⟨fun h l m hm => h ⟨l, m⟩ hm, fun h e he => h e.link e.metadata he⟩

theorem Portable.add {s : EdgeSet} (h : s.Portable) {e : Edge} (he : e.Portable) :
    Portable (s.add e) :=
  portable_iff.mpr (forall_getElem?_insertIfNew (portable_iff.mp h) he)

theorem portable_collect {es : List Edge} (h : ∀ e ∈ es, e.Portable) : Portable (collect es) := by
  induction es using List.reverseRecOn with
  | nil => exact portable_empty
  | append_singleton es e ih =>
    obtain ⟨hes, he⟩ := List.forall_mem_append.mp h
    rw [collect, List.foldl_append]
    exact portable_iff.mpr (forall_getElem?_insert (portable_iff.mp (ih hes))
      (he e (List.mem_singleton_self e)))

end EdgeSet

theorem Resources.portable_collect {rs : List Resource} (h : ∀ r ∈ rs, r.Portable) :
    Portable (collect rs) := by
  induction rs using List.reverseRecOn with
  | nil => exact portable_empty
  | append_singleton rs r ih =>
    obtain ⟨hrs, hr⟩ := List.forall_mem_append.mp h
    have hportable := hr r (List.mem_singleton_self r)
    rw [collect, List.foldl_append]
    exact (ih hrs).insert hportable.id hportable

namespace Solve

/-- An effect stays within what can be written: its graph does, or the issues do. -/
def Effect.Portable : Effect → Prop
  | .ok g => g.Portable
  | .error issues => ∀ i ∈ issues, i.Portable

theorem portable_issue {i : Issue} (h : i.Portable) :
    Effect.Portable (.error [i]) := by
  simpa [Effect.Portable] using h

variable {g : Graph} {schema : Schema}

/-- Setting the properties of a stored resource. -/
theorem portable_store (hg : g.Portable) {id : TopologyId} {r : Resource}
    (hr : g.resources[id]? = some r) {p : Properties} (hp : p.Portable) :
    (store g id r p).Portable := by
  obtain ⟨hid, hportable⟩ := hg.resources id r hr
  exact ⟨hg.resources.insert hid ⟨hportable.id, hp⟩, hg.edges⟩

theorem portable_property (hg : g.Portable) (operator : PropertyOperator) {target : TopologyId}
    (htarget : target.Portable) (name : String) {v : Json} (hv : v.Regular) :
    (property schema g operator target name v).Portable := by
  have hissue : ∀ message, (Issue.ofProperty target name message).Portable := by
    rintro message _ ⟨rfl⟩
    exact htarget
  unfold property
  split
  · refine portable_issue ?_
    rintro _ ⟨rfl⟩
    exact htarget
  · rename_i r hr
    have hp : r.properties.Portable := (hg.resources target r hr).2.properties
    split
    · exact portable_issue (hissue _)
    · cases operator with
      | equals => exact portable_store hg hr (hp.insert name hv)
      | add =>
        dsimp only
        split
        · exact portable_store hg hr (hp.insert name (by simpa using hv))
        · rename_i items hitems
          split
          · exact hg
          · refine portable_store hg hr (hp.insert name ?_)
            have hold := Json.regular_array.mp (hp name _ hitems)
            rw [Json.regular_array, List.forall_mem_append]
            exact ⟨hold, by simpa using hv⟩
        · exact portable_issue (hissue _)
      | remove =>
        dsimp only
        split
        · exact portable_store hg hr (hp.erase name)
        · split
          · exact hg
          · rename_i items hitems
            refine portable_store hg hr (hp.insert name ?_)
            have hold := Json.regular_array.mp (hp name _ hitems)
            rw [Json.regular_array]
            exact fun x hx => hold x (List.mem_of_mem_filter hx)
          · exact portable_issue (hissue _)

theorem portable_edge (hg : g.Portable) (operator : EdgeOperator) {l : Link}
    (hsource : l.source.Portable) (htarget : l.target.Portable) :
    (edge g operator l).Portable := by
  cases operator with
  | mustExist =>
    simp only [edge]
    split
    · exact ⟨hg.resources, hg.edges.add ⟨hsource, htarget, nofun⟩⟩
    · intro i hi
      obtain ⟨id, hid, rfl⟩ := List.mem_map.mp hi
      have hend : id = l.source ∨ id = l.target := by
        simpa using List.mem_of_mem_filter hid
      rintro _ ⟨rfl⟩
      obtain rfl | rfl := hend
      · exact hsource
      · exact htarget
  | mustNotExist =>
    exact ⟨hg.resources, EdgeSet.portable_iff.mpr
      (forall_getElem?_erase (EdgeSet.portable_iff.mp hg.edges) l)⟩

theorem portable_renameEdges {edges : EdgeSet} (h : edges.Portable) {old new : TopologyId}
    (hnew : new.Portable) : (renameEdges edges old new).Portable := by
  refine EdgeSet.portable_collect fun e he => ?_
  obtain ⟨f, hf, rfl⟩ := List.mem_map.mp he
  have hold := h f hf
  refine ⟨?_, ?_, hold.metadata⟩
  · simp only [Link.rename]
    split
    · exact hnew
    · exact hold.source
  · simp only [Link.rename]
    split
    · exact hnew
    · exact hold.target

theorem portable_replace (hg : g.Portable) {id : TopologyId} (hid : id.Portable)
    {replacement : Option TopologyId} (hreplacement : ∀ new ∈ replacement, new.Portable) :
    (replace g id replacement).Portable := by
  have hissue : ∀ {id : TopologyId} message, id.Portable →
      (Issue.ofResource id message).Portable := by
    rintro id message hid _ ⟨rfl⟩
    exact hid
  unfold replace
  split
  · exact portable_issue (hissue _ hid)
  · rename_i new
    have hnew : new.Portable := hreplacement new rfl
    split
    · exact portable_issue (hissue _ hnew)
    · split
      · exact portable_issue (hissue _ hid)
      · rename_i r hr
        have hr : r.Portable := (hg.resources id r hr).2
        exact ⟨(hg.resources.erase id).insert hnew ⟨hnew, hr.properties⟩,
          portable_renameEdges hg.edges hnew⟩

theorem portable_node (hg : g.Portable) (operator : NodeOperator) {id : TopologyId}
    (hid : id.Portable) {replacement : Option TopologyId}
    (hreplacement : ∀ new ∈ replacement, new.Portable) :
    (node g operator id replacement).Portable := by
  have hbare : Resource.Portable { id } := ⟨hid, Properties.portable_empty⟩
  cases operator with
  | add =>
    exact ⟨hg.resources.insertIfNew hid hbare, hg.edges⟩
  | adopt =>
    have hr : ((g.resources[id]?).getD { id }).Portable := by
      cases hstored : g.resources[id]? with
      | none => exact hbare
      | some r => exact (hg.resources id r hstored).2
    exact ⟨hg.resources.insert hid ⟨hr.id, hr.properties⟩, hg.edges⟩
  | remove =>
    simp only [node]
    split
    · exact ⟨hg.resources.erase id, EdgeSet.portable_iff.mpr
        (forall_getElem?_filter (EdgeSet.portable_iff.mp hg.edges) _)⟩
    · refine portable_issue ?_
      rintro _ ⟨rfl⟩
      exact hid
  | replace => exact portable_replace hg hid hreplacement

/-- One constraint keeps the graph within what can be written. -/
theorem portable_step (schema : Schema) (hg : g.Portable) {c : Constraint} (hc : c.Portable) :
    (step schema g c).Portable := by
  cases c with
  | property o t p v => exact portable_property hg o hc.1 p hc.2
  | edge o s t => exact portable_edge hg o hc.1 hc.2
  | node o n r => exact portable_node hg o hc.1 hc.2

/-- A batch keeps the graph within what can be written, and so are the issues that it has. -/
theorem portable_run (schema : Schema) (hg : g.Portable) {cs : List Constraint}
    (hcs : ∀ c ∈ cs, c.Portable) :
    (run schema g cs).graph.Portable ∧ ∀ i ∈ (run schema g cs).issues, i.Portable := by
  induction cs using List.reverseRecOn with
  | nil => exact ⟨hg, by simp [run]⟩
  | append_singleton cs c ih =>
    obtain ⟨hcs, hc⟩ := List.forall_mem_append.mp hcs
    obtain ⟨hgraph, hissues⟩ := ih hcs
    have hstep := portable_step schema hgraph (hc c (List.mem_singleton_self c))
    have htake : run schema g (cs ++ [c]) = Work.take schema (run schema g cs) c := by
      simp [run, List.foldl_append]
    rw [htake, Work.take]
    cases hc : step schema (run schema g cs).graph c with
    | ok g' =>
      rw [hc] at hstep
      exact ⟨hstep, hissues⟩
    | error issues =>
      rw [hc] at hstep
      exact ⟨hgraph, List.forall_mem_append.mpr ⟨hissues, hstep⟩⟩

end Solve

theorem portable_solve {base s : Snapshot} (hbase : base.Portable) {cs : List Constraint}
    (hcs : ∀ c ∈ cs, c.Portable) {schema : Schema} (h : solve base cs schema = .ok s) :
    s.Portable := by
  have hgraph : base.toGraph.Portable := ⟨hbase.resources, hbase.edges⟩
  have hrun := Solve.portable_run schema hgraph hcs
  simp only [solve] at h
  split at h
  · obtain rfl := Except.ok.inj h
    exact ⟨hbase.version, hrun.1.resources, hrun.1.edges, nofun⟩
  · exact absurd h (by simp)

/-- A rejected batch is told why, with issues that can be written and read again. -/
theorem portable_solve_error {base : Snapshot} (hbase : base.Portable) {cs : List Constraint}
    (hcs : ∀ c ∈ cs, c.Portable) {schema : Schema} {e : Error}
    (h : solve base cs schema = .error e) :
    ∃ issues, e = .config issues ∧ issues ≠ [] ∧ ∀ i ∈ issues, i.Portable := by
  have hgraph : base.toGraph.Portable := ⟨hbase.resources, hbase.edges⟩
  have hrun := Solve.portable_run schema hgraph hcs
  simp only [solve] at h
  split at h
  · exact absurd h (by simp)
  · rename_i hissues
    obtain rfl := Except.error.inj h
    exact ⟨_, rfl, by simpa using hissues, hrun.2⟩

end VersionedTopology

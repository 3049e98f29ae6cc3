/-
  VersionedTopology.Proofs.Constraint.Verdict

  What is told about a batch that is refused.

  Whether a constraint is valid depends on the graph that it meets, and that graph is made by the
  valid constraints before it alone: an invalid one changes nothing. `Invalid` lists, for every kind
  of constraint, why it may be refused and what is told then. A batch is accepted if nothing is told
  about any of its constraints; otherwise all that is told about them is told, in their order.
-/

import VersionedTopology.Proofs.Constraint.Solve

namespace VersionedTopology
namespace Solve

variable {schema : Schema} {g : Graph} {c : Constraint} {issues : List Issue}

/-! ## Invalid constraints -/

/-- Why a constraint is invalid in a graph, and what is told about it. -/
inductive Invalid (schema : Schema) (g : Graph) : Constraint → List Issue → Prop
  | noTarget (o : PropertyOperator) (t : TopologyId) (p : String) (v : Json)
      (habsent : t ∉ g.resources) :
      Invalid schema g (.property o t p v) [Issue.ofResource t "resource does not exist"]
  | unknownProperty (o : PropertyOperator) (t : TopologyId) (p : String) (v : Json)
      (hpresent : t ∈ g.resources) (hname : schema.allows t.kind p = false) :
      Invalid schema g (.property o t p v)
        [Issue.ofProperty t p ("unknown property for resource type '" ++ t.kind ++ "'")]
  /-- Something that is no list is to take up a value, or to give one back. -/
  | noList (o : PropertyOperator) (t : TopologyId) (p : String) (v : Json) (r : Resource)
      (old : Json) (hr : g.resources[t]? = some r) (hname : schema.allows t.kind p = true)
      (ho : o = .add ∨ o = .remove ∧ v.isNull = false) (hold : r.properties[p]? = some old)
      (hlist : ∀ items, old ≠ .array items) :
      Invalid schema g (.property o t p v) [Issue.ofProperty t p "property is not a list"]
  /-- Each missing endpoint is told, the source first. -/
  | dangling (s t : TopologyId) (hends : ¬ (s ∈ g.resources ∧ t ∈ g.resources)) :
      Invalid schema g (.edge .mustExist s t)
        (([s, t].filter fun id => !g.resources.contains id).map fun id =>
          Issue.ofResource id "edge endpoint does not exist")
  | nothingToRemove (n : TopologyId) (r : Option TopologyId) (habsent : n ∉ g.resources) :
      Invalid schema g (.node .remove n r) [Issue.ofResource n "resource does not exist"]
  | noReplacement (n : TopologyId) :
      Invalid schema g (.node .replace n none) [Issue.ofResource n "replace requires a replacement"]
  | replacementTaken (n new : TopologyId) (htaken : new ∈ g.resources) :
      Invalid schema g (.node .replace n (some new))
        [Issue.ofResource new "replacement already exists"]
  | nothingToReplace (n new : TopologyId) (hfree : new ∉ g.resources) (habsent : n ∉ g.resources) :
      Invalid schema g (.node .replace n (some new)) [Issue.ofResource n "resource does not exist"]

/-- Something is told about every invalid constraint. -/
theorem Invalid.ne_nil (h : Invalid schema g c issues) : issues ≠ [] := by
  cases h with
  | dangling s t hends =>
    intro hnone
    have hpresent := List.filter_eq_nil_iff.mp (List.map_eq_nil_iff.mp hnone)
    exact hends ⟨by simpa using hpresent s (by simp), by simpa using hpresent t (by simp)⟩
  | _ => exact List.cons_ne_nil _ _

theorem getElem?_eq_none_iff {m : Resources} {id : TopologyId} :
    m[id]? = none ↔ id ∉ m := by
  rw [Std.ExtTreeMap.mem_iff_isSome_getElem?, Option.not_isSome_iff_eq_none]

/-- An invalid constraint is refused. -/
theorem Invalid.step_eq (h : Invalid schema g c issues) : step schema g c = .error issues := by
  have hsome := h.ne_nil
  cases h with
  | noTarget o t p v habsent => simp [step, property, getElem?_eq_none_iff.mpr habsent]
  | unknownProperty o t p v hpresent hname =>
    have hr := Std.ExtTreeMap.getElem?_eq_some_getElem hpresent
    simp [step, property, hr, hname]
  | noList o t p v r old hr hname ho hold hlist =>
    simp only [step, property, hr, hname, hold]
    obtain rfl | ⟨rfl, hv⟩ := ho
    · cases old with
      | array items => exact absurd rfl (hlist items)
      | _ => rfl
    · simp only [hv]
      cases old with
      | array items => exact absurd rfl (hlist items)
      | _ => rfl
  | dangling s t hends =>
    -- the list of missing endpoints decides
    simp only [step, edge]
    rw [if_neg]
    simpa using hsome
  | nothingToRemove n r habsent => simp [step, node, habsent]
  | noReplacement n => rfl
  | replacementTaken n new htaken => simp [step, node, replace, htaken]
  | nothingToReplace n new hfree habsent =>
    simp [step, node, replace, hfree, getElem?_eq_none_iff.mpr habsent]

theorem invalid_of_property {o : PropertyOperator} {t : TopologyId} {p : String} {v : Json}
    (h : property schema g o t p v = .error issues) :
    Invalid schema g (.property o t p v) issues := by
  unfold property at h
  split at h
  · rename_i hr
    rw [← Except.error.inj h]
    exact .noTarget o t p v (getElem?_eq_none_iff.mp hr)
  · rename_i r hr
    split at h
    · rename_i hname
      have hpresent : t ∈ g.resources := by simp [Std.ExtTreeMap.mem_iff_isSome_getElem?, hr]
      rw [← Except.error.inj h]
      exact .unknownProperty o t p v hpresent (by simpa using hname)
    · rename_i hname
      have hallowed : schema.allows t.kind p = true := by simpa using hname
      cases o with
      | equals => exact absurd h (by simp)
      | add =>
        dsimp only at h
        split at h
        · exact absurd h (by simp)
        · split at h <;> exact absurd h (by simp)
        · rename_i old hlist hold
          rw [← Except.error.inj h]
          exact .noList .add t p v r old hr hallowed (.inl rfl) hold hlist
      | remove =>
        dsimp only at h
        split at h
        · exact absurd h (by simp)
        · rename_i hv
          split at h
          · exact absurd h (by simp)
          · exact absurd h (by simp)
          · rename_i old hlist hold
            rw [← Except.error.inj h]
            exact .noList .remove t p v r old hr hallowed (.inr ⟨rfl, by simpa using hv⟩) hold hlist

theorem invalid_of_edge {o : EdgeOperator} {s t : TopologyId}
    (h : edge g o ⟨s, t⟩ = .error issues) : Invalid schema g (.edge o s t) issues := by
  cases o with
  | mustExist =>
    simp only [edge] at h
    split at h
    · exact absurd h (by simp)
    · rename_i hmissing
      rw [← Except.error.inj h]
      refine .dangling s t fun hends => hmissing ?_
      simp [hends.1, hends.2]
  | mustNotExist => exact absurd h (by simp [edge])

theorem invalid_of_node {o : NodeOperator} {n : TopologyId} {r : Option TopologyId}
    (h : node g o n r = .error issues) : Invalid schema g (.node o n r) issues := by
  cases o with
  | add => exact absurd h (by simp [node])
  | adopt => exact absurd h (by simp [node])
  | remove =>
    simp only [node] at h
    split at h
    · exact absurd h (by simp)
    · rename_i habsent
      rw [← Except.error.inj h]
      exact .nothingToRemove n r (by simpa using habsent)
  | replace =>
    simp only [node, replace] at h
    split at h
    · rw [← Except.error.inj h]
      exact .noReplacement n
    · rename_i new
      split at h
      · rename_i htaken
        rw [← Except.error.inj h]
        exact .replacementTaken n new (by simpa using htaken)
      · rename_i hfree
        split at h
        · rename_i habsent
          rw [← Except.error.inj h]
          exact .nothingToReplace n new (by simpa using hfree) (getElem?_eq_none_iff.mp habsent)
        · exact absurd h (by simp)

/-- A constraint is refused exactly when it is invalid. -/
theorem step_error_iff : step schema g c = .error issues ↔ Invalid schema g c issues := by
  refine ⟨fun h => ?_, Invalid.step_eq⟩
  cases c with
  | property o t p v => exact invalid_of_property h
  | edge o s t => exact invalid_of_edge h
  | node o n r => exact invalid_of_node h

/-- An invalid constraint leaves the graph, and what is told about it comes after all else. -/
theorem Invalid.take_eq {w : Work} (h : Invalid schema w.graph c issues) :
    w.take schema c = { w with issues := w.issues ++ issues } := by
  rw [Work.take, h.step_eq]

/-! ## Constraints in a batch -/

/-- What is told about a constraint in a graph: nothing about a valid one. -/
def told (schema : Schema) (g : Graph) (c : Constraint) : List Issue :=
  match step schema g c with
  | .ok _ => []
  | .error issues => issues

theorem told_cases (schema : Schema) (g : Graph) (c : Constraint) :
    Invalid schema g c (told schema g c) ∨
      told schema g c = [] ∧ ∀ issues, ¬ Invalid schema g c issues := by
  cases hstep : step schema g c with
  | ok g' =>
    refine .inr ⟨by simp [told, hstep], fun issues h => ?_⟩
    exact absurd (hstep.symm.trans h.step_eq) (by simp)
  | error issues =>
    refine .inl ?_
    rw [told, hstep]
    exact step_error_iff.mp hstep

/-- The constraints of a list that are valid where they stand. -/
def valid (schema : Schema) : Graph → List Constraint → List Constraint
  | _, [] => []
  | g, c :: cs =>
    match step schema g c with
    | .ok g' => c :: valid schema g' cs
    | .error _ => valid schema g cs

theorem run_cons_of_ok {g' : Graph} (h : step schema g c = .ok g') (cs : List Constraint) :
    run schema g (c :: cs) = run schema g' cs := by
  simp [run, Work.take, h]

theorem run_cons_of_error (h : step schema g c = .error issues) (cs : List Constraint) :
    run schema g (c :: cs) =
      ⟨(run schema g cs).graph, issues ++ (run schema g cs).issues⟩ := by
  rw [run, List.foldl_cons, foldl_take]
  simp [Work.take, h]

/-- The valid constraints alone make the graph that the whole list makes. -/
theorem leads_valid (g : Graph) (cs : List Constraint) :
    Leads schema g (valid schema g cs) (run schema g cs).graph := by
  induction cs generalizing g with
  | nil => exact leads_nil g
  | cons c cs ih =>
    cases hstep : step schema g c with
    | ok g' =>
      rw [Leads, valid, hstep, run_cons_of_ok hstep, run_cons_of_ok hstep]
      exact ih g'
    | error issues =>
      rw [valid, hstep, run_cons_of_error hstep]
      exact ih g

/-- What is told about each constraint of a list in the graph that it meets. -/
def blocks (schema : Schema) (g : Graph) (cs : List Constraint) : List (List Issue) :=
  cs.mapIdx fun i c => told schema (run schema g (cs.take i)).graph c

/-- What is told about a batch is what is told about each of its constraints. -/
theorem issues_run (g : Graph) (cs : List Constraint) :
    (run schema g cs).issues = (blocks schema g cs).flatten := by
  induction cs generalizing g with
  | nil => rfl
  | cons c cs ih =>
    rw [blocks, List.mapIdx_cons, List.flatten_cons]
    simp only [List.take_zero, List.take_succ_cons, run_nil]
    cases hstep : step schema g c with
    | ok g' => simp only [told, run_cons_of_ok hstep, hstep, ih g', blocks, List.nil_append]
    | error issues => simp only [told, run_cons_of_error hstep, hstep, ih g, blocks]

theorem issues_run_ne_nil_iff {g : Graph} {cs : List Constraint} :
    (run schema g cs).issues ≠ [] ↔ ∃ i c issues, cs[i]? = some c ∧
      Invalid schema (run schema g (cs.take i)).graph c issues := by
  rw [issues_run, ne_eq, List.flatten_eq_nil_iff]
  constructor
  · intro h
    obtain ⟨block, hblock, hne⟩ : ∃ block ∈ blocks schema g cs, block ≠ [] := by simpa using h
    obtain ⟨i, hi, rfl⟩ := List.mem_mapIdx.mp hblock
    obtain hinvalid | ⟨hnil, -⟩ := told_cases schema (run schema g (cs.take i)).graph cs[i]
    · exact ⟨i, cs[i], _, List.getElem?_eq_getElem hi, hinvalid⟩
    · exact absurd hnil hne
  · rintro ⟨i, c, issues, hc, hinvalid⟩ hall
    obtain ⟨hi, rfl⟩ := List.getElem?_eq_some_iff.mp hc
    have hnil := hall _ (List.mem_mapIdx.mpr ⟨i, hi, rfl⟩)
    rw [told, hinvalid.step_eq] at hnil
    exact hinvalid.ne_nil hnil

end Solve

/-! ## Batches -/

/-- A batch is refused exactly when something is told about it, and then all of it is told. -/
theorem solve_error_iff {base : Snapshot} {cs : List Constraint} {schema : Schema} {e : Error} :
    solve base cs schema = .error e ↔
      (Solve.run schema base.toGraph cs).issues ≠ [] ∧
        e = .config (Solve.run schema base.toGraph cs).issues := by
  simp only [solve]
  split
  · rename_i hnone
    simp [List.isEmpty_iff.mp hnone]
  · rename_i hsome
    have hne : (Solve.run schema base.toGraph cs).issues ≠ [] :=
      fun hnone => hsome (List.isEmpty_iff.mpr hnone)
    simp [hne, eq_comm]

/-- What follows an accepted batch is solved on its result. -/
theorem solve_append {base u : Snapshot} {cs : List Constraint} {schema : Schema}
    (h : solve base cs schema = .ok u) (ds : List Constraint) :
    solve base (cs ++ ds) schema = solve u ds schema := by
  obtain ⟨hleads, hu⟩ := solve_ok_iff.mp h
  have hrun : Solve.run schema base.toGraph (cs ++ ds) = Solve.run schema u.toGraph ds := by
    rw [Solve.run_append, hleads, List.nil_append]
  rw [solve, solve, hrun, hu]

/-- The valid constraints of a batch are accepted without the others, and lead to the graph that the
whole batch leaves. -/
theorem exists_solve_valid (base : Snapshot) (schema : Schema) (cs : List Constraint) :
    ∃ u, solve base (Solve.valid schema base.toGraph cs) schema = .ok u ∧
      u.toGraph = (Solve.run schema base.toGraph cs).graph :=
  exists_solve_of_leads (Solve.leads_valid base.toGraph cs)

/-- **Solving is a fold, and all or nothing.** An accepted batch and what follows it are solved one
after the other. An invalid constraint leaves the graph as it is. A batch is refused exactly when
one of its constraints is invalid in the graph that the valid ones before it make, and then what is
told is, in order, what each constraint is told in the graph that it meets; so nothing that is told
about a beginning of a batch is lost when the batch goes on. -/
theorem solve_folds (base : Snapshot) (schema : Schema) (cs ds : List Constraint) :
    (∀ u, solve base cs schema = .ok u → solve base (cs ++ ds) schema = solve u ds schema) ∧
    (∀ (w : Solve.Work) c issues, Solve.Invalid schema w.graph c issues →
      w.take schema c = { w with issues := w.issues ++ issues }) ∧
    ((∃ e, solve base cs schema = .error e) ↔
      ∃ i c u issues, cs[i]? = some c ∧
        solve base (Solve.valid schema base.toGraph (cs.take i)) schema = .ok u ∧
        Solve.Invalid schema u.toGraph c issues) ∧
    (∃ blocks : List (List Issue), blocks.length = cs.length ∧
      (∀ i c, cs[i]? = some c → ∃ u block,
        solve base (Solve.valid schema base.toGraph (cs.take i)) schema = .ok u ∧
        blocks[i]? = some block ∧
        (Solve.Invalid schema u.toGraph c block ∨
          block = [] ∧ ∀ issues, ¬ Solve.Invalid schema u.toGraph c issues)) ∧
      ∀ e, solve base cs schema = .error e → e = .config blocks.flatten) ∧
    ∀ issues, solve base cs schema = .error (.config issues) →
      ∃ more, solve base (cs ++ ds) schema = .error (.config (issues ++ more)) := by
  refine ⟨fun u hu => solve_append hu ds, fun w c issues h => h.take_eq, ?_, ?_, ?_⟩
  · constructor
    · rintro ⟨e, he⟩
      obtain ⟨i, c, issues, hc, hinvalid⟩ :=
        Solve.issues_run_ne_nil_iff.mp (solve_error_iff.mp he).1
      obtain ⟨u, hu, hgraph⟩ := exists_solve_valid base schema (cs.take i)
      exact ⟨i, c, u, issues, hc, hu, hgraph ▸ hinvalid⟩
    · rintro ⟨i, c, u, issues, hc, hu, hinvalid⟩
      obtain ⟨u', hu', hgraph⟩ := exists_solve_valid base schema (cs.take i)
      obtain rfl := Except.ok.inj (hu.symm.trans hu')
      rw [hgraph] at hinvalid
      exact ⟨_, solve_error_iff.mpr
        ⟨Solve.issues_run_ne_nil_iff.mpr ⟨i, c, issues, hc, hinvalid⟩, rfl⟩⟩
  · refine ⟨Solve.blocks schema base.toGraph cs, List.length_mapIdx, ?_, fun e he => ?_⟩
    · intro i c hc
      obtain ⟨u, hu, hgraph⟩ := exists_solve_valid base schema (cs.take i)
      refine ⟨u, _, hu, by rw [Solve.blocks, List.getElem?_mapIdx, hc, Option.map_some], ?_⟩
      rw [hgraph]
      exact Solve.told_cases schema _ c
    · rw [(solve_error_iff.mp he).2, Solve.issues_run]
  · intro issues h
    obtain ⟨hne, hissues⟩ := solve_error_iff.mp h
    rw [Error.config.inj hissues] at h ⊢
    refine ⟨(Solve.run schema (Solve.run schema base.toGraph cs).graph ds).issues, ?_⟩
    rw [solve_error_iff, Solve.run_append]
    exact ⟨by simp [hne], rfl⟩

/-- Both ends of an edge are told to be missing; the one that is added then is not told again. -/
example :
    let a : TopologyId := ⟨"aws", "db", "orders"⟩
    let b : TopologyId := ⟨"aws", "db", "users"⟩
    (Solve.run {} {} [.connect a b, .addResource a, .connect a b]).issues =
      [a, b, b].map fun id => Issue.ofResource id "edge endpoint does not exist" := by
  rfl

end VersionedTopology

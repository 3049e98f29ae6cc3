/-
  VersionedTopology.Proofs.Constraint.Solve

  Solving in parts.

  The solver takes up one constraint after another, and the issues that it has found so far
  change nothing about what it does next. So a list of constraints may be cut anywhere: the
  second part is worked into the graph that the first part has left. `Leads` is what an
  accepted batch says about the graphs before and after it; batches that follow each other
  are together one longer batch.
-/

import VersionedTopology.Constraint.Solve

namespace VersionedTopology
namespace Solve

variable {schema : Schema}

@[simp] theorem run_nil (g : Graph) : run schema g [] = ⟨g, []⟩ := rfl

/-- Issues that have been found before only stand in front of those found from here on. -/
theorem foldl_take (w : Work) (cs : List Constraint) :
    cs.foldl (Work.take schema) w =
      ⟨(run schema w.graph cs).graph, w.issues ++ (run schema w.graph cs).issues⟩ := by
  induction cs generalizing w with
  | nil => simp
  | cons c cs ih =>
    simp only [run, List.foldl_cons]
    rw [ih (w.take schema c), ih (Work.take schema ⟨w.graph, []⟩ c)]
    simp only [Work.take]
    cases step schema w.graph c with
    | ok g => rfl
    | error issues => simp

theorem run_append (g : Graph) (cs ds : List Constraint) :
    run schema g (cs ++ ds) =
      ⟨(run schema (run schema g cs).graph ds).graph,
        (run schema g cs).issues ++ (run schema (run schema g cs).graph ds).issues⟩ := by
  rw [run, List.foldl_append, foldl_take]
  rfl

/-- Working the constraints into one graph finds no issue and gives the other. -/
def Leads (schema : Schema) (g : Graph) (cs : List Constraint) (g' : Graph) : Prop :=
  run schema g cs = ⟨g', []⟩

theorem leads_nil (g : Graph) : Leads schema g [] g := rfl

theorem Leads.append {g g' g'' : Graph} {cs ds : List Constraint} (h : Leads schema g cs g')
    (h' : Leads schema g' ds g'') : Leads schema g (cs ++ ds) g'' := by
  simp only [Leads] at h h' ⊢
  rw [run_append, h]
  simp [h']

end Solve

/-- A batch is accepted exactly when it leads from the graph of its base to another one. The result
is that graph, under the names and the number of the base. -/
theorem solve_ok_iff {base s : Snapshot} {cs : List Constraint} {schema : Schema} :
    solve base cs schema = .ok s ↔
      Solve.Leads schema base.toGraph cs s.toGraph ∧
        s = { base with toGraph := s.toGraph, issues := [] } := by
  simp only [solve, Solve.Leads]
  rcases Solve.run schema base.toGraph cs with ⟨g, issues⟩
  constructor
  · intro h
    cases issues with
    | nil =>
      obtain rfl := Except.ok.inj h
      exact ⟨rfl, rfl⟩
    | cons i issues => exact absurd h (by simp)
  · rintro ⟨hrun, hs⟩
    simp only [Solve.Work.mk.injEq] at hrun
    obtain ⟨rfl, rfl⟩ := hrun
    rw [hs]
    rfl

theorem exists_solve_of_leads {base : Snapshot} {cs : List Constraint} {schema : Schema}
    {g : Graph} (h : Solve.Leads schema base.toGraph cs g) :
    ∃ s, solve base cs schema = .ok s ∧ s.toGraph = g :=
  ⟨{ base with toGraph := g, issues := [] }, solve_ok_iff.mpr ⟨h, rfl⟩, rfl⟩

end VersionedTopology

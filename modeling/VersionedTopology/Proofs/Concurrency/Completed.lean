/-
  VersionedTopology.Proofs.Concurrency.Completed

  Operations that a site performs from start to end with nothing in between.

  A replica performs an operation by asking for one answer after another. With a ledger to
  ask, `Ran` follows the calls of a task to its end. A site of a fleet comes to the same state
  by the moves that start the operation, let the ledger take up each call and deliver each
  answer. So what holds of all runs holds where operations are completed one by one.
-/

import VersionedTopology.Proofs.Concurrency.Fleet

namespace VersionedTopology

/-- Asks a ledger. -/
def Ledger.ask (c : Backend.Call) : StateM Ledger c.Answer :=
  fun l => ((l.answer c).2, (l.answer c).1)

/-! ## On the answers of a ledger -/

namespace Replica

/-- One step of a run on the answers of a ledger. -/
theorem run_ask (r : Replica) (t : Task) (l : Ledger) :
    (r.run Ledger.ask t).run l =
      match r.resume t (l.answer (t.call r.key)).2 with
      | (r', .finished result) => ((r', result), (l.answer (t.call r.key)).1)
      | (r₁, .waiting t₁) => (r₁.run Ledger.ask t₁).run (l.answer (t.call r.key)).1 := by
  have hask : (Ledger.ask (t.call r.key)).run l =
      ((l.answer (t.call r.key)).2, (l.answer (t.call r.key)).1) := rfl
  rw [Replica.run, StateT.run_bind, hask]
  dsimp only [bind]
  split
  · rename_i h
    rw [h]
    rfl
  · rename_i h
    rw [h]

/-- A task runs to its end on the answers of a ledger. -/
inductive Ran : Replica → Task → Ledger → Replica → Except Error Outcome → Ledger → Prop
  | last {r r' : Replica} {t : Task} {l : Ledger} {result : Except Error Outcome}
      (h : r.resume t (l.answer (t.call r.key)).2 = (r', .finished result)) :
      Ran r t l r' result (l.answer (t.call r.key)).1
  | next {r r₁ r' : Replica} {t t₁ : Task} {l l' : Ledger} {result : Except Error Outcome}
      (h : r.resume t (l.answer (t.call r.key)).2 = (r₁, .waiting t₁))
      (hrest : Ran r₁ t₁ (l.answer (t.call r.key)).1 r' result l') :
      Ran r t l r' result l'

theorem Ran.run_eq {r r' : Replica} {t : Task} {l l' : Ledger} {result : Except Error Outcome}
    (h : Ran r t l r' result l') : (r.run Ledger.ask t).run l = ((r', result), l') := by
  induction h with
  | last h => rw [run_ask, h]
  | next h hrest ih =>
    rw [run_ask, h]
    exact ih

theorem exists_ran (r : Replica) (t : Task) (l : Ledger) :
    ∃ r' result l', Ran r t l r' result l' := by
  -- every answer brings a task nearer to its end
  induction hn : t.callsLeft using Nat.strongRecOn generalizing r t l with
  | ind n ih =>
    subst hn
    rcases h : r.resume t (l.answer (t.call r.key)).2 with ⟨r₁, p⟩
    cases p with
    | finished result => exact ⟨r₁, result, _, .last h⟩
    | waiting t₁ =>
      have hless : t₁.callsLeft < t.callsLeft := resume_callsLeft (congrArg Prod.snd h)
      obtain ⟨r', result, l', hrest⟩ := ih _ hless r₁ t₁ _ rfl
      exact ⟨r', result, l', .next h hrest⟩

/-- An operation is performed on the answers of a ledger. -/
inductive Performed (r : Replica) (o : Operation) (l : Ledger) :
    Replica → Except Error Outcome → Ledger → Prop
  | atOnce {r' : Replica} {result : Except Error Outcome}
      (h : r.start o = (r', .finished result)) : Performed r o l r' result l
  | asking {r₁ r' : Replica} {t : Task} {l' : Ledger} {result : Except Error Outcome}
      (h : r.start o = (r₁, .waiting t)) (hran : Ran r₁ t l r' result l') :
      Performed r o l r' result l'

theorem Performed.perform_eq {r r' : Replica} {o : Operation} {l l' : Ledger}
    {result : Except Error Outcome} (h : Performed r o l r' result l') :
    (r.perform Ledger.ask o).run l = ((r', result), l') := by
  cases h with
  | atOnce h => rw [perform, h]; rfl
  | asking h hran => rw [perform, h]; exact hran.run_eq

theorem exists_performed (r : Replica) (o : Operation) (l : Ledger) :
    ∃ r' result l', Performed r o l r' result l' := by
  rcases h : r.start o with ⟨r₁, p⟩
  cases p with
  | finished result => exact ⟨r₁, result, l, .atOnce h⟩
  | waiting t =>
    obtain ⟨r', result, l', hran⟩ := exists_ran r₁ t l
    exact ⟨r', result, l', .asking h hran⟩

end Replica

namespace Fleet

variable {ι : Type} [DecidableEq ι]

/-- A site performs an operation from start to end. -/
def complete (z : Fleet ι) (i : ι) (o : Operation) : Except Error Outcome × Fleet ι :=
  let out := ((z.sites i).replica.perform Ledger.ask o).run z.ledger
  (out.1.2, { ledger := out.2
              sites := Function.update z.sites i { z.sites i with replica := out.1.1 } })

theorem complete_eq {z : Fleet ι} {i : ι} {o : Operation} {r : Replica} {l : Ledger}
    {result : Except Error Outcome}
    (h : Replica.Performed (z.sites i).replica o z.ledger r result l) :
    z.complete i o =
      (result, { ledger := l
                 sites := Function.update z.sites i { z.sites i with replica := r } }) := by
  rw [complete, h.perform_eq]

theorem exists_complete_eq (z : Fleet ι) (i : ι) (o : Operation) :
    ∃ r result l, Replica.Performed (z.sites i).replica o z.ledger r result l ∧
      z.complete i o =
        (result, { ledger := l
                   sites := Function.update z.sites i { z.sites i with replica := r } }) := by
  obtain ⟨r, result, l, h⟩ := (z.sites i).replica.exists_performed o z.ledger
  exact ⟨r, result, l, h, complete_eq h⟩

/-! ## As moves of a run -/

/-- The two moves of a call: the ledger takes it up, and the answer arrives. -/
def Move.call (i : ι) (name : Nat) : List (Move ι) :=
  [.site i (.serve name), .site i (.deliver name)]

theorem run_call {z : Fleet ι} {i : ι} {name : Nat} {t : Task} {r : Replica} {p : Progress}
    (hflight : (z.sites i).flights name = some ⟨t, none⟩)
    (h : (z.sites i).replica.resume t (z.ledger.answer (t.call (z.sites i).replica.key)).2 =
      (r, p)) :
    z.run (Move.call i name) =
      { ledger := (z.ledger.answer (t.call (z.sites i).replica.key)).1
        sites := Function.update z.sites i
          { (z.sites i).put name p.flight? with replica := r } } := by
  have hserve : z.step (.site i (.serve name)) =
      { ledger := (z.ledger.answer (t.call (z.sites i).replica.key)).1
        sites := Function.update z.sites i
          ((z.sites i).put name (some ⟨t, some z.ledger.oracle⟩)) } := by
    simp [step, Site.asked?, Site.step, hflight]
  -- the answer is the one that the ledger has given
  have hdeliver : ∀ store, ((z.sites i).put name (some ⟨t, some z.ledger.oracle⟩)).step
      ⟨.deliver name, store⟩ = { (z.sites i).put name p.flight? with replica := r } := by
    intro store
    have hanswer : (z.sites i).replica.resume t (z.ledger.oracle (t.call (z.sites i).replica.key)) =
      (r, p) := h
    simp [Site.step, Site.outcome?, Site.put, Site.follow, hanswer]
  rw [Move.call, run_cons, run_cons, run_nil, hserve]
  simp [step, Site.asked?, hdeliver]

/-- Calls of an operation that is not open are not taken up. -/
theorem run_calls_of_free {z : Fleet ι} {i : ι} {name : Nat}
    (hfree : (z.sites i).flights name = none) (n : Nat) :
    z.run (List.replicate n (Move.call i name)).flatten = z := by
  have hserve : z.step (.site i (.serve name)) = z := by
    simp [step, Site.asked?, Site.step, hfree]
  have hdeliver : z.step (.site i (.deliver name)) = z := by
    simp [step, Site.asked?, Site.step, Site.outcome?, Site.follow, hfree]
  have hcall : z.run (Move.call i name) = z := by simp [Move.call, hserve, hdeliver]
  induction n with
  | zero => rfl
  | succ n ih => rw [List.replicate_succ, List.flatten_cons, run_append, hcall, ih]

/-- The moves of a task's calls take it to the end that it has on the answers of the ledger. -/
theorem run_calls {r r' : Replica} {t : Task} {l l' : Ledger} {result : Except Error Outcome}
    (h : Replica.Ran r t l r' result l') {z : Fleet ι} {i : ι} {name n : Nat}
    (hledger : z.ledger = l) (hreplica : (z.sites i).replica = r)
    (hflight : (z.sites i).flights name = some ⟨t, none⟩) (hn : t.callsLeft ≤ n) :
    z.run (List.replicate n (Move.call i name)).flatten =
      { ledger := l'
        sites := Function.update z.sites i { (z.sites i).put name none with replica := r' } } := by
  induction h generalizing z n with
  | @last r r' t l result h =>
    subst hledger hreplica
    have hpos : 0 < t.callsLeft := by cases t <;> simp [Task.callsLeft]
    obtain ⟨n, rfl⟩ : ∃ k, n = k + 1 := ⟨n - 1, by omega⟩
    rw [List.replicate_succ, List.flatten_cons, run_append, run_call hflight h]
    refine run_calls_of_free ?_ n
    simp [Site.put, Progress.flight?]
  | @next r r₁ r' t t₁ l l' result h hrest ih =>
    subst hledger hreplica
    have hless : t₁.callsLeft < t.callsLeft := Replica.resume_callsLeft (congrArg Prod.snd h)
    obtain ⟨n, rfl⟩ : ∃ k, n = k + 1 := ⟨n - 1, by omega⟩
    rw [List.replicate_succ, List.flatten_cons, run_append, run_call hflight h,
      ih rfl (by simp) (by simp [Site.put, Progress.flight?]) (by omega)]
    simp [Site.put]

/-- Completing an operation is to take its moves with nothing in between. -/
theorem run_whole {z : Fleet ι} {i : ι} {name : Nat} (hfree : (z.sites i).flights name = none)
    (o : Operation) : z.run (Move.whole i name o 4) = (z.complete i o).2 := by
  obtain ⟨r, result, l, hperformed, heq⟩ := z.exists_complete_eq i o
  rw [heq]
  have hwhole : Move.whole i name o 4 =
      .site i (.start name o) :: (List.replicate 4 (Move.call i name)).flatten := rfl
  rw [hwhole, run_cons]
  have hstart : z.step (.site i (.start name o)) =
      { ledger := z.ledger
        sites := Function.update z.sites i
          { (z.sites i).put name ((z.sites i).replica.start o).2.flight? with
            replica := ((z.sites i).replica.start o).1 } } := by
    simp [step, Site.asked?, Site.step, Site.outcome?, Site.follow, hfree]
  cases hperformed with
  | atOnce h =>
    rw [hstart, h, run_calls_of_free (by simp [Site.put, Progress.flight?])]
    simp [Site.put, Progress.flight?, ← hfree]
  | @asking r₁ r t l result h hran =>
    have hcalls : t.callsLeft ≤ 4 := by cases t <;> simp [Task.callsLeft]
    -- when the operation has ended, its name is as free as it was
    have hput : Function.update (Function.update (z.sites i).flights name (some ⟨t, none⟩)) name
        none = (z.sites i).flights := by
      rw [Function.update_idem, ← hfree, Function.update_eq_self]
    rw [h] at hstart
    have hledger : (z.step (.site i (.start name o))).ledger = z.ledger := by rw [hstart]
    have hreplica : ((z.step (.site i (.start name o))).sites i).replica = r₁ := by
      rw [hstart]
      simp
    have hflight : ((z.step (.site i (.start name o))).sites i).flights name = some ⟨t, none⟩ := by
      rw [hstart]
      simp [Site.put, Progress.flight?]
    rw [run_calls hran hledger hreplica hflight hcalls, hstart]
    simp [Site.put, Progress.flight?, hput]

end Fleet
end VersionedTopology

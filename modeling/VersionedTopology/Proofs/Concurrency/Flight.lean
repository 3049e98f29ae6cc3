/-
  VersionedTopology.Proofs.Concurrency.Flight

  Where the open operations of a site come from.

  An open operation was there before the turn, or the turn has made it: by starting
  it, by taking up its call, or by taking it on to its next call. So whatever is open
  after a run can be followed back through the run. An answer that is on its way goes
  back to the turn in which the store took up the call, and a claim to the turn in which
  its operation started, when it captured what the replica held then.
-/

import VersionedTopology.Proofs.Concurrency.Site

namespace VersionedTopology
namespace Site

/-- How an operation that is open after a turn came to be there. -/
inductive Origin (s : Site) (t : Turn) (name : Nat) : Flight → Prop
  | kept (f : Flight) (h : s.flights name = some f) : Origin s t name f
  | served (task : Task) (hmove : t.move = .serve name) (h : s.flights name = some ⟨task, none⟩) :
      Origin s t name ⟨task, some t.store⟩
  | started (o : Operation) (r : Replica) (task : Task) (hmove : t.move = .start name o)
      (h : Replica.Started s.replica o r (.waiting task)) : Origin s t name ⟨task, none⟩
  | resumed (task next : Task) (store : Backend.Oracle) (r : Replica)
      (hmove : t.move = .deliver name) (h : s.flights name = some ⟨task, some store⟩)
      (hresumed : Replica.Resumed s.replica task (store (task.call s.replica.key)) r
        (.waiting next)) :
      Origin s t name ⟨next, none⟩

theorem flights_put (s : Site) (name n : Nat) (f : Option Flight) :
    (s.put name f).flights n = if n = name then f else s.flights n := by
  simp only [put, Function.update_apply]

/-- An operation that is open after a turn was open before, unless the turn concerns it. -/
theorem eq_or_of_flights_put {s : Site} {name n : Nat} {g : Option Flight} {f : Flight}
    (h : (s.put name g).flights n = some f) : n = name ∧ g = some f ∨ s.flights n = some f := by
  rw [flights_put] at h
  split at h
  · rename_i hn
    exact .inl ⟨hn, h⟩
  · exact .inr h

theorem origin {s : Site} {t : Turn} {n : Nat} {f : Flight}
    (h : (s.step t).flights n = some f) : Origin s t n f := by
  have hchange := s.change t
  generalize s.step t = s' at hchange h
  cases hchange with
  | started store name o r p hfree hout hstarted =>
    obtain ⟨rfl, hp⟩ | hkept := eq_or_of_flights_put h
    · obtain ⟨task, rfl, rfl⟩ := Progress.flight?_eq_some hp
      exact .started o r task rfl hstarted
    · exact .kept f hkept
  | served store name task hflight =>
    obtain ⟨rfl, hf⟩ | hkept := eq_or_of_flights_put h
    · rw [← Option.some.inj hf]
      exact .served task rfl hflight
    · exact .kept f hkept
  | delivered store name task answered r p hflight hout hresumed =>
    obtain ⟨rfl, hp⟩ | hkept := eq_or_of_flights_put h
    · obtain ⟨next, rfl, rfl⟩ := Progress.flight?_eq_some hp
      exact .resumed task next answered r rfl hflight hresumed
    · exact .kept f hkept
  | dropped store name g hflight =>
    obtain ⟨-, hnone⟩ | hkept := eq_or_of_flights_put h
    · exact absurd hnone (by simp)
    · exact .kept f hkept
  | _ => exact .kept f h

/-! ## Following an open operation back -/

/-- A turn of a run is its last one, or one of those before. -/
theorem split_concat {ts us vs : List Turn} {t u : Turn} (h : ts ++ [t] = us ++ u :: vs) :
    (us = ts ∧ u = t ∧ vs = []) ∨ ∃ ws, vs = ws ++ [t] ∧ ts = us ++ u :: ws := by
  obtain rfl | ⟨ws, w, rfl⟩ := List.eq_nil_or_concat' vs
  · obtain ⟨rfl, heq⟩ := List.append_inj' h rfl
    exact .inl ⟨rfl, (List.singleton_inj.mp heq).symm, rfl⟩
  · rw [← List.cons_append, ← List.append_assoc] at h
    obtain ⟨rfl, heq⟩ := List.append_inj' h rfl
    exact .inr ⟨ws, by rw [List.singleton_inj.mp heq], rfl⟩

/-- A fact about part of a run, with one more turn after it. -/
theorem exists_split_concat {P : List Turn → Turn → Prop} {ts : List Turn} (t : Turn)
    (h : ∃ before u after, ts = before ++ u :: after ∧ P before u) :
    ∃ before u after, ts ++ [t] = before ++ u :: after ∧ P before u := by
  obtain ⟨before, u, after, rfl, hp⟩ := h
  exact ⟨before, u, after ++ [t], by simp, hp⟩

/-- An answer that is on its way was given in the turn in which the store took up the call. -/
theorem exists_served {key : EnvironmentKey} {canOverwrite : Bool} {ts : List Turn} {name : Nat}
    {task : Task} {store : Backend.Oracle}
    (h : ((Site.new key canOverwrite).run ts).flights name = some ⟨task, some store⟩) :
    ∃ before u after, ts = before ++ u :: after ∧ u = ⟨.serve name, store⟩ ∧
      ((Site.new key canOverwrite).run before).flights name = some ⟨task, none⟩ := by
  -- by induction on the run, from its end: the last turn gave the answer, or kept it
  induction ts using List.reverseRecOn with
  | nil => exact absurd h (by simp [new])
  | append_singleton ts t ih =>
    rw [run_concat] at h
    cases origin h with
    | kept _ hkept => exact exists_split_concat t (ih hkept)
    | served _ hmove hasked =>
      obtain ⟨move, store⟩ := t
      simp only at hmove
      subst hmove
      exact ⟨ts, _, [], rfl, rfl, hasked⟩

/-- The claim of a submission that goes on is the claim that it started with. -/
theorem submission?_resumed {r r' : Replica} {task next : Task} {a : (task.call r.key).Answer}
    (h : Replica.Resumed r task a r' (.waiting next)) {c : Claim} {m : Manner}
    (hsub : next.submission? = some (c, m)) : task.submission? = some (c, m) := by
  cases h with
  | checked c' s hseen => exact hsub
  | _ => exact absurd hsub (by simp [Task.submission?])

/-- What a submission carries was claimed in the turn that started it. -/
theorem submission?_started {r r' : Replica} {o : Operation} {task : Task}
    (h : Replica.Started r o r' (.waiting task)) {c : Claim} {m : Manner}
    (hsub : task.submission? = some (c, m)) :
    o.manner? = some m ∧ ∃ claimed, r.claim = .ok (c, claimed) := by
  cases h with
  | asked _ _ _ _ hclaim _ =>
    rw [hclaim] at hsub
    exact absurd hsub (by simp)
  | claimed force c' _ hclaim =>
    cases force <;>
      · simp only [Task.submission?, reduceIte, Bool.false_eq_true, Option.some.injEq,
          Prod.mk.injEq] at hsub
        obtain ⟨rfl, rfl⟩ := hsub
        exact ⟨rfl, _, hclaim⟩
  | confirmed c' claimed _ _ hclaim =>
    simp only [Task.submission?, Option.some.injEq, Prod.mk.injEq] at hsub
    obtain ⟨rfl, rfl⟩ := hsub
    exact ⟨rfl, claimed, hclaim⟩

/-- A submission that is open has claimed its batch in an earlier turn. -/
theorem exists_claim {key : EnvironmentKey} {canOverwrite : Bool} {ts : List Turn} {name : Nat}
    {f : Flight} {c : Claim} {m : Manner}
    (h : ((Site.new key canOverwrite).run ts).flights name = some f)
    (hsub : f.task.submission? = some (c, m)) :
    ∃ before u after, ts = before ++ u :: after ∧
      (∃ o, u.move = .start name o ∧ o.manner? = some m) ∧
      ∃ claimed, ((Site.new key canOverwrite).run before).replica.claim = .ok (c, claimed) := by
  -- the flight changes on the way from call to call, the claim does not
  induction ts using List.reverseRecOn generalizing f with
  | nil => exact absurd h (by simp [new])
  | append_singleton ts t ih =>
    rw [run_concat] at h
    cases origin h with
    | kept _ hkept => exact exists_split_concat t (ih hkept hsub)
    | served task hmove hasked => exact exists_split_concat t (ih hasked hsub)
    | started o r task hmove hstarted =>
      obtain ⟨hmanner, hclaim⟩ := submission?_started hstarted hsub
      exact ⟨ts, t, [], rfl, ⟨o, hmove, hmanner⟩, hclaim⟩
    | resumed task next store r hmove hanswered hresumed =>
      exact exists_split_concat t (ih hanswered (submission?_resumed hresumed hsub))

/-- No answer leads to a selection. -/
theorem ne_selecting_of_resumed {r r' : Replica} {task next : Task}
    {a : (task.call r.key).Answer} (h : Replica.Resumed r task a r' (.waiting next))
    (v : VersionNumber) : next ≠ .selecting v := by
  rintro rfl
  cases h

/-- An open operation is a selection only if it was started as one. -/
theorem exists_select {key : EnvironmentKey} {canOverwrite : Bool} {ts : List Turn}
    {name : Nat} {f : Flight} {v : VersionNumber}
    (h : ((Site.new key canOverwrite).run ts).flights name = some f)
    (hf : f.task = .selecting v) : ∃ t ∈ ts, t.move = .start name (.select v) := by
  induction ts using List.reverseRecOn generalizing f with
  | nil => exact absurd h (by simp [new])
  | append_singleton ts t ih =>
    have hlater : (∃ u ∈ ts, u.move = .start name (.select v)) →
        ∃ u ∈ ts ++ [t], u.move = .start name (.select v) := by
      rintro ⟨u, hu, hmove⟩
      exact ⟨u, List.mem_append_left _ hu, hmove⟩
    rw [run_concat] at h
    cases origin h with
    | kept _ hkept => exact hlater (ih hkept hf)
    | served task hmove hasked => exact hlater (ih hasked hf)
    | started o r task hmove hstarted =>
      refine ⟨t, by simp, ?_⟩
      cases hstarted with
      | asked _ _ _ _ _ hselect => rw [hmove, hselect v hf]
      | claimed force c _ _ => cases force <;> exact absurd hf (by simp)
      | confirmed c _ _ _ _ => exact absurd hf (by simp)
    | resumed task next store r hmove hanswered hresumed =>
      exact absurd hf (ne_selecting_of_resumed hresumed v)

end Site
end VersionedTopology

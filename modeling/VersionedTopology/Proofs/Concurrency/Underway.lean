/-
  VersionedTopology.Proofs.Concurrency.Underway

  Operations from their start to their end.

  An operation starts in a turn of its own and ends in one: with a value, with an error,
  or by being dropped. In between, other turns may come, and its name is taken. What is
  open at the end of a run is underway since exactly one turn of the run, and an open
  submission carries what the replica held in that turn: its current version, the newest
  number it had seen, and its batch.
-/

import VersionedTopology.Proofs.Concurrency.Flight

namespace VersionedTopology

/-- How an operation ends. -/
inductive Ending where
  | returned (value : Outcome)
  | failed (e : Error)
  | dropped

/-- The end that an operation has come to, if it has. -/
def Progress.ending? : Progress → Option Ending
  | .waiting _ => none
  | .finished (.ok value) => some (.returned value)
  | .finished (.error e) => some (.failed e)

theorem Progress.ending?_eq_none {p : Progress} (h : p.ending? = none) :
    ∃ t, p = .waiting t := by
  cases p with
  | waiting t => exact ⟨t, rfl⟩
  | finished result => cases result <;> exact absurd h (by simp [ending?])

theorem Progress.ending?_ne_dropped (p : Progress) : p.ending? ≠ some .dropped := by
  cases p with
  | waiting t => simp [ending?]
  | finished result => cases result <;> simp [ending?]

theorem Progress.flight?_of_ending {p : Progress} {e : Ending} (h : p.ending? = some e) :
    p.flight? = none := by
  cases p with
  | waiting t => exact absurd h (by simp [ending?])
  | finished result => rfl

namespace Replica

/-- What an operation submits if it is started now. -/
def submission? (r : Replica) (o : Operation) : Option (Claim × Manner) :=
  o.manner?.bind fun m => r.claim.toOption.map fun x => (x.1, m)

theorem submission?_eq_some {r : Replica} {o : Operation} {c : Claim} {m : Manner} :
    r.submission? o = some (c, m) ↔ o.manner? = some m ∧ ∃ r', r.claim = .ok (c, r') := by
  simp only [submission?, Option.bind_eq_some_iff, Option.map_eq_some_iff]
  constructor
  · rintro ⟨m', hm, ⟨c', r'⟩, hclaim, heq⟩
    obtain ⟨rfl, rfl⟩ := Prod.mk.inj heq
    refine ⟨hm, r', ?_⟩
    cases h : r.claim with
    | error e => exact absurd hclaim (by simp [h, Except.toOption])
    | ok x => rw [h] at hclaim; exact congrArg _ (Option.some.inj hclaim)
  · rintro ⟨hm, r', hclaim⟩
    exact ⟨m, hm, (c, r'), by simp [hclaim, Except.toOption], rfl⟩

/-- An operation that gets as far as a call submits what it claimed, in its own manner. -/
theorem Started.submission? {r r' : Replica} {o : Operation} {t : Task}
    (h : Started r o r' (.waiting t)) :
    t.submission? = r.submission? o ∧ t.submission?.map Prod.snd = o.manner? := by
  cases h with
  | asked _ _ ho _ hclaim _ => simp [Replica.submission?, ho, hclaim]
  | claimed force c _ hclaim =>
    have hsub : r.submission? (.apply force) =
        some (c, if force then .forced else .checked) :=
      submission?_eq_some.mpr ⟨by cases force <;> rfl, _, hclaim⟩
    rw [hsub]
    cases force <;> exact ⟨rfl, rfl⟩
  | confirmed c claimed _ _ hclaim =>
    exact ⟨(submission?_eq_some.mpr ⟨rfl, claimed, hclaim⟩).symm, rfl⟩

/-- On the way from call to call the submission stays the same, and so does the replica. -/
theorem Resumed.eq_of_waiting {r r' : Replica} {t next : Task} {a : (t.call r.key).Answer}
    (h : Resumed r t a r' (.waiting next)) : next.submission? = t.submission? ∧ r' = r := by
  cases h <;> exact ⟨rfl, rfl⟩

end Replica

namespace Site

/-- The submission that is open under a name. -/
def submission? (s : Site) (name : Nat) : Option (Claim × Manner) :=
  (s.flights name).bind fun f => f.task.submission?

theorem submission?_of_flight {s : Site} {name : Nat} {f : Flight} (h : s.flights name = some f) :
    s.submission? name = f.task.submission? := by
  simp [submission?, h]

theorem submission?_of_free {s : Site} {name : Nat} (h : s.flights name = none) :
    s.submission? name = none := by
  simp [submission?, h]

/-- How a move ends the operation of a name, if it does. -/
def ending? (s : Site) (name : Nat) (m : Move) : Option Ending :=
  if m.operation? = some name then
    match m with
    | .drop _ => (s.flights name).map fun _ => .dropped
    | _ => (s.outcome? m).bind fun out => out.2.ending?
  else none

/-! ## One turn -/

section turn

variable {s s' : Site} {t : Turn} {name : Nat}

/-- A turn of another operation does not concern this one. -/
theorem Change.flights_of_ne (h : Change s t s') (hm : t.move.operation? ≠ some name) :
    s'.flights name = s.flights name := by
  have hput : ∀ n f, some n ≠ some name → (s.put n f).flights name = s.flights name := by
    intro n f hn
    rw [flights_put, if_neg fun h => hn (congrArg some h.symm)]
  cases h with
  | started store n o r p => exact hput n _ hm
  | served store n task => exact hput n _ hm
  | delivered store n task answered r p => exact hput n _ hm
  | dropped store n f => exact hput n _ hm
  | _ => rfl

/-- An operation that a turn does not end stays open, with the same task or with the one that its
answer has led to, and its turns leave the replica as it is. -/
theorem Change.task_of_lasting {f : Flight} (h : Change s t s')
    (hf : s.flights name = some f) (hlasts : s.ending? name t.move = none) :
    ∃ f', s'.flights name = some f' ∧
      (f'.task = f.task ∨ ∃ store, f.answeredBy = some store ∧
        Replica.Resumed s.replica f.task (store (f.task.call s.replica.key)) s.replica
          (.waiting f'.task)) ∧
      (t.move.operation? = some name → s'.replica = s.replica) := by
  by_cases hm : t.move.operation? = some name
  · simp only [ending?, if_pos hm] at hlasts
    cases h with
    | started store n o r p hfree =>
      obtain rfl := Option.some.inj hm
      rw [hf] at hfree
      exact absurd hfree (by simp)
    | served store n task hflight =>
      obtain rfl := Option.some.inj hm
      rw [hf, Option.some.injEq] at hflight
      subst hflight
      exact ⟨⟨task, some store⟩, by rw [flights_put, if_pos rfl], .inl rfl, fun _ => rfl⟩
    | delivered store n task answered r p hflight hout hresumed =>
      obtain rfl := Option.some.inj hm
      rw [hf, Option.some.injEq] at hflight
      subst hflight
      -- no end, so the answer has led to the next call
      obtain ⟨next, rfl⟩ := Progress.ending?_eq_none (by simpa [hout] using hlasts)
      obtain ⟨-, rfl⟩ := hresumed.eq_of_waiting
      refine ⟨⟨next, none⟩, ?_, .inr ⟨answered, rfl, hresumed⟩, fun _ => rfl⟩
      exact (flights_put s _ _ _).trans (if_pos rfl)
    | dropped store n g hflight =>
      obtain rfl := Option.some.inj hm
      exact absurd hlasts (by simp [hflight])
    | ignored => exact ⟨f, hf, .inl rfl, fun _ => rfl⟩
    | _ => exact absurd hm (by simp [Move.operation?])
  · exact ⟨f, (h.flights_of_ne hm).trans hf, .inl rfl, fun hm' => absurd hm' hm⟩

/-- An operation that a turn does not end stays open, with the same submission. -/
theorem Change.flights_of_lasting {f : Flight} (h : Change s t s')
    (hf : s.flights name = some f) (hlasts : s.ending? name t.move = none) :
    ∃ f', s'.flights name = some f' ∧ f'.task.submission? = f.task.submission? ∧
      (t.move.operation? = some name → s'.replica = s.replica) := by
  obtain ⟨f', hf', htask | ⟨store, -, hresumed⟩, hquiet⟩ := h.task_of_lasting hf hlasts
  · exact ⟨f', hf', by rw [htask], hquiet⟩
  · exact ⟨f', hf', hresumed.eq_of_waiting.1, hquiet⟩

/-- An open operation ends with what the replica makes of an answer, or by being dropped. -/
theorem Change.ended_eq {f : Flight} {e : Ending} (h : Change s t s')
    (hf : s.flights name = some f) (hend : s.ending? name t.move = some e) :
    (∃ store p, f.answeredBy = some store ∧ p.ending? = some e ∧
      s.replica.resume f.task (store (f.task.call s.replica.key)) = (s'.replica, p)) ∨
    (e = .dropped ∧ s'.replica = s.replica.cancel f.task) := by
  by_cases hm : t.move.operation? = some name
  · simp only [ending?, if_pos hm] at hend
    cases h with
    | started store n o r p hfree =>
      obtain rfl := Option.some.inj hm
      rw [hf] at hfree
      exact absurd hfree (by simp)
    | served store n task hflight => exact absurd hend (by simp [outcome?])
    | delivered store n task answered r p hflight hout hresumed =>
      obtain rfl := Option.some.inj hm
      rw [hf, Option.some.injEq] at hflight
      subst hflight
      refine .inl ⟨answered, p, rfl, by simpa [hout] using hend, ?_⟩
      simpa [outcome?, hf] using hout
    | dropped store n g hflight =>
      obtain rfl := Option.some.inj hm
      rw [hf, Option.some.injEq] at hflight
      subst hflight
      exact .inr ⟨(Option.some.inj (by simpa [hf] using hend)).symm, rfl⟩
    | ignored store m n hm' hout hdrop =>
      obtain rfl := Option.some.inj (hm'.symm.trans hm)
      cases m with
      | drop n' =>
        obtain rfl := Option.some.inj hm
        exact absurd (hf.symm.trans (hdrop rfl)) (by simp)
      | _ => exact absurd hend (by simp [hout])
    | _ => exact absurd hm (by simp [Move.operation?])
  · exact absurd hend (by simp [ending?, hm])

/-- An open operation ends with an answer, or by being dropped. -/
theorem Change.ended {f : Flight} {e : Ending} (h : Change s t s')
    (hf : s.flights name = some f) (hend : s.ending? name t.move = some e) :
    (∃ store p, f.answeredBy = some store ∧ p.ending? = some e ∧
      Replica.Resumed s.replica f.task (store (f.task.call s.replica.key)) s'.replica p) ∨
    (e = .dropped ∧ s'.replica = s.replica.cancel f.task) := by
  obtain ⟨store, p, hanswered, hp, heq⟩ | hdropped := h.ended_eq hf hend
  · have hresumed := s.replica.resumed f.task (store (f.task.call s.replica.key))
    rw [heq] at hresumed
    exact .inl ⟨store, p, hanswered, hp, hresumed⟩
  · exact .inr hdropped

/-- The turn that ends an operation sets its name free. -/
theorem Change.flights_of_ending {e : Ending} (h : Change s t s')
    (hend : s.ending? name t.move = some e) : s'.flights name = none := by
  by_cases hm : t.move.operation? = some name
  · simp only [ending?, if_pos hm] at hend
    cases h with
    | started store n o r p hfree hout =>
      obtain rfl := Option.some.inj hm
      have hp : p.ending? = some e := by simpa [hout] using hend
      exact (flights_put s _ _ _).trans ((if_pos rfl).trans (Progress.flight?_of_ending hp))
    | delivered store n task answered r p hflight hout =>
      obtain rfl := Option.some.inj hm
      have hp : p.ending? = some e := by simpa [hout] using hend
      exact (flights_put s _ _ _).trans ((if_pos rfl).trans (Progress.flight?_of_ending hp))
    | dropped store n g hflight =>
      obtain rfl := Option.some.inj hm
      exact (flights_put s _ _ _).trans (if_pos rfl)
    | served store n task hflight => exact absurd hend (by simp [outcome?])
    | ignored store m n hm' hout hdrop =>
      obtain rfl := Option.some.inj (hm'.symm.trans hm)
      cases m with
      | drop n' =>
        obtain rfl := Option.some.inj hm
        exact hdrop rfl
      | _ => exact absurd hend (by simp [hout])
    | _ => exact absurd hm (by simp [Move.operation?])
  · exact absurd hend (by simp [ending?, hm])

end turn

/-! ## From start to end -/

/-- An operation is underway: it was started in the first turn, and no turn has ended it. -/
inductive Underway (s : Site) (name : Nat) (o : Operation) : List Turn → Prop
  | started (store : Backend.Oracle) (hfree : s.flights name = none)
      (hlasts : s.ending? name (.start name o) = none) :
      Underway s name o [⟨.start name o, store⟩]
  | lasting {ts : List Turn} (t : Turn) (h : Underway s name o ts)
      (hlasts : (s.run ts).ending? name t.move = none) : Underway s name o (ts ++ [t])

/-- The turns from the start of an operation to its end. -/
inductive Life (s : Site) (name : Nat) (o : Operation) : List Turn → Ending → Prop
  /-- The operation ends without any call. -/
  | atOnce (store : Backend.Oracle) (e : Ending) (hfree : s.flights name = none)
      (hend : s.ending? name (.start name o) = some e) :
      Life s name o [⟨.start name o, store⟩] e
  | later {ts : List Turn} (t : Turn) (e : Ending) (h : Underway s name o ts)
      (hend : (s.run ts).ending? name t.move = some e) : Life s name o (ts ++ [t]) e

theorem outcome?_start_of_free {s : Site} {name : Nat} (o : Operation)
    (h : s.flights name = none) : s.outcome? (.start name o) = some (s.replica.start o) := by
  simp [outcome?, h]

namespace Underway

variable {s : Site} {name : Nat} {o : Operation} {ts : List Turn}

/-- An operation that is underway waits for an answer, and still submits what it claimed at its
start. -/
theorem flight (h : Underway s name o ts) :
    ∃ f, (s.run ts).flights name = some f ∧ f.task.submission? = s.replica.submission? o ∧
      f.task.submission?.map Prod.snd = o.manner? := by
  induction h with
  | started store hfree hlasts =>
    have hout := outcome?_start_of_free o hfree
    have hwaits : (s.replica.start o).2.ending? = none := by
      simpa [ending?, Move.operation?, hout] using hlasts
    obtain ⟨t, ht⟩ := Progress.ending?_eq_none hwaits
    have hstarted := s.replica.started o
    rw [ht] at hstarted
    refine ⟨⟨t, none⟩, ?_, hstarted.submission?⟩
    simp only [run_cons, run_nil, step, hout, follow, ht, Progress.flight?]
    exact (flights_put s name name _).trans (if_pos rfl)
  | lasting t h hlasts ih =>
    obtain ⟨f, hf, hsub⟩ := ih
    obtain ⟨f', hf', hsame, -⟩ := (change _ t).flights_of_lasting hf hlasts
    exact ⟨f', by rw [run_concat, hf'], by rw [hsame]; exact hsub⟩

/-- Whoever submits has claimed the pipeline. -/
theorem exists_claim {m : Manner} (h : Underway s name o ts) (ho : o.manner? = some m) :
    ∃ c r, s.replica.claim = .ok (c, r) ∧ (s.run ts).submission? name = some (c, m) := by
  obtain ⟨f, hf, hsub, hmanner⟩ := h.flight
  rw [ho, Option.map_eq_some_iff] at hmanner
  obtain ⟨⟨c, m⟩, hc, rfl⟩ := hmanner
  obtain ⟨-, r, hclaim⟩ := Replica.submission?_eq_some.mp (hsub.symm.trans hc)
  exact ⟨c, r, hclaim, (submission?_of_flight hf).trans hc⟩

theorem free (h : Underway s name o ts) : s.flights name = none := by
  induction h with
  | started _ hfree _ => exact hfree
  | lasting _ _ _ ih => exact ih

theorem head (h : Underway s name o ts) : ∃ store rest, ts = ⟨.start name o, store⟩ :: rest := by
  induction h with
  | started store _ _ => exact ⟨store, [], rfl⟩
  | lasting t _ _ ih =>
    obtain ⟨store, rest, rfl⟩ := ih
    exact ⟨store, rest ++ [t], rfl⟩

theorem of_concat {t : Turn} (h : Underway s name o (ts ++ [t])) (hts : ts ≠ []) :
    Underway s name o ts ∧ (s.run ts).ending? name t.move = none := by
  generalize hus : ts ++ [t] = us at h
  cases h with
  | started store hfree hlasts =>
    -- one turn alone leaves no room for a start before it
    have hlength := congrArg List.length hus
    simp only [List.length_append, List.length_singleton] at hlength
    exact absurd (List.eq_nil_of_length_eq_zero (by omega)) hts
  | lasting u h hlasts =>
    obtain ⟨rfl, heq⟩ := List.append_inj' hus rfl
    obtain rfl := List.singleton_inj.mp heq
    exact ⟨h, hlasts⟩

/-- What is underway has been underway since its start. -/
theorem of_append {us : List Turn} (h : Underway s name o (ts ++ us)) (hts : ts ≠ []) :
    Underway s name o ts := by
  induction us using List.reverseRecOn with
  | nil => rwa [List.append_nil] at h
  | append_singleton us u ih =>
    rw [← List.append_assoc] at h
    exact ih (h.of_concat (by simp [hts])).1

end Underway

/-- Whatever is open at the end of a run is underway since a turn of the run. -/
theorem exists_underway {key : EnvironmentKey} {canOverwrite : Bool} {ts : List Turn}
    {name : Nat} {f : Flight} (h : ((Site.new key canOverwrite).run ts).flights name = some f) :
    ∃ before after o, ts = before ++ after ∧
      Underway ((Site.new key canOverwrite).run before) name o after := by
  -- from the end of the run: the last turn has started the operation, or left it open
  induction ts using List.reverseRecOn generalizing f with
  | nil => exact absurd h (by simp [new])
  | append_singleton ts t ih =>
    rw [run_concat] at h
    have hlasts : ((Site.new key canOverwrite).run ts).ending? name t.move = none := by
      cases hend : ((Site.new key canOverwrite).run ts).ending? name t.move with
      | none => rfl
      | some e =>
        have hfree := (change _ t).flights_of_ending hend
        rw [h] at hfree
        exact absurd hfree (by simp)
    cases hopen : ((Site.new key canOverwrite).run ts).flights name with
    | some g =>
      obtain ⟨before, after, o, rfl, hunderway⟩ := ih hopen
      rw [run_append] at hlasts
      exact ⟨before, after ++ [t], o, List.append_assoc .., .lasting t hunderway hlasts⟩
    | none =>
      cases origin h with
      | kept _ hkept => exact absurd (hopen.symm.trans hkept) (by simp)
      | served task _ hasked => exact absurd (hopen.symm.trans hasked) (by simp)
      | resumed task next store r _ hanswered _ =>
        exact absurd (hopen.symm.trans hanswered) (by simp)
      | started o r task hmove _ =>
        obtain ⟨move, store⟩ := t
        obtain rfl : move = .start name o := hmove
        exact ⟨ts, [⟨.start name o, store⟩], o, rfl, .started store hopen hlasts⟩

/-- Nothing is underway twice under one name. -/
theorem Underway.unique {s : Site} {name : Nat} {o o' : Operation}
    {before after before' after' : List Turn} (h : Underway (s.run before) name o after)
    (h' : Underway (s.run before') name o' after') (hts : before ++ after = before' ++ after') :
    before = before' ∧ o = o' := by
  -- a start in between would have found the name taken
  have hlater : ∀ {b a b' a' : List Turn} {o o' : Operation}, Underway (s.run b) name o a →
      Underway (s.run b') name o' a' → b ++ a = b' ++ a' → ¬ b.length < b'.length := by
    intro b a b' a' o o' h h' heq hlt
    obtain ⟨mid, rfl⟩ : b <+: b' :=
      List.prefix_of_prefix_length_le ⟨a, heq⟩ ⟨a', rfl⟩ (Nat.le_of_lt hlt)
    have hmid : mid ≠ [] := by
      rintro rfl
      simp at hlt
    rw [List.append_assoc, List.append_cancel_left_eq] at heq
    subst heq
    obtain ⟨f, hf, -⟩ := (h.of_append hmid).flight
    rw [← run_append, h'.free] at hf
    exact absurd hf (by simp)
  have hlength : before.length = before'.length :=
    Nat.le_antisymm (Nat.le_of_not_lt (hlater h' h hts.symm)) (Nat.le_of_not_lt (hlater h h' hts))
  obtain ⟨rfl, rfl⟩ := List.append_inj hts hlength
  obtain ⟨store, rest, rfl⟩ := h.head
  obtain ⟨store', rest', heq⟩ := h'.head
  simp only [List.cons.injEq, Turn.mk.injEq, Move.start.injEq] at heq
  exact ⟨rfl, heq.1.1.2⟩

end Site
end VersionedTopology

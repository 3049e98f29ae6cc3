/-
  VersionedTopology.Proofs.Concurrency.Chronicle

  The events of one subscriber, as a log of its site.

  An inbox that is opened at some point and stays open is told of everything that becomes
  current from then on, and of nothing else. What it is told in a turn depends on no inbox,
  so it does not matter which others are opened, closed or emptied in the meantime, nor when
  the inbox itself is emptied. The number in the last event, apart from notices of dropped
  batches, is therefore the number of the current version.
-/

import VersionedTopology.Proofs.Concurrency.CarriedBatch
import VersionedTopology.Proofs.Replica.Inbox

namespace VersionedTopology
namespace Site

/-- The inbox that a move opens or closes. -/
def Move.lifetime? : Move → Option Nat
  | .subscribe inbox => some inbox
  | .unsubscribe inbox => some inbox
  | _ => none

/-- The inbox that a move opens, closes or empties. -/
def Move.inbox? : Move → Option Nat
  | .subscribe inbox => some inbox
  | .unsubscribe inbox => some inbox
  | .drain inbox => some inbox
  | _ => none

/-! ## What is heard -/

/-- What a move takes out of an inbox. -/
def taken (s : Site) (id : Nat) : Move → List Event
  | .drain inbox => if inbox = id then (s.replica.drain id).1 else []
  | _ => []

/-- What a list of turns takes out of an inbox. -/
def received (s : Site) (id : Nat) : List Turn → List Event
  | [] => []
  | t :: ts => s.taken id t.move ++ (s.step t).received id ts

/-- Everything that an inbox has been told by the end of the turns: what they have taken out of it,
and what is still in it. -/
def heard (s : Site) (id : Nat) (ts : List Turn) : List Event :=
  s.received id ts ++ ((s.run ts).replica.drain id).1

/-! ## What is told -/

/-- What a move tells the subscribers. -/
def news (s : Site) : Move → List Event
  | .deliver name =>
    match s.flights name, s.outcome? (.deliver name) with
    | some f, some (r, p) => s.replica.told f.task r p
    | _, _ => []
  | _ => []

/-- What a list of turns tells the subscribers. -/
def chronicle (s : Site) : List Turn → List Event
  | [] => []
  | t :: ts => s.news t.move ++ (s.step t).chronicle ts

theorem chronicle_concat (s : Site) (ts : List Turn) (t : Turn) :
    s.chronicle (ts ++ [t]) = s.chronicle ts ++ (s.run ts).news t.move := by
  induction ts generalizing s with
  | nil => simp [chronicle]
  | cons u ts ih => simp [chronicle, ih, List.append_assoc]

theorem news_deliver {s : Site} {name : Nat} {f : Flight} {r : Replica} {p : Progress}
    (hf : s.flights name = some f) (hout : s.outcome? (.deliver name) = some (r, p)) :
    s.news (.deliver name) = s.replica.told f.task r p := by
  simp only [news, hf, hout]

/-- Where nothing becomes current, nothing is told. -/
theorem news_of_none {s : Site} {m : Move} (h : s.installed? m = none) : s.news m = [] := by
  cases m with
  | deliver name =>
    cases hout : s.outcome? (.deliver name) with
    | none => simp [news, hout]
    | some out =>
      obtain ⟨task, store, hflight, -⟩ := outcome?_deliver hout
      have hnone : out.2.installed? = none := by simpa [installed?, hout] using h
      rw [news_deliver hflight hout, Replica.told, hnone]
  | _ => rfl

/-- Every operation that is going to install a fetched version reports the number of that version.
-/
def Aimed (s : Site) : Prop := ∀ name f, s.flights name = some f → f.task.Aimed

theorem Aimed.step {s : Site} (h : s.Aimed) (t : Turn) : (s.step t).Aimed := by
  intro name f hf
  cases origin hf with
  | kept _ hkept => exact h name f hkept
  | served task _ hasked => exact h name ⟨task, none⟩ hasked
  | started o r task _ hstarted => exact hstarted.aimed
  | resumed task next store r _ _ hresumed => exact hresumed.aimed

theorem aimed_new (key : EnvironmentKey) (canOverwrite : Bool) : (new key canOverwrite).Aimed := by
  intro name f hf
  exact absurd hf (by simp [new])

theorem Aimed.run {s : Site} (h : s.Aimed) (ts : List Turn) : (s.run ts).Aimed := by
  induction ts generalizing s with
  | nil => exact h
  | cons t ts ih => exact ih (h.step t)

/-- A load, a selection or a step finds constraints staged and leaves none. -/
def Drops (s : Site) (t : Turn) : Prop :=
  s.settled? t.move = none ∧ s.replica.batch.constraints ≠ [] ∧
    (s.step t).replica.batch.constraints = []

/-- A version that becomes current is reported by the operation that installs it, right after the
batch that is dropped for it. -/
theorem news_of_installed {s : Site} (hs : s.Coherent) (haimed : s.Aimed) {t : Turn} {v : Snapshot}
    (hv : s.installed? t.move = some v) :
    ∃ notice e, s.news t.move = notice ++ [e] ∧ e.reached? = some v.version ∧
      (∃ name f, t.move = .deliver name ∧ s.flights name = some f ∧
        f.task.report? v = some e) ∧
      (s.Drops t → ∃ base, s.replica.batch.base = some base ∧
        notice = [.batchDiscarded base s.replica.batch.constraints.length]) ∧
      (¬ s.Drops t → notice = []) := by
  obtain ⟨move, store⟩ := t
  obtain ⟨name, task, answered, r, p, rfl, hflight, hout, hinstalled, hresumed⟩ :=
    installed?_eq_some hv
  obtain ⟨e, hreport, hreached⟩ := hresumed.report (haimed name _ hflight) hinstalled
  have hnews := news_deliver hflight hout
  simp only [Replica.told, hinstalled, hreport, Option.toList_some] at hnews
  have hbatch : (s.step ⟨.deliver name, store⟩).replica.batch = r.batch := by
    simp [step, hout, follow]
  have hsettled : s.settled? (.deliver name) = task.submission?.map Prod.fst := by
    simp [settled?, hflight]
  refine ⟨_, e, hnews, hreached, ⟨name, _, rfl, hflight, hreport⟩, ?_, ?_⟩
  · rintro ⟨hnone, hfull, hgone⟩
    have hfetch : task.submission? = none := by simpa [hsettled] using hnone
    obtain ⟨base, hbase, hnotice⟩ :=
      Replica.dropNotice_of_dropped hs.replica.batch hfull (hbatch ▸ hgone)
    exact ⟨base, hbase, by simp [hfetch, hnotice]⟩
  · intro hkept
    cases hsub : task.submission? with
    | some x => simp
    | none =>
      have hor : s.replica.batch.constraints = [] ∨ r.batch.constraints ≠ [] := by
        by_contra hcon
        push Not at hcon
        exact hkept ⟨by simp [hsettled, hsub], hcon.1, hbatch ▸ hcon.2⟩
      simp [Replica.dropNotice_of_kept hor]

/-! ## An inbox that stays open -/

/-- There is one inbox of that name, and it holds these events. -/
def Holds (s : Site) (id : Nat) (q : List Event) : Prop :=
  s.replica.inboxes.filter (fun i => i.id = id) = [⟨id, q⟩]

theorem Holds.drain {s : Site} {id : Nat} {q : List Event} (h : s.Holds id q) :
    (s.replica.drain id).1 = q := by
  unfold Holds at h
  simp [Replica.drain, h]

/-- What is done to every inbox is done to this one. -/
theorem Holds.map {s s' : Site} {id : Nat} {q : List Event} (h : s.Holds id q)
    {f : Inbox → Inbox} (hid : ∀ i, (f i).id = i.id)
    (hinboxes : s'.replica.inboxes = s.replica.inboxes.map f) : s'.Holds id (f ⟨id, q⟩).queue := by
  unfold Holds at h ⊢
  have hcomp : ((fun i : Inbox => decide (i.id = id)) ∘ f) = fun i => decide (i.id = id) := by
    funext i
    simp only [Function.comp, hid]
  rw [hinboxes, List.filter_map, hcomp, h, List.map_singleton]
  exact congrArg (fun n => [Inbox.mk n (f ⟨id, q⟩).queue]) (hid ⟨id, q⟩)

/-- A new inbox is empty. -/
theorem holds_subscribe {s : Site} {id : Nat} (hfree : ∀ i ∈ s.replica.inboxes, i.id ≠ id)
    (store : Backend.Oracle) : (s.step ⟨.subscribe id, store⟩).Holds id [] := by
  have hnone : s.replica.inboxes.filter (fun i => i.id = id) = [] := by
    simpa [List.filter_eq_nil_iff] using hfree
  simp [Holds, step, Replica.subscribe, hnone]

/-- The moves of operations and of the batch put what they tell into every inbox. -/
theorem step_inboxes {s : Site} (hs : s.Coherent) {t : Turn} (h : t.move.inbox? = none) :
    (s.step t).replica.inboxes = s.replica.inboxes.map (·.push (s.news t.move)) := by
  have hchange := s.change t
  generalize s.step t = s' at hchange
  cases hchange with
  | staged store c replaced r hstage =>
    obtain ⟨-, b, -, -, rfl⟩ := Replica.stage_ok hstage
    simp [news]
  | subscribed store inbox => exact absurd h (by simp [Move.inbox?])
  | unsubscribed store inbox => exact absurd h (by simp [Move.inbox?])
  | drained store inbox => exact absurd h (by simp [Move.inbox?])
  | ignored store m name hm hout hdrop =>
    have hnone : s.installed? m = none := by simp [installed?, hout]
    simp [news_of_none hnone]
  | started store name o r p hfree hout hstarted => simp [news, hstarted.inboxes]
  | delivered store name task answered r p hflight hout hresumed =>
    rw [news_deliver hflight hout]
    exact hresumed.inboxes hs.replica.batch
  | dropped store name f hflight => simp [news, Replica.cancel_inboxes]
  | _ => simp [news, Replica.discard, Replica.clearOverwrite, put]

/-- One turn: what is taken out of an open inbox, and what is in it afterwards, are what was in it
and what the turn tells. -/
theorem Holds.step {s : Site} (hs : s.Coherent) {id : Nat} {q : List Event} (h : s.Holds id q)
    {t : Turn} (halive : t.move.lifetime? ≠ some id) :
    ∃ q', (s.step t).Holds id q' ∧ s.taken id t.move ++ q' = q ++ s.news t.move := by
  obtain ⟨move, store⟩ := t
  cases hinbox : move.inbox? with
  | none =>
    have htaken : s.taken id move = [] := by
      cases move with
      | drain other => exact absurd hinbox (by simp [Move.inbox?])
      | _ => rfl
    have htold : (s.step ⟨move, store⟩).Holds id (q ++ s.news move) :=
      h.map (f := (·.push (s.news move))) (fun _ => rfl) (step_inboxes hs hinbox)
    exact ⟨_, htold, by rw [htaken, List.nil_append]⟩
  | some inbox =>
    cases move with
    | subscribe other =>
      have hne : other ≠ id := by simpa [Move.lifetime?] using halive
      unfold Holds at h ⊢
      exact ⟨q, by simp [Site.step, Replica.subscribe, h, hne], by simp [taken, news]⟩
    | unsubscribe other =>
      have hne : other ≠ id := by simpa [Move.lifetime?] using halive
      unfold Holds at h ⊢
      refine ⟨q, ?_, by simp [taken, news]⟩
      have hkeep : (fun i : Inbox => decide (i.id = id) && decide (i.id ≠ other)) =
          fun i => decide (i.id = id) := by
        funext i
        by_cases hi : i.id = id
        · simp [hi, hne.symm]
        · simp [hi]
      simp only [Site.step, Replica.unsubscribe, List.filter_filter, hkeep, h]
    | drain other =>
      -- emptying another inbox leaves this one as it is
      have hdrain : (s.step ⟨.drain other, store⟩).Holds id _ :=
        h.map (f := fun i => if i.id = other then { i with queue := [] } else i)
          (fun i => by split <;> rfl) rfl
      refine ⟨_, hdrain, ?_⟩
      by_cases heq : other = id
      · simp [taken, news, heq, h.drain]
      · simp [taken, news, heq, Ne.symm heq]
    | _ => exact absurd hinbox (by simp [Move.inbox?])

/-- What an inbox that stays open hears is exactly what the turns tell. -/
theorem heard_eq_chronicle {s : Site} (hs : s.Coherent) {id : Nat} {q : List Event}
    (h : s.Holds id q) {ts : List Turn} (halive : ∀ t ∈ ts, t.move.lifetime? ≠ some id) :
    s.heard id ts = q ++ s.chronicle ts := by
  induction ts generalizing s q with
  | nil => simp [heard, received, chronicle, h.drain]
  | cons t ts ih =>
    obtain ⟨q', hq', htaken⟩ := h.step hs (halive t List.mem_cons_self)
    have hlater := ih (hs.step t) hq' fun u hu => halive u (List.mem_cons_of_mem _ hu)
    simp only [heard] at hlater
    rw [heard, received, run_cons, List.append_assoc, hlater, ← List.append_assoc, htaken,
      List.append_assoc, chronicle]

/-! ## Other inboxes -/

/-- The site without any inbox. -/
def mute (s : Site) : Site := { s with replica := s.replica.mute }

theorem outcome?_mute (s : Site) (m : Move) :
    s.mute.outcome? m = (s.outcome? m).map fun out => (out.1.mute, out.2) := by
  cases m with
  | start name o =>
    cases hflight : s.flights name with
    | none => simp [outcome?, mute, hflight, Replica.start_mute]
    | some f => simp [outcome?, mute, hflight]
  | deliver name =>
    cases hflight : s.flights name with
    | none => simp [outcome?, mute, hflight]
    | some f =>
      obtain ⟨task, answer⟩ := f
      cases answer with
      | none => simp [outcome?, mute, hflight]
      | some store => simp [outcome?, mute, hflight, Replica.resume_mute]
  | _ => rfl

theorem follow_mute (s : Site) (name : Nat) (out : Option (Replica × Progress)) :
    s.mute.follow name (out.map fun out => (out.1.mute, out.2)) = (s.follow name out).mute := by
  cases out <;> rfl

/-- A site does the same without any inbox. -/
theorem step_mute (s : Site) (t : Turn) : (s.mute.step t).mute = (s.step t).mute := by
  obtain ⟨move, store⟩ := t
  cases move with
  | stage c =>
    cases hstage : s.replica.stage c <;>
      simp [step, mute, Replica.stage_mute, hstage, Except.map]
  | start name o => simp only [step, outcome?_mute, follow_mute]; rfl
  | deliver name => simp only [step, outcome?_mute, follow_mute]; rfl
  | serve name =>
    simp only [step]
    have hflights : s.mute.flights = s.flights := rfl
    rw [hflights]
    split <;> rfl
  | drop name =>
    cases hflight : s.flights name with
    | none => simp [step, mute, hflight]
    | some f => simp [step, mute, put, hflight, Replica.cancel_mute]
  | _ => rfl

theorem news_mute (s : Site) (m : Move) : s.mute.news m = s.news m := by
  cases m with
  | deliver name =>
    have hflights : s.mute.flights name = s.flights name := rfl
    simp only [news, hflights, outcome?_mute]
    cases s.flights name <;> cases s.outcome? (.deliver name) <;> rfl
  | _ => rfl

theorem chronicle_mute (s : Site) (ts : List Turn) : s.mute.chronicle ts = s.chronicle ts := by
  induction ts generalizing s with
  | nil => rfl
  | cons t ts ih =>
    rw [chronicle, chronicle, news_mute, ← ih (s.mute.step t), step_mute, ih]

/-- A turn that only opens, closes or empties an inbox. -/
theorem step_mute_of_inbox {s : Site} {t : Turn} (h : t.move.inbox? ≠ none) :
    (s.step t).mute = s.mute ∧ s.news t.move = [] := by
  obtain ⟨move, store⟩ := t
  cases move with
  | subscribe inbox => exact ⟨rfl, rfl⟩
  | unsubscribe inbox => exact ⟨rfl, rfl⟩
  | drain inbox => exact ⟨rfl, rfl⟩
  | _ => exact absurd rfl h

/-- The turns without those that only open, close or empty other inboxes. -/
def alone (id : Nat) (ts : List Turn) : List Turn :=
  ts.filter fun t => t.move.inbox?.all fun inbox => inbox = id

theorem run_mute (s : Site) (ts : List Turn) : (s.mute.run ts).mute = (s.run ts).mute := by
  induction ts generalizing s with
  | nil => rfl
  | cons t ts ih => rw [run_cons, run_cons, ← ih (s.mute.step t), step_mute, ih]

/-- What is told does not depend on other inboxes, nor does anything else at the site. -/
theorem chronicle_alone (s : Site) (id : Nat) (ts : List Turn) :
    s.chronicle (alone id ts) = s.chronicle ts ∧
      (s.run (alone id ts)).mute = (s.run ts).mute := by
  induction ts generalizing s with
  | nil => exact ⟨rfl, rfl⟩
  | cons t ts ih =>
    obtain ⟨hchronicle, hrun⟩ := ih (s.step t)
    by_cases hkept : (t.move.inbox?.all fun inbox => inbox = id) = true
    · have halone : alone id (t :: ts) = t :: alone id ts := List.filter_cons_of_pos hkept
      rw [halone]
      exact ⟨congrArg (s.news t.move ++ ·) hchronicle, hrun⟩
    · have halone : alone id (t :: ts) = alone id ts := List.filter_cons_of_neg hkept
      have hinbox : t.move.inbox? ≠ none := by
        intro hnone
        simp [hnone] at hkept
      obtain ⟨hmute, hnews⟩ := step_mute_of_inbox (s := s) hinbox
      -- without its inboxes the site is the same before and after the turn
      rw [halone, chronicle, hnews, List.nil_append, run_cons]
      obtain ⟨hhere, hthere⟩ := ih s
      rw [hhere, hthere, ← chronicle_mute (s.step t), ← run_mute (s.step t), hmute]
      exact ⟨(chronicle_mute s ts).symm, (run_mute s ts).symm⟩

/-! ## The log -/

/-- The numbers in what is told are those of the versions that become current, in order. -/
theorem filterMap_chronicle {s : Site} (hs : s.Coherent) (haimed : s.Aimed) (ts : List Turn) :
    (s.chronicle ts).filterMap Event.reached? = (s.installs ts).map Snapshot.version := by
  induction ts generalizing s with
  | nil => rfl
  | cons t ts ih =>
    rw [chronicle, installs, List.filterMap_append, List.map_append, ih (hs.step t) (haimed.step t)]
    congr 1
    cases hv : s.installed? t.move with
    | none => rw [news_of_none hv]; rfl
    | some v =>
      obtain ⟨notice, e, hnews, hreached, -, hdrop, hkeep⟩ := news_of_installed hs haimed hv
      rw [hnews, List.filterMap_append]
      by_cases hdrops : s.Drops t
      · obtain ⟨base, -, rfl⟩ := hdrop hdrops
        have hnotice : (Event.batchDiscarded base s.replica.batch.constraints.length).reached? =
            none := rfl
        simp [hnotice, hreached]
      · simp [hkeep hdrops, hreached]

/-- **The events are a faithful log.** A subscriber whose inbox stays open has heard nothing at
first, and hears something in a turn only if the turn makes a version current. Then the operation
reports the number of that version in one event. Right before it comes one notice with the base of
the batch and the number of its constraints if a load, a selection or a step has dropped a batch
that was not empty, and nothing otherwise. So the numbers reported are those of the versions
installed, in order, and the last of them is that of the current version. None of it depends on when
the inbox is emptied, or on other inboxes. -/
theorem faithful_log (key : EnvironmentKey) (canOverwrite : Bool) (before : List Turn) (id : Nat)
    (store : Backend.Oracle) (ts : List Turn)
    (hfree : ∀ i ∈ ((Site.new key canOverwrite).run before).replica.inboxes, i.id ≠ id)
    (halive : ∀ t ∈ ts, t.move.lifetime? ≠ some id) :
    let s := ((Site.new key canOverwrite).run before).step ⟨.subscribe id, store⟩
    s.heard id [] = [] ∧
    (∀ pre t post, ts = pre ++ t :: post →
      ((s.run pre).installed? t.move = none → s.heard id (pre ++ [t]) = s.heard id pre) ∧
      ∀ v, (s.run pre).installed? t.move = some v → ∃ notice e,
        s.heard id (pre ++ [t]) = s.heard id pre ++ notice ++ [e] ∧
        e.reached? = some v.version ∧
        (∃ name f, t.move = .deliver name ∧ (s.run pre).flights name = some f ∧
          f.task.report? v = some e) ∧
        ((s.run pre).Drops t → ∃ base, (s.run pre).replica.batch.base = some base ∧
          notice = [.batchDiscarded base (s.run pre).replica.batch.constraints.length]) ∧
        (¬ (s.run pre).Drops t → notice = [])) ∧
    (s.heard id ts).filterMap Event.reached? = (s.installs ts).map Snapshot.version ∧
    (s.run ts).replica.current.map Snapshot.version =
      ((s.heard id ts).filterMap Event.reached?).getLast?.or
        (s.replica.current.map Snapshot.version) ∧
    s.heard id (alone id ts) = s.heard id ts ∧
    (s.run (alone id ts)).mute = (s.run ts).mute := by
  intro s
  have hstart := (coherent_new key canOverwrite).run before
  have hs : s.Coherent := hstart.step _
  have haimed : s.Aimed := ((aimed_new key canOverwrite).run before).step _
  have hopen : s.Holds id [] := holds_subscribe hfree store
  have hheard : ∀ us, (∀ t ∈ us, t.move.lifetime? ≠ some id) → s.heard id us = s.chronicle us :=
    fun us hus => by rw [heard_eq_chronicle hs hopen hus, List.nil_append]
  have hnumbers := filterMap_chronicle hs haimed ts
  obtain ⟨hchronicle, hmute⟩ := s.chronicle_alone id ts
  refine ⟨hheard [] (by simp), ?_, ?_, ?_, ?_, hmute⟩
  · rintro pre t post rfl
    have hpre : ∀ u ∈ pre ++ [t], u.move.lifetime? ≠ some id := fun u hu =>
      halive u (by simp only [List.mem_append, List.mem_cons] at hu ⊢; tauto)
    have hgrows : s.heard id (pre ++ [t]) = s.heard id pre ++ (s.run pre).news t.move := by
      rw [hheard _ hpre, hheard pre fun u hu => hpre u (List.mem_append_left _ hu),
        chronicle_concat]
    refine ⟨fun hnone => ?_, fun v hv => ?_⟩
    · rw [hgrows, news_of_none hnone, List.append_nil]
    · obtain ⟨notice, e, hnews, hlaws⟩ := news_of_installed (hs.run pre) (haimed.run pre) hv
      exact ⟨notice, e, by rw [hgrows, hnews, List.append_assoc], hlaws⟩
  · rw [hheard ts halive, hnumbers]
  · rw [hheard ts halive, hnumbers, run_current, List.getLast?_map]
    cases (s.installs ts).getLast? <;> rfl
  · have hfew : ∀ t ∈ alone id ts, t.move.lifetime? ≠ some id :=
      fun t ht => halive t (List.mem_of_mem_filter ht)
    rw [hheard _ hfew, hheard ts halive, hchronicle]

/-- The turns of a client that goes back to an older version with a constraint staged and a
submission under way, up to the result of the submission. -/
def crossed : List Turn := crossing ++ [⟨.deliver 1, Fleet.untouched⟩]

theorem faithful_log_crossed :
    let s := ((Site.new Fleet.shop false).run []).step ⟨.subscribe 7, Fleet.untouched⟩
    (∀ t ∈ crossed, t.move.lifetime? ≠ some 7) ∧
    (s.heard 7 crossed).filterMap Event.reached? = [2, 1, 3] ∧
    (s.heard 7 crossed).length = 4 ∧
    (s.run crossed).replica.current.map Snapshot.version = some 3 := by
  intro s
  have hfree : ∀ i ∈ ((Site.new Fleet.shop false).run []).replica.inboxes, i.id ≠ 7 := by
    intro i hi
    exact absurd hi (by simp [new, Replica.new])
  have halive : ∀ t ∈ crossed, t.move.lifetime? ≠ some 7 := by decide +kernel
  have hinstalls : (s.installs crossed).map Snapshot.version = [2, 1, 3] := by decide +kernel
  obtain ⟨-, -, hnumbers, hcurrent, -⟩ :=
    faithful_log Fleet.shop false [] 7 Fleet.untouched crossed hfree halive
  have hheard : (s.heard 7 crossed).filterMap Event.reached? = [2, 1, 3] :=
    hnumbers.trans hinstalls
  -- three versions, and the notice of the batch that was dropped on the way back
  have hlength : (s.heard 7 crossed).length = 4 := by decide +kernel
  refine ⟨halive, hheard, hlength, ?_⟩
  rw [hcurrent, hheard]
  simp only [List.getLast?_cons_cons, List.getLast?_singleton, Option.some_or]

end Site
end VersionedTopology

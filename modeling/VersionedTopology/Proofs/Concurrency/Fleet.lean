/-
  VersionedTopology.Proofs.Concurrency.Fleet

  Sites that share one ledger.

  A fleet is a ledger and any number of sites. A move is that of one of its sites, or a
  request that comes to the ledger from somewhere else. When a site's move lets the
  store take up a call, the ledger answers it at that moment, so the moves of a fleet
  give each site the turns that it takes, and everything that holds of the runs of a
  site holds of each site of a fleet.
-/

import VersionedTopology.Proofs.Concurrency.Invariant
import VersionedTopology.Proofs.History.Ledger

namespace VersionedTopology

/-- The answers of a ledger as it is now. -/
def Ledger.oracle (l : Ledger) : Backend.Oracle := fun c => (l.answer c).2

/-- The call that the store takes up in a move. -/
def Site.asked? (s : Site) : Site.Move → Option Backend.Call
  | .serve name =>
    match s.flights name with
    | some ⟨task, none⟩ => some (task.call s.replica.key)
    | _ => none
  | _ => none

/-- A ledger, and the sites that work with it. -/
structure Fleet (ι : Type) where
  ledger : Ledger
  sites : ι → Site

namespace Fleet

section definitions

variable {ι : Type}

/-- A ledger without logs, and sites that have loaded and opened nothing. -/
def new (schema : Schema) (keys : ι → EnvironmentKey) (permitted : ι → Bool) : Fleet ι where
  ledger := { schema }
  sites := fun i => Site.new (keys i) (permitted i)

theorem wellFormed_new (schema : Schema) (keys : ι → EnvironmentKey) (permitted : ι → Bool) :
    (Fleet.new schema keys permitted).ledger.WellFormed :=
  Ledger.wellFormed_new schema

/-- What can happen in a fleet. -/
inductive Move (ι : Type) where
  | site (i : ι) (m : Site.Move)
  | direct (a : Ledger.Act)

/-- The moves of an operation that goes from start to end with nothing in between. -/
def Move.whole (i : ι) (name : Nat) (o : Operation) (calls : Nat) : List (Move ι) :=
  .site i (.start name o) ::
    (List.replicate calls [.site i (.serve name), .site i (.deliver name)]).flatten

/-- The environment of the example runs. -/
def shop : EnvironmentKey := ⟨"shop", "prod"⟩

/-- Two clients of one environment. -/
def pair : Fleet Bool := new {} (fun _ => shop) fun _ => false

end definitions

variable {ι : Type} [DecidableEq ι]

/-- The turn that a move gives to a site. -/
def turn? (z : Fleet ι) (i : ι) : Move ι → Option Site.Turn
  | .site j m => if j = i then some ⟨m, z.ledger.oracle⟩ else none
  | .direct _ => none

/-- The fleet after a move. -/
def step (z : Fleet ι) : Move ι → Fleet ι
  | .site i m =>
    { ledger := ((z.sites i).asked? m).elim z.ledger fun c => (z.ledger.answer c).1
      sites := Function.update z.sites i ((z.sites i).step ⟨m, z.ledger.oracle⟩) }
  | .direct a => { z with ledger := z.ledger.act a }

/-- The fleet after a list of moves. -/
def run (z : Fleet ι) (ms : List (Move ι)) : Fleet ι := ms.foldl step z

/-- The turns that a list of moves gives to a site. -/
def turns (z : Fleet ι) (i : ι) : List (Move ι) → List Site.Turn
  | [] => []
  | m :: ms => (z.turn? i m).toList ++ (z.step m).turns i ms

/-- The versions that a list of moves makes current at a site, in order. -/
def installs (z : Fleet ι) (i : ι) (ms : List (Move ι)) : List Snapshot :=
  (z.sites i).installs (z.turns i ms)

/-! ## Runs -/

@[simp] theorem run_nil (z : Fleet ι) : z.run [] = z := rfl

@[simp] theorem run_cons (z : Fleet ι) (m : Move ι) (ms : List (Move ι)) :
    z.run (m :: ms) = (z.step m).run ms := rfl

theorem run_append (z : Fleet ι) (ms ns : List (Move ι)) :
    z.run (ms ++ ns) = (z.run ms).run ns :=
  List.foldl_append

@[simp] theorem run_concat (z : Fleet ι) (ms : List (Move ι)) (m : Move ι) :
    z.run (ms ++ [m]) = (z.run ms).step m := by
  rw [run_append, run_cons, run_nil]

theorem turns_append (z : Fleet ι) (i : ι) (ms ns : List (Move ι)) :
    z.turns i (ms ++ ns) = z.turns i ms ++ (z.run ms).turns i ns := by
  induction ms generalizing z with
  | nil => rfl
  | cons m ms ih => simp [turns, ih, List.append_assoc]

theorem turns_concat (z : Fleet ι) (i : ι) (ms : List (Move ι)) (m : Move ι) :
    z.turns i (ms ++ [m]) = z.turns i ms ++ ((z.run ms).turn? i m).toList := by
  rw [turns_append]
  simp [turns]

/-! ## Each site on its own -/

/-- A move changes a site by the turn that it gives to the site. -/
theorem step_sites (z : Fleet ι) (i : ι) (m : Move ι) :
    (z.step m).sites i = (z.turn? i m).elim (z.sites i) (z.sites i).step := by
  cases m with
  | site j m =>
    simp only [step, turn?, Function.update_apply]
    by_cases hj : j = i
    · subst hj
      simp
    · rw [if_neg (Ne.symm hj), if_neg hj]
      rfl
  | direct a => rfl

/-- A site of a fleet has taken its turns, and nothing else has happened to it. -/
theorem run_sites (z : Fleet ι) (i : ι) (ms : List (Move ι)) :
    (z.run ms).sites i = (z.sites i).run (z.turns i ms) := by
  induction ms using List.reverseRecOn with
  | nil => rfl
  | append_singleton ms m ih =>
    rw [run_concat, step_sites, turns_concat, ih]
    cases (z.run ms).turn? i m with
    | none => simp
    | some t => simp

theorem installs_append (z : Fleet ι) (i : ι) (ms ns : List (Move ι)) :
    z.installs i (ms ++ ns) = z.installs i ms ++ (z.run ms).installs i ns := by
  simp only [installs, turns_append, Site.installs_append, run_sites]

theorem installs_concat (z : Fleet ι) (i : ι) (ms : List (Move ι)) (m : Move ι) :
    z.installs i (ms ++ [m]) = z.installs i ms ++
      (((z.run ms).turn? i m).bind fun t => ((z.run ms).sites i).installed? t.move).toList := by
  rw [installs_append]
  simp only [installs, turns]
  cases (z.run ms).turn? i m with
  | none => rfl
  | some t => exact congrArg _ (List.append_nil _)

theorem run_new_sites (schema : Schema) (keys : ι → EnvironmentKey) (permitted : ι → Bool)
    (i : ι) (ms : List (Move ι)) :
    ((Fleet.new schema keys permitted).run ms).sites i =
      (Site.new (keys i) (permitted i)).run ((Fleet.new schema keys permitted).turns i ms) :=
  run_sites _ i ms

theorem run_new_key (schema : Schema) (keys : ι → EnvironmentKey) (permitted : ι → Bool)
    (i : ι) (ms : List (Move ι)) :
    (((Fleet.new schema keys permitted).run ms).sites i).replica.key = keys i := by
  rw [run_new_sites, Site.run_key]
  rfl

/-- A turn of a site is one of the moves, at the ledger of that moment. -/
theorem exists_move {z : Fleet ι} {i : ι} {ms : List (Move ι)} {before after : List Site.Turn}
    {u : Site.Turn} (h : z.turns i ms = before ++ u :: after) :
    ∃ earlier later, ms = earlier ++ .site i u.move :: later ∧ z.turns i earlier = before ∧
      u.store = (z.run earlier).ledger.oracle := by
  -- by induction on the moves; those that give the site no turn are passed over
  induction ms generalizing z before with
  | nil => exact absurd h (by simp [turns])
  | cons m ms ih =>
    simp only [turns] at h
    cases hturn : z.turn? i m with
    | none =>
      rw [hturn] at h
      obtain ⟨earlier, later, rfl, hbefore, hstore⟩ := ih h
      exact ⟨m :: earlier, later, rfl, by simp [turns, hturn, hbefore], hstore⟩
    | some t =>
      rw [hturn] at h
      cases before with
      | nil =>
        -- the move itself gives the turn
        obtain ⟨rfl, -⟩ := List.cons.inj h
        cases m with
        | site j m =>
          simp only [turn?] at hturn
          split at hturn
          · rename_i hj
            subst hj
            rw [← Option.some.inj hturn]
            exact ⟨[], ms, rfl, rfl, rfl⟩
          · exact absurd hturn (by simp)
        | direct a => exact absurd hturn (by simp [turn?])
      | cons t' before =>
        obtain ⟨rfl, hrest⟩ := List.cons.inj h
        obtain ⟨earlier, later, rfl, hbefore, hstore⟩ := ih hrest
        exact ⟨m :: earlier, later, rfl, by simp [turns, hturn, hbefore], hstore⟩

/-- An answer that is on its way to a site was given by the ledger in an earlier move. -/
theorem exists_serve_move {schema : Schema} {keys : ι → EnvironmentKey} {permitted : ι → Bool}
    {ms : List (Move ι)} {i : ι} {name : Nat} {task : Task} {store : Backend.Oracle}
    (h : (((Fleet.new schema keys permitted).run ms).sites i).flights name =
      some ⟨task, some store⟩) :
    ∃ earlier later, ms = earlier ++ .site i (.serve name) :: later ∧
      store = ((Fleet.new schema keys permitted).run earlier).ledger.oracle ∧
      (((Fleet.new schema keys permitted).run earlier).sites i).flights name =
        some ⟨task, none⟩ := by
  rw [run_new_sites] at h
  obtain ⟨before, u, after, hts, rfl, hasked⟩ := Site.exists_served h
  obtain ⟨earlier, later, rfl, hbefore, hstore⟩ := exists_move hts
  refine ⟨earlier, later, rfl, hstore, ?_⟩
  rw [run_new_sites, hbefore]
  exact hasked

/-- A submission of a site goes back to the move that started it, where the site claimed its
batch. -/
theorem exists_claim_move {schema : Schema} {keys : ι → EnvironmentKey} {permitted : ι → Bool}
    {ms : List (Move ι)} {i : ι} {name : Nat} {f : Flight} {c : Claim} {m : Manner}
    (h : (((Fleet.new schema keys permitted).run ms).sites i).flights name = some f)
    (hsub : f.task.submission? = some (c, m)) :
    ∃ earlier o later, ms = earlier ++ .site i (.start name o) :: later ∧ o.manner? = some m ∧
      ∃ claimed, (((Fleet.new schema keys permitted).run earlier).sites i).replica.claim =
        .ok (c, claimed) := by
  rw [run_new_sites] at h
  obtain ⟨before, u, after, hts, ⟨o, hmove, hmanner⟩, claimed, hclaim⟩ := Site.exists_claim h hsub
  obtain ⟨earlier, later, rfl, hbefore, -⟩ := exists_move hts
  refine ⟨earlier, o, later, by rw [hmove], hmanner, claimed, ?_⟩
  rw [run_new_sites, hbefore]
  exact hclaim

/-- The newest number that a site with a current version has seen is that of a version which the
site has installed. -/
theorem exists_installed {schema : Schema} {keys : ι → EnvironmentKey} {permitted : ι → Bool}
    {ms : List (Move ι)} {i : ι} {v : Snapshot}
    (h : (((Fleet.new schema keys permitted).run ms).sites i).replica.current = some v) :
    ∃ w ∈ (Fleet.new schema keys permitted).installs i ms,
      w.version = (((Fleet.new schema keys permitted).run ms).sites i).replica.knownHead := by
  rw [run_new_sites] at h ⊢
  exact Site.exists_installed_knownHead h

/-! ## The ledger -/

/-- A call that the store takes up is that of an open operation. -/
theorem asked?_eq_some {s : Site} {m : Site.Move} {c : Backend.Call} (h : s.asked? m = some c) :
    ∃ name task, m = .serve name ∧ s.flights name = some ⟨task, none⟩ ∧
      c = task.call s.replica.key := by
  cases m with
  | serve name =>
    simp only [Site.asked?] at h
    split at h
    · rename_i task hflight
      exact ⟨name, task, rfl, hflight, (Option.some.inj h).symm⟩
    · exact absurd h (by simp)
  | _ => exact absurd h (by simp [Site.asked?])

theorem step_serve_ledger {z : Fleet ι} {i : ι} {name : Nat} {task : Task}
    (h : (z.sites i).flights name = some ⟨task, none⟩) :
    (z.step (.site i (.serve name))).ledger =
      (z.ledger.answer (task.call (z.sites i).replica.key)).1 := by
  simp [step, Site.asked?, h]

theorem advance_step {z : Fleet ι} (m : Move ι) (h : z.ledger.WellFormed) :
    z.ledger.Advance (z.step m).ledger := by
  cases m with
  | site i m =>
    simp only [step]
    cases (z.sites i).asked? m with
    | none => exact z.ledger.grows_refl.advance
    | some c => exact Ledger.advance_answer c h
  | direct a => exact Ledger.advance_act a h

theorem wellFormed_run {z : Fleet ι} (h : z.ledger.WellFormed) (ms : List (Move ι)) :
    (z.run ms).ledger.WellFormed := by
  induction ms generalizing z with
  | nil => exact h
  | cons m ms ih => exact ih (h.advance (advance_step m h))

/-- If the greatest number is not in use at the end of a run, it has never been. -/
theorem belowTop_of_run {z : Fleet ι} {key : EnvironmentKey} (h : z.ledger.WellFormed)
    {ms : List (Move ι)} (htop : (z.run ms).ledger.BelowTop key) : z.ledger.BelowTop key := by
  induction ms generalizing z with
  | nil => exact htop
  | cons m ms ih =>
    have hadvance := advance_step m h
    exact (ih (h.advance hadvance) htop).of_advance h hadvance

/-! ## How the example runs begin -/

/-- The moves by which a client comes to a staged constraint on version 1. -/
def preparing : List (Move Bool) :=
  .direct (.create shop [] []) :: Move.whole false 0 (.load none) 3 ++
    [.site false (.stage (.addResource ⟨"aws", "db", "orders"⟩))]

/-- The client applies it, and has made version 2. -/
def advanced : List (Move Bool) := preparing ++ Move.whole false 1 (.apply false) 2

/-- What the ledger answers to a client with a staged constraint. -/
def untouched : Backend.Oracle := (pair.run preparing).ledger.oracle

/-- What the ledger answers after another client has made version 2. -/
def overtaking : Backend.Oracle :=
  ((pair.run preparing).ledger.act
    (.submit shop ⟨1, some 1, [.addResource ⟨"aws", "db", "users"⟩]⟩)).oracle

end Fleet

/-- A client with a staged constraint on version 1. -/
def Site.prepared (canOverwrite : Bool) : Site :=
  (Site.new Fleet.shop canOverwrite).run (Fleet.pair.turns false Fleet.preparing)

end VersionedTopology

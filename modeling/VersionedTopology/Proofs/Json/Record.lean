/-
  VersionedTopology.Proofs.Json.Record

  Records as codecs.

  A record is read member by member, from an object in any order or from an array in the declared
  one, and what is missing keeps its default. Its printed form is an object of its members in the
  declared order, some of which may be left out. For the two to fit it is enough that every
  member is a codec of its own, that setting one member touches no other, that a record is
  given by its members, and that only defaults are left out.
-/

import Mathlib.Data.List.Pairwise
import VersionedTopology.Proofs.Json.Codec

namespace VersionedTopology

/-- A member of a record with everything that is said about it: how it is read, where it stands in
the record, how it is printed unless it is left out, and which of its values are valid. -/
structure Member (α : Type) where
  {β : Type}
  name : String
  presence : Decoder.Presence
  decoder : Decoder β
  get : α → β
  set : β → α → α
  write : β → Option Json
  valid : β → Prop

namespace Member

open Decoder

variable {α : Type}

/-- The member as a reader of the record sees it. -/
def field (m : Member α) : RecordField α := Decoder.field m.name m.presence m.decoder m.set

/-- The member as it is printed with a record. -/
def written (m : Member α) (a : α) : List (String × Json) :=
  ((m.write (m.get a)).map fun j => (m.name, j)).toList

/-- The member of a record is valid, and is printed with brackets that nest at most `n` deep. -/
def Fits (m : Member α) (n : Nat) (a : α) : Prop :=
  m.valid (m.get a) ∧ ∀ j ∈ m.write (m.get a), j.depth ≤ n

/-- Two members do not get in each other's way. -/
def Apart (m n : Member α) : Prop :=
  (∀ b a, n.get (m.set b a) = n.get a) ∧ ∀ b a, m.get (n.set b a) = m.get a

instance : Std.Symm (Apart (α := α)) := ⟨fun _ _ h => ⟨h.2, h.1⟩⟩

/-- What a member needs on its own. It is left out only where it has the value of the record that
reading starts with, which may stay as it is unless the member is required. -/
structure Lawful (m : Member α) (start : α) (k : Nat) : Prop where
  get_set : ∀ b a, m.get (m.set b a) = b
  sound : ∀ {src : Source} {n : Nat} {d : Document} {b : m.β}, k ≤ n → src.Bounds n d →
    d.InRange → m.decoder src d = .ok b → m.valid b ∧ ∀ j ∈ m.write b, j.depth ≤ n
  complete : ∀ {src : Source} {b : m.β} {j : Json}, m.valid b → j ∈ m.write b →
    j.depth ≤ src.limit → m.decoder src (.ofJson j) = .ok b
  regular : ∀ {b : m.β} {j : Json}, m.valid b → j ∈ m.write b → j.Regular
  omitted : ∀ {b : m.β}, m.write b = none → m.presence ≠ .required ∧ b = m.get start
  start : m.presence ≠ .required → m.Fits k start

theorem mem_written {m : Member α} {a : α} {x : String × Json} :
    x ∈ m.written a ↔ x.1 = m.name ∧ x.2 ∈ m.write (m.get a) := by
  obtain ⟨n, j⟩ := x
  simp only [written, Option.mem_toList, Option.mem_def, Option.map_eq_some_iff, Prod.mk.injEq]
  constructor
  · rintro ⟨j, hj, rfl, rfl⟩
    exact ⟨rfl, hj⟩
  · rintro ⟨rfl, hj⟩
    exact ⟨j, hj, rfl, rfl⟩

theorem field_read_ok {m : Member α} {src : Source} {d : Document} {a a' : α} :
    m.field.read src d a = .ok a' ↔ ∃ b, m.decoder src d = .ok b ∧ m.set b a = a' := map_eq_ok

/-! ## Kinds of members -/

section kinds

variable {β : Type} {decoder : Decoder β} {write : β → Json} {valid : β → Prop} {k l : Nat}
  {start : α}

/-- A member that is always printed. -/
def plain (name : String) (presence : Presence) (decoder : Decoder β) (get : α → β)
    (set : β → α → α) (write : β → Json) (valid : β → Prop) : Member α :=
  { name, presence, decoder, get, set, write := fun b => some (write b), valid }

/-- A member that is left out where it is absent. -/
def maybe (name : String) (decoder : Decoder β) (get : α → Option β) (set : Option β → α → α)
    (write : β → Json) (valid : Option β → Prop) : Member α :=
  { name, presence := .defaulted, decoder := Decoder.option decoder, get, set
    write := Option.map write, valid }

/-- A member that is left out where it is empty. -/
def filled (name : String) (decoder : Decoder β) (get : α → β) (set : β → α → α)
    (empty : β → Bool) (write : β → Json) (valid : β → Prop) : Member α :=
  { name, presence := .defaulted, decoder, get, set
    write := fun b => if empty b then none else some (write b), valid }

@[simp] theorem written_plain (name : String) (presence : Presence) (get : α → β)
    (set : β → α → α) (a : α) :
    (plain name presence decoder get set write valid).written a = [(name, write (get a))] := rfl

@[simp] theorem written_filled (name : String) (get : α → β) (set : β → α → α)
    (empty : β → Bool) (a : α) :
    (filled name decoder get set empty write valid).written a =
      if empty (get a) then [] else [(name, write (get a))] := by
  simp only [written, filled]
  split <;> rfl

theorem lawful_plain {name : String} {presence : Presence} {get : α → β} {set : β → α → α}
    (h : Codec decoder write valid l) (hl : l ≤ k) (hget : ∀ b a, get (set b a) = b)
    (hstart : presence ≠ .required → valid (get start) ∧ (write (get start)).depth ≤ k) :
    (plain name presence decoder get set write valid).Lawful start k where
  get_set := hget
  sound hk hbound hd hb := by
    obtain ⟨hvalid, hdepth⟩ := h.sound (Nat.le_trans hl hk) hbound hd hb
    exact ⟨hvalid, by rintro j ⟨rfl⟩; exact hdepth⟩
  complete := by
    rintro src b j hb ⟨rfl⟩ hdepth
    exact h.complete hb hdepth
  regular := by
    rintro b j hb ⟨rfl⟩
    exact h.regular hb
  omitted hnone := absurd hnone (by simp [plain])
  start hpresence := by
    obtain ⟨hvalid, hdepth⟩ := hstart hpresence
    exact ⟨hvalid, by rintro j ⟨rfl⟩; exact hdepth⟩

theorem lawful_maybe {name : String} {get : α → Option β} {set : Option β → α → α}
    {valid : Option β → Prop} (h : Codec (Decoder.option decoder) (Json.orNull write) valid l)
    (hl : l ≤ k) (hget : ∀ b a, get (set b a) = b) (hstart : get start = none)
    (hnone : valid none) : (maybe name decoder get set write valid).Lawful start k where
  get_set := hget
  sound {src n d o} hk hbound hd ho := by
    obtain ⟨hvalid, hdepth⟩ := h.sound (Nat.le_trans hl hk) hbound hd ho
    refine ⟨hvalid, fun j hj => ?_⟩
    obtain ⟨x, rfl, rfl⟩ := Option.map_eq_some_iff.mp hj
    exact hdepth
  complete {src o j} ho hj hdepth := by
    obtain ⟨x, rfl, rfl⟩ := Option.map_eq_some_iff.mp hj
    exact h.complete ho hdepth
  regular {o j} ho hj := by
    obtain ⟨x, rfl, rfl⟩ := Option.map_eq_some_iff.mp hj
    exact h.regular ho
  omitted {o} hwrite := ⟨nofun, (Option.map_eq_none_iff.mp hwrite).trans hstart.symm⟩
  start _ := by
    change valid (get start) ∧ ∀ j ∈ (get start).map write, j.depth ≤ k
    rw [hstart]
    exact ⟨hnone, nofun⟩

theorem mem_filled {empty : β → Bool} {b : β} {j : Json}
    (h : j ∈ if empty b then none else some (write b)) : j = write b := by
  split at h
  · exact absurd h (by simp)
  · exact (Option.some.inj h).symm

theorem lawful_filled {name : String} {get : α → β} {set : β → α → α} {empty : β → Bool}
    (h : Codec decoder write valid l) (hl : l ≤ k) (hget : ∀ b a, get (set b a) = b)
    (hempty : ∀ b, empty b = true ↔ b = get start) (hstart : valid (get start)) :
    (filled name decoder get set empty write valid).Lawful start k where
  get_set := hget
  sound {src n d b} hk hbound hd hb := by
    obtain ⟨hvalid, hdepth⟩ := h.sound (Nat.le_trans hl hk) hbound hd hb
    exact ⟨hvalid, fun j hj => (mem_filled hj) ▸ hdepth⟩
  complete {src b j} hb hj hdepth := by
    obtain rfl := mem_filled hj
    exact h.complete hb hdepth
  regular {b j} hb hj := by
    obtain rfl := mem_filled hj
    exact h.regular hb
  omitted {b} hnone := by
    refine ⟨nofun, (hempty b).mp ?_⟩
    by_contra hfull
    exact absurd hnone (by simp [filled, hfull])
  start _ := by
    have hleft : empty (get start) = true := (hempty _).mpr rfl
    refine ⟨hstart, fun j hj => ?_⟩
    exact absurd hj (by simp [filled, hleft])

end kinds

end Member

/-- The members of a record: each of them is lawful, and they tell the record apart without getting
in each other's way. -/
structure IsRecord {α : Type} (ms : List (Member α)) (start : α) (k : Nat) : Prop where
  lawful : ∀ m ∈ ms, m.Lawful start k
  names : (ms.map Member.name).Nodup
  apart : ms.Pairwise Member.Apart
  ext : ∀ a a', (∀ m ∈ ms, m.get a = m.get a') → a = a'

namespace IsRecord

open Decoder

variable {α : Type} {ms : List (Member α)} {start : α} {k : Nat}

theorem name_inj (h : IsRecord ms start k) {m n : Member α} (hm : m ∈ ms) (hn : n ∈ ms)
    (hname : m.name = n.name) : m = n :=
  List.inj_on_of_nodup_map h.names hm hn hname

theorem get_set_of_ne (h : IsRecord ms start k) {m n : Member α} (hm : m ∈ ms) (hn : n ∈ ms)
    (hne : m ≠ n) (b : m.β) (a : α) : n.get (m.set b a) = n.get a :=
  (h.apart.forall hm hn hne).1 b a

theorem exists_of_find? {name : String} {f : RecordField α}
    (hf : (ms.map Member.field).find? (·.name = name) = some f) :
    ∃ m ∈ ms, m.name = name ∧ f = m.field := by
  have hname := List.find?_some hf
  obtain ⟨m, hm, rfl⟩ := List.mem_map.mp (List.mem_of_find?_eq_some hf)
  exact ⟨m, hm, of_decide_eq_true hname, rfl⟩

theorem find?_field (h : IsRecord ms start k) {m : Member α} (hm : m ∈ ms) :
    (ms.map Member.field).find? (·.name = m.name) = some m.field := by
  cases hfind : (ms.map Member.field).find? (·.name = m.name) with
  | none =>
    rw [List.find?_eq_none] at hfind
    exact absurd (decide_eq_true rfl) (hfind m.field (List.mem_map_of_mem hm))
  | some f =>
    obtain ⟨m', hm', hname, rfl⟩ := exists_of_find? hfind
    rw [h.name_inj hm' hm hname]

/-! ## Reading -/

/-- Reading one member: it fits now, and the others are as before. -/
theorem read_member (h : IsRecord ms start k) {m : Member α} (hm : m ∈ ms) {src : Source}
    {n : Nat} {d : Document} {a a' : α} (hk : k ≤ n) (hbound : src.Bounds n d) (hd : d.InRange)
    (hread : m.field.read src d a = .ok a') :
    m.Fits n a' ∧ ∀ m' ∈ ms, m' ≠ m → m'.get a' = m'.get a := by
  obtain ⟨b, hb, rfl⟩ := Member.field_read_ok.mp hread
  refine ⟨?_, fun m' hm' hne => h.get_set_of_ne hm hm' hne.symm b a⟩
  rw [Member.Fits, (h.lawful m hm).get_set]
  exact (h.lawful m hm).sound hk hbound hd hb

/-- The members read from an object fit, and the others are those of the start. -/
theorem members_fit (h : IsRecord ms start k) {src : Source} {n : Nat} (hk : k ≤ n)
    {closed : Bool} {docs : List (Option String × Document)} {seen seen' : List String} {a a' : α}
    (hbounds : ∀ x ∈ docs, src.Bounds n x.2) (hdocs : ∀ x ∈ docs, x.2.InRange)
    (hread : members (ms.map Member.field) closed src seen a docs = .ok (seen', a'))
    (hseen : ∀ m ∈ ms, m.name ∈ seen → m.Fits n a)
    (hrest : ∀ m ∈ ms, m.name ∉ seen → m.get a = m.get start) :
    (∀ m ∈ ms, m.name ∈ seen' → m.Fits n a') ∧
      ∀ m ∈ ms, m.name ∉ seen' → m.get a' = m.get start := by
  induction docs generalizing seen a with
  | nil =>
    simp only [members, Except.ok.injEq, Prod.mk.injEq] at hread
    obtain ⟨rfl, rfl⟩ := hread
    exact ⟨hseen, hrest⟩
  | cons x docs ih =>
    obtain ⟨name, d⟩ := x
    obtain ⟨hbound, hmore⟩ := List.forall_mem_cons.mp hbounds
    obtain ⟨hd, hlater⟩ := List.forall_mem_cons.mp hdocs
    cases name with
    | none => exact absurd hread (by simp [members])
    | some name =>
      rw [members] at hread
      split at hread
      · -- an unknown member changes nothing
        split at hread
        · exact absurd hread (by simp)
        · split at hread
          · exact absurd hread (by simp)
          · exact ih hmore hlater hread hseen hrest
      · rename_i f hfind
        obtain ⟨m, hm, rfl, rfl⟩ := exists_of_find? hfind
        split at hread
        · exact absurd hread (by simp)
        · split at hread
          · exact absurd hread (by simp)
          · rename_i a₁ ha
            obtain ⟨hfits, hothers⟩ := h.read_member hm hk hbound hd ha
            refine ih hmore hlater hread ?_ ?_
            · intro m' hm' hname
              by_cases heq : m' = m
              · exact heq ▸ hfits
              · have hold : m'.name ∈ seen := by
                  refine (List.mem_cons.mp hname).resolve_left fun hsame => heq ?_
                  exact h.name_inj hm' hm hsame
                rw [Member.Fits, hothers m' hm' heq]
                exact hseen m' hm' hold
            · intro m' hm' hname
              have hne : m' ≠ m := by
                rintro rfl
                exact hname List.mem_cons_self
              rw [hothers m' hm' hne]
              exact hrest m' hm' fun hold => hname (List.mem_cons_of_mem _ hold)

/-- The members read from an array fit, and so do those of the start that take the place of missing
ones. -/
theorem positions_fit (h : IsRecord ms start k) {src : Source} {n : Nat} (hk : k ≤ n)
    {ending : Option Fault} {rest : List (Member α)} {docs : List Document} {a a' : α}
    (hrest : ∀ m ∈ rest, m ∈ ms) (hnodup : rest.Nodup)
    (hbounds : ∀ d ∈ docs, src.Bounds n d) (hdocs : ∀ d ∈ docs, d.InRange)
    (hread : positions src ending (rest.map Member.field) docs a = .ok a')
    (hdone : ∀ m ∈ ms, m ∉ rest → m.Fits n a)
    (hstart : ∀ m ∈ rest, m.get a = m.get start) : ∀ m ∈ ms, m.Fits n a' := by
  induction rest generalizing docs a with
  | nil =>
    cases docs with
    | nil =>
      simp only [List.map_nil, positions] at hread
      split at hread
      · obtain rfl := Except.ok.inj hread
        exact fun m hm => hdone m hm (by simp)
      · exact absurd hread (by simp)
    | cons d docs => exact absurd hread (by simp [positions])
  | cons m rest ih =>
    obtain ⟨hm, hrest⟩ := List.forall_mem_cons.mp hrest
    obtain ⟨hnotin, hnodup⟩ := List.nodup_cons.mp hnodup
    obtain ⟨hmstart, hstart⟩ := List.forall_mem_cons.mp hstart
    cases docs with
    | nil =>
      simp only [List.map_cons, positions] at hread
      split at hread
      · exact absurd hread (by simp)
      · split at hread
        · rename_i hpresence
          refine ih hrest hnodup (by simp) (by simp) hread ?_ hstart
          intro m' hm' hnot
          by_cases heq : m' = m
          · subst heq
            have hdefault : m'.presence ≠ .required := by
              intro hrequired
              rw [Member.field, field, hrequired] at hpresence
              exact absurd hpresence (by simp)
            obtain ⟨hvalid, hdepth⟩ := (h.lawful m' hm).start hdefault
            rw [Member.Fits, hmstart]
            exact ⟨hvalid, fun j hj => Nat.le_trans (hdepth j hj) hk⟩
          · exact hdone m' hm' (by simp [heq, hnot])
        · exact absurd hread (by simp)
    | cons d docs =>
      obtain ⟨hbound, hbounds⟩ := List.forall_mem_cons.mp hbounds
      obtain ⟨hd, hdocs⟩ := List.forall_mem_cons.mp hdocs
      simp only [List.map_cons, positions] at hread
      split at hread
      · exact absurd hread (by simp)
      · rename_i a₁ ha
        obtain ⟨hfits, hothers⟩ := h.read_member hm hk hbound hd ha
        refine ih hrest hnodup hbounds hdocs hread ?_ ?_
        · intro m' hm' hnot
          by_cases heq : m' = m
          · exact heq ▸ hfits
          · rw [Member.Fits, hothers m' hm' heq]
            exact hdone m' hm' (by simp [heq, hnot])
        · intro m' hm'
          have hne : m' ≠ m := fun heq => hnotin (heq ▸ hm')
          rw [hothers m' (hrest m' hm') hne]
          exact hstart m' hm'

/-! ## Printing -/

/-- The members that are printed hold every name once. -/
theorem nodup_written (h : IsRecord ms start k) (a : α) :
    ((ms.flatMap (·.written a)).map Prod.fst).Nodup := by
  have hsublist : ((ms.flatMap (·.written a)).map Prod.fst).Sublist (ms.map Member.name) := by
    clear h
    induction ms with
    | nil => simp
    | cons m ms ih =>
      rw [List.flatMap_cons, List.map_append, List.map_cons]
      cases hw : m.write (m.get a) with
      | none => simpa [Member.written, hw] using ih.cons m.name
      | some j => simpa [Member.written, hw] using ih.cons_cons m.name
  exact h.names.sublist hsublist

/-- The printed members of a record are read as that record. -/
theorem members_written (h : IsRecord ms start k) {src : Source} {x : α}
    (hvalid : ∀ m ∈ ms, m.valid (m.get x))
    (hdepth : ∀ m ∈ ms, ∀ j ∈ m.write (m.get x), j.depth ≤ src.limit)
    {rest : List (Member α)} {seen : List String} {a : α} (hrest : ∀ m ∈ rest, m ∈ ms)
    (hnames : (rest.map Member.name).Nodup)
    (hdone : ∀ m ∈ ms, m ∉ rest → m.get a = m.get x)
    (hstart : ∀ m ∈ rest, m.get a = m.get start)
    (hseen : ∀ m ∈ ms, m ∉ rest → m.presence = .required → m.name ∈ seen)
    (hnew : ∀ m ∈ rest, m.name ∉ seen) :
    ∃ seen', members (ms.map Member.field) false src seen a
        ((rest.flatMap (·.written x)).map fun w => (some w.1, .ofJson w.2)) = .ok (seen', x) ∧
      ∀ m ∈ ms, m.presence = .required → m.name ∈ seen' := by
  induction rest generalizing seen a with
  | nil =>
    have hx : a = x := h.ext a x fun m hm => hdone m hm (by simp)
    exact ⟨seen, by simp [members, hx], fun m hm => hseen m hm (by simp)⟩
  | cons m rest ih =>
    obtain ⟨hm, hrest⟩ := List.forall_mem_cons.mp hrest
    obtain ⟨hmstart, hstart⟩ := List.forall_mem_cons.mp hstart
    obtain ⟨hmnew, hnew⟩ := List.forall_mem_cons.mp hnew
    rw [List.map_cons, List.nodup_cons] at hnames
    have hnotin : m ∉ rest := fun hin => hnames.1 (List.mem_map_of_mem hin)
    have hlaw := h.lawful m hm
    cases hw : m.write (m.get x) with
    | none =>
      -- what is left out is the value of the start, and need not be there
      obtain ⟨hpresence, hget⟩ := hlaw.omitted hw
      have hwritten : m.written x = [] := by simp [Member.written, hw]
      rw [List.flatMap_cons, hwritten, List.nil_append]
      refine ih hrest hnames.2 ?_ hstart ?_ hnew
      · intro m' hm' hnot
        by_cases heq : m' = m
        · subst heq
          rw [hmstart, hget]
        · exact hdone m' hm' (by simp [heq, hnot])
      · intro m' hm' hnot hrequired
        by_cases heq : m' = m
        · exact absurd (heq ▸ hrequired) hpresence
        · exact hseen m' hm' (by simp [heq, hnot]) hrequired
    | some j =>
      have hwritten : m.written x = [(m.name, j)] := by simp [Member.written, hw]
      have hdecode := hlaw.complete (hvalid m hm) hw (hdepth m hm j hw)
      have hread : m.field.read src (.ofJson j) a = .ok (m.set (m.get x) a) :=
        Member.field_read_ok.mpr ⟨_, hdecode, rfl⟩
      have hdone' : ∀ m' ∈ ms, m' ∉ rest → m'.get (m.set (m.get x) a) = m'.get x := by
        intro m' hm' hnot
        by_cases heq : m' = m
        · subst heq
          exact hlaw.get_set _ _
        · rw [h.get_set_of_ne hm hm' (Ne.symm heq)]
          exact hdone m' hm' (by simp [heq, hnot])
      have hstart' : ∀ m' ∈ rest, m'.get (m.set (m.get x) a) = m'.get start := by
        intro m' hm'
        have hne : m ≠ m' := fun heq => hnotin (heq ▸ hm')
        rw [h.get_set_of_ne hm (hrest m' hm') hne]
        exact hstart m' hm'
      have hseen' : ∀ m' ∈ ms, m' ∉ rest → m'.presence = .required →
          m'.name ∈ m.name :: seen := by
        intro m' hm' hnot hreq
        by_cases heq : m' = m
        · exact heq ▸ List.mem_cons_self
        · exact List.mem_cons_of_mem _ (hseen m' hm' (by simp [heq, hnot]) hreq)
      have hnew' : ∀ m' ∈ rest, m'.name ∉ m.name :: seen := by
        intro m' hm' hin
        obtain hsame | hold := List.mem_cons.mp hin
        · exact hnames.1 (hsame ▸ List.mem_map_of_mem hm')
        · exact hnew m' hm' hold
      obtain ⟨seen', hmembers, hrequired⟩ := ih hrest hnames.2 hdone' hstart' hseen' hnew'
      refine ⟨seen', ?_, hrequired⟩
      rw [List.flatMap_cons, hwritten, List.singleton_append, List.map_cons, members]
      simpa only [h.find?_field hm, List.contains_eq_mem, hmnew, decide_false, Bool.false_eq_true,
        reduceIte, hread] using hmembers

/-- **Records are codecs.** A record is read from and printed as its members. -/
theorem codec (h : IsRecord ms start k) {fields : List (RecordField α)} {write : α → Json}
    {valid : α → Prop} (hfields : fields = ms.map Member.field)
    (hwrite : ∀ a, write a = .object (ms.flatMap (·.written a)))
    (hvalid : ∀ a, valid a ↔ ∀ m ∈ ms, m.valid (m.get a)) :
    Codec (record fields start false) write valid (k + 1) where
  sound {src n d x} hk hbound hd hx := by
    subst hfields
    have hfit : ∃ m, n = m + 1 ∧ ∀ member ∈ ms, member.Fits m x := by
      unfold record at hx
      split at hx
      · obtain ⟨src', henter, hx⟩ := bind_eq_ok.mp hx
        obtain ⟨⟨seen, a⟩, hmembers, hx⟩ := bind_eq_ok.mp hx
        obtain ⟨-, -, hx⟩ := bind_eq_ok.mp hx
        split at hx
        · rename_i hall
          obtain rfl := Except.ok.inj hx
          obtain ⟨m, rfl, hbounds⟩ := hbound.members henter
          rw [Document.inRange_object] at hd
          obtain ⟨hseen, hrest⟩ := h.members_fit (by omega) hbounds hd hmembers (by simp)
            fun _ _ _ => rfl
          refine ⟨m, rfl, fun member hmem => ?_⟩
          by_cases hname : member.name ∈ seen
          · exact hseen member hmem hname
          · have hpresence : member.presence ≠ .required := by
              rw [List.all_map, List.all_eq_true] at hall
              have hor := hall member hmem
              simp only [Member.field, field, Function.comp_apply, List.contains_eq_mem, hname,
                decide_false, Bool.or_false] at hor
              exact of_decide_eq_true hor
            obtain ⟨hval, hdepth⟩ := (h.lawful member hmem).start hpresence
            rw [Member.Fits, hrest member hmem hname]
            exact ⟨hval, fun j hj => Nat.le_trans (hdepth j hj) (by omega)⟩
        · exact absurd hx (by simp)
      · obtain ⟨src', henter, hx⟩ := bind_eq_ok.mp hx
        obtain ⟨m, rfl, hbounds⟩ := hbound.items henter
        rw [Document.inRange_array] at hd
        exact ⟨m, rfl, h.positions_fit (by omega) (fun _ hm => hm) h.names.of_map hbounds hd hx
          (fun m hm hnot => absurd hm hnot) fun _ _ => rfl⟩
      · exact absurd hx (by simp)
    obtain ⟨m, rfl, hfits⟩ := hfit
    refine ⟨(hvalid x).mpr fun member hmem => (hfits member hmem).1, ?_⟩
    rw [hwrite, Json.depth_object_le]
    intro w hw
    obtain ⟨member, hmem, hw⟩ := List.mem_flatMap.mp hw
    exact (hfits member hmem).2 w.2 (Member.mem_written.mp hw).2
  complete {src x} hx hdepth := by
    subst hfields
    rw [hwrite] at hdepth ⊢
    have hroom : 0 < src.limit := by
      rw [Json.depth] at hdepth
      omega
    obtain ⟨src', henter, hlimit⟩ := Source.exists_enter hroom
    have hinner := Json.depth_object_le.mp (Nat.le_trans hdepth hlimit)
    have hroomy : ∀ m ∈ ms, ∀ j ∈ m.write (m.get x), j.depth ≤ src'.limit := fun m hm j hj =>
      hinner (m.name, j) (List.mem_flatMap.mpr ⟨m, hm, Member.mem_written.mpr ⟨rfl, hj⟩⟩)
    obtain ⟨seen, hmembers, hrequired⟩ := h.members_written ((hvalid x).mp hx) hroomy
      (fun _ hm => hm) h.names (fun m hm hnot => absurd hm hnot) (fun _ _ => rfl)
      (fun m hm hnot => absurd hm hnot) fun _ _ => List.not_mem_nil
    have hall : ((ms.map Member.field).all fun f =>
        decide (f.presence ≠ .required) || seen.contains f.name) = true := by
      rw [List.all_map, List.all_eq_true]
      intro m hm
      by_cases hpresence : m.presence = .required
      · simp [Member.field, field, hrequired m hm hpresence]
      · simp [Member.field, field, hpresence]
    simp only [record, Document.ofJson, Document.ofMembers_eq_map, henter, hmembers, failText,
      hall, bind, Except.bind, reduceIte]
  regular {x} hx := by
    rw [hwrite, Json.regular_object]
    refine ⟨h.nodup_written x, fun w hw => ?_⟩
    obtain ⟨m, hm, hw⟩ := List.mem_flatMap.mp hw
    exact (h.lawful m hm).regular ((hvalid x).mp hx m hm) (Member.mem_written.mp hw).2

end IsRecord
end VersionedTopology

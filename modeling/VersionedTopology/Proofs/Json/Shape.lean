/-
  VersionedTopology.Proofs.Json.Shape

  Which JSON values can be written and read again.

  A value that was read from a text is regular: its integers fit 64 bits and no object holds a
  name twice. A regular value, seen as a document, is read as itself as long as brackets may
  nest as deep as it nests them. Doubles do not matter for documents, only for their texts, so
  values without any are singled out here and used where texts come in.
-/

import Mathlib.Data.List.Nodup
import VersionedTopology.Json.Decode

namespace VersionedTopology

/-- The integers that fit 64 bits, signed or unsigned. -/
def Number.InRange : Number → Prop
  | .int n => -9223372036854775808 ≤ n ∧ n ≤ Number.maxUnsigned
  | .double _ => True

instance : DecidablePred Number.InRange
  | .int n => inferInstanceAs
      (Decidable (-9223372036854775808 ≤ n ∧ n ≤ (Number.maxUnsigned : Int)))
  | .double _ => isTrue trivial

namespace Json

/-- Induction on a value, with one hypothesis for all items of an array and one for all members of
an object. -/
@[elab_as_elim]
theorem ind {P : Json → Prop} (null : P .null) (bool : ∀ b, P (.bool b))
    (number : ∀ n, P (.number n)) (string : ∀ s, P (.string s))
    (array : ∀ xs, (∀ x ∈ xs, P x) → P (.array xs))
    (object : ∀ ms, (∀ m ∈ ms, P m.2) → P (.object ms)) (j : Json) : P j :=
  @Json.rec P (fun xs => ∀ x ∈ xs, P x) (fun ms => ∀ m ∈ ms, P m.2) (fun m => P m.2)
    null bool number string array object
    (by simp) (fun _ _ h hs => by simpa using ⟨h, hs⟩)
    (by simp) (fun _ _ h hs => by simpa using ⟨h, fun a b => hs (a, b)⟩)
    (fun _ _ h => h) j

/-! ## Depth -/

mutual

/-- How deep a value nests brackets. -/
def depth : Json → Nat
  | .array items => depthItems items + 1
  | .object members => depthMembers members + 1
  | _ => 0

def depthItems : List Json → Nat
  | [] => 0
  | x :: xs => max (depth x) (depthItems xs)

def depthMembers : List (String × Json) → Nat
  | [] => 0
  | (_, v) :: rest => max (depth v) (depthMembers rest)

end

theorem depthItems_le {xs : List Json} {n : Nat} : depthItems xs ≤ n ↔ ∀ x ∈ xs, x.depth ≤ n := by
  induction xs with
  | nil => simp [depthItems]
  | cons x xs ih => simp only [depthItems, Nat.max_le, ih, List.forall_mem_cons]

theorem depthMembers_le {ms : List (String × Json)} {n : Nat} :
    depthMembers ms ≤ n ↔ ∀ m ∈ ms, m.2.depth ≤ n := by
  induction ms with
  | nil => simp [depthMembers]
  | cons m ms ih =>
    obtain ⟨k, v⟩ := m
    simp only [depthMembers, Nat.max_le, ih, List.forall_mem_cons]

theorem depth_array_le {xs : List Json} {n : Nat} :
    (array xs).depth ≤ n + 1 ↔ ∀ x ∈ xs, x.depth ≤ n := by
  rw [depth, Nat.add_le_add_iff_right, depthItems_le]

theorem depth_object_le {ms : List (String × Json)} {n : Nat} :
    (object ms).depth ≤ n + 1 ↔ ∀ m ∈ ms, m.2.depth ≤ n := by
  rw [depth, Nat.add_le_add_iff_right, depthMembers_le]

theorem not_depth_array_le (xs : List Json) : ¬ (array xs).depth ≤ 0 := by
  simp [depth]

theorem not_depth_object_le (ms : List (String × Json)) : ¬ (object ms).depth ≤ 0 := by
  simp [depth]

/-! ## Tests of every value inside -/

mutual

/-- Whether a test holds of a value and of everything in it. -/
def all (p : Json → Bool) : Json → Bool
  | .array items => p (.array items) && allItems p items
  | .object members => p (.object members) && allMembers p members
  | j => p j

def allItems (p : Json → Bool) : List Json → Bool
  | [] => true
  | x :: xs => all p x && allItems p xs

def allMembers (p : Json → Bool) : List (String × Json) → Bool
  | [] => true
  | (_, v) :: rest => all p v && allMembers p rest

end

theorem allItems_iff {p : Json → Bool} {xs : List Json} :
    allItems p xs = true ↔ ∀ x ∈ xs, x.all p = true := by
  induction xs with
  | nil => simp [allItems]
  | cons x xs ih => simp [allItems, ih]

theorem allMembers_iff {p : Json → Bool} {ms : List (String × Json)} :
    allMembers p ms = true ↔ ∀ m ∈ ms, m.2.all p = true := by
  induction ms with
  | nil => simp [allMembers]
  | cons m ms ih =>
    obtain ⟨k, v⟩ := m
    simp [allMembers, ih]

/-- No number in the value is a double. -/
def Exact (j : Json) : Prop :=
  j.all (fun | .number (.double _) => false | _ => true) = true

instance : DecidablePred Exact := fun _ => inferInstanceAs (Decidable (_ = true))

/-- The integers of the value fit 64 bits, and its objects hold every name once. -/
def Regular (j : Json) : Prop :=
  j.all (fun
    | .number n => decide n.InRange
    | .object ms => decide (ms.map Prod.fst).Nodup
    | _ => true) = true

instance : DecidablePred Regular := fun _ => inferInstanceAs (Decidable (_ = true))

@[simp] theorem exact_null : Exact .null := rfl
@[simp] theorem exact_bool (b : Bool) : Exact (.bool b) := rfl
@[simp] theorem exact_string (s : String) : Exact (.string s) := rfl
@[simp] theorem exact_int (n : Int) : Exact (.number (.int n)) := rfl

@[simp] theorem not_exact_double (bits : UInt64) : ¬ Exact (.number (.double bits)) := by
  simp [Exact, all]

@[simp] theorem exact_array {xs : List Json} : Exact (.array xs) ↔ ∀ x ∈ xs, x.Exact := by
  simp [Exact, all, allItems_iff]

@[simp] theorem exact_object {ms : List (String × Json)} :
    Exact (.object ms) ↔ ∀ m ∈ ms, m.2.Exact := by
  simp [Exact, all, allMembers_iff]

@[simp] theorem regular_null : Regular .null := rfl
@[simp] theorem regular_bool (b : Bool) : Regular (.bool b) := rfl
@[simp] theorem regular_string (s : String) : Regular (.string s) := rfl

@[simp] theorem regular_number {n : Number} : Regular (.number n) ↔ n.InRange := by
  simp [Regular, all]

@[simp] theorem regular_array {xs : List Json} : Regular (.array xs) ↔ ∀ x ∈ xs, x.Regular := by
  simp [Regular, all, allItems_iff]

@[simp] theorem regular_object {ms : List (String × Json)} :
    Regular (.object ms) ↔ (ms.map Prod.fst).Nodup ∧ ∀ m ∈ ms, m.2.Regular := by
  simp [Regular, all, allMembers_iff]

/-! ## Setting a member -/

theorem mem_setMember {k : String} {v : Json} {ms : List (String × Json)} {m : String × Json}
    (h : m ∈ setMember k v ms) : m = (k, v) ∨ m ∈ ms := by
  induction ms with
  | nil => simpa [setMember] using h
  | cons n rest ih =>
    obtain ⟨n, w⟩ := n
    rw [setMember] at h
    split at h
    · rename_i hn
      subst hn
      obtain rfl | hrest := List.mem_cons.mp h
      · exact .inl rfl
      · exact .inr (List.mem_cons_of_mem _ hrest)
    · obtain rfl | hrest := List.mem_cons.mp h
      · exact .inr List.mem_cons_self
      · exact (ih hrest).imp_right (List.mem_cons_of_mem _)

theorem names_setMember (k : String) (v : Json) (ms : List (String × Json)) :
    (setMember k v ms).map Prod.fst =
      if k ∈ ms.map Prod.fst then ms.map Prod.fst else ms.map Prod.fst ++ [k] := by
  induction ms with
  | nil => simp [setMember]
  | cons n rest ih =>
    obtain ⟨n, w⟩ := n
    rw [setMember]
    by_cases hn : n = k
    · simp [hn]
    · have hmem : k ∈ n :: rest.map Prod.fst ↔ k ∈ rest.map Prod.fst := by simp [Ne.symm hn]
      rw [if_neg hn, List.map_cons, List.map_cons, ih, if_congr hmem rfl rfl]
      split <;> rfl

theorem nodup_setMember {ms : List (String × Json)} (h : (ms.map Prod.fst).Nodup) (k : String)
    (v : Json) : ((setMember k v ms).map Prod.fst).Nodup := by
  rw [names_setMember]
  split
  · exact h
  · rename_i hk
    rw [List.nodup_append]
    exact ⟨h, List.nodup_singleton k, fun a ha b hb => by
      rintro rfl
      exact hk (List.mem_singleton.mp hb ▸ ha)⟩

/-- A member of a new name goes to the end. -/
theorem setMember_of_notMem {k : String} {ms : List (String × Json)}
    (h : k ∉ ms.map Prod.fst) (v : Json) : setMember k v ms = ms ++ [(k, v)] := by
  induction ms with
  | nil => rfl
  | cons n rest ih =>
    obtain ⟨n, w⟩ := n
    simp only [List.map_cons, List.mem_cons, not_or] at h
    rw [setMember, if_neg (Ne.symm h.1), ih h.2, List.cons_append]

end Json

/-! ## Documents -/

namespace Document

/-- Induction on a document, with one hypothesis for all items of an array and one for all members
of an object. -/
@[elab_as_elim]
theorem ind {P : Document → Prop} (null : P .null) (bool : ∀ b, P (.bool b))
    (number : ∀ n, P (.number n)) (string : ∀ s, P (.string s))
    (array : ∀ ds ending, (∀ d ∈ ds, P d) → P (.array ds ending))
    (object : ∀ ms ending, (∀ m ∈ ms, P m.2) → P (.object ms ending))
    (broken : ∀ r s c, P (.broken r s c)) (d : Document) : P d :=
  @Document.rec P (fun ds => ∀ d ∈ ds, P d) (fun ms => ∀ m ∈ ms, P m.2) (fun m => P m.2)
    null bool number string array object broken
    (by simp) (fun _ _ h hs => by simpa using ⟨h, hs⟩)
    (by simp) (fun _ _ h hs => by simpa using ⟨h, fun a b => hs (a, b)⟩)
    (fun _ _ h => h) d

mutual

/-- The integers of the document fit 64 bits. -/
def InRange : Document → Prop
  | .number (some n) => n.InRange
  | .array items _ => InRangeItems items
  | .object members _ => InRangeMembers members
  | _ => True

def InRangeItems : List Document → Prop
  | [] => True
  | d :: ds => InRange d ∧ InRangeItems ds

def InRangeMembers : List (Option String × Document) → Prop
  | [] => True
  | (_, d) :: rest => InRange d ∧ InRangeMembers rest

end

theorem inRangeItems_iff {ds : List Document} : InRangeItems ds ↔ ∀ d ∈ ds, d.InRange := by
  induction ds with
  | nil => simp [InRangeItems]
  | cons d ds ih => simp [InRangeItems, ih]

theorem inRangeMembers_iff {ms : List (Option String × Document)} :
    InRangeMembers ms ↔ ∀ m ∈ ms, m.2.InRange := by
  induction ms with
  | nil => simp [InRangeMembers]
  | cons m ms ih =>
    obtain ⟨k, d⟩ := m
    simp only [InRangeMembers, ih, List.forall_mem_cons]

@[simp] theorem inRange_array {ds : List Document} {ending : Option Fault} :
    (array ds ending).InRange ↔ ∀ d ∈ ds, d.InRange := by
  rw [InRange, inRangeItems_iff]

@[simp] theorem inRange_object {ms : List (Option String × Document)} {ending : Option Fault} :
    (object ms ending).InRange ↔ ∀ m ∈ ms, m.2.InRange := by
  rw [InRange, inRangeMembers_iff]

@[simp] theorem inRange_null : InRange .null := trivial
@[simp] theorem inRange_bool (b : Bool) : InRange (.bool b) := trivial
@[simp] theorem inRange_string (s : Option String) : InRange (.string s) := trivial
@[simp] theorem inRange_broken (r s : Fault) (c : Option Char) : InRange (.broken r s c) := trivial

@[simp] theorem inRange_number {n : Number} : InRange (.number (some n)) ↔ n.InRange := Iff.rfl

@[simp] theorem inRange_number_none : InRange (.number none) := trivial

/-! ## Reading -/

@[simp] theorem ofItems_eq_map (xs : List Json) : ofItems xs = xs.map ofJson := by
  induction xs with
  | nil => rfl
  | cons x xs ih => rw [ofItems, ih, List.map_cons]

@[simp] theorem ofMembers_eq_map (ms : List (String × Json)) :
    ofMembers ms = ms.map fun m => (some m.1, ofJson m.2) := by
  induction ms with
  | nil => rfl
  | cons m ms ih =>
    obtain ⟨k, v⟩ := m
    rw [ofMembers, ih, List.map_cons]

theorem read_array_ok {n : Nat} {ds : List Document} {ending : Option Fault} {j : Json} :
    (array ds ending).read n = .ok j ↔
      ending = none ∧ ∃ m xs, n = m + 1 ∧ readItems m ds = .ok xs ∧ j = .array xs := by
  cases n with
  | zero => simp [read]
  | succ m =>
    simp only [read]
    split
    · rename_i hread
      simp [hread]
    · simp
    · rename_i xs hread
      simp [hread, eq_comm]

theorem read_object_ok {n : Nat} {ms : List (Option String × Document)} {ending : Option Fault}
    {j : Json} :
    (object ms ending).read n = .ok j ↔
      ending = none ∧ ∃ m xs, n = m + 1 ∧ readMembers m [] ms = .ok xs ∧ j = .object xs := by
  cases n with
  | zero => simp [read]
  | succ m =>
    simp only [read]
    split
    · rename_i hread
      simp [hread]
    · simp
    · rename_i xs hread
      simp [hread, eq_comm]

/-- What is read from a list of items is read from one of them each. -/
theorem exists_of_readItems {n : Nat} {ds : List Document} {xs : List Json}
    (h : readItems n ds = .ok xs) : ∀ x ∈ xs, ∃ d ∈ ds, d.read n = .ok x := by
  induction ds generalizing xs with
  | nil =>
    cases h
    simp
  | cons d ds ih =>
    rw [readItems] at h
    cases hd : d.read n with
    | error f => simp [hd] at h
    | ok y =>
      cases hds : readItems n ds with
      | error f => simp [hd, hds] at h
      | ok ys =>
        simp only [hd, hds, Except.ok.injEq] at h
        subst h
        intro x hx
        obtain rfl | hys := List.mem_cons.mp hx
        · exact ⟨d, List.mem_cons_self, hd⟩
        · obtain ⟨e, he, hread⟩ := ih hds x hys
          exact ⟨e, List.mem_cons_of_mem _ he, hread⟩

/-- What is read from a list of members holds every name once, and what it adds is read from one of
them each. -/
theorem exists_of_readMembers {n : Nat} {ms : List (Option String × Document)}
    {acc xs : List (String × Json)} (h : readMembers n acc ms = .ok xs)
    (hacc : (acc.map Prod.fst).Nodup) :
    (xs.map Prod.fst).Nodup ∧ ∀ x ∈ xs, x ∈ acc ∨ ∃ m ∈ ms, m.2.read n = .ok x.2 := by
  induction ms generalizing acc with
  | nil =>
    cases h
    exact ⟨hacc, fun x hx => .inl hx⟩
  | cons m ms ih =>
    obtain ⟨k, d⟩ := m
    cases k with
    | none => simp [readMembers] at h
    | some k =>
      rw [readMembers] at h
      cases hd : d.read n with
      | error f => simp [hd] at h
      | ok v =>
        simp only [hd] at h
        obtain ⟨hnodup, hfrom⟩ := ih h (Json.nodup_setMember hacc k v)
        refine ⟨hnodup, fun x hx => ?_⟩
        obtain hset | ⟨m, hm, hread⟩ := hfrom x hx
        · obtain rfl | hold := Json.mem_setMember hset
          · exact .inr ⟨(some k, d), List.mem_cons_self, hd⟩
          · exact .inl hold
        · exact .inr ⟨m, List.mem_cons_of_mem _ hm, hread⟩

/-- What is read is regular, and does not nest deeper than it may. -/
theorem read_regular {d : Document} {n : Nat} {j : Json} (hd : d.InRange) (h : d.read n = .ok j) :
    j.Regular ∧ j.depth ≤ n := by
  induction d using Document.ind generalizing n j with
  | null => cases h; simp [Json.depth]
  | bool b => cases h; simp [Json.depth]
  | number reading =>
    cases reading with
    | none => simp [read] at h
    | some m => cases h; simpa [Json.depth] using hd
  | string reading =>
    cases reading with
    | none => simp [read] at h
    | some s => cases h; simp [Json.depth]
  | broken r s c => simp [read] at h
  | array ds ending ih =>
    obtain ⟨-, m, xs, rfl, hread, rfl⟩ := read_array_ok.mp h
    rw [inRange_array] at hd
    have hitems : ∀ x ∈ xs, x.Regular ∧ x.depth ≤ m := by
      intro x hx
      obtain ⟨e, he, hex⟩ := exists_of_readItems hread x hx
      exact ih e he (hd e he) hex
    rw [Json.regular_array, Json.depth_array_le]
    exact ⟨fun x hx => (hitems x hx).1, fun x hx => (hitems x hx).2⟩
  | object ms ending ih =>
    obtain ⟨-, m, xs, rfl, hread, rfl⟩ := read_object_ok.mp h
    rw [inRange_object] at hd
    obtain ⟨hnodup, hfrom⟩ := exists_of_readMembers hread List.nodup_nil
    have hmembers : ∀ x ∈ xs, x.2.Regular ∧ x.2.depth ≤ m := by
      intro x hx
      obtain hnil | ⟨e, he, hex⟩ := hfrom x hx
      · exact absurd hnil (by simp)
      · exact ih e he (hd e he) hex
    rw [Json.regular_object, Json.depth_object_le]
    exact ⟨⟨hnodup, fun x hx => (hmembers x hx).1⟩, fun x hx => (hmembers x hx).2⟩

theorem readItems_map {n : Nat} {xs : List Json}
    (h : ∀ x ∈ xs, (ofJson x).read n = .ok x) : readItems n (xs.map ofJson) = .ok xs := by
  induction xs with
  | nil => rfl
  | cons x xs ih =>
    obtain ⟨hx, hxs⟩ := List.forall_mem_cons.mp h
    simp [readItems, hx, ih hxs]

theorem readMembers_map {n : Nat} (acc : List (String × Json)) {ms : List (String × Json)}
    (hnodup : ((acc ++ ms).map Prod.fst).Nodup)
    (h : ∀ m ∈ ms, (ofJson m.2).read n = .ok m.2) :
    readMembers n acc (ms.map fun m => (some m.1, ofJson m.2)) = .ok (acc ++ ms) := by
  induction ms generalizing acc with
  | nil => simp [readMembers]
  | cons m ms ih =>
    obtain ⟨k, v⟩ := m
    obtain ⟨hv, hms⟩ := List.forall_mem_cons.mp h
    have hnew : k ∉ acc.map Prod.fst := by
      rw [List.map_append, List.map_cons, List.nodup_middle] at hnodup
      exact fun hk => (List.nodup_cons.mp hnodup).1 (List.mem_append_left _ hk)
    rw [List.map_cons, readMembers, hv]
    simp only [Json.setMember_of_notMem hnew]
    rw [ih _ (by simpa using hnodup) hms, List.append_assoc, List.singleton_append]

/-- A regular value is read as itself. -/
theorem read_ofJson {j : Json} {n : Nat} (hj : j.Regular) (h : j.depth ≤ n) :
    (ofJson j).read n = .ok j := by
  induction j using Json.ind generalizing n with
  | array xs ih =>
    cases n with
    | zero => exact absurd h (Json.not_depth_array_le xs)
    | succ n =>
      rw [Json.depth_array_le] at h
      rw [Json.regular_array] at hj
      rw [ofJson, read_array_ok, ofItems_eq_map]
      exact ⟨rfl, n, xs, rfl, readItems_map fun x hx => ih x hx (hj x hx) (h x hx), rfl⟩
  | object ms ih =>
    cases n with
    | zero => exact absurd h (Json.not_depth_object_le ms)
    | succ n =>
      rw [Json.depth_object_le] at h
      rw [Json.regular_object] at hj
      rw [ofJson, read_object_ok, ofMembers_eq_map]
      exact ⟨rfl, n, ms, rfl,
        readMembers_map [] hj.1 fun m hm => ih m hm (hj.2 m hm) (h m hm), rfl⟩
  | _ => rfl

/-- What is read under a bound is read under every greater one. -/
theorem read_mono {d : Document} {n m : Nat} {j : Json} (h : d.read n = .ok j) (hnm : n ≤ m) :
    d.read m = .ok j := by
  induction d using Document.ind generalizing n m j with
  | array ds ending ih =>
    obtain ⟨hending, k, xs, rfl, hread, hj⟩ := read_array_ok.mp h
    obtain ⟨l, rfl⟩ : ∃ l, m = l + 1 := ⟨m - 1, by omega⟩
    refine read_array_ok.mpr ⟨hending, l, xs, rfl, ?_, hj⟩
    clear h hj
    induction ds generalizing xs with
    | nil => exact hread
    | cons d ds ihds =>
      rw [readItems] at hread ⊢
      cases hd : d.read k with
      | error f => simp [hd] at hread
      | ok x =>
        cases hds : readItems k ds with
        | error f => simp [hd, hds] at hread
        | ok ys =>
          have hrest := ihds (fun e he => ih e (List.mem_cons_of_mem _ he)) ys hds
          simpa [hd, hds, ih d List.mem_cons_self hd (show k ≤ l by omega), hrest] using hread
  | object ms ending ih =>
    obtain ⟨hending, k, xs, rfl, hread, hj⟩ := read_object_ok.mp h
    obtain ⟨l, rfl⟩ : ∃ l, m = l + 1 := ⟨m - 1, by omega⟩
    refine read_object_ok.mpr ⟨hending, l, xs, rfl, ?_, hj⟩
    clear h hj
    generalize ([] : List (String × Json)) = acc at hread ⊢
    induction ms generalizing acc with
    | nil => exact hread
    | cons m ms ihms =>
      obtain ⟨name, d⟩ := m
      cases name with
      | none => simp [readMembers] at hread
      | some name =>
        rw [readMembers] at hread ⊢
        cases hd : d.read k with
        | error f => simp [hd] at hread
        | ok v =>
          simp only [hd] at hread
          simp only [ih (some name, d) List.mem_cons_self hd (show k ≤ l by omega)]
          exact ihms (fun e he => ih e (List.mem_cons_of_mem _ he)) _ hread
  | number reading => cases reading <;> exact h
  | string reading => cases reading <;> exact h
  | _ => exact h

/-- Two bounds under which a document is read make no difference. -/
theorem read_agree {d : Document} {n m : Nat} {j k : Json} (hj : d.read n = .ok j)
    (hk : d.read m = .ok k) : j = k := by
  have hmax := (read_mono hj (Nat.le_max_left n m)).symm.trans (read_mono hk (Nat.le_max_right n m))
  exact Except.ok.inj hmax

/-- Only the word is read as null. -/
theorem read_eq_null {d : Document} {n : Nat} (h : d.read n = .ok .null) : d = .null := by
  cases d with
  | null => rfl
  | bool b => simp [read] at h
  | number reading => cases reading <;> simp [read] at h
  | string reading => cases reading <;> simp [read] at h
  | array ds ending =>
    obtain ⟨-, -, xs, -, -, hj⟩ := read_array_ok.mp h
    exact absurd hj (by simp)
  | object ms ending =>
    obtain ⟨-, -, xs, -, -, hj⟩ := read_object_ok.mp h
    exact absurd hj (by simp)
  | broken r s c => simp [read] at h

end Document
end VersionedTopology

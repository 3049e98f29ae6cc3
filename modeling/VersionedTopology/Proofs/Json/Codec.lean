/-
  VersionedTopology.Proofs.Json.Codec

  Decoders and printers that belong together.

  A decoder and a printer of a type make a codec when the decoder yields only valid values, and
  reads every valid value back from its printed form. Brackets count: a decoder that is given
  room for `n` of them yields values that need no more, even where the printed form spells out
  what the text had left to a default, as long as `n` covers the brackets of the type itself.
  Codecs of parts are put together to codecs of options, lists and maps here.
-/

import Mathlib.Data.List.Induction
import VersionedTopology.Proofs.Json.Scan
import VersionedTopology.Proofs.Json.Text

namespace VersionedTopology

/-! ## Results -/

theorem bind_eq_ok {ε α β : Type} {x : Except ε α} {f : α → Except ε β} {b : β} :
    (x >>= f) = .ok b ↔ ∃ a, x = .ok a ∧ f a = .ok b := by
  cases x with
  | error e => simp [bind, Except.bind]
  | ok a => simp [bind, Except.bind]

theorem map_eq_ok {ε α β : Type} {x : Except ε α} {f : α → β} {b : β} :
    x.map f = .ok b ↔ ∃ a, x = .ok a ∧ f a = b := by
  cases x <;> simp [Except.map]

theorem mapError_eq_ok {ε δ α : Type} {x : Except ε α} {f : ε → δ} {a : α} :
    x.mapError f = .ok a ↔ x = .ok a := by
  cases x <;> simp [Except.mapError]

/-! ## Room for brackets -/

namespace Source

/-- How deep brackets may nest in a document of this source, also where it is held back. -/
def limit (src : Source) : Nat := min (src.depth.getD 1000000) 1000000

/-- A document in which brackets nest at most `n` deep: the source sees to it, or it has been read
under that bound before. -/
def Bounds (src : Source) (n : Nat) (d : Document) : Prop :=
  src.depth = some n ∨ src.depth = none ∧ ∃ j, d.read n = .ok j

theorem enter_ok {src src' : Source} (h : src.enter = .ok src') :
    (src.depth = none ∧ src' = src) ∨
      ∃ m, src.depth = some (m + 1) ∧ src' = { src with depth := some m } := by
  unfold enter at h
  split at h
  · rename_i hdepth
    exact .inl ⟨hdepth, (Except.ok.inj h).symm⟩
  · exact absurd h (by simp)
  · rename_i m hdepth
    exact .inr ⟨m, hdepth, (Except.ok.inj h).symm⟩

/-- Where there is room for a bracket, one can go into it. -/
theorem exists_enter {src : Source} (h : 0 < src.limit) :
    ∃ src', src.enter = .ok src' ∧ src.limit ≤ src'.limit + 1 := by
  obtain ⟨depth, held⟩ := src
  cases depth with
  | none => exact ⟨_, rfl, Nat.le_succ _⟩
  | some n =>
    cases n with
    | zero => exact absurd h (by simp [limit])
    | succ n =>
      refine ⟨_, rfl, ?_⟩
      simp only [limit, Option.getD_some]
      omega

end Source

namespace Document

theorem readItems_forall {n : Nat} {ds : List Document} {xs : List Json}
    (h : readItems n ds = .ok xs) : ∀ d ∈ ds, ∃ j, d.read n = .ok j := by
  induction ds generalizing xs with
  | nil => simp
  | cons d ds ih =>
    rw [readItems] at h
    cases hd : d.read n with
    | error f => simp [hd] at h
    | ok x =>
      cases hds : readItems n ds with
      | error f => simp [hd, hds] at h
      | ok ys => exact List.forall_mem_cons.mpr ⟨⟨x, hd⟩, ih hds⟩

theorem readMembers_forall {n : Nat} {ms : List (Option String × Document)}
    {acc xs : List (String × Json)} (h : readMembers n acc ms = .ok xs) :
    ∀ m ∈ ms, ∃ j, m.2.read n = .ok j := by
  induction ms generalizing acc with
  | nil => simp
  | cons m ms ih =>
    obtain ⟨k, d⟩ := m
    cases k with
    | none => simp [readMembers] at h
    | some k =>
      rw [readMembers] at h
      cases hd : d.read n with
      | error f => simp [hd] at h
      | ok v =>
        simp only [hd] at h
        exact List.forall_mem_cons.mpr ⟨⟨v, hd⟩, ih h⟩

end Document

namespace Source

/-- Inside the brackets there is room for one less. -/
theorem Bounds.items {src src' : Source} {n : Nat} {ds : List Document} {ending : Option Fault}
    (h : src.Bounds n (.array ds ending)) (henter : src.enter = .ok src') :
    ∃ m, n = m + 1 ∧ ∀ d ∈ ds, src'.Bounds m d := by
  obtain ⟨hnone, rfl⟩ | ⟨m, hsome, rfl⟩ := enter_ok henter
  · obtain hdepth | ⟨-, j, hread⟩ := h
    · exact absurd (hnone.symm.trans hdepth) (by simp)
    · obtain ⟨-, m, xs, rfl, hitems, -⟩ := Document.read_array_ok.mp hread
      exact ⟨m, rfl, fun d hd => .inr ⟨hnone, Document.readItems_forall hitems d hd⟩⟩
  · obtain hdepth | ⟨hnone, -⟩ := h
    · exact ⟨m, by simpa [hsome] using hdepth.symm, fun d hd => .inl rfl⟩
    · exact absurd (hnone.symm.trans hsome) (by simp)

theorem Bounds.members {src src' : Source} {n : Nat} {ms : List (Option String × Document)}
    {ending : Option Fault} (h : src.Bounds n (.object ms ending))
    (henter : src.enter = .ok src') : ∃ m, n = m + 1 ∧ ∀ x ∈ ms, src'.Bounds m x.2 := by
  obtain ⟨hnone, rfl⟩ | ⟨m, hsome, rfl⟩ := enter_ok henter
  · obtain hdepth | ⟨-, j, hread⟩ := h
    · exact absurd (hnone.symm.trans hdepth) (by simp)
    · obtain ⟨-, m, xs, rfl, hmembers, -⟩ := Document.read_object_ok.mp hread
      exact ⟨m, rfl, fun x hx => .inr ⟨hnone, Document.readMembers_forall hmembers x hx⟩⟩
  · obtain hdepth | ⟨hnone, -⟩ := h
    · exact ⟨m, by simpa [hsome] using hdepth.symm, fun x hx => .inl rfl⟩
    · exact absurd (hnone.symm.trans hsome) (by simp)

/-- A value is read under the bound that its document keeps. -/
theorem Bounds.read_json {src : Source} {n : Nat} {d : Document} {j : Json} (h : src.Bounds n d)
    (hj : Decoder.json src d = .ok j) : d.read n = .ok j := by
  obtain hdepth | ⟨hnone, i, hread⟩ := h
  · simp only [Decoder.json, hdepth] at hj
    exact mapError_eq_ok.mp hj
  · simp only [Decoder.json, hnone] at hj
    rw [Document.read_agree (mapError_eq_ok.mp hj) hread, hread]

end Source

/-! ## Codecs -/

/-- A decoder and a printer that belong together. The decoder yields valid values only, and reads
the printed form of each of them; `k` are the brackets that a printed form has in any case. -/
structure Codec {α : Type} (decoder : Decoder α) (write : α → Json) (valid : α → Prop)
    (k : Nat) : Prop where
  sound : ∀ {src : Source} {n : Nat} {d : Document} {x : α}, k ≤ n → src.Bounds n d → d.InRange →
    decoder src d = .ok x → valid x ∧ (write x).depth ≤ n
  complete : ∀ {src : Source} {x : α}, valid x → (write x).depth ≤ src.limit →
    decoder src (.ofJson (write x)) = .ok x
  regular : ∀ {x : α}, valid x → (write x).Regular

namespace Codec

open Decoder

section scalars

theorem string : Codec Decoder.string .string (fun _ => True) 0 where
  sound _ _ _ _ := ⟨trivial, Nat.zero_le _⟩
  complete _ _ := rfl
  regular _ := Json.regular_string _

theorem bool : Codec Decoder.bool .bool (fun _ => True) 0 where
  sound _ _ _ _ := ⟨trivial, Nat.zero_le _⟩
  complete _ _ := rfl
  regular _ := Json.regular_bool _

theorem unsigned64 : Codec Decoder.unsigned64 .ofNat (· ≤ Number.maxUnsigned) 0 where
  sound _ _ _ h := by
    refine ⟨?_, Nat.zero_le _⟩
    simp only [Decoder.unsigned64, unsigned] at h
    split at h
    · split at h
      · rename_i hrange
        rw [← Except.ok.inj h]
        omega
      · exact absurd h (by simp)
    · exact absurd h (by simp)
  complete {src n} hn _ := by
    have hrange : (0 : Int) ≤ n ∧ (n : Int) ≤ Number.maxUnsigned := by omega
    simp [Decoder.unsigned64, unsigned, Json.ofNat, Document.ofJson, hrange]
  regular {n} hn := by
    simp only [Json.ofNat, Json.regular_number, Number.InRange]
    omega

/-- Any value: what is read is regular. -/
theorem json : Codec Decoder.json id Json.Regular 0 where
  sound _ hbound hd h := Document.read_regular hd (hbound.read_json h)
  complete {src x} hx hdepth := by
    have hread : (Document.ofJson x).read (src.depth.getD 1000000) = .ok x :=
      Document.read_ofJson hx (Nat.le_trans hdepth (Nat.min_le_left _ _))
    simp only [Decoder.json, id]
    split
    · rename_i n hn
      rw [hn, Option.getD_some] at hread
      rw [hread]
      rfl
    · rename_i hn
      rw [hn, Option.getD_none] at hread
      rw [hread]
      rfl
  regular hx := hx

/-- A string with a meaning of its own, which is printed as the text that it was parsed from. -/
theorem parsed {α : Type} {parse : String → Option α} {text : α → String}
    (htext : ∀ s a, parse s = some a → text a = s) :
    Codec (Decoder.parsed parse) (fun a => .string (text a)) (fun a => parse (text a) = some a)
      0 where
  sound {src n d x} _ _ _ h := by
    obtain ⟨s, -, h⟩ := bind_eq_ok.mp h
    refine ⟨?_, Nat.zero_le _⟩
    split at h
    · rename_i a ha
      obtain rfl := Except.ok.inj h
      rw [htext s _ ha, ha]
    · exact absurd h (by simp)
  complete {src a} ha _ := by
    simp [Decoder.parsed, Decoder.string, Document.ofJson, bind, Except.bind, ha]
  regular _ := Json.regular_string _

/-- A word of a fixed choice. -/
theorem word {α : Type} {choice : String → Option α} {name : α → String}
    (h : ∀ a, choice (name a) = some a) :
    Codec (Decoder.word choice) (fun a => .string (name a)) (fun _ => True) 0 where
  sound _ _ _ _ := ⟨trivial, Nat.zero_le _⟩
  complete {src a} _ _ := by simp [Decoder.word, Document.ofJson, h a]
  regular _ := Json.regular_string _

end scalars

variable {α : Type} {decoder : Decoder α} {write : α → Json} {valid : α → Prop} {k : Nat}

/-- The same codec with the printed forms and the valid values put into other words. -/
theorem congr (h : Codec decoder write valid k) {write' : α → Json} {valid' : α → Prop}
    (hwrite : ∀ x, write' x = write x) (hvalid : ∀ x, valid' x ↔ valid x) :
    Codec decoder write' valid' k := by
  obtain rfl : write' = write := funext hwrite
  obtain rfl : valid' = valid := funext fun x => propext (hvalid x)
  exact h

/-- A value that is read and printed by way of another one: `f` makes it of what was read, and `g`
takes it apart again, into something that is valid and nests no deeper than what was read. -/
theorem image (h : Codec decoder write valid k) {β : Type} {f : α → β} {g : β → α}
    (hfg : ∀ b, f (g b) = b)
    (hfits : ∀ {n a}, k ≤ n → valid a → (write a).depth ≤ n →
      valid (g (f a)) ∧ (write (g (f a))).depth ≤ n) :
    Codec (fun src d => (decoder src d).map f) (fun b => write (g b)) (fun b => valid (g b)) k where
  sound hk hbound hd hb := by
    obtain ⟨a, ha, rfl⟩ := map_eq_ok.mp hb
    obtain ⟨hvalid, hdepth⟩ := h.sound hk hbound hd ha
    exact hfits hk hvalid hdepth
  complete {src b} hb hdepth := map_eq_ok.mpr ⟨g b, h.complete hb hdepth, hfg b⟩
  regular hb := h.regular hb

/-! ## Texts -/

/-- A valid value is read from its text, which may nest as many brackets as a text may. -/
theorem ofText_compact (h : Codec decoder write valid k) {x : α} (hx : valid x)
    (hexact : (write x).Exact) (hdepth : (write x).depth ≤ Document.maxDepth) :
    decoder.ofText (write x).compact = .ok x := by
  rw [Decoder.ofText_compact decoder hexact (h.regular hx)]
  exact h.complete hx hdepth

/-- What a text is read as is valid, and its printed form nests as many brackets as a text may. -/
theorem of_ofText (h : Codec decoder write valid k) (hk : k ≤ Document.maxDepth) {text : String}
    {x : α} (hread : decoder.ofText text = .ok x) :
    valid x ∧ (write x).depth ≤ Document.maxDepth := by
  simp only [Decoder.ofText] at hread
  split at hread
  · exact absurd hread (by simp)
  · rename_i a ha
    split at hread
    · exact absurd hread (by simp)
    · obtain rfl := Except.ok.inj hread
      exact h.sound hk (.inl rfl) (Document.inRange_ofText text) ha

/-! ## Options and lists -/

/-- A value that may be null, when no other value is printed as null unless it was. -/
theorem option (h : Codec decoder write valid k)
    (hnull : ∀ {src d x}, decoder src d = .ok x → write x = .null → d = .null) :
    Codec (Decoder.option decoder) (Json.orNull write)
      (fun o => ∀ x ∈ o, valid x ∧ write x ≠ .null) k where
  sound {src n d o} hk hbound hd ho := by
    unfold Decoder.option at ho
    split at ho
    · obtain rfl := Except.ok.inj ho
      exact ⟨by simp, Nat.zero_le _⟩
    · rename_i hne
      obtain ⟨x, hx, rfl⟩ := map_eq_ok.mp ho
      obtain ⟨hvalid, hdepth⟩ := h.sound hk hbound hd hx
      refine ⟨?_, hdepth⟩
      rintro y ⟨rfl⟩
      exact ⟨hvalid, fun hw => hne (hnull hx hw)⟩
  complete {src o} ho hdepth := by
    cases o with
    | none => rfl
    | some x =>
      obtain ⟨hvalid, hw⟩ := ho x rfl
      have hread := h.complete hvalid hdepth
      have hdoc : Document.ofJson (write x) ≠ .null := by
        cases hj : write x <;> simp_all [Document.ofJson]
      unfold Decoder.option
      split
      · rename_i heq
        exact absurd heq hdoc
      · rw [Json.orNull, hread]
        rfl
  regular {o} ho := by
    cases o with
    | none => exact Json.regular_null
    | some x => exact h.regular (ho x rfl).1

/-- A value that may be null, when no value is printed as null. -/
theorem option_of_ne_null (h : Codec decoder write valid k) (hne : ∀ x, write x ≠ .null) :
    Codec (Decoder.option decoder) (Json.orNull write) (fun o => ∀ x ∈ o, valid x) k :=
  (h.option fun _ hw => absurd hw (hne _)).congr (fun _ => rfl) fun o => by simp [hne]

/-- Any value that may be null: null itself stands for an absent value. -/
theorem optionJson : Codec (Decoder.option Decoder.json) (Json.orNull id)
    (fun o => ∀ j ∈ o, j.Regular ∧ j ≠ .null) 0 :=
  json.option fun {src d x} hx hw => by
    obtain rfl : x = .null := hw
    simp only [Decoder.json] at hx
    split at hx <;> exact Document.read_eq_null (mapError_eq_ok.mp hx)

theorem items_ok {src : Source} {ds : List Document} {xs : List α}
    (h : items decoder src ds = .ok xs) : ∀ x ∈ xs, ∃ d ∈ ds, decoder src d = .ok x := by
  induction ds generalizing xs with
  | nil =>
    cases h
    simp
  | cons d ds ih =>
    obtain ⟨y, hy, h⟩ := bind_eq_ok.mp h
    obtain ⟨ys, hys, h⟩ := bind_eq_ok.mp h
    obtain rfl := Except.ok.inj h
    refine List.forall_mem_cons.mpr ⟨⟨d, List.mem_cons_self, hy⟩, fun x hx => ?_⟩
    obtain ⟨e, he, hread⟩ := ih hys x hx
    exact ⟨e, List.mem_cons_of_mem _ he, hread⟩

/-- Where the items are read, each of them is. -/
theorem exists_of_items {src : Source} {ds : List Document} {xs : List α}
    (h : items decoder src ds = .ok xs) : ∀ d ∈ ds, ∃ x, decoder src d = .ok x := by
  induction ds generalizing xs with
  | nil => simp
  | cons d ds ih =>
    obtain ⟨y, hy, h⟩ := bind_eq_ok.mp h
    obtain ⟨ys, hys, -⟩ := bind_eq_ok.mp h
    exact List.forall_mem_cons.mpr ⟨⟨y, hy⟩, ih hys⟩

theorem items_map {src : Source} {xs : List α}
    (h : ∀ x ∈ xs, decoder src (.ofJson (write x)) = .ok x) :
    items decoder src (xs.map fun x => .ofJson (write x)) = .ok xs := by
  induction xs with
  | nil => rfl
  | cons x xs ih =>
    obtain ⟨hx, hxs⟩ := List.forall_mem_cons.mp h
    simp [items, hx, ih hxs, bind, Except.bind]

theorem list (h : Codec decoder write valid k) :
    Codec (Decoder.list decoder) (fun xs => .array (xs.map write)) (fun xs => ∀ x ∈ xs, valid x)
      (k + 1) where
  sound {src n d xs} hk hbound hd hxs := by
    unfold Decoder.list at hxs
    split at hxs
    · rename_i ds ending
      obtain ⟨src', henter, hxs⟩ := bind_eq_ok.mp hxs
      obtain ⟨ys, hys, hxs⟩ := bind_eq_ok.mp hxs
      obtain ⟨-, -, hxs⟩ := bind_eq_ok.mp hxs
      obtain rfl := Except.ok.inj hxs
      obtain ⟨m, rfl, hbounds⟩ := hbound.items henter
      rw [Document.inRange_array] at hd
      have hall : ∀ x ∈ ys, valid x ∧ (write x).depth ≤ m := by
        intro x hx
        obtain ⟨d, hmem, hread⟩ := items_ok hys x hx
        exact h.sound (by omega) (hbounds d hmem) (hd d hmem) hread
      rw [Json.depth_array_le, List.forall_mem_map]
      exact ⟨fun x hx => (hall x hx).1, fun x hx => (hall x hx).2⟩
    · exact absurd hxs (by simp)
  complete {src xs} hxs hdepth := by
    have hroom : 0 < src.limit := by
      rw [Json.depth] at hdepth
      omega
    obtain ⟨src', henter, hlimit⟩ := Source.exists_enter hroom
    have hinner := Json.depth_array_le.mp (Nat.le_trans hdepth hlimit)
    rw [List.forall_mem_map] at hinner
    have hitems : items decoder src' (xs.map fun x => .ofJson (write x)) = .ok xs :=
      items_map fun x hx => h.complete (hxs x hx) (hinner x hx)
    simp [Decoder.list, Document.ofJson, henter, hitems, failText, bind, Except.bind,
      Function.comp_def]
  regular {xs} hxs := by
    rw [Json.regular_array, List.forall_mem_map]
    exact fun x hx => h.regular (hxs x hx)

/-- A collection that is read and printed as a list of its members. -/
theorem collection (h : Codec decoder write valid k) {β : Type} {f : List α → β} {g : β → List α}
    (hfg : ∀ b, f (g b) = b) (hsub : ∀ xs, g (f xs) ⊆ xs) :
    Codec (fun src d => (Decoder.list decoder src d).map f) (fun b => .array ((g b).map write))
      (fun b => ∀ x ∈ g b, valid x) (k + 1) :=
  h.list.image hfg fun {n xs} hk hvalid hdepth => by
    obtain ⟨m, rfl⟩ : ∃ m, n = m + 1 := ⟨n - 1, by omega⟩
    rw [Json.depth_array_le, List.forall_mem_map] at hdepth ⊢
    exact ⟨fun x hx => hvalid x (hsub xs hx), fun x hx => hdepth x (hsub xs hx)⟩

/-! ## Maps -/

section maps

variable {κ : Type} {key : String → Except Failure κ} {text : κ → String}

theorem entries_ok {src : Source} {ms : List (Option String × Document)} {xs : List (κ × α)}
    (h : entries key decoder src ms = .ok xs) :
    ∀ x ∈ xs, (∃ s, key s = .ok x.1) ∧ ∃ m ∈ ms, decoder src m.2 = .ok x.2 := by
  induction ms generalizing xs with
  | nil =>
    cases h
    simp
  | cons m ms ih =>
    obtain ⟨name, d⟩ := m
    cases name with
    | none => exact absurd h (by simp [entries])
    | some name =>
      obtain ⟨k, hk, h⟩ := bind_eq_ok.mp h
      obtain ⟨v, hv, h⟩ := bind_eq_ok.mp h
      obtain ⟨vs, hvs, h⟩ := bind_eq_ok.mp h
      obtain rfl := Except.ok.inj h
      refine List.forall_mem_cons.mpr ⟨⟨⟨name, hk⟩, _, List.mem_cons_self, hv⟩, fun x hx => ?_⟩
      obtain ⟨hname, m, hm, hread⟩ := ih hvs x hx
      exact ⟨hname, m, List.mem_cons_of_mem _ hm, hread⟩

theorem entries_map {src : Source} {xs : List (κ × α)} (hkey : ∀ x ∈ xs, key (text x.1) = .ok x.1)
    (h : ∀ x ∈ xs, decoder src (.ofJson (write x.2)) = .ok x.2) :
    entries key decoder src (xs.map fun x => (some (text x.1), .ofJson (write x.2))) = .ok xs := by
  induction xs with
  | nil => rfl
  | cons x xs ih =>
    obtain ⟨hx, hxs⟩ := List.forall_mem_cons.mp h
    obtain ⟨hk, hks⟩ := List.forall_mem_cons.mp hkey
    simp [entries, hk, hx, ih hks hxs, bind, Except.bind]

theorem entries_mapped {β : Type} (f : α → β) (src : Source)
    (ms : List (Option String × Document)) :
    entries key (fun src d => (decoder src d).map f) src ms =
      (entries key decoder src ms).map (List.map fun x => (x.1, f x.2)) := by
  induction ms with
  | nil => rfl
  | cons m ms ih =>
    obtain ⟨name, d⟩ := m
    cases name with
    | none => rfl
    | some name =>
      rw [entries, entries, ih]
      cases key name with
      | error e => rfl
      | ok k =>
        cases hd : decoder src d with
        | error e => simp [bind, Except.bind, Except.map]
        | ok v => cases entries key decoder src ms <;> simp [bind, Except.bind, Except.map]

/-- Members whose values are made into something else are read as they are first. -/
theorem pairs_mapped {β : Type} (f : α → β) (src : Source) (d : Document) :
    pairs key (fun src d => (decoder src d).map f) src d =
      (pairs key decoder src d).map (List.map fun x => (x.1, f x.2)) := by
  unfold pairs
  split
  · cases src.enter with
    | error e => rfl
    | ok src' =>
      simp only [bind, Except.bind, entries_mapped]
      cases entries key decoder src' _ with
      | error e => rfl
      | ok xs => cases failText _ <;> rfl
  · rfl

variable [Ord κ] [Std.TransOrd κ] [Std.LawfulEqOrd κ]

/-- What a map holds was put into it. -/
theorem mem_of_getElem?_foldl_insert {xs : List (κ × α)} {k : κ} {v : α}
    (h : (xs.foldl (fun m x => m.insert x.1 x.2) (∅ : Std.ExtTreeMap κ α))[k]? = some v) :
    (k, v) ∈ xs := by
  induction xs using List.reverseRecOn with
  | nil => simp at h
  | append_singleton xs x ih =>
    rw [List.foldl_append, List.foldl_cons, List.foldl_nil, Std.ExtTreeMap.getElem?_insert] at h
    split at h
    · rename_i heq
      obtain rfl := Std.LawfulEqOrd.eq_of_compare heq
      obtain rfl := Option.some.inj h
      exact List.mem_append_right _ (List.mem_singleton_self _)
    · exact List.mem_append_left _ (ih h)

/-- The pairs of a map put it together again. -/
theorem foldl_insert_toList (m : Std.ExtTreeMap κ α) :
    m.toList.foldl (fun m x => m.insert x.1 x.2) (∅ : Std.ExtTreeMap κ α) = m := by
  rw [← Std.ExtTreeMap.ofList_eq_foldl]
  refine Std.ExtTreeMap.ext_getElem? fun k => ?_
  cases hk : m[k]? with
  | some v =>
    exact Std.ExtTreeMap.getElem?_ofList_of_mem Std.ReflOrd.compare_self
      Std.ExtTreeMap.distinct_keys_toList (Std.ExtTreeMap.mem_toList_iff_getElem?_eq_some.mpr hk)
  | none =>
    rw [Std.ExtTreeMap.ofList_eq_foldl, Option.eq_none_iff_forall_ne_some]
    intro v hv
    have hmem := Std.ExtTreeMap.mem_toList_iff_getElem?_eq_some.mp (mem_of_getElem?_foldl_insert hv)
    exact absurd (hk.symm.trans hmem) (by simp)

/-- A map whose keys are written as names of members. -/
theorem map (h : Codec decoder write valid k)
    (hkey : ∀ s a, key s = .ok a → key (text a) = .ok a) :
    Codec (fun src d => (pairs key decoder src d).map fun ms =>
        ms.foldl (fun m x => m.insert x.1 x.2) ∅)
      (fun m : Std.ExtTreeMap κ α => .object (m.toList.map fun x => (text x.1, write x.2)))
      (fun m => ∀ a v, m[a]? = some v → key (text a) = .ok a ∧ valid v) (k + 1) where
  sound {src n d m} hk hbound hd hm := by
    obtain ⟨xs, hxs, rfl⟩ := map_eq_ok.mp hm
    unfold Decoder.pairs at hxs
    split at hxs
    · rename_i ms ending
      obtain ⟨src', henter, hxs⟩ := bind_eq_ok.mp hxs
      obtain ⟨ys, hys, hxs⟩ := bind_eq_ok.mp hxs
      obtain ⟨-, -, hxs⟩ := bind_eq_ok.mp hxs
      obtain rfl := Except.ok.inj hxs
      obtain ⟨m, rfl, hbounds⟩ := hbound.members henter
      rw [Document.inRange_object] at hd
      have hall : ∀ x ∈ ys, key (text x.1) = .ok x.1 ∧ valid x.2 ∧ (write x.2).depth ≤ m := by
        intro x hx
        obtain ⟨⟨s, hs⟩, e, he, hread⟩ := entries_ok hys x hx
        exact ⟨hkey s _ hs, h.sound (by omega) (hbounds e he) (hd e he) hread⟩
      refine ⟨fun a v hv => ?_, ?_⟩
      · obtain ⟨ha, hvalid, -⟩ := hall _ (mem_of_getElem?_foldl_insert hv)
        exact ⟨ha, hvalid⟩
      · rw [Json.depth_object_le, List.forall_mem_map]
        intro x hx
        obtain ⟨a, v⟩ := x
        have hv := Std.ExtTreeMap.mem_toList_iff_getElem?_eq_some.mp hx
        exact (hall _ (mem_of_getElem?_foldl_insert hv)).2.2
    · exact absurd hxs (by simp)
  complete {src m} hm hdepth := by
    have hroom : 0 < src.limit := by
      rw [Json.depth] at hdepth
      omega
    obtain ⟨src', henter, hlimit⟩ := Source.exists_enter hroom
    have hinner := Json.depth_object_le.mp (Nat.le_trans hdepth hlimit)
    rw [List.forall_mem_map] at hinner
    have hmem : ∀ x ∈ m.toList, m[x.1]? = some x.2 := fun x hx =>
      Std.ExtTreeMap.mem_toList_iff_getElem?_eq_some.mp hx
    have hentries : entries key decoder src'
        (m.toList.map fun x => (some (text x.1), .ofJson (write x.2))) = .ok m.toList :=
      entries_map (fun x hx => (hm _ _ (hmem x hx)).1)
        fun x hx => h.complete (hm _ _ (hmem x hx)).2 (hinner x hx)
    simp [Decoder.pairs, Document.ofJson, henter, hentries, failText, bind, Except.bind,
      Function.comp_def, Except.map, foldl_insert_toList]
  regular {m} hm := by
    have hmem : ∀ x ∈ m.toList, m[x.1]? = some x.2 := fun x hx =>
      Std.ExtTreeMap.mem_toList_iff_getElem?_eq_some.mp hx
    rw [Json.regular_object, List.forall_mem_map]
    refine ⟨?_, fun x hx => h.regular (hm _ _ (hmem x hx)).2⟩
    -- a name is read as one key only
    rw [List.map_map, List.Nodup, List.pairwise_map]
    refine Std.ExtTreeMap.distinct_keys_toList.imp_of_mem fun {x y} hx hy hne htext => hne ?_
    have hkeys := (hm _ _ (hmem x hx)).1.symm.trans
      ((congrArg key htext).trans (hm _ _ (hmem y hy)).1)
    rw [Except.ok.inj hkeys]
    exact Std.ReflOrd.compare_self

end maps

end Codec
end VersionedTopology

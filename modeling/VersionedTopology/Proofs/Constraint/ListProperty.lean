/-
  VersionedTopology.Proofs.Constraint.ListProperty

  Lists that behave as ordered sets.

  Adding a value to a list property and taking one out of it never fails on a list, so a batch of
  such edits is accepted whatever its order. The first addition makes the list if there is none;
  from then on it stays, even when nothing is left in it. Which values are in it is told by the
  last edit on each: the edits before it do not matter. The order is that of the base for values
  that were never taken out, and after them that of the additions that brought the others in, where
  an addition of a value that is there already brings nothing. Values count as one when they are
  the same JSON, however they are written.
-/

import Mathlib.Data.List.Basic
import VersionedTopology.Proofs.Constraint.WellFormed

namespace VersionedTopology

/-! ## Members up to sameness -/

namespace Json

theorem member_append (v : Json) (xs ys : List Json) :
    member v (xs ++ ys) = (member v xs || member v ys) := by
  simp [member]

theorem member_singleton (v x : Json) : member v [x] = decide (Same x v) := by
  simp [member]

/-- Values that are the same are members of the same lists. -/
theorem member_congr {v w : Json} (h : Same v w) (xs : List Json) : member v xs = member w xs := by
  refine List.any_congr rfl fun x => decide_eq_decide.mpr ?_
  exact ⟨fun hx => hx.trans h, fun hx => hx.trans h.symm⟩

theorem member_filter_not_same (v w : Json) (xs : List Json) :
    member v (xs.filter fun x => !decide (Same x w)) = (!decide (Same w v) && member v xs) := by
  by_cases h : Same w v
  · -- nothing that is left is the same as `v`
    rw [← member_congr h]
    simp [member, h]
  · simp only [h, decide_false, Bool.not_false, Bool.true_and, member, List.any_filter]
    refine List.any_congr rfl fun x => ?_
    by_cases hx : Same x v
    · have hxw : ¬ Same x w := fun heq => h (heq.symm.trans hx)
      simp [hx, hxw]
    · simp [hx]

end Json

/-! ## Edits of a list -/

/-- An edit of a list: a value is added, or one is taken out. A null cannot be taken out, since
removing it removes the property. -/
inductive ListEdit where
  | add (value : Json)
  | remove (value : Json) (nonNull : value.isNull = false)

namespace ListEdit

def value : ListEdit → Json
  | add v => v
  | remove v _ => v

def isAdd : ListEdit → Bool
  | add _ => true
  | remove .. => false

def operator : ListEdit → PropertyOperator
  | add _ => .add
  | remove .. => .remove

/-- The edit as a constraint on a property. -/
def constraint (target : TopologyId) (property : String) (e : ListEdit) : Constraint :=
  .property e.operator target property e.value

/-- Whether an edit is about a value. -/
def isOn (v : Json) (e : ListEdit) : Bool := decide (Json.Same e.value v)

/-- What an edit makes of a list. -/
def apply (items : List Json) : ListEdit → List Json
  | add v => if Json.member v items then items else items ++ [v]
  | remove v _ => items.filter fun item => !decide (Json.Same item v)

/-- What an edit makes of a list that may be absent: the first addition makes one. -/
def applyTo : Option (List Json) → ListEdit → Option (List Json)
  | none, remove .. => none
  | old, e => some (e.apply (old.getD []))

/-! ## What a list holds in the end -/

/-- Whether a value is there after some edits: the last edit on it added it, or there is no edit on
it and it was there before. -/
def present (items : List Json) (edits : List ListEdit) (v : Json) : Bool :=
  match (edits.filter (isOn v)).getLast? with
  | some e => e.isAdd
  | none => Json.member v items

/-- Whether some edit takes a value out. -/
def takenOut (edits : List ListEdit) (v : Json) : Bool := edits.any fun e => !e.isAdd && e.isOn v

/-- The values that are never taken out. -/
def kept (items : List Json) (edits : List ListEdit) : List Json :=
  items.filter fun v => !takenOut edits v

/-- The value that the edit at a position brings in for good: it is added there, is not there
before and is not taken out afterwards. -/
def broughtAt (items : List Json) (edits : List ListEdit) (i : Nat) : Option Json :=
  match edits[i]? with
  | some (add v) =>
    if !present items (edits.take i) v && !takenOut (edits.drop (i + 1)) v then some v else none
  | _ => none

/-- The values that are brought in for good, in the order of the additions that do it. -/
def brought (items : List Json) (edits : List ListEdit) : List Json :=
  (List.range edits.length).filterMap (broughtAt items edits)

variable {items : List Json} {edits : List ListEdit} {e : ListEdit} {v : Json}

/-! ## One edit -/

theorem member_apply (items : List Json) (e : ListEdit) (v : Json) :
    Json.member v (e.apply items) = if e.isOn v then e.isAdd else Json.member v items := by
  cases e with
  | add w =>
    have hadded : Json.member v ((add w).apply items) =
        (Json.member v items || decide (Json.Same w v)) := by
      by_cases hmember : Json.member w items = true
      · by_cases hsame : Json.Same w v
        · simp [apply, hmember, ← Json.member_congr hsame]
        · simp [apply, hmember, hsame]
      · rw [apply, if_neg hmember, Json.member_append, Json.member_singleton]
    by_cases hsame : Json.Same w v <;> simp [hadded, isOn, value, isAdd, hsame]
  | remove w hw =>
    rw [apply, Json.member_filter_not_same]
    by_cases hsame : Json.Same w v <;> simp [isOn, value, isAdd, hsame]

theorem distinct_apply (h : items.Pairwise fun v w => ¬ Json.Same v w) (e : ListEdit) :
    (e.apply items).Pairwise fun v w => ¬ Json.Same v w := by
  cases e with
  | add w =>
    rw [apply]
    split
    · exact h
    · rename_i hnew
      have hnone : ∀ x ∈ items, ¬ Json.Same x w := by simpa [Json.member] using hnew
      refine List.pairwise_append.mpr ⟨h, List.pairwise_singleton _ _, fun x hx y hy => ?_⟩
      rw [List.mem_singleton.mp hy]
      exact hnone x hx
  | remove w hw => exact h.filter _

/-! ## A list of edits -/

theorem present_concat (items : List Json) (edits : List ListEdit) (e : ListEdit) (v : Json) :
    present items (edits ++ [e]) v = if e.isOn v then e.isAdd else present items edits v := by
  by_cases hon : e.isOn v = true
  · simp [present, List.filter_append, hon]
  · simp [present, List.filter_append, hon]

/-- A value is in the list exactly when the last edit on it says so. -/
theorem member_foldl_apply (items : List Json) (edits : List ListEdit) (v : Json) :
    Json.member v (edits.foldl apply items) = present items edits v := by
  induction edits using List.reverseRecOn with
  | nil => rfl
  | append_singleton edits e ih =>
    rw [List.foldl_append, List.foldl_cons, List.foldl_nil, member_apply, present_concat, ih]

theorem distinct_foldl_apply (h : items.Pairwise fun v w => ¬ Json.Same v w)
    (edits : List ListEdit) :
    (edits.foldl apply items).Pairwise fun v w => ¬ Json.Same v w := by
  induction edits generalizing items with
  | nil => exact h
  | cons e edits ih => exact ih (distinct_apply h e)

/-! ## The order -/

theorem takenOut_concat (edits : List ListEdit) (e : ListEdit) (v : Json) :
    takenOut (edits ++ [e]) v = (takenOut edits v || (!e.isAdd && e.isOn v)) := by
  simp [takenOut]

theorem kept_concat (items : List Json) (edits : List ListEdit) (e : ListEdit) :
    kept items (edits ++ [e]) = (kept items edits).filter fun v => !(!e.isAdd && e.isOn v) := by
  rw [kept, kept, List.filter_filter]
  refine List.filter_congr fun v _ => ?_
  rw [takenOut_concat, Bool.not_or, Bool.and_comm]

/-- A further edit takes out what it is about, or leaves what was brought in. -/
theorem broughtAt_concat (items : List Json) (e : ListEdit) {i : Nat} (hi : i < edits.length) :
    broughtAt items (edits ++ [e]) i =
      (broughtAt items edits i).filter fun v => !(!e.isAdd && e.isOn v) := by
  rw [broughtAt, broughtAt, List.getElem?_append_left hi]
  cases edits[i]? with
  | none => rfl
  | some d =>
    cases d with
    | remove w hw => rfl
    | add w =>
      simp only [List.take_append_of_le_length (Nat.le_of_lt hi),
        List.drop_append_of_le_length hi, takenOut_concat, Bool.not_or]
      by_cases hbrought : (!present items (edits.take i) w &&
          !takenOut (edits.drop (i + 1)) w) = true
      · simp only [hbrought, ← Bool.and_assoc, Bool.true_and, if_true, Option.filter_some]
      · simp only [hbrought, ← Bool.and_assoc]
        simp

/-- The last edit brings its value in when it adds one that is not there. -/
theorem broughtAt_length (items : List Json) (edits : List ListEdit) (e : ListEdit) :
    broughtAt items (edits ++ [e]) edits.length =
      if e.isAdd && !present items edits e.value then some e.value else none := by
  rw [broughtAt, List.getElem?_concat_length]
  cases e with
  | add w => simp [takenOut, isAdd, value]
  | remove w hw => rfl

theorem brought_concat (items : List Json) (edits : List ListEdit) (e : ListEdit) :
    brought items (edits ++ [e]) =
      (brought items edits).filter (fun v => !(!e.isAdd && e.isOn v)) ++
        (if e.isAdd && !present items edits e.value then some e.value else none).toList := by
  rw [brought, List.length_append, List.length_singleton, List.range_succ, List.filterMap_append,
    brought, List.filter_filterMap]
  congr 1
  · refine List.filterMap_congr fun i hi => ?_
    exact broughtAt_concat items e (List.mem_range.mp hi)
  · rw [← broughtAt_length]
    cases h : broughtAt items (edits ++ [e]) edits.length <;> simp [h]

/-- Values that were never taken out come first, and the others follow. -/
theorem foldl_apply_eq (items : List Json) (edits : List ListEdit) :
    edits.foldl apply items = kept items edits ++ brought items edits := by
  induction edits using List.reverseRecOn with
  | nil => simp [kept, brought, takenOut]
  | append_singleton edits e ih =>
    have hmember := member_foldl_apply items edits e.value
    rw [List.foldl_append, List.foldl_cons, List.foldl_nil, kept_concat, brought_concat,
      ← List.append_assoc, ← List.filter_append, ← ih]
    cases e with
    | add w =>
      simp only [value] at hmember
      by_cases hthere : present items edits w = true
      · simp [apply, isAdd, value, hmember, hthere]
      · simp [apply, isAdd, value, hmember, hthere]
    | remove w hw =>
      -- an item is the same as the value exactly when the value is the same as the item
      have hsame : ∀ v, (!(!(remove w hw).isAdd && (remove w hw).isOn v)) =
          !decide (Json.Same v w) := fun v =>
        congrArg (!·) (decide_eq_decide.mpr ⟨Json.Same.symm, Json.Same.symm⟩)
      simp only [hsame, apply]
      exact (List.append_nil _).symm

/-! ## From absent to present -/

/-- A list is there in the end when there was one, or when a value is added. -/
theorem foldl_applyTo (old : Option (List Json)) (edits : List ListEdit) :
    edits.foldl applyTo old =
      if old.isSome || edits.any isAdd then some (edits.foldl apply (old.getD [])) else none := by
  induction edits generalizing old with
  | nil => cases old <;> rfl
  | cons e edits ih =>
    rw [List.foldl_cons, ih]
    cases old with
    | some items => rfl
    | none => cases e <;> rfl

/-- A list that an addition has made stays when it is emptied. -/
example : [add (.string "admin"), remove (.string "admin") rfl].foldl applyTo none = some [] := by
  decide

theorem outcome_applyTo (old : Option (List Json)) (e : ListEdit) :
    e.operator.outcome? e.value (old.map .array) = some ((applyTo old e).map .array) := by
  cases e with
  | add w => cases old <;> rfl
  | remove w hw =>
    have hvalue : ¬ w.isNull = true := by simp [hw]
    cases old with
    | none => exact if_neg hvalue
    | some items => exact if_neg hvalue

end ListEdit

/-! ## The solver -/

theorem Properties.put_put (p : Properties) (name : String) (v w : Option Json) :
    (p.put name v).put name w = p.put name w := by
  refine Std.ExtTreeMap.ext_getElem? fun q => ?_
  simp only [getElem?_put]
  split <;> rfl

namespace Solve

variable {schema : Schema} {g : Graph} {t : TopologyId} {p : String}

theorem getElem?_store (g : Graph) (id : TopologyId) (r : Resource) (q : Properties) :
    (store g id r q).resources[id]? = some { r with properties := q } :=
  Std.ExtTreeMap.getElem?_insert_self

/-- Edits of a list are accepted one after the other, and leave the rest of the resource alone. -/
theorem exists_leads_edits {r : Resource} {old : Option (List Json)}
    (hr : g.resources[t]? = some r) (hname : schema.allows t.kind p = true)
    (hold : r.properties[p]? = old.map .array) (edits : List ListEdit) :
    ∃ g', Leads schema g (edits.map (ListEdit.constraint t p)) g' ∧
      g'.resources[t]? = some { r with
        properties := r.properties.put p ((edits.foldl ListEdit.applyTo old).map .array) } := by
  induction edits generalizing g r old with
  | nil =>
    refine ⟨g, leads_nil g, ?_⟩
    rw [List.foldl_nil, ← hold, Properties.put_getElem?, hr]
  | cons e edits ih =>
    have hworked : Worked schema g (e.constraint t p) _ :=
      .property e.operator t p e.value r _ hr hname (hold ▸ e.outcome_applyTo old)
    -- the next edit meets the resource with the list that this one has made
    let list : Option Json := (e.applyTo old).map .array
    have hlist : (r.properties.put p list)[p]? = (e.applyTo old).map .array := by
      rw [Properties.getElem?_put, if_pos rfl]
    obtain ⟨g', hleads, hg'⟩ := ih (getElem?_store g t r (r.properties.put p list)) hlist
    refine ⟨g', leads_cons_iff.mpr ⟨_, hworked, hleads⟩, ?_⟩
    rw [hg', List.foldl_cons, Properties.put_put]

end Solve

/-- **List properties are ordered sets.** Let a property that the schema allows be absent or hold a
list without repetition. Any batch of additions to it and removals from it is accepted. Where it was
absent and nothing is added, it stays absent. Else it ends as a list without repetition, which
holds a value exactly when the last edit on that value adds it, or there is none and the list had
it: first the values from before that no edit takes out, in their order, and then the others in the
order of the additions that last brought them in. Nothing else about the resource changes. -/
theorem list_property_edits {base : Snapshot} {schema : Schema} {t : TopologyId} {r : Resource}
    {p : String} {old : Option (List Json)} (hr : base.resources[t]? = some r)
    (hname : schema.allows t.kind p = true) (hold : r.properties[p]? = old.map .array)
    (hdistinct : (old.getD []).Pairwise fun v w => ¬ Json.Same v w) (edits : List ListEdit) :
    ∃ u, solve base (edits.map (ListEdit.constraint t p)) schema = .ok u ∧
      (old = none → edits.any ListEdit.isAdd = false →
        u.resources[t]? = some r ∧ r.properties[p]? = none) ∧
      (old ≠ none ∨ edits.any ListEdit.isAdd = true →
        ∃ items, u.resources[t]? =
            some { r with properties := r.properties.insert p (.array items) } ∧
          items.Pairwise (fun v w => ¬ Json.Same v w) ∧
          (∀ v, Json.member v items = ListEdit.present (old.getD []) edits v) ∧
          items = ListEdit.kept (old.getD []) edits ++ ListEdit.brought (old.getD []) edits) := by
  obtain ⟨g, hleads, hg⟩ := Solve.exists_leads_edits hr hname hold edits
  obtain ⟨u, hu, rfl⟩ := exists_solve_of_leads hleads
  rw [ListEdit.foldl_applyTo] at hg
  refine ⟨u, hu, ?_, ?_⟩
  · rintro rfl hnone
    have habsent : r.properties[p]? = none := hold
    have hsame : r.properties.put p none = r.properties := by
      rw [← habsent, Properties.put_getElem?]
    simp only [Option.isSome_none, hnone, Bool.or_self, Bool.false_eq_true, if_false,
      Option.map_none, hsame] at hg
    exact ⟨hg, habsent⟩
  · intro hlist
    have hthere : (old.isSome || edits.any ListEdit.isAdd) = true := by
      rw [Bool.or_eq_true, Option.isSome_iff_ne_none]
      exact hlist
    rw [if_pos hthere] at hg
    exact ⟨_, hg, ListEdit.distinct_foldl_apply hdistinct edits,
      ListEdit.member_foldl_apply _ edits, ListEdit.foldl_apply_eq _ edits⟩

namespace Solve

/-- The ports that a rule opens. -/
def ports (first last : Nat) : Json := .object [("from", .ofNat first), ("to", .ofNat last)]

def guarded : Resource :=
  { id := web
    properties := (∅ : Properties).insert "rules"
      (.array [.string "ssh", ports 80 81, .string "icmp"]) }

/-- A value is taken out and brought in again, one is added twice, and one is written with its
members the other way round. -/
def ruleEdits : List ListEdit :=
  [.add (.string "dns"), .remove (.string "ssh") rfl,
    .add (.object [("to", .ofNat 81), ("from", .ofNat 80)]), .add (.string "ssh"),
    .add (.string "dns")]

theorem list_property_edits_reordered :
    guarded.properties["rules"]? =
        some (.array [.string "ssh", ports 80 81, .string "icmp"]) ∧
      ∃ u, solve (paired.withResource guarded)
          (ruleEdits.map (ListEdit.constraint web "rules")) {} = .ok u ∧
        u.resources[web]? = some { guarded with
          properties := guarded.properties.insert "rules"
            (.array [ports 80 81, .string "icmp", .string "dns", .string "ssh"]) } := by
  have hr : (paired.withResource guarded).resources[web]? = some guarded :=
    Std.ExtTreeMap.getElem?_insert_self
  have hold : guarded.properties["rules"]? =
      (some [.string "ssh", ports 80 81, .string "icmp"]).map .array :=
    Std.ExtTreeMap.getElem?_insert_self
  have hname : Schema.allows {} web.kind "rules" = true := rfl
  obtain ⟨u, hu, -, hlist⟩ := list_property_edits hr hname hold (by decide) ruleEdits
  obtain ⟨items, hitems, -, -, rfl⟩ := hlist (.inl (by simp))
  exact ⟨hold, u, hu, hitems⟩

end Solve

end VersionedTopology

/-
  VersionedTopology.Proofs.Json.Scan

  What a text can hold.

  An integer of 64 bits is kept as it is, and every longer literal becomes a double, so whatever
  a text says, its document holds only integers that fit 64 bits.
-/

import VersionedTopology.Proofs.Json.Shape

namespace VersionedTopology

/-! ## Numbers -/

theorem Number.inRange_ofScientific {negative : Bool} {significand : Nat} {exponent : Int}
    {n : Number} (h : ofScientific negative significand exponent = some n) : n.InRange := by
  simp only [ofScientific, Option.map_eq_some_iff] at h
  obtain ⟨f, -, rfl⟩ := h
  trivial

theorem Number.inRange_ofInteger (negative : Bool) {significand : Nat}
    (h : significand ≤ Number.maxUnsigned) : (ofInteger negative significand).InRange := by
  have hmax : Number.maxUnsigned = 18446744073709551615 := rfl
  cases negative with
  | false =>
    simp only [ofInteger, InRange, Bool.false_eq_true, reduceIte]
    omega
  | true =>
    simp only [ofInteger, reduceIte]
    split
    · trivial
    · simp only [InRange]
      omega

namespace Document

theorem inRange_number_ofScientific (negative : Bool) (significand : Nat) (exponent : Int) :
    InRange (.number (Number.ofScientific negative significand exponent)) := by
  cases h : Number.ofScientific negative significand exponent with
  | none => trivial
  | some n => exact Number.inRange_ofScientific h

theorem extend_value_le {s : Significand} (h : s.value ≤ Number.maxUnsigned) (cs : List Char) :
    (s.extend cs).1.value ≤ Number.maxUnsigned := by
  induction cs generalizing s with
  | nil => exact h
  | cons c cs ih =>
    rw [Significand.extend]
    split
    · dsimp only
      split
      · rename_i hfits
        simp only [Bool.and_eq_true, decide_eq_true_eq] at hfits
        exact ih hfits.2
      · exact ih h
    · exact h

theorem inRange_scanExponent (negative : Bool) (significand : Nat) (start : Int)
    (cs : List Char) : (scanExponent negative significand start cs).1.InRange := by
  unfold scanExponent
  split
  split
  · trivial
  · split
    · dsimp only
      split
      · exact inRange_number_ofScientific _ _ _
      · split
        · trivial
        · exact inRange_number_ofScientific _ _ _
    · trivial

theorem inRange_scanFraction (negative : Bool) {s : Significand}
    (h : s.value ≤ Number.maxUnsigned) (cs : List Char) :
    (scanFraction negative s cs).1.InRange := by
  -- only a literal without fraction and exponent is kept as an integer
  have hinteger : ∀ rest : List Char, InRange
      (if s.dropped = 0 then
        ((.number (some (Number.ofInteger negative s.value)), rest) : Document × List Char)
      else (.number (Number.ofScientific negative s.value s.dropped), rest)).1 := by
    intro rest
    split
    · exact Number.inRange_ofInteger negative h
    · exact inRange_number_ofScientific _ _ _
  unfold scanFraction
  split
  · split
    · trivial
    · split
      · dsimp only
        split
        · split
          · exact inRange_scanExponent _ _ _ _
          · exact inRange_number_ofScientific _ _ _
        · exact inRange_number_ofScientific _ _ _
      · trivial
  · split
    · exact inRange_scanExponent _ _ _ _
    · exact hinteger _
  · exact hinteger _

theorem inRange_scanNumber (negative : Bool) (cs : List Char) :
    (scanNumber negative cs).1.InRange := by
  have hdigits := extend_value_le (s := ⟨0, 0, 0⟩) (Nat.zero_le Number.maxUnsigned)
  unfold scanNumber
  split
  · trivial
  · split
    · split
      · trivial
      · exact inRange_scanFraction _ (Nat.zero_le _) _
    · exact inRange_scanFraction _ (Nat.zero_le _) _
  · split
    · dsimp only
      exact inRange_scanFraction _ (hdigits _) _
    · trivial

theorem inRange_scanWord {value : Document} (h : value.InRange) (first : Char)
    (ws cs : List Char) : (scanWord first value ws cs).1.InRange := by
  induction ws generalizing cs with
  | nil => exact h
  | cons w ws ih =>
    cases cs with
    | nil => trivial
    | cons c cs =>
      rw [scanWord]
      split
      · exact ih cs
      · trivial

/-! ## Values -/

/-- The scan of values, items and members with some fuel yields documents in range. -/
def ScansInRange (fuel : Nat) : Prop :=
  (∀ cs, (scanValue fuel cs).1.InRange) ∧
  (∀ cs, ∀ d ∈ (scanItems fuel cs).1, d.InRange) ∧
  (∀ cs, ∀ m ∈ (scanMembers fuel cs).1, m.2.InRange)

theorem inRange_scanValue {fuel : Nat} (h : ScansInRange fuel) (cs : List Char) :
    (scanValue (fuel + 1) cs).1.InRange := by
  obtain ⟨-, hitems, hmembers⟩ := h
  unfold scanValue
  dsimp only
  split
  · trivial
  · exact inRange_scanWord inRange_null _ _ _
  · exact inRange_scanWord (inRange_bool true) _ _ _
  · exact inRange_scanWord (inRange_bool false) _ _ _
  · exact inRange_scanNumber _ _
  · split <;> trivial
  · split
    · simp
    · simp
    · simpa using hitems _
  · split
    · simp
    · simp
    · simpa using hmembers _
  · split
    · exact inRange_scanNumber _ _
    · trivial

theorem inRange_scanItems {fuel : Nat} (h : ScansInRange fuel) (cs : List Char) :
    ∀ d ∈ (scanItems (fuel + 1) cs).1, d.InRange := by
  obtain ⟨hvalue, hitems, -⟩ := h
  have hfirst := hvalue cs
  unfold scanItems
  dsimp only
  split
  · simpa using hfirst
  · split
    · simpa using hfirst
    · simpa using hfirst
    · simpa using ⟨hfirst, hitems _⟩
    · simpa using hfirst

theorem inRange_scanMembers {fuel : Nat} (h : ScansInRange fuel) (cs : List Char) :
    ∀ m ∈ (scanMembers (fuel + 1) cs).1, m.2.InRange := by
  obtain ⟨hvalue, -, hmembers⟩ := h
  unfold scanMembers
  split
  · simp
  · split
    · simp
    · split
      · simp
      · dsimp only
        split
        · simpa using hvalue _
        · split
          · simpa using hvalue _
          · simpa using hvalue _
          · simpa using ⟨hvalue _, fun a b => hmembers _ (a, b)⟩
          · simpa using hvalue _
      · simp
  · simp

theorem scansInRange (fuel : Nat) : ScansInRange fuel := by
  induction fuel with
  | zero => exact ⟨fun _ => trivial, by simp [scanItems], by simp [scanMembers]⟩
  | succ fuel ih => exact ⟨inRange_scanValue ih, inRange_scanItems ih, inRange_scanMembers ih⟩

/-- Whatever a text says, its document is in range. -/
theorem inRange_ofText (text : String) : (ofText text).root.InRange :=
  (scansInRange (2 * text.toList.length + 2)).1 text.toList

end Document
end VersionedTopology

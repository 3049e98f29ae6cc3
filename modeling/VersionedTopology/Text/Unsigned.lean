/-
  VersionedTopology.Text.Unsigned

  Reading unsigned decimal numbers of a limited size.

  A number is one or more digits, which a plus may precede. The text is read from
  left to right, and the first problem is the one that is told.
-/

namespace VersionedTopology.Text

/-- Why a text is no number. -/
inductive NumberFault where
  | empty
  | invalidDigit
  | overflow
deriving DecidableEq, Repr, Inhabited

def NumberFault.text : NumberFault → String
  | empty => "cannot parse integer from empty string"
  | invalidDigit => "invalid digit found in string"
  | overflow => "number too large to fit in target type"

/-- Reads on from a number read so far. -/
def readDigits (max : Nat) : Nat → List Char → Except NumberFault Nat
  | n, [] => .ok n
  | n, c :: cs =>
    if !c.isDigit then .error .invalidDigit
    else
      let n := 10 * n + (c.toNat - 48)
      if n > max then .error .overflow else readDigits max n cs

/-- Reads a number up to a bound. -/
def readUnsigned (max : Nat) (s : String) : Except NumberFault Nat :=
  match s.toList with
  | [] => .error .empty
  | ['+'] => .error .invalidDigit
  | '+' :: digits => readDigits max 0 digits
  | digits => readDigits max 0 digits

/-- The greatest unsigned integer of 16 bits, `2 ^ 16 - 1`. -/
def max16 : Nat := 65535

/-- The greatest unsigned integer of 32 bits, `2 ^ 32 - 1`. -/
def max32 : Nat := 4294967295

/-- The greatest unsigned integer of 64 bits, `2 ^ 64 - 1`. -/
def max64 : Nat := 18446744073709551615

end VersionedTopology.Text

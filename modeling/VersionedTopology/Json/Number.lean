/-
  VersionedTopology.Json.Number

  JSON numbers: exact integers of 64 bits, and doubles.

  An integer literal without fraction or exponent that fits 64 bits stays exact.
  Every other literal, and `-0`, is a double. Doubles are kept by their bits, so
  that numbers can be compared and copied without touching floating point
  arithmetic; only reading a literal multiplies.
-/

import VersionedTopology.Decimal.Shortest

namespace VersionedTopology

/-- A JSON number. `int` holds integers from `-2^63` to `2^64 - 1`; `double` holds a finite
double by its bits. The two kinds are never equal. -/
inductive Number where
  | int (n : Int)
  | double (bits : UInt64)
deriving DecidableEq, Repr, Inhabited

namespace Number

/-- The greatest unsigned integer of 64 bits, `2 ^ 64 - 1`. -/
def maxUnsigned : Nat := 18446744073709551615

def negativeZero : UInt64 := 0x8000000000000000

/-- Both zeros of a double are one number. -/
def canon : Number → Number
  | .int n => .int n
  | .double bits => if bits = negativeZero then .double 0 else .double bits

/-! ## Reading -/

/-- The double nearest to `10 ^ k`, for `k ≤ 308`. -/
def tenPow (k : Nat) : Float := Float.ofScientific 1 false k

/-- `significand * 10 ^ exponent` in at most `fuel` further steps of `10 ^ -308`. The significand
is rounded to a double first and each step rounds once; `none` is a result beyond the doubles. -/
def scale : Nat → Float → Int → Option Float
  | fuel, f, e =>
    if e.natAbs ≤ 308 then
      if e ≥ 0 then
        let r := f * tenPow e.natAbs
        if r.isInf then none else some r
      else some (f / tenPow e.natAbs)
    else if f == 0.0 then some f
    else if e ≥ 0 then none
    else match fuel with
      | 0 => some 0.0
      | fuel + 1 => scale fuel (f / tenPow 308) (e + 308)

/-- The double of a literal with the given sign, significand and exponent. -/
def ofScientific (negative : Bool) (significand : Nat) (exponent : Int) : Option Number :=
  (scale 4 (UInt64.ofNat significand).toFloat exponent).map fun f =>
    .double (if negative then -f else f).toBits

/-- The number of an integer literal whose digits fit 64 bits. Negative integers reach down to
`-2 ^ 63`; below that they are doubles, and so is the negative zero. -/
def ofInteger (negative : Bool) (significand : Nat) : Number :=
  if negative then
    if significand = 0 ∨ significand > 9223372036854775808 then
      .double (-(UInt64.ofNat significand).toFloat).toBits
    else .int (-significand)
  else .int significand

/-! ## Printing -/

/-- Digits with the point placed: positional while the first digit stands between five places
after the point and sixteen before it, else one digit, the rest, and the exponent. An integral
value keeps `.0`. -/
def render (s : Decimal.Scientific) : String :=
  let digits := toString s.digits
  let count := digits.length
  let point : Int := count + s.exponent
  let exponentText (e : Int) := if e < 0 then "-" ++ toString e.natAbs else toString e.natAbs
  if s.exponent ≥ 0 ∧ point ≤ 16 then
    digits ++ "".pushn '0' s.exponent.toNat ++ ".0"
  else if 0 < point ∧ point ≤ 16 then
    String.ofList (digits.toList.take point.toNat) ++ "." ++
      String.ofList (digits.toList.drop point.toNat)
  else if -5 < point ∧ point ≤ 0 then
    "0." ++ "".pushn '0' (-point).toNat ++ digits
  else if count = 1 then
    digits ++ "e" ++ exponentText (point - 1)
  else
    String.ofList (digits.toList.take 1) ++ "." ++ String.ofList (digits.toList.drop 1) ++
      "e" ++ exponentText (point - 1)

/-- The text of a number. -/
def text : Number → String
  | .int n => toString n
  | .double bits =>
    let magnitude := bits &&& 0x7fffffffffffffff
    (if bits = magnitude then "" else "-") ++ render (Decimal.shortest magnitude)

end Number

end VersionedTopology

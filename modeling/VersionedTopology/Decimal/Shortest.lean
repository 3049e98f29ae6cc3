/-
  VersionedTopology.Decimal.Shortest

  The fewest decimal digits that read back to a given double.

  A finite double is `m * 2 ^ q` for naturals `m` and an integer `q`. The reals
  that round to it form an interval, closed when `m` is even. For one digit, two
  digits, up to seventeen, the two neighbours of the value on the grid of that
  many digits are tested in exact arithmetic; the first grid with a hit wins.
-/

namespace VersionedTopology.Decimal

/-- A decimal number `digits * 10 ^ exponent`. -/
structure Scientific where
  digits : Nat
  exponent : Int
deriving DecidableEq, Repr

/-- The magnitude `mantissa * 2 ^ exponent` of a finite double. -/
structure Binary where
  mantissa : Nat
  exponent : Int
  /-- The next smaller double is only half a step away. -/
  atBoundary : Bool
deriving DecidableEq, Repr

/-- Splits the bits of a double; the sign bit is dropped. A field other than zero stands for a
leading bit, `2 ^ 52`, that is not written. -/
def Binary.ofBits (bits : UInt64) : Binary :=
  let fraction := (bits &&& 0xfffffffffffff).toNat
  let field := ((bits >>> 52) &&& 0x7ff).toNat
  if field = 0 then ⟨fraction, -1074, false⟩
  else ⟨4503599627370496 + fraction, (field : Int) - 1075, fraction = 0 && field > 1⟩

/-- A nonnegative fraction with a positive denominator. -/
structure Fraction where
  num : Nat
  den : Nat
deriving DecidableEq, Repr

/-- `a / b` compared with `c / d`, by cross multiplication. -/
def Fraction.le (x y : Fraction) : Bool := x.num * y.den ≤ y.num * x.den

/-- `num / den` times a power of ten. -/
def Fraction.timesTenPow (x : Fraction) (e : Int) : Fraction :=
  if e ≥ 0 then ⟨x.num * Nat.pow 10 e.toNat, x.den⟩ else ⟨x.num, x.den * Nat.pow 10 (-e).toNat⟩

/-- `num / den` times a power of two. -/
def Fraction.timesTwoPow (x : Fraction) (e : Int) : Fraction :=
  if e ≥ 0 then ⟨x.num * Nat.pow 2 e.toNat, x.den⟩ else ⟨x.num, x.den * Nat.pow 2 (-e).toNat⟩

/-- Number of decimal digits of a natural, one for zero. -/
def digitCount (n : Nat) : Nat := (Nat.toDigits 10 n).length

/-- The least `k ≥ start` with `x * 10 ^ k ≥ 1`, searched for at most `fuel` steps. -/
def leadingShift (x : Fraction) : Nat → Nat → Nat
  | 0, k => k
  | fuel + 1, k => if x.num * Nat.pow 10 k ≥ x.den then k else leadingShift x fuel (k + 1)

/-- The `p` with `10 ^ (p - 1) ≤ x < 10 ^ p`, for positive `x`. -/
def Fraction.magnitude (x : Fraction) : Int :=
  if x.num ≥ x.den then digitCount (x.num / x.den)
  else 1 - (leadingShift x 400 1 : Int)

/-- The interval of reals that round to a double, in quarters of its last place. -/
structure Interval where
  value : Fraction
  low : Fraction
  high : Fraction
  closed : Bool
deriving Repr

def Binary.interval (b : Binary) : Interval :=
  let scale (n : Nat) : Fraction := (⟨n, 1⟩ : Fraction).timesTwoPow (b.exponent - 2)
  { value := scale (4 * b.mantissa)
    low := scale (4 * b.mantissa - if b.atBoundary then 1 else 2)
    high := scale (4 * b.mantissa + 2)
    closed := b.mantissa % 2 = 0 }

/-- Whether a fraction rounds to the double of the interval. -/
def Interval.holds (i : Interval) (x : Fraction) : Bool :=
  if i.closed then i.low.le x && x.le i.high
  else !(x.le i.low) && !(i.high.le x)

/-- `|x - y|` -/
def Fraction.distance (x y : Fraction) : Fraction :=
  let a := x.num * y.den
  let b := y.num * x.den
  ⟨if a ≥ b then a - b else b - a, x.den * y.den⟩

/-- The better neighbour of the value on the grid of multiples of `10 ^ e`, if one is in the
interval. Of two hits the nearer wins; an exact tie goes to the even digit. -/
def Interval.onGrid (i : Interval) (e : Int) : Option Nat :=
  let scaled := i.value.timesTenPow (-e)
  let below := scaled.num / scaled.den
  let point (k : Nat) : Fraction := (⟨k, 1⟩ : Fraction).timesTenPow e
  let hitBelow := below ≠ 0 && i.holds (point below)
  let hitAbove := i.holds (point (below + 1))
  match hitBelow, hitAbove with
  | false, false => none
  | true, false => some below
  | false, true => some (below + 1)
  | true, true =>
    let down := i.value.distance (point below)
    let up := i.value.distance (point (below + 1))
    if down.le up && up.le down then some (if below % 2 = 0 then below else below + 1)
    else if down.le up then some below
    else some (below + 1)

/-- The first grid with a hit, trying `n` digits, then one more, for `fuel` grids. -/
def Interval.search (i : Interval) (p : Int) : Nat → Nat → Option Scientific
  | 0, _ => none
  | fuel + 1, n =>
    match i.onGrid (p - n) with
    | some k => some ⟨k, p - n⟩
    | none => i.search p fuel (n + 1)

/-- Moves trailing zeros from the digits to the exponent. -/
def Scientific.normalise : Nat → Scientific → Scientific
  | 0, s => s
  | fuel + 1, s =>
    if s.digits ≠ 0 ∧ s.digits % 10 = 0 then normalise fuel ⟨s.digits / 10, s.exponent + 1⟩ else s

/-- The shortest decimal that reads back to the magnitude of a positive finite double. -/
def shortest (bits : UInt64) : Scientific :=
  let b := Binary.ofBits bits
  if b.mantissa = 0 then ⟨0, 0⟩
  else
    let i := b.interval
    match i.search i.value.magnitude 18 1 with
    | some s => s.normalise 20
    | none => ⟨0, 0⟩

end VersionedTopology.Decimal

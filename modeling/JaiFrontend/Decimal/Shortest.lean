/-!
# The shortest decimal of a floating-point number

A double-precision number is read back from every decimal that lies nearer to it than to its
neighbours. `Decimal.ofFloat` gives the decimal with the fewest digits among those, and of two with
as few digits the nearer one. All arithmetic is on natural numbers and hence exact.
-/

namespace JaiFrontend

structure Decimal where
  coefficient : Nat
  exponent : Int
  deriving DecidableEq

namespace Decimal

inductive Tie where
  | up
  | even

/-- Moves the trailing zeros of the coefficient into the exponent; `limit` bounds their count. -/
def stripZeros : Nat → Decimal → Decimal
  | 0, d => d
  | limit + 1, d =>
    if d.coefficient % 10 = 0 then stripZeros limit ⟨d.coefficient / 10, d.exponent + 1⟩ else d

def digitCount (n : Nat) : Nat := (Nat.toDigits 10 n).length

/-- A positive fraction together with the reals that stand for it: those between
`(numerator - below) / denominator` and `(numerator + above) / denominator`, ends included if
`closed`. -/
structure Target where
  numerator : Nat
  below : Nat
  above : Nat
  denominator : Nat
  closed : Bool

namespace Target

/-- The magnitude of the fraction: the `e` for which it lies from `10 ^ (e - 1)` up to
`10 ^ e`. -/
def magnitude (t : Target) : Int :=
  if t.denominator ≤ t.numerator then digitCount (t.numerator / t.denominator)
  else 1 - digitCount ((t.denominator - 1) / t.numerator)

def inUnits (t : Target) (exponent : Int) : Target :=
  if 0 ≤ exponent then { t with denominator := t.denominator * Nat.pow 10 exponent.toNat }
  else
    let factor := Nat.pow 10 (-exponent).toNat
    { t with
      numerator := t.numerator * factor
      below := t.below * factor
      above := t.above * factor }

def holds (t : Target) (n : Nat) : Bool :=
  let value := n * t.denominator
  if t.closed then t.numerator ≤ value + t.below && value ≤ t.numerator + t.above
  else t.numerator < value + t.below && value < t.numerator + t.above

def nearest? (t : Target) (tie : Tie) : Option Nat :=
  let floor := t.numerator / t.denominator
  match t.holds floor, t.holds (floor + 1) with
  | false, false => none
  | true, false => some floor
  | false, true => some (floor + 1)
  | true, true =>
    let twice := 2 * (t.numerator % t.denominator)
    if twice < t.denominator then some floor
    else if t.denominator < twice then some (floor + 1)
    else match tie with
      | .up => some (floor + 1)
      | .even => some (if floor % 2 = 0 then floor else floor + 1)

def shortestFrom (t : Target) (tie : Tie) : Nat → Nat → Decimal
  | 0, digits =>
    let exponent := t.magnitude - digits
    let scaled := t.inUnits exponent
    ⟨scaled.numerator / scaled.denominator, exponent⟩
  | fuel + 1, digits =>
    let exponent := t.magnitude - digits
    match (t.inUnits exponent).nearest? tie with
    | some n => ⟨n, exponent⟩
    | none => shortestFrom t tie fuel (digits + 1)

end Target

/-- What the bits of a double-precision number say: `mantissa * 2 ^ (exponent - 1075)` from the
biased exponent, where the exponent 0 counts as 1. -/
structure Bits where
  negative : Bool
  biased : Nat
  fraction : Nat

def Bits.ofFloat (x : Float) : Bits :=
  let bits := x.toBits.toNat
  ⟨bits >>> 63 = 1, (bits >>> 52) % (1 <<< 11), bits % (1 <<< 52)⟩

/-- The reals that are read as the number with these fields. Below a power of two the next number
is half as far away as above it. -/
def Bits.target (b : Bits) : Target :=
  let mantissa := if b.biased = 0 then b.fraction else b.fraction + (1 <<< 52)
  let exponent := max b.biased 1
  let scale := 1 <<< (exponent - 1077)
  { numerator := 4 * mantissa * scale
    below := (if b.fraction = 0 && 1 < b.biased then 1 else 2) * scale
    above := 2 * scale
    denominator := 1 <<< (1077 - exponent)
    closed := mantissa % 2 = 0 }

/-- The shortest decimal of the absolute value of a finite floating-point number. Seventeen digits
always suffice. -/
def ofFloat (x : Float) (tie : Tie) : Decimal :=
  let bits := Bits.ofFloat x
  if bits.biased = 0 && bits.fraction = 0 then ⟨0, 0⟩
  else stripZeros 400 (bits.target.shortestFrom tie 17 1)

end Decimal

end JaiFrontend

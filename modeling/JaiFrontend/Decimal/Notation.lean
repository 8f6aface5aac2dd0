import JaiFrontend.Decimal.Shortest
/-!
# How a floating-point number is written

A number is written with its shortest decimal, either positionally or with an exponent. The three
notations of this library differ in where the exponent begins, in whether it has a sign when it is
not negative, and in whether a whole number keeps a fraction.
-/

namespace JaiFrontend

structure FloatNotation where
  tie : Decimal.Tie
  isPositional : Int → Bool
  wholeEnding : String
  exponentSign : String

namespace FloatNotation

/-- Never an exponent, and no fraction on a whole number. -/
def plain : FloatNotation := ⟨.up, fun _ => true, "", ""⟩

/-- An exponent from `1e16` on and below `1e-4`. -/
def debug : FloatNotation := ⟨.up, fun magnitude => -4 < magnitude && magnitude ≤ 16, ".0", ""⟩

/-- An exponent from `1e+16` on and below `1e-5`. -/
def json : FloatNotation := ⟨.even, fun magnitude => -5 < magnitude && magnitude ≤ 16, ".0", "+"⟩

def digits (n : Nat) : List Char := Nat.toDigits 10 n

def positional (form : FloatNotation) (d : Decimal) : String :=
  let ds := digits d.coefficient
  if 0 ≤ d.exponent then
    String.ofList (ds ++ List.replicate d.exponent.toNat '0') ++ form.wholeEnding
  else
    let places := (-d.exponent).toNat
    if places < ds.length then
      String.ofList (ds.take (ds.length - places) ++ '.' :: ds.drop (ds.length - places))
    else String.ofList ('0' :: '.' :: List.replicate (places - ds.length) '0' ++ ds)

def scientific (form : FloatNotation) (d : Decimal) : String :=
  let ds := digits d.coefficient
  let exponent := d.exponent + ds.length - 1
  let mantissa := match ds with
    | [] => []
    | [c] => [c]
    | c :: rest => c :: '.' :: rest
  let sign := if exponent < 0 then "" else form.exponentSign
  String.ofList mantissa ++ "e" ++ sign ++ toString exponent

def magnitudeText (form : FloatNotation) (x : Float) : String :=
  let d := Decimal.ofFloat x form.tie
  if form.isPositional (d.exponent + (digits d.coefficient).length) then form.positional d
  else form.scientific d

def write (form : FloatNotation) (x : Float) : String :=
  let bits := Decimal.Bits.ofFloat x
  let sign := if bits.negative then "-" else ""
  if bits.biased = 2047 then
    if bits.fraction = 0 then sign ++ "inf" else "NaN"
  else sign ++ form.magnitudeText x

end FloatNotation

end JaiFrontend

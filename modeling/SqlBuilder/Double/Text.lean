import SqlBuilder.Double.Shortest

/-!
# Decimal text of doubles

The digits come from `Double.shortest`; a `Layout` says how they are written: where positional
notation ends, whether a whole number keeps a fraction, which way ties go.

`plain` is a model of how `Value` displays a float, `interchange` of how a `RenderedQuery` writes
one.
-/

namespace SqlBuilder.Double

/-- How the digits of a finite number are laid out. -/
structure Layout where
  tie : Tie
  /-- The scientific exponents that are written positionally, from the first up to, not
  including, the second. All of them if absent. -/
  positional : Option (Int × Int)
  /-- Whether a whole number in positional notation ends in `.0`. -/
  wholeFraction : Bool

/-- `digits * 10 ^ exponent` without an exponent, for `n` digits. -/
def positionalText (wholeFraction : Bool) (digits : List Char) (exponent : Int) : List Char :=
  let point : Int := digits.length + exponent
  if 0 ≤ exponent then
    digits ++ List.replicate exponent.toNat '0' ++ (if wholeFraction then ['.', '0'] else [])
  else if 0 < point then
    digits.take point.toNat ++ '.' :: digits.drop point.toNat
  else
    '0' :: '.' :: List.replicate (-point).toNat '0' ++ digits

/-- One digit, the other digits after a point, and the exponent with its sign. -/
def scientificText (digits : List Char) (exponent : Int) : List Char :=
  let fraction := if digits.length = 1 then [] else '.' :: digits.drop 1
  digits.take 1 ++ fraction ++ 'e' :: (if 0 ≤ exponent then '+' else '-')
    :: Nat.toDigits 10 exponent.natAbs

/-- The text of a finite magnitude. -/
def Layout.magnitudeText (layout : Layout) (magnitude : Nat) : List Char :=
  let decimal := shortest layout.tie magnitude
  let digits := Nat.toDigits 10 decimal.digits
  let scientific := decimal.exponent + digits.length - 1
  let inRange : Bool := match layout.positional with
    | none => true
    | some (low, high) => low ≤ scientific && scientific < high
  if magnitude == 0 || inRange then positionalText layout.wholeFraction digits decimal.exponent
  else scientificText digits scientific

/-- The text of a finite number; zero keeps its sign. -/
def Layout.text (layout : Layout) (x : Double) : String :=
  String.ofList <|
    (if x.isNegative then ['-'] else []) ++ layout.magnitudeText x.magnitude

/-! ## The two notations -/

/-- Plain notation: never an exponent, a whole number is written as an integer, and of two
equally near digits the larger is taken. -/
def plain : Layout := ⟨.up, none, false⟩

/-- Interchange notation: always a fraction or an exponent, positional from `1e-5` up to `1e16`. -/
def interchange : Layout := ⟨.even, some (-5, 16), true⟩

/-- The plain text of any number. A NaN shows neither sign nor payload. -/
def plainText (x : Double) : String :=
  if x.isNaN then "NaN"
  else if x.isFinite then plain.text x
  else if x.isNegative then "-inf" else "inf"

end SqlBuilder.Double

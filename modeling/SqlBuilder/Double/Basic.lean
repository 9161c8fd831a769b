/-!
# Binary64 numbers by their bits

A `Double` is a 64-bit pattern: sign, 11 exponent bits, 52 fraction bits. Keeping the bits keeps
what numeric comparison forgets, the sign of zero and the payload of a NaN. All arithmetic here is
exact arithmetic on `Nat`, followed by one rounding.

* `Double.sameNumber`: comparison as numbers (a NaN differs from itself, the two zeros agree).
* `Double.nearest`: the double nearest to a quotient of naturals, ties to the even significand.
* `Single.toDouble`: a binary32 number, widened.

Model of the floats in `Value::Float`: of their comparison by bits in `same_literal` and as numbers
in the derived equality of `Value`.
-/

namespace SqlBuilder

/-- A binary64 number, given by its bits. -/
@[ext]
structure Double where
  /-- Sign, exponent and fraction, from the highest bit down. -/
  bits : UInt64
deriving DecidableEq

namespace Double

/-! ## Fields -/

/-- The pattern without its sign bit. Among numbers of one sign it orders by size. -/
def magnitude (x : Double) : Nat := x.bits.toNat % Nat.pow 2 63

/-- Whether the sign bit is set. -/
def isNegative (x : Double) : Bool := Nat.pow 2 63 ≤ x.bits.toNat

/-- The magnitude of the infinities. Smaller ones are finite, larger ones are NaNs. -/
def infinite : Nat := 0x7ff * Nat.pow 2 52

def isFinite (x : Double) : Bool := x.magnitude < infinite

def isNaN (x : Double) : Bool := infinite < x.magnitude

def isZero (x : Double) : Bool := x.magnitude == 0

/-- A sign and a magnitude below `2 ^ 63`, as one pattern. -/
def ofMagnitude (negative : Bool) (magnitude : Nat) : Double :=
  ⟨UInt64.ofNat (if negative then Nat.pow 2 63 + magnitude else magnitude)⟩

/-- Equality as numbers: a NaN equals nothing and the two zeros are equal. -/
def sameNumber (x y : Double) : Bool :=
  !x.isNaN && !y.isNaN && (x.bits == y.bits || (x.isZero && y.isZero))

/-! ## Exact value

A finite magnitude stands for `significand * 2 ^ exponent`. -/

/-- The integer significand of a finite magnitude, with the implicit leading bit. -/
def significand (magnitude : Nat) : Nat :=
  if magnitude < Nat.pow 2 52 then magnitude else Nat.pow 2 52 + magnitude % Nat.pow 2 52

/-- The power of two that scales the significand of a finite magnitude. -/
def exponent (magnitude : Nat) : Int := (max (magnitude / Nat.pow 2 52) 1 : Nat) - 1075

/-- A finite magnitude as a quotient of naturals. -/
def ratio (magnitude : Nat) : Nat × Nat :=
  (significand magnitude * Nat.pow 2 (exponent magnitude).toNat,
    Nat.pow 2 (-exponent magnitude).toNat)

/-! ## Rounding -/

/-- The natural nearest to `num / den`, a half going to the even neighbour. -/
def roundQuotient (num den : Nat) : Nat :=
  let floor := num / den
  let rest := 2 * (num % den)
  if rest < den ∨ (rest = den ∧ floor % 2 = 0) then floor else floor + 1

/-- The exponent of the greatest power of two that is at most `num / den`, for `0 < num`. -/
def floorLog2 (num den : Nat) : Int :=
  let guess : Int := (num.log2 : Int) - den.log2
  if den * Nat.pow 2 guess.toNat ≤ num * Nat.pow 2 (-guess).toNat then guess else guess - 1

/-- The magnitude nearest to `num / den`, a tie going to the even significand. What is too big
for a finite magnitude becomes infinite.

With `scale` the weight of the last bit, the pattern of `n * 2 ^ scale` is `n` plus one binade for
each step of `scale` above the least, for subnormal `n`, for normal `n`, and when rounding has
carried `n` to the next power of two. -/
def nearest (num den : Nat) : Nat :=
  if num = 0 then 0 else
    let scale := max (floorLog2 num den - 52) (-1074)
    let n := roundQuotient (num * Nat.pow 2 (-scale).toNat) (den * Nat.pow 2 scale.toNat)
    min ((scale + 1074).toNat * Nat.pow 2 52 + n) infinite

/-- The magnitude nearest to a natural number. -/
def ofNat (n : Nat) : Nat := nearest n 1

/-- The product of two finite magnitudes, rounded. -/
def mul (x y : Nat) : Nat := nearest ((ratio x).1 * (ratio y).1) ((ratio x).2 * (ratio y).2)

/-- The quotient of two finite magnitudes, rounded. -/
def div (x y : Nat) : Nat := nearest ((ratio x).1 * (ratio y).2) ((ratio x).2 * (ratio y).1)

end Double

/-- A binary32 number, given by its bits. -/
structure Single where
  /-- Sign, exponent and fraction, from the highest bit down. -/
  bits : UInt32
deriving DecidableEq

/-- Widening is exact. A NaN keeps its payload in the leading fraction bits and becomes quiet. -/
def Single.toDouble (x : Single) : Double :=
  let magnitude := x.bits.toNat % Nat.pow 2 31
  let field := magnitude / Nat.pow 2 23
  let fraction := magnitude % Nat.pow 2 23
  .ofMagnitude (Nat.pow 2 31 ≤ x.bits.toNat) <|
    if field = 255 then
      if fraction = 0 then Double.infinite
      else Double.infinite + Nat.pow 2 51 + fraction % Nat.pow 2 22 * Nat.pow 2 29
    else if field = 0 then Double.nearest fraction (Nat.pow 2 149)
    else Double.nearest ((Nat.pow 2 23 + fraction) * Nat.pow 2 field) (Nat.pow 2 150)

end SqlBuilder

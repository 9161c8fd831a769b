import SqlBuilder.Json.Basic

/-!
# Numbers in JSON text

A number is read into a 64-bit significand and a power of ten. Digits that no longer fit the
significand only count for the power. The result is the double nearest to the significand, times
or divided by the double nearest to the power, each step rounded. It is therefore not always the
double nearest to the number as it is written.

Without a fraction or an exponent, what fits a 64-bit integer, signed or unsigned, stays one.

Model of how `ComposerConfig::from_json_str` reads a number.
-/

namespace SqlBuilder.Json

/-- The value of a decimal digit. -/
def digit? (c : Char) : Option Nat := if c.isDigit then some (c.toNat - '0'.toNat) else none

/-- Drops leading digits. -/
def skipDigits (cs : List Char) : List Char := cs.dropWhile Char.isDigit

/-- Appends leading digits to a significand as long as the result stays below a bound. Gives the
significand, the number of digits appended, and the rest. -/
def takeDigits (bound significand : Nat) : List Char → Nat × Nat × List Char
  | [] => (significand, 0, [])
  | c :: cs =>
    match digit? c with
    | none => (significand, 0, c :: cs)
    | some d =>
      if significand * 10 + d < bound then
        let (s, n, rest) := takeDigits bound (significand * 10 + d) cs
        (s, n + 1, rest)
      else (significand, 0, c :: cs)

/-- The magnitude of `significand * 10 ^ exponent`, unless it is too big. Powers beyond those of
a double are divided out in rounds; after three nothing is left. -/
def scale : Nat → (significand : Nat) → (exponent : Int) → Option Nat
  | rounds, f, exponent =>
    if exponent.natAbs ≤ 308 then
      let power := Double.ofNat (Nat.pow 10 exponent.natAbs)
      if 0 ≤ exponent then
        let product := Double.mul f power
        if product = Double.infinite then none else some product
      else some (Double.div f power)
    else if f = 0 then some 0
    else if 0 ≤ exponent then none
    else match rounds with
      | 0 => some 0
      | rounds + 1 => scale rounds (Double.div f (Double.ofNat (Nat.pow 10 308))) (exponent + 308)

/-- The signed number of a significand and a power of ten. -/
def realOf (negative : Bool) (significand : Nat) (exponent : Int) : Option Json :=
  (scale 3 (Double.ofNat significand) exponent).map fun m => .real (.ofMagnitude negative m)

/-- Exponents saturate here, at the bounds of a 32-bit integer. -/
def clampExponent (e : Int) : Int := max (-(Nat.pow 2 31 : Int)) (min e (Nat.pow 2 31 - 1))

/-- The rest of a number from its exponent's sign on. -/
def readExponent (negative : Bool) (significand : Nat) (shift : Int) (cs : List Char) :
    Option (Json × List Char) := do
  let (down, cs) := match cs with
    | '+' :: cs => (false, cs)
    | '-' :: cs => (true, cs)
    | cs => (false, cs)
  let _ ← cs.head?.bind digit?
  let (e, _, rest) := takeDigits (Nat.pow 2 31) 0 cs
  if (rest.head?.bind digit?).isSome then
    -- an exponent of more than 31 bits: too big, or nothing is left
    if significand ≠ 0 ∧ !down then none
    else return (.real (.ofMagnitude negative 0), skipDigits rest)
  else
    let e : Int := if down then -e else e
    return (← realOf negative significand (clampExponent (shift + e)), rest)

/-- The rest of a number from the first digit of its fraction on. -/
def readFraction (negative : Bool) (significand : Nat) (shift : Int) (cs : List Char) :
    Option (Json × List Char) := do
  let _ ← cs.head?.bind digit?
  let (s, n, rest) := takeDigits (Nat.pow 2 64) significand cs
  let shift := shift - n
  match skipDigits rest with
  | 'e' :: rest | 'E' :: rest => readExponent negative s shift rest
  | rest => return (← realOf negative s shift, rest)

/-- An integer, if it fits 64 bits. Zero with a minus sign is a float. -/
def integerOf (negative : Bool) (n : Nat) : Json :=
  if !negative then .integer n
  else if 0 < n ∧ n ≤ Nat.pow 2 63 then .integer (-n)
  else .real (.ofMagnitude true (Double.ofNat n))

/-- A number from its first digit on. Only a zero may begin with a zero. -/
def readNumber (negative : Bool) (cs : List Char) : Option (Json × List Char) := do
  let first ← cs.head?.bind digit?
  let (s, n, rest) := takeDigits (Nat.pow 2 64) 0 cs
  if first = 0 ∧ 1 < n then none
  let long := skipDigits rest
  let shift : Int := rest.length - long.length
  match long with
  | '.' :: rest => readFraction negative s shift rest
  | 'e' :: rest | 'E' :: rest => readExponent negative s shift rest
  | rest =>
    if 0 < shift then return (← realOf negative s shift, rest)
    else return (integerOf negative s, rest)

end SqlBuilder.Json

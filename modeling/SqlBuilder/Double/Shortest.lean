import SqlBuilder.Double.Basic

/-!
# The shortest decimal that reads back

A finite nonzero magnitude `m` has an interval of reals that round to it. `Double.shortest` takes
the coarsest decimal grid with a point in that interval, and on it the point nearest to the exact
value. If a grid has a point in the interval then one of the value's two neighbours on that grid
is such a point, so two candidates per grid are tested, by exact arithmetic on `Nat`.

Seventeen digits always suffice; a tie between two candidates goes as the caller says.

Model of the digits that `Value` is displayed with and that a `RenderedQuery` is written with when
it holds a float.
-/

namespace SqlBuilder

/-- The decimal `digits * 10 ^ exponent`. -/
structure Decimal where
  digits : Nat
  exponent : Int
deriving DecidableEq

/-- Which of two equally near neighbours to take. -/
inductive Tie where
  /-- The larger one. -/
  | up
  /-- The one with the even last digit. -/
  | even
deriving DecidableEq

namespace Double

/-! ## The rounding interval -/

/-- The reals that round to a magnitude, in quarters of the weight of its last bit. -/
structure Interval where
  lo : Nat
  value : Nat
  hi : Nat
  /-- Whether the two ends round to the magnitude too. -/
  closed : Bool

/-- Half a unit to each side, but a quarter below a power of two, where the spacing halves. The
ends belong to the interval exactly when the significand is even. -/
def interval (magnitude : Nat) : Interval :=
  let n := significand magnitude
  let narrow := magnitude % Nat.pow 2 52 = 0 ∧ Nat.pow 2 53 ≤ magnitude
  ⟨4 * n - (if narrow then 1 else 2), 4 * n, 4 * n + 2, n % 2 == 0⟩

/-! ## Candidates on one grid -/

/-- The number of decimal digits, at least one. -/
def digitCount (n : Nat) : Nat := (Nat.toDigits 10 n).length

/-- The least `e` with `num / den < 10 ^ e`, for `0 < num`. -/
def decimalExponent (num den : Nat) : Int :=
  if den ≤ num then digitCount (num / den)
  else
    let shift := digitCount den - digitCount num
    if den ≤ num * Nat.pow 10 shift then 1 - (shift : Int) else -(shift : Int)

/-- The multiple of `10 ^ k` nearest to the magnitude, among its two neighbours that lie in the
rounding interval. -/
def candidate? (tie : Tie) (magnitude : Nat) (k : Int) : Option Nat :=
  let range := interval magnitude
  let scale := exponent magnitude - 2
  -- a quarter unit is `unit / grid` steps of the grid
  let unit := Nat.pow 2 scale.toNat * Nat.pow 10 (-k).toNat
  let grid := Nat.pow 2 (-scale).toNat * Nat.pow 10 k.toNat
  let hit (c : Nat) : Bool :=
    if range.closed then range.lo * unit ≤ c * grid && c * grid ≤ range.hi * unit
    else range.lo * unit < c * grid && c * grid < range.hi * unit
  let below := range.value * unit / grid
  let rest := 2 * (range.value * unit % grid)
  let nearer :=
    if rest < grid then below
    else if grid < rest then below + 1
    else match tie with
      | .up => below + 1
      | .even => if below % 2 = 0 then below else below + 1
  match hit below, hit (below + 1) with
  | true, true => some nearer
  | true, false => some below
  | false, true => some (below + 1)
  | false, false => none

/-- Drops trailing zeros of the digits, at most `fuel` of them. -/
def Decimal.strip : Nat → Decimal → Decimal
  | 0, d => d
  | fuel + 1, d =>
    if d.digits ≠ 0 ∧ d.digits % 10 = 0 then strip fuel ⟨d.digits / 10, d.exponent + 1⟩ else d

/-- The shortest decimal in the rounding interval of a finite magnitude, the nearest of those. -/
def shortest (tie : Tie) (magnitude : Nat) : Decimal :=
  if magnitude = 0 then ⟨0, 0⟩
  else
    let (num, den) := ratio magnitude
    let top := decimalExponent num den
    let found := (List.range 17).findSome? fun i =>
      let k := top - (i + 1 : Nat)
      (candidate? tie magnitude k).map (⟨·, k⟩)
    Decimal.strip 17 (found.getD ⟨num / den, 0⟩)

end Double
end SqlBuilder

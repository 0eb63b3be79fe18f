import BlockMachine.Number.Binary

/-!
# The shortest decimal of a double

Every real close enough to a double reads back as that double. Among the decimals that do, the one
with the fewest digits is chosen; of several such the nearest, and of two equally near the larger.

The search runs over the grids `10^(k-1), 10^(k-2), …`, where `10^(k-1) ≤ value < 10^k`: if any
point of a grid reads back, one of the two neighbours of the value on that grid does.
-/

namespace BlockMachine

/-- The positive number `digits · 10^exponent`. -/
structure Decimal where
  digits : Nat
  exponent : Int
  deriving DecidableEq, Repr

namespace Decimal

/-- Moves trailing zeros of the digits into the exponent, `fuel` of them at most. -/
def dropZeros : Nat → Decimal → Decimal
  | 0, d => d
  | fuel + 1, d =>
    if d.digits % 10 == 0 && d.digits != 0 then dropZeros fuel ⟨d.digits / 10, d.exponent + 1⟩
    else d

/-- The reals that read back as one double, in units of `2^unit`: from `low` to `high` around
`value`, with the ends when `closed`. -/
structure Span where
  low : Nat
  value : Nat
  high : Nat
  unit : Int
  closed : Bool

/-- The span of `significand · 2^exponent`. Below a power of two the doubles lie twice as close. -/
def Span.of (significand : Nat) (exponent : Int) : Span where
  low := if significand == 2 ^ 52 && exponent > -1074 then 4 * significand - 1
    else 4 * significand - 2
  value := 4 * significand
  high := 4 * significand + 2
  unit := exponent - 2
  closed := significand % 2 == 0

/-- The span measured in units of `10^place`, as numerators over one denominator. -/
structure Scaled where
  low : Nat
  value : Nat
  high : Nat
  denominator : Nat

def Span.scale (s : Span) (place : Int) : Scaled :=
  let up := 2 ^ s.unit.toNat * 10 ^ (-place).toNat
  { low := s.low * up
    value := s.value * up
    high := s.high * up
    denominator := 2 ^ (-s.unit).toNat * 10 ^ place.toNat }

/-- The point of the grid `10^place` that reads back and is nearest to the value, if any does. -/
def Span.onGrid? (s : Span) (place : Int) : Option Nat :=
  let t := s.scale place
  let below := t.value / t.denominator
  let above := below + 1
  let belowFits :=
    if s.closed then t.low ≤ below * t.denominator else t.low < below * t.denominator
  let aboveFits :=
    if s.closed then above * t.denominator ≤ t.high else above * t.denominator < t.high
  let aboveNearer :=
    above * t.denominator - t.value ≤ t.value - below * t.denominator
  if belowFits && aboveFits then some (if aboveNearer then above else below)
  else if belowFits then some below
  else if aboveFits then some above
  else none

/-- The `k` with `10^(k-1) ≤ value < 10^k`, searched from a guess that is at most a few places too
low. -/
def Span.magnitude (s : Span) : Int :=
  let bits : Int := s.value.log2 + s.unit
  let guess := bits * 1233 / 4096 - 1
  let fits (k : Int) : Bool :=
    let t := s.scale k
    t.value < t.denominator
  ((List.range 5).map fun (i : Nat) => guess + Int.ofNat i).find? fits |>.getD (guess + 5)

/-- The shortest decimal of the span: the first grid with a hit. -/
def Span.shortest (s : Span) : Decimal :=
  let k := s.magnitude
  let attempt (n : Nat) : Option Decimal :=
    let place := k - ((n + 1 : Nat) : Int)
    (s.onGrid? place).map fun d => dropZeros 18 ⟨d, place⟩
  (List.range 17).findSome? attempt |>.getD ⟨0, 0⟩

/-- The shortest decimal of a finite double other than zero, without its sign. -/
def ofBinary (b : Binary) : Decimal :=
  (Span.of b.significand b.exponent).shortest

end Decimal
end BlockMachine

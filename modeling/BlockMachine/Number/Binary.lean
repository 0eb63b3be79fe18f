/-!
# Doubles as whole numbers times powers of two

A finite double is `±significand · 2^exponent`. Rounding to whole numbers, remainders and the order
of numbers are decided on that form in integer arithmetic, so none of them rounds a second time.

* `Binary.ofFloat?` takes a double apart, `Binary.toFloat` puts one together.
* `Number.floor`, `Number.ceiling`, `Number.roundHalfUp`, `Number.remainder` are exact.
* `Number.rank?` places every double but NaN on the integers, in order.
-/

-- Powers are those of the core library, also where another library offers its own.
attribute [instance (10001), default_instance (10001)] instPowNat

namespace BlockMachine

/-- A finite double: `significand · 2^exponent`, negated when `negative`. -/
structure Binary where
  negative : Bool
  significand : Nat
  exponent : Int
  deriving DecidableEq, Repr

namespace Binary

/-- The parts of a finite double; `none` for NaN and the infinities. -/
def ofFloat? (x : Float) : Option Binary :=
  let bits : Nat := x.toBits.toNat
  let negative := bits / 2 ^ 63 == 1
  let biased : Nat := bits / 2 ^ 52 % 2048
  let fraction : Nat := bits % 2 ^ 52
  if biased == 2047 then none
  else if biased == 0 then some ⟨negative, fraction, -1074⟩
  else some ⟨negative, fraction + 2 ^ 52, (biased : Int) - 1075⟩

/-- The bits of `significand · 2^exponent`, for a significand below `2^53` and an exponent of at
least `-1074`. -/
def magnitudeBits (significand : Nat) (exponent : Int) : Nat :=
  let shift := min (52 - significand.log2) (exponent + 1074).toNat
  let m := significand * 2 ^ shift
  let biased := (exponent - shift + 1075).toNat
  if m < 2 ^ 52 then m
  else if 2047 ≤ biased then 2047 * 2 ^ 52
  else biased * 2 ^ 52 + (m - 2 ^ 52)

/-- The double with these parts, for a significand below `2^53` and an exponent of at least
`-1074`; infinite when it is out of range. -/
def toFloat (b : Binary) : Float :=
  let sign := if b.negative then 2 ^ 63 else 0
  Float.ofBits (UInt64.ofNat (sign + magnitudeBits b.significand b.exponent))

/-- The significand with its sign. -/
def signed (b : Binary) : Int :=
  if b.negative then -(b.significand : Int) else b.significand

/-- The greatest whole number that is not above the value. -/
def floor (b : Binary) : Int :=
  if 0 ≤ b.exponent then b.signed * 2 ^ b.exponent.toNat
  else b.signed / 2 ^ (-b.exponent).toNat

/-- Whether the value is a whole number. -/
def isWhole (b : Binary) : Bool :=
  0 ≤ b.exponent || b.significand % 2 ^ (-b.exponent).toNat == 0

end Binary

namespace Number

/-- Not a number. -/
def nan : Float := 0.0 / 0.0

/-- Positive infinity. -/
def infinity : Float := 1.0 / 0.0

/-- The place of a number in the order of the doubles. The two zeros share place `0`; NaN has no
place. -/
def rank? (x : Float) : Option Int :=
  let bits : Nat := x.toBits.toNat
  let magnitude : Nat := bits % 2 ^ 63
  if 2047 * 2 ^ 52 < magnitude then none
  else if bits / 2 ^ 63 == 1 then some (-(magnitude : Int))
  else some magnitude

/-- Whether the sign bit is set, which tells the two zeros apart. -/
def isNegative (x : Float) : Bool :=
  x.toBits.toNat / 2 ^ 63 == 1

/-- The greatest whole number not above a finite number, as an integer. -/
def floor? (x : Float) : Option Int :=
  (Binary.ofFloat? x).map Binary.floor

/-- Whether a number is finite and whole. -/
def isWhole (x : Float) : Bool :=
  (Binary.ofFloat? x).any Binary.isWhole

/-- The greatest whole number not above `x`. NaN, the infinities and both zeros stay as they
are. -/
def floor (x : Float) : Float :=
  match Binary.ofFloat? x with
  | none => x
  | some b => if b.isWhole then x else Float.ofInt b.floor

/-- The least whole number not below `x`. -/
def ceiling (x : Float) : Float :=
  -(floor (-x))

/-- The nearest whole number; halves go up. -/
def roundHalfUp (x : Float) : Float :=
  floor (x + 0.5)

/-- The remainder of a division whose quotient is cut towards zero. It takes the sign of the
dividend. -/
def remainder (x y : Float) : Float :=
  match Binary.ofFloat? x, Binary.ofFloat? y with
  | none, _ => nan
  | some _, none => if y.isNaN then nan else x
  | some a, some b =>
    if b.significand == 0 then nan
    else
      let e := min a.exponent b.exponent
      let r := (a.significand * 2 ^ (a.exponent - e).toNat)
        % (b.significand * 2 ^ (b.exponent - e).toNat)
      Binary.toFloat ⟨a.negative, r, e⟩

/-- The whole part as a 64-bit count: below zero and NaN give `0`, what is too large the greatest
count. -/
def toCount (x : Float) : Nat :=
  match Binary.ofFloat? x with
  | some b => if b.negative then 0 else min b.floor.toNat (2 ^ 64 - 1)
  | none => if x.isNaN || isNegative x then 0 else 2 ^ 64 - 1

end Number
end BlockMachine

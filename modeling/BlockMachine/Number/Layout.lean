import BlockMachine.Number.Shortest

/-!
# Writing numbers

A `Layout` holds the decisions of one way to write a number; `Layout.write` applies them to the
shortest digits. Two layouts are in use: `Layout.display` for the text of a value and
`Layout.inspect` for values shown inside lists.
-/

namespace BlockMachine

/-- How numbers are written. With `p` the place of the point, so that the number is
`0.d₁d₂… · 10^p`, it is written positionally for `leastPlace ≤ p ≤ greatestPlace` and with an
exponent otherwise. -/
structure Layout where
  leastPlace : Int
  greatestPlace : Int
  /-- What follows a whole number that is written positionally. -/
  wholeSuffix : String
  /-- What precedes an exponent that is not negative. -/
  exponentPlus : String
  /-- Whether the sign of zero is written. -/
  signedZero : Bool
  infinity : String
  deriving Repr

namespace Layout

/-- Positional from a millionth up to `10^21`, `1e+21` and `1e-7` beyond; zero has no sign. -/
def display : Layout where
  leastPlace := -5
  greatestPlace := 21
  wholeSuffix := ""
  exponentPlus := "+"
  signedZero := false
  infinity := "Infinity"

/-- Positional from `0.0001` up to `10^16`, always with a fraction there; `1e16` and `1e-5`
beyond; zero keeps its sign. -/
def inspect : Layout where
  leastPlace := -3
  greatestPlace := 16
  wholeSuffix := ".0"
  exponentPlus := ""
  signedZero := true
  infinity := "inf"

/-- `n` zeros. -/
def zeros (n : Nat) : String :=
  String.ofList (List.replicate n '0')

/-- The digits with a point after the first `place` of them, padded with zeros on either side. -/
def positional (l : Layout) (digits : List Char) (place : Int) : String :=
  if place ≤ 0 then "0." ++ zeros (-place).toNat ++ String.ofList digits
  else
    let whole := place.toNat
    if whole < digits.length then
      String.ofList (digits.take whole) ++ "." ++ String.ofList (digits.drop whole)
    else String.ofList digits ++ zeros (whole - digits.length) ++ l.wholeSuffix

/-- One digit, the point and the other digits, then the exponent. -/
def scientific (l : Layout) (digits : List Char) (place : Int) : String :=
  let mantissa := match digits with
    | [] => ""
    | [d] => String.ofList [d]
    | d :: rest => String.ofList (d :: '.' :: rest)
  let e := place - 1
  let exponent := if e < 0 then "-" ++ Nat.repr e.natAbs else l.exponentPlus ++ Nat.repr e.natAbs
  mantissa ++ "e" ++ exponent

/-- A positive decimal. -/
def decimal (l : Layout) (d : Decimal) : String :=
  let digits := (Nat.repr d.digits).toList
  let place := d.exponent + digits.length
  if l.leastPlace ≤ place ∧ place ≤ l.greatestPlace then l.positional digits place
  else l.scientific digits place

/-- The text of a number. -/
def write (l : Layout) (x : Float) : String :=
  match Binary.ofFloat? x with
  | none =>
    if x.isNaN then "NaN" else if Number.isNegative x then "-" ++ l.infinity else l.infinity
  | some b =>
    if b.significand == 0 then
      (if b.negative && l.signedZero then "-0" else "0") ++ l.wholeSuffix
    else (if b.negative then "-" else "") ++ l.decimal (Decimal.ofBinary b)

end Layout
end BlockMachine

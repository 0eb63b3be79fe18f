import BlockMachine.Number.Shortest
import BlockMachine.Text.Blank

/-!
# Reading numbers

`Numeral.read` gives the number a text stands for. Blanks around it are dropped, then it is

* nothing, which is zero;
* `Infinity` with an optional sign;
* `0x`, `0b` or `0o` in either case and digits of that radix, `2^64 - 1` at most (a `+` may stand
  before the digits);
* a decimal: an optional sign, digits with an optional point, at least one digit in all, and an
  optional exponent, read as the nearest double.

Every other text is NaN.
-/

namespace BlockMachine

/-- The double nearest to `digits · 10^exponent`. Exponents far out of range are settled without
computing the power. -/
def Decimal.nearest (digits : Nat) (exponent : Int) : Float :=
  let bound : Int := exponent + ((digits.log2 + 1) / 3 + 1 : Nat)
  if digits == 0 || bound < -330 then 0.0
  else if 330 < exponent then Number.infinity
  else if 0 ≤ exponent then Float.ofScientific digits false exponent.toNat
  else Float.ofScientific digits true (-exponent).toNat

namespace Numeral

/-- The value of a digit in any radix up to 36. -/
def digitValue? (c : Char) : Option Nat :=
  let n := c.toNat
  if 48 ≤ n && n ≤ 57 then some (n - 48)
  else if 97 ≤ n && n ≤ 122 then some (n - 87)
  else if 65 ≤ n && n ≤ 90 then some (n - 55)
  else none

/-- The value of digits of a radix; `none` when one is not such a digit. -/
def digitsValue? (radix : Nat) (cs : List Char) : Option Nat :=
  cs.foldlM (fun acc c =>
    (digitValue? c).bind fun d => if d < radix then some (acc * radix + d) else none) 0

/-- The value of decimal digits. -/
def decimalValue (cs : List Char) : Nat :=
  cs.foldl (fun acc c => acc * 10 + (c.toNat - 48)) 0

/-- Takes an optional sign off; `true` when it was a minus. -/
def splitSign : List Char → Bool × List Char
  | '+' :: cs => (false, cs)
  | '-' :: cs => (true, cs)
  | cs => (false, cs)

/-- The leading decimal digits and what follows them. -/
def splitDigits (cs : List Char) : List Char × List Char :=
  (cs.takeWhile Char.isDigit, cs.dropWhile Char.isDigit)

/-- The digits after a point, when there is a point. -/
def splitFraction : List Char → List Char × List Char
  | '.' :: cs => splitDigits cs
  | cs => ([], cs)

/-- What stands after the digits: nothing, or an exponent up to the end. -/
def exponent? : List Char → Option Int
  | [] => some 0
  | c :: cs =>
    if c == 'e' || c == 'E' then
      let (negative, cs) := splitSign cs
      let (digits, rest) := splitDigits cs
      if digits.isEmpty || !rest.isEmpty then none
      else
        let n : Int := decimalValue digits
        some (if negative then -n else n)
    else none

/-- A decimal up to the end of the characters, as the nearest double. -/
def decimal? (cs : List Char) : Option Float :=
  let (negative, cs) := splitSign cs
  let (whole, cs) := splitDigits cs
  let (fraction, cs) := splitFraction cs
  if whole.isEmpty && fraction.isEmpty then none
  else
    (exponent? cs).map fun e =>
      let x := Decimal.nearest (decimalValue (whole ++ fraction)) (e - fraction.length)
      if negative then -x else x

/-- Digits of a radix, at least one and 64 bits at most, after an optional `+`. -/
def radix? (radix : Nat) (cs : List Char) : Option Nat :=
  let digits := match cs with
    | '+' :: rest => rest
    | _ => cs
  if digits.isEmpty then none
  else (digitsValue? radix digits).filter (· < 2 ^ 64)

/-- The radix a leading mark announces. -/
def radixMark? (c : Char) : Option Nat :=
  if c == 'x' || c == 'X' then some 16
  else if c == 'b' || c == 'B' then some 2
  else if c == 'o' || c == 'O' then some 8
  else none

/-- A number without blanks around it that is not written with a radix mark. -/
def plain (cs : List Char) : Float :=
  if cs == "Infinity".toList || cs == "+Infinity".toList then Number.infinity
  else if cs == "-Infinity".toList then -Number.infinity
  else (decimal? cs).getD Number.nan

/-- The number that trimmed characters stand for. -/
def readTrimmed : List Char → Float
  | [] => 0.0
  | '0' :: mark :: cs =>
    match radixMark? mark with
    | some radix => ((radix? radix cs).map Float.ofNat).getD Number.nan
    | none => plain ('0' :: mark :: cs)
  | cs => plain cs

/-- The number a text stands for. -/
def read (s : String) : Float :=
  readTrimmed (Text.trim s.toList)

end Numeral
end BlockMachine

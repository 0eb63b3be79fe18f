import BlockMachine.Number.Numeral

/-!
# JSON documents

A document as a tree. Numbers keep what was written, so each reader decides which numbers it takes;
objects keep their fields in the order of the text.

A text that stops being JSON still has a tree: what was read before the fault, with `unread` at the
end of every array and object that was open. A decoder that goes through the tree in order therefore
meets the faults of a text in the order in which they stand there. What is well formed but has no
value is `garbled`, which only matters to a decoder that needs the value.
-/

namespace BlockMachine

/-- A number as written. -/
structure JsonNumber where
  negative : Bool
  whole : List Char
  /-- The digits after the point, when there is a point. -/
  fraction : Option (List Char)
  /-- The exponent, when there is one. -/
  exponent : Option Int
  deriving DecidableEq, Repr

inductive Json where
  | null
  | bool (b : Bool)
  | number (n : JsonNumber)
  | text (s : String)
  | array (items : List Json)
  | object (fields : List (String × Json))
  /-- A text with an escape that stands for no character, or what is nested too deep. -/
  | garbled
  /-- The rest of a text that could not be read. -/
  | unread

namespace JsonNumber

/-- The greatest significand that is collected digit by digit. -/
def maxSignificand : Nat := 2 ^ 64 - 1

/-- Collects the digits before the point: the significand, and how many digits no longer fitted. -/
def collectWhole : List Char → Nat → Nat × Nat
  | [], acc => (acc, 0)
  | c :: cs, acc =>
    let next := acc * 10 + (c.toNat - 48)
    if next ≤ maxSignificand then collectWhole cs next else (acc, cs.length + 1)

/-- Collects digits after the point while they fit: the significand and their number. -/
def collectFraction : List Char → Nat → Nat → Nat × Nat
  | [], acc, taken => (acc, taken)
  | c :: cs, acc, taken =>
    let next := acc * 10 + (c.toNat - 48)
    if next ≤ maxSignificand then collectFraction cs next (taken + 1) else (acc, taken)

/-- `10^n` as a double, for `n ≤ 308`. -/
def powerOfTen (n : Nat) : Float :=
  Float.ofScientific 1 false n

/-- Scales by a power of ten, dividing in steps of `10^308` when it is very small; `none` where the
power itself is out of range. Four steps take every 64-bit significand to zero. -/
def scale : Nat → Float → Int → Option Float
  | 0, _, _ => some 0.0
  | fuel + 1, x, e =>
    if e.natAbs ≤ 308 then
      some (if 0 ≤ e then x * powerOfTen e.natAbs else x / powerOfTen e.natAbs)
    else if x == 0.0 then some x
    else if 0 ≤ e then none
    else scale fuel (x / powerOfTen 308) (e + 308)

/-- Whether the number is written without point and exponent. -/
def isInteger (n : JsonNumber) : Bool :=
  n.fraction.isNone && n.exponent.isNone

/-- The number as a double: a significand of 64 bits at most, scaled once by a power of ten. `none`
when it is out of range. -/
def toFloat? (n : JsonNumber) : Option Float :=
  let (significand, dropped) := collectWhole n.whole 0
  let (significand, taken) := collectFraction (n.fraction.getD []) significand 0
  let magnitude? :=
    if n.isInteger && dropped == 0 then some (Float.ofNat significand)
    else scale 4 (Float.ofNat significand) (dropped - taken + n.exponent.getD 0)
  (magnitude?.map fun x => if n.negative then -x else x).filter Float.isFinite

/-- The number as a count of at most `bound`: written without sign, point and exponent. -/
def toCount? (n : JsonNumber) (bound : Nat) : Option Nat :=
  if n.isInteger && !n.negative then
    let value := Numeral.decimalValue n.whole
    if value ≤ bound then some value else none
  else none

def ofNat (n : Nat) : JsonNumber :=
  { negative := false, whole := (Nat.repr n).toList, fraction := none, exponent := none }

end JsonNumber

namespace Json

def ofNat (n : Nat) : Json := .number (JsonNumber.ofNat n)

/-- The value of the last field of that name. -/
def field? (key : String) : Json → Option Json
  | .object fields => (fields.findRev? (·.1 == key)).map (·.2)
  | _ => none

mutual

/-- Whether everything in the tree was read and has a value, with every number in range. -/
def isSound : Json → Bool
  | .number n => n.toFloat?.isSome
  | .array items => allSound items
  | .object fields => allFieldsSound fields
  | .garbled | .unread => false
  | _ => true

def allSound : List Json → Bool
  | [] => true
  | item :: items => item.isSound && allSound items

def allFieldsSound : List (String × Json) → Bool
  | [] => true
  | (_, value) :: fields => value.isSound && allFieldsSound fields

end

end Json
end BlockMachine

import BlockMachine.Value.Compare
import BlockMachine.Value.Position

/-!
# Operators

The arithmetic, comparison, text and random operators of the operator blocks.
-/

namespace BlockMachine

inductive Arithmetic where
  | add | subtract | multiply | divide | modulo
  deriving DecidableEq, Repr

inductive Comparison where
  | less | greater | equals
  deriving DecidableEq, Repr

/-- A function of one number, angles in degrees. -/
inductive MathFunction where
  | abs | floor | ceiling | sqrt | sin | cos | tan | asin | acos | atan | ln | log | exp
  | powerOfTen
  deriving DecidableEq, Repr

namespace Number

/-- The remainder with the sign of the divisor. -/
def modulo (n divisor : Float) : Float :=
  let r := remainder n divisor
  if r / divisor < 0.0 then r + divisor else r

def pi : Float := 3.141592653589793

/-- Rounded to ten decimal places. -/
def tenPlaces (x : Float) : Float :=
  roundHalfUp (x * 1e10) / 1e10

/-- The tangent, infinite at the poles. -/
def tangent (degrees : Float) : Float :=
  let angle := remainder degrees 360.0
  if angle == -270.0 || angle == 90.0 then infinity
  else if angle == -90.0 || angle == 270.0 then -infinity
  else tenPlaces (pi * angle / 180.0).tan

end Number

def Arithmetic.apply : Arithmetic → Float → Float → Float
  | .add, a, b => a + b
  | .subtract, a, b => a - b
  | .multiply, a, b => a * b
  | .divide, a, b => a / b
  | .modulo, a, b => Number.modulo a b

/-- Compares values by the comparison rules. -/
def Comparison.apply : Comparison → Value → Value → Bool
  | .less, a, b => a.less b
  | .greater, a, b => a.greater b
  | .equals, a, b => a.equals b

/-- Compares numbers. -/
def Comparison.applyNumbers : Comparison → Float → Float → Bool
  | .less, a, b => a < b
  | .greater, a, b => a > b
  | .equals, a, b => a == b

namespace MathFunction

/-- The function of a menu entry, in any case. -/
def ofName? (name : String) : Option MathFunction :=
  match Text.lower name with
  | "abs" => some .abs
  | "floor" => some .floor
  | "ceiling" => some .ceiling
  | "sqrt" => some .sqrt
  | "sin" => some .sin
  | "cos" => some .cos
  | "tan" => some .tan
  | "asin" => some .asin
  | "acos" => some .acos
  | "atan" => some .atan
  | "ln" => some .ln
  | "log" => some .log
  | "e ^" => some .exp
  | "10 ^" => some .powerOfTen
  | _ => none

def apply (f : MathFunction) (n : Float) : Float :=
  match f with
  | .abs => n.abs
  | .floor => Number.floor n
  | .ceiling => Number.ceiling n
  | .sqrt => n.sqrt
  | .sin => Number.tenPlaces (Number.pi * n / 180.0).sin
  | .cos => Number.tenPlaces (Number.pi * n / 180.0).cos
  | .tan => Number.tangent n
  | .asin => n.asin * 180.0 / Number.pi
  | .acos => n.acos * 180.0 / Number.pi
  | .atan => n.atan * 180.0 / Number.pi
  | .ln => n.log
  | .log => n.log10
  | .exp => n.exp
  | .powerOfTen => Float.pow 10.0 n

/-- The name in listings. -/
def label : MathFunction → String
  | .abs => "Abs"
  | .floor => "Floor"
  | .ceiling => "Ceiling"
  | .sqrt => "Sqrt"
  | .sin => "Sin"
  | .cos => "Cos"
  | .tan => "Tan"
  | .asin => "Asin"
  | .acos => "Acos"
  | .atan => "Atan"
  | .ln => "Ln"
  | .log => "Log"
  | .exp => "Exp"
  | .powerOfTen => "Pow10"

end MathFunction

namespace Text

/-- The character at a place counted from one, or the empty text. -/
def letterAt (index : Float) (s : String) : String :=
  let i := index - 1.0
  if i < 0.0 || i >= Float.ofNat s.length || i.isNaN then ""
  else
    match s.toList[Number.toCount i]? with
    | some c => String.ofList [c]
    | none => ""

/-- Whether one list of characters stands somewhere in another. -/
def isInfix (needle : List Char) : List Char → Bool
  | [] => needle.isEmpty
  | c :: cs => needle.isPrefixOf (c :: cs) || isInfix needle cs

/-- Whether a text occurs in another, without regard to case. -/
def includes (haystack needle : String) : Bool :=
  isInfix (lower needle).toList (lower haystack).toList

end Text

namespace Number

/-- A pick between two bounds in either order. Equal bounds are the pick; else it is the lower bound
and a whole number above it when `whole`, or any fraction of the way. The arithmetic is a parameter,
so that the rule can be read over doubles and over exact numbers alike. -/
def pickBetween {α : Type} [Add α] [Sub α] [Mul α] [OfNat α 1] [BEq α] [LE α] [DecidableLE α]
    (floor : α → α) (x y fraction : α) (whole : Bool) : α :=
  let low := if x ≤ y then x else y
  let high := if x ≤ y then y else x
  if low == high then low
  else if whole then low + floor (fraction * (high + 1 - low))
  else fraction * (high - low) + low

/-- A random pick between two values. -/
def pick (a b : Value) (d : Draw) : Float :=
  pickBetween floor a.toNumber b.toNumber d.fraction (a.asksWhole && b.asksWhole)

end Number
end BlockMachine

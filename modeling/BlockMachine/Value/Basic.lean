import BlockMachine.Number.Layout
import BlockMachine.Number.Numeral

/-!
# Values

What variables hold, list items are and blocks report: a truth value, a number or a text. Every
value can be read as each of the three kinds.
-/

namespace BlockMachine

/-- A dynamically typed value. -/
inductive Value where
  | bool (b : Bool)
  | number (x : Float)
  | text (s : String)

namespace Value

/-- The empty text, which is what a missing input reads as. -/
def empty : Value := .text ""

/-- Zero, which is what a reporter without a value reports. -/
def zero : Value := .number 0.0

instance : Inhabited Value := ⟨zero⟩

/-- Same kind and equal. NaN differs from itself and the two zeros are equal. -/
protected def beq : Value → Value → Bool
  | .bool a, .bool b => a == b
  | .number x, .number y => x == y
  | .text s, .text t => s == t
  | _, _ => false

instance : BEq Value := ⟨Value.beq⟩

/-- The text of a value. -/
def toText : Value → String
  | .bool true => "true"
  | .bool false => "false"
  | .number x => Layout.display.write x
  | .text s => s

/-- The number a value stands for; NaN for text that is no numeral. -/
def rawNumber : Value → Float
  | .bool true => 1.0
  | .bool false => 0.0
  | .number x => x
  | .text s => Numeral.read s

/-- The number with NaN taken as zero. -/
def zeroNaN (x : Float) : Float :=
  if x.isNaN then 0.0 else x

/-- The number a value counts as: NaN counts as zero. -/
def toNumber (v : Value) : Float :=
  zeroNaN v.rawNumber

/-- A text in ASCII lower case. -/
def asciiLower (s : String) : String :=
  String.ofList (s.toList.map Char.toLower)

/-- The truth of a value: false are zero, NaN, the empty text, `0` and `false` in any case. -/
def toBool : Value → Bool
  | .bool b => b
  | .number x => x != 0.0 && !x.isNaN
  | .text s => !(s == "" || s == "0" || asciiLower s == "false")

/-- A text with nothing but blanks. -/
def isBlank : Value → Bool
  | .text s => Text.isAllBlank s.toList
  | _ => false

/-- Whether a bound of a random pick asks for whole numbers. Text does unless it has a point. -/
def asksWhole : Value → Bool
  | .bool _ => true
  | .number x => x.isNaN || Number.isWhole x
  | .text s => !s.toList.contains '.'

def isNumber : Value → Bool
  | .number _ => true
  | _ => false

/-- The number of characters of the text of a value. -/
def textLength (v : Value) : Nat :=
  v.toText.length

end Value
end BlockMachine

import BlockMachine.Kit.Basic

/-!
# Operators

Blocks that compute a value from their inputs.
-/

namespace BlockMachine.Library.Operators

open BlockMachine.Action

variable {σ : Type}

/-- Reports a function of the arguments. -/
def pureValue (f : Args → Value) : Primitive σ := fun args =>
  return .value (f args)

def arithmetic (op : Arithmetic) : Primitive σ :=
  pureValue fun args => .number (op.apply (args.number "NUM1") (args.number "NUM2"))

def comparison (op : Comparison) : Primitive σ :=
  pureValue fun args => .bool (op.apply (args.get "OPERAND1") (args.get "OPERAND2"))

def random : Primitive σ := fun args => do
  return .value (.number (Number.pick (args.get "FROM") (args.get "TO") (← draw)))

/-- The function named by the menu; an unknown one gives zero. -/
def math : Primitive σ :=
  pureValue fun args =>
    let x := args.number "NUM"
    .number (((MathFunction.ofName? (args.text "OPERATOR")).map (·.apply x)).getD 0.0)

def primitive? : String → Option (Primitive σ)
  | "operator_add" => some (arithmetic .add)
  | "operator_subtract" => some (arithmetic .subtract)
  | "operator_multiply" => some (arithmetic .multiply)
  | "operator_divide" => some (arithmetic .divide)
  | "operator_mod" => some (arithmetic .modulo)
  | "operator_lt" => some (comparison .less)
  | "operator_gt" => some (comparison .greater)
  | "operator_equals" => some (comparison .equals)
  | "operator_and" =>
    some (pureValue fun args => .bool (args.bool "OPERAND1" && args.bool "OPERAND2"))
  | "operator_or" =>
    some (pureValue fun args => .bool (args.bool "OPERAND1" || args.bool "OPERAND2"))
  | "operator_not" => some (pureValue fun args => .bool (!args.bool "OPERAND"))
  | "operator_random" => some random
  | "operator_join" =>
    some (pureValue fun args => .text (args.text "STRING1" ++ args.text "STRING2"))
  | "operator_letter_of" =>
    some (pureValue fun args => .text (Text.letterAt (args.number "LETTER") (args.text "STRING")))
  | "operator_length" =>
    some (pureValue fun args => .number (Float.ofNat (args.text "STRING").length))
  | "operator_contains" =>
    some (pureValue fun args => .bool (Text.includes (args.text "STRING1") (args.text "STRING2")))
  | "operator_round" =>
    some (pureValue fun args => .number (Number.roundHalfUp (args.number "NUM")))
  | "operator_mathop" => some math
  | _ => none

def lowering? : String → Option Lowering
  | "operator_add" => some (.reporter (.arithmetic .add))
  | "operator_subtract" => some (.reporter (.arithmetic .subtract))
  | "operator_multiply" => some (.reporter (.arithmetic .multiply))
  | "operator_divide" => some (.reporter (.arithmetic .divide))
  | "operator_mod" => some (.reporter (.arithmetic .modulo))
  | "operator_lt" => some (.reporter (.compare .less))
  | "operator_gt" => some (.reporter (.compare .greater))
  | "operator_equals" => some (.reporter (.compare .equals))
  | "operator_and" => some (.reporter .and)
  | "operator_or" => some (.reporter .or)
  | "operator_not" => some (.reporter .not)
  | "operator_random" => some (.reporter .random)
  | "operator_join" => some (.reporter .join)
  | "operator_letter_of" => some (.reporter .letter)
  | "operator_length" => some (.reporter .length)
  | "operator_contains" => some (.reporter .includes)
  | "operator_round" => some (.reporter .round)
  | "operator_mathop" => some (.reporter .math)
  | _ => none

def catalog : Catalog σ where
  primitive? := primitive?
  lowering? := lowering?

end BlockMachine.Library.Operators

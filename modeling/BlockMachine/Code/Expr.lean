import BlockMachine.Error
import BlockMachine.Operator
import BlockMachine.Text.Quoted
import BlockMachine.Variable

/-!
# Expressions

The expressions of compiled code. They read slots, arguments, variables, lists, the timer and the
random source through an environment, and never suspend. An expression that reads none of these is
foldable: it has the same value everywhere, and the constant environment can compute it.
-/

namespace BlockMachine

/-- A variable or list as a block names it. -/
structure VarRef where
  id : String
  name : String
  deriving DecidableEq, Repr

inductive Expr where
  | const (value : Value)
  /-- A local slot of the script. -/
  | slot (n : Nat)
  /-- A parameter of the procedure; the default when it is not bound. -/
  | argument (name : String) (default : Value)
  | var (ref : VarRef)
  | listText (list : VarRef)
  | listItem (list : VarRef) (index : Expr)
  | listLength (list : VarRef)
  | listContains (list : VarRef) (item : Expr)
  | listPosition (list : VarRef) (item : Expr)
  /-- The number with NaN taken as zero. -/
  | toNumber (e : Expr)
  /-- The number, NaN kept. -/
  | rawNumber (e : Expr)
  | zeroNaN (e : Expr)
  | toText (e : Expr)
  | toBool (e : Expr)
  | arithmetic (op : Arithmetic) (a b : Expr)
  /-- Comparison by the rules for values. -/
  | compare (op : Comparison) (a b : Expr)
  /-- Comparison of what is known to be numbers. -/
  | compareNumbers (op : Comparison) (a b : Expr)
  | and (a b : Expr)
  | or (a b : Expr)
  | not (e : Expr)
  | join (a b : Expr)
  | letter (index text : Expr)
  | length (e : Expr)
  | includes (text part : Expr)
  | round (e : Expr)
  | math (f : MathFunction) (e : Expr)
  | random (a b : Expr)
  | timer

/-- What expressions read while they are evaluated. -/
structure Env (m : Type → Type) where
  slot : Nat → m Value
  argument : String → m (Option Value)
  var : VarRef → m Value
  list : VarRef → m (List Value)
  timer : m Float
  draw : m Draw

/-- Whether an index value takes a draw. -/
def Position.asksDraw : Value → Bool
  | .text s => s == "random" || s == "any"
  | _ => false

namespace Expr

variable {m : Type → Type} [Monad m]

/-- The value of an expression. Operands are evaluated from left to right; `and` and `or` leave the
second one out when the first decides. -/
def eval (env : Env m) : Expr → m Value
  | .const value => pure value
  | .slot n => env.slot n
  | .argument name default => do
    let bound ← env.argument name
    return bound.getD default
  | .var ref => env.var ref
  | .listText list => do
    let items ← env.list list
    return .text (BlockMachine.listText items)
  | .listItem list index => do
    let index ← index.eval env
    let items ← env.list list
    let d ← if Position.asksDraw index then env.draw else pure 0
    return itemAt items index d
  | .listLength list => do
    let items ← env.list list
    return .number (Float.ofNat items.length)
  | .listContains list item => do
    let item ← item.eval env
    let items ← env.list list
    return .bool (containsItem items item)
  | .listPosition list item => do
    let item ← item.eval env
    let items ← env.list list
    return .number (Float.ofNat (positionOf items item))
  | .toNumber e => do
    let v ← e.eval env
    return .number v.toNumber
  | .rawNumber e => do
    let v ← e.eval env
    return .number v.rawNumber
  | .zeroNaN e => do
    let v ← e.eval env
    return .number (Value.zeroNaN v.rawNumber)
  | .toText e => do
    let v ← e.eval env
    return .text v.toText
  | .toBool e => do
    let v ← e.eval env
    return .bool v.toBool
  | .arithmetic op a b => do
    let a ← a.eval env
    let b ← b.eval env
    return .number (op.apply a.rawNumber b.rawNumber)
  | .compare op a b => do
    let a ← a.eval env
    let b ← b.eval env
    return .bool (op.apply a b)
  | .compareNumbers op a b => do
    let a ← a.eval env
    let b ← b.eval env
    return .bool (op.applyNumbers a.rawNumber b.rawNumber)
  | .and a b => do
    let a ← a.eval env
    if a.toBool then
      let b ← b.eval env
      return .bool b.toBool
    else return .bool false
  | .or a b => do
    let a ← a.eval env
    if a.toBool then return .bool true
    else
      let b ← b.eval env
      return .bool b.toBool
  | .not e => do
    let v ← e.eval env
    return .bool (!v.toBool)
  | .join a b => do
    let a ← a.eval env
    let b ← b.eval env
    return .text (a.toText ++ b.toText)
  | .letter index text => do
    let index ← index.eval env
    let text ← text.eval env
    return .text (Text.letterAt index.rawNumber text.toText)
  | .length e => do
    let v ← e.eval env
    return .number (Float.ofNat v.textLength)
  | .includes text part => do
    let text ← text.eval env
    let part ← part.eval env
    return .bool (Text.includes text.toText part.toText)
  | .round e => do
    let v ← e.eval env
    return .number (Number.roundHalfUp v.rawNumber)
  | .math f e => do
    let v ← e.eval env
    return .number (f.apply v.rawNumber)
  | .random a b => do
    let a ← a.eval env
    let b ← b.eval env
    let d ← env.draw
    return .number (Number.pick a b d)
  | .timer => do
    let t ← env.timer
    return .number t

/-- Whether the value depends on nothing but the expression. -/
def isFoldable : Expr → Bool
  | .const _ => true
  | .toNumber e | .rawNumber e | .zeroNaN e | .toText e | .toBool e | .not e | .length e | .round e
  | .math _ e => e.isFoldable
  | .arithmetic _ a b | .compare _ a b | .compareNumbers _ a b | .and a b | .or a b | .join a b
  | .letter a b | .includes a b => a.isFoldable && b.isFoldable
  | .slot _ | .argument _ _ | .var _ | .listText _ | .listItem _ _ | .listLength _
  | .listContains _ _ | .listPosition _ _ | .random _ _ | .timer => false

/-- The value of a constant. -/
def const? : Expr → Option Value
  | .const value => some value
  | _ => none

end Expr

namespace Env

/-- Reading the running machine is an error. -/
def notConstant : BlockError := .primitive "constant" "expression reads runtime state"

/-- The environment that has nothing to read. -/
def constant : Env (Except BlockError) where
  slot _ := .ok default
  argument _ := .ok none
  var _ := .error notConstant
  list _ := .error notConstant
  timer := .error notConstant
  draw := .ok 0

end Env
end BlockMachine

import BlockMachine.Code.Expr

/-!
# Compiled inputs

An operand is the expression of a compiled input with what is known of its value. Constants are cast
when the script is compiled, and casts that the kind makes needless are left out.
-/

namespace BlockMachine

/-- What is known of the value of an expression. -/
inductive Kind where
  /-- A number other than NaN. -/
  | alwaysNumber
  | number
  | text
  | bool
  | dynamic
  deriving DecidableEq, Repr

structure Operand where
  expr : Expr
  kind : Kind

namespace Operand

/-- An input of which nothing is known. -/
def dynamic (e : Expr) : Operand := ⟨e, .dynamic⟩

/-- The kind of a value. -/
def kindOf : Value → Kind
  | .bool _ => .bool
  | .number x => if x.isNaN then .number else .alwaysNumber
  | .text _ => .text

def const (v : Value) : Operand := ⟨.const v, kindOf v⟩

/-- The expression, evaluated now when it reads nothing. -/
def folded (e : Expr) (kind : Kind) : Operand :=
  if e.isFoldable && e.const?.isNone then
    match e.eval Env.constant with
    | .ok v => const v
    | .error _ => ⟨e, kind⟩
  else ⟨e, kind⟩

/-- Casts a constant now, or leaves the cast to the expression of the kind. -/
def castBy (o : Operand) (now : Value → Value) (later : Kind → Expr → Expr) : Expr :=
  match o.expr.const? with
  | some v => .const (now v)
  | none => later o.kind o.expr

/-- As a number, NaN taken as zero. -/
def asNumber (o : Operand) : Expr :=
  o.castBy (fun v => .number v.toNumber) fun
    | .alwaysNumber, e => e
    | .number, e => .zeroNaN e
    | _, e => .toNumber e

/-- As a number, NaN kept. -/
def asRawNumber (o : Operand) : Expr :=
  o.castBy (fun v => .number v.rawNumber) fun
    | .alwaysNumber, e => e
    | .number, e => e
    | _, e => .rawNumber e

def asText (o : Operand) : Expr :=
  o.castBy (fun v => .text v.toText) fun
    | .text, e => e
    | _, e => .toText e

def asBool (o : Operand) : Expr :=
  o.castBy (fun v => .bool v.toBool) fun
    | .bool, e => e
    | _, e => .toBool e

/-- Whether the value is a number other than NaN. -/
def isAlwaysNumber (o : Operand) : Bool :=
  o.kind == .alwaysNumber

end Operand
end BlockMachine

import BlockMachine.Block.Basic
import BlockMachine.Code.Expr

/-!
# Arguments

What a primitive is called with: the values of its inputs and fields by name, and the fields
themselves. A missing argument reads as empty.
-/

namespace BlockMachine

structure Args where
  opcode : String
  mutation : Option Mutation := none
  values : Table Value := ∅
  fields : Table Field := ∅

namespace Args

/-- Adds the value of an input. -/
def insert (a : Args) (name : String) (v : Value) : Args :=
  { a with values := a.values.insert name v }

/-- Adds a field, whose value is an argument too. -/
def insertField (a : Args) (name : String) (f : Field) : Args :=
  { a with values := a.values.insert name f.value, fields := a.fields.insert name f }

/-- The arguments of a block before its inputs are evaluated. -/
def ofFields (opcode : String) (mutation : Option Mutation) (fields : Table Field) : Args :=
  fields.foldl insertField { opcode, mutation }

def get? (a : Args) (name : String) : Option Value :=
  a.values[name]?

/-- The argument; the empty text when there is none. -/
def get (a : Args) (name : String) : Value :=
  (a.get? name).getD Value.empty

def number (a : Args) (name : String) : Float :=
  ((a.get? name).map Value.toNumber).getD 0.0

def text (a : Args) (name : String) : String :=
  ((a.get? name).map Value.toText).getD ""

def bool (a : Args) (name : String) : Bool :=
  (a.get? name).any Value.toBool

/-- The variable, list or message that a field names. -/
def ref? (a : Args) (name : String) : Option VarRef :=
  a.fields[name]?.map fun f => ⟨f.id.getD "", f.text⟩

/-- The reference of a field; an empty one when there is no such field. -/
def ref (a : Args) (name : String) : VarRef :=
  (a.ref? name).getD ⟨"", ""⟩

end Args
end BlockMachine

import BlockMachine.Value.Basic
import Std.Data.TreeMap

/-!
# Blocks

A block has an opcode, input slots that other blocks plug into, fields with literal values, and a
successor. Blocks refer to each other by id.
-/

namespace BlockMachine

abbrev BlockId := String

/-- A table by name, in the order of the names. -/
abbrev Table (α : Type) := Std.TreeMap String α

/-- The table of some entries; of two with one name the later counts. -/
def Table.of {α : Type} (entries : List (String × α)) : Table α :=
  Std.TreeMap.ofList entries

/-- An input slot: the block plugged in, and the shadow that shows when none is. -/
structure Slot where
  block : Option BlockId := none
  shadow : Option BlockId := none
  deriving DecidableEq, Repr

/-- The block that gives the slot its value. -/
def Slot.filled? (s : Slot) : Option BlockId :=
  s.block <|> s.shadow

/-- A literal of a block, with the id of the variable, list or message that it names. -/
structure Field where
  value : Value
  id : Option String := none

def Field.text (f : Field) : String :=
  f.value.toText

/-- What blocks of custom procedures carry besides. The argument lists are JSON texts. -/
structure Mutation where
  proccode : Option String := none
  argumentIds : Option String := none
  argumentNames : Option String := none
  argumentDefaults : Option String := none
  warp : Bool := false
  deriving DecidableEq, Repr

structure Block where
  id : BlockId
  opcode : String
  next : Option BlockId := none
  parent : Option BlockId := none
  inputs : Table Slot := ∅
  fields : Table Field := ∅
  mutation : Option Mutation := none
  isShadow : Bool := false
  isTopLevel : Bool := false

namespace Block

/-- The block in an input slot: the one plugged in, else the shadow. -/
def inputBlock? (b : Block) (name : String) : Option BlockId :=
  b.inputs[name]? >>= Slot.filled?

def proccode? (b : Block) : Option String :=
  b.mutation >>= Mutation.proccode

/-- The text of a field; empty when there is none. -/
def fieldText (b : Block) (name : String) : String :=
  (b.fields[name]?.map Field.text).getD ""

/-- The only field of a block without inputs: what it reports when nothing else defines it. -/
def soleField? (b : Block) : Option Field :=
  if b.inputs.isEmpty && b.fields.size == 1 then b.fields.minEntry?.map (·.2) else none

end Block

/-- Slots that hold a stack of blocks and not a reporter. -/
def isStackSlot (name : String) : Bool :=
  name == "custom_block" || "SUBSTACK".toList.isPrefixOf name.toList

/-- The slot of a branch, the first one being 1. -/
def branchSlot (n : Nat) : String :=
  if n ≤ 1 then "SUBSTACK" else "SUBSTACK" ++ Nat.repr n

end BlockMachine

import BlockMachine.Kit.Action

/-!
# Kits

A kit is the equipment of a machine: for each opcode what its block does, whether it is a hat and
how it is compiled, and the devices that blocks may query. It stays the same while the machine runs.
-/

namespace BlockMachine

/-- How the scripts under a hat are started. -/
structure Hat where
  /-- Started when the predicate becomes true, which is asked in every frame of the machine. -/
  isEdge : Bool := false
  /-- Whether a script that is still running is started afresh. -/
  restarts : Bool := false
  deriving DecidableEq, Repr

/-- Statements that have instructions of their own. -/
inductive Statement where
  | ifThen
  | ifElse
  | repeatTimes
  | repeatUntil
  | repeatWhile
  | forever
  | wait
  | waitUntil
  | stop
  | allAtOnce
  | setVariable
  | changeVariable
  | addToList
  | deleteOfList
  | clearList
  | insertAtList
  | replaceInList
  | call
  deriving DecidableEq, Repr

/-- Reporters that have expressions of their own. -/
inductive Reporter where
  | var
  | listText
  | listItem
  | listPosition
  | listLength
  | listContains
  | arithmetic (op : Arithmetic)
  | compare (op : Comparison)
  | and
  | or
  | not
  | random
  | join
  | letter
  | length
  | includes
  | round
  | math
  | timer
  /-- A parameter of a procedure, with what it reads as where it is not bound. -/
  | argument (default : Value)

/-- How an opcode is compiled. -/
inductive Lowering where
  | statement (s : Statement)
  | reporter (r : Reporter)

/-- What is known of the opcodes. -/
structure Catalog (σ : Type) where
  primitive? : String → Option (Primitive σ) := fun _ => none
  lowering? : String → Option Lowering := fun _ => none
  hats : Table Hat := ∅

namespace Catalog

variable {σ : Type}

def isHat (c : Catalog σ) (opcode : String) : Bool :=
  c.hats.contains opcode

def isEdge (c : Catalog σ) (opcode : String) : Bool :=
  c.hats[opcode]?.any Hat.isEdge

def hasPrimitive (c : Catalog σ) (opcode : String) : Bool :=
  (c.primitive? opcode).isSome

/-- The hats whose predicates are asked in every frame of the machine, by name. -/
def edgeHats (c : Catalog σ) : List String :=
  (c.hats.toList.filter (·.2.isEdge)).map (·.1)

/-- Both catalogs; entries of the second win. -/
def union (c d : Catalog σ) : Catalog σ where
  primitive? opcode := d.primitive? opcode <|> c.primitive? opcode
  lowering? opcode := d.lowering? opcode <|> c.lowering? opcode
  hats := c.hats.insertMany d.hats.toList

end Catalog

/-- What devices may change: the promises of the machine and the state of the host. -/
structure Surroundings (σ : Type) where
  promises : Promises := []
  host : σ

/-- A device is asked by the name of a function, with arguments and the time of the pass. -/
structure Device (σ : Type) where
  query : (function : String) → (args : List Value) → (now : Float) → Surroundings σ →
    Except BlockError Reported × Surroundings σ
  reset : σ → σ := id

/-- The equipment of a machine. -/
structure Kit (σ : Type) extends Catalog σ where
  devices : Table (Device σ) := ∅
  /-- Clears what the host's own blocks remember. -/
  resetHost : σ → σ := id

end BlockMachine

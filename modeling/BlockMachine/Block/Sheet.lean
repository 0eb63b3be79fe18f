import BlockMachine.Block.Decode
import BlockMachine.Error

/-!
# Sheets of blocks

All blocks of a target, with the ids of the scripts in the order in which they first became top
level. Custom procedures are found by their code: the definition block by the prototype in its slot,
the signature in the prototype itself.
-/

namespace BlockMachine

/-- The parameters of a custom procedure. -/
structure Signature where
  names : List String := []
  ids : List String := []
  defaults : List Value := []
  warp : Bool := false

structure Sheet where
  blocks : Table Block := ∅
  /-- Top-level blocks in order of creation. -/
  scripts : List BlockId := []

namespace Sheet

instance : Inhabited Sheet := ⟨{}⟩

/-- Puts a block on the sheet, in place of one with the same id. -/
def insert (s : Sheet) (b : Block) : Sheet where
  blocks := s.blocks.insert b.id b
  scripts := if b.isTopLevel && !s.scripts.contains b.id then s.scripts ++ [b.id] else s.scripts

def ofBlocks (blocks : List Block) : Sheet :=
  blocks.foldl insert {}

def block? (s : Sheet) (id : BlockId) : Option Block :=
  s.blocks[id]?

def opcode? (s : Sheet) (id : BlockId) : Option String :=
  (s.block? id).map Block.opcode

def next? (s : Sheet) (id : BlockId) : Option BlockId :=
  s.block? id >>= Block.next

/-- The first block of a branch. -/
def branch? (s : Sheet) (id : BlockId) (n : Nat) : Option BlockId :=
  s.block? id >>= fun b => b.inputBlock? (branchSlot n)

/-- The outermost ancestor of a block, climbing `fuel` steps at most. -/
def climb (s : Sheet) : Nat → Block → BlockId
  | 0, b => b.id
  | fuel + 1, b =>
    match b.parent >>= s.block? with
    | some parent => s.climb fuel parent
    | none => b.id

/-- The top of the stack that a block belongs to. -/
def top? (s : Sheet) (id : BlockId) : Option BlockId :=
  (s.block? id).map (s.climb s.blocks.size)

def scriptsWith (s : Sheet) (opcode : String) : List BlockId :=
  s.scripts.filter fun id => s.opcode? id == some opcode

/-- Whether a block is the definition of a procedure. -/
def defines (s : Sheet) (proccode : String) (b : Block) : Bool :=
  b.opcode == "procedures_definition"
    && (b.inputBlock? "custom_block" >>= s.block? >>= Block.proccode?) == some proccode

/-- The definition block of a procedure. -/
def definition? (s : Sheet) (proccode : String) : Option BlockId :=
  (s.blocks.values.find? (s.defines proccode)).map Block.id

def isPrototype (proccode : String) (b : Block) : Bool :=
  b.opcode == "procedures_prototype" && b.proccode? == some proccode

/-- A list that a mutation carries as text; none reads as empty. -/
def readList {α : Type} (decode : Json → Decoded α) : Option String → Decoded (List α)
  | some s => Json.decodeText (Json.asList decode) s
  | none => .ok []

def readSignature (b : Block) : Decoded Signature := do
  let m := b.mutation.getD {}
  let names ← readList Json.asText m.argumentNames
  let ids ← readList Json.asText m.argumentIds
  let defaults ← readList Json.asValue m.argumentDefaults
  return { names, ids, defaults, warp := m.warp }

/-- The signature of a procedure; none when no prototype declares it. -/
def signature? (s : Sheet) (proccode : String) : Except CompileError (Option Signature) :=
  match s.blocks.values.find? (isPrototype proccode) with
  | none => .ok none
  | some prototype =>
    match readSignature prototype with
    | .ok signature => .ok (some signature)
    | .error _ => .error (.malformedMutation prototype.id)

end Sheet
end BlockMachine

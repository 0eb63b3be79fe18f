import BlockMachine.Code.Operand
import BlockMachine.Kit.Basic

/-!
# Compilation in progress

Code is compiled in pieces, each laid out from the index at which it will stand, so that jumps can
name their targets at once. Besides code, compilation counts the local slots of the script and
collects the bodies of the procedures that are called.
-/

namespace BlockMachine

/-- A piece of code. -/
abbrev Code := List (Instr Script)

/-- What is compiled besides code. -/
structure Draft where
  /-- The local slots of the script so far. -/
  locals : Nat := 0
  /-- The bodies of procedures; none while a body is being compiled. -/
  procedures : List (ProcedureKey × Option Script) := []
  /-- The procedures whose bodies were taken up, the latest first. -/
  begun : List ProcedureKey := []

/-- Why compilation gave up, and the procedures whose bodies were taken up before. -/
structure Failure where
  error : CompileError
  begun : List ProcedureKey := []

abbrev Compile := StateT Draft (Except Failure)

/-- Gives up. -/
def Compile.fail {α : Type} (e : CompileError) : Compile α :=
  fun d => .error { error := e, begun := d.begun }

/-- What a whole script is compiled under. -/
structure Context (σ : Type) where
  catalog : Catalog σ
  sheet : Sheet
  warp : Bool := false
  /-- The parameters of the procedure. -/
  params : List String := []

/-- How to compile the parts of a block: a stack, laid out from an index, and a reporter, whose code
runs before its operand is read. -/
structure Descent (σ : Type) where
  stack : Context σ → Nat → Option BlockId → Compile Code
  reporter : Context σ → Block → Compile (Code × Operand)

namespace Draft

/-- Takes a new local slot. -/
def newSlot : Compile Nat :=
  modifyGet fun d => (d.locals, { d with locals := d.locals + 1 })

/-- The body of a procedure: none if it was not met yet, `some none` while it is being compiled. -/
def body? (d : Draft) (key : ProcedureKey) : Option (Option Script) :=
  d.procedures.lookup key

/-- Enters a body, in place of an earlier entry; without a body it is taken up. -/
def setBody (d : Draft) (key : ProcedureKey) (body : Option Script) : Draft :=
  { d with
    procedures := (key, body) :: d.procedures.filter (·.1 != key)
    begun := if body.isNone then key :: d.begun else d.begun }

/-- The bodies that are finished. -/
def bodies (d : Draft) : List (ProcedureKey × Script) :=
  d.procedures.filterMap fun (key, body) => body.map (key, ·)

end Draft

namespace Context

variable {σ : Type}

def block (ctx : Context σ) (id : BlockId) : Compile Block :=
  match ctx.sheet.block? id with
  | some b => return b
  | none => .fail (.missingBlock id)

/-- Ends a round of a loop. -/
def loopYield (ctx : Context σ) : Instr Script :=
  if ctx.warp then .yieldIfNeeded else .yield

/-- Compiles a stack to a script of its own, with its own local slots. -/
def script (ctx : Context σ) (d : Descent σ) (name : String) (first : Option BlockId) :
    Compile Script := do
  let outer := (← get).locals
  modify ({ · with locals := 0 })
  let code ← d.stack ctx 0 first
  let locals := (← get).locals
  modify ({ · with locals := outer })
  return { name, code := code.toArray, locals, warp := ctx.warp }

/-- Compiles the block in an input slot; an empty slot reads as the empty text. -/
def input (ctx : Context σ) (d : Descent σ) (b : Block) (name : String) :
    Compile (Code × Operand) := do
  match b.inputBlock? name with
  | some id => d.reporter ctx (← ctx.block id)
  | none => return ([], .const Value.empty)

/-- Compiles the stack in a slot. -/
def substack (ctx : Context σ) (d : Descent σ) (pc : Nat) (b : Block) (name : String) :
    Compile Code :=
  d.stack ctx pc (b.inputBlock? name)

end Context

namespace Block

/-- The variable or list that a field names. -/
def ref (b : Block) (field : String) : VarRef :=
  ⟨(b.fields[field]? >>= Field.id).getD "", b.fieldText field⟩

/-- The slots of the branches, from the first on as far as they are numbered without a gap. -/
def branches (b : Block) : List Slot :=
  ((List.range b.inputs.size).map fun i => b.inputs[branchSlot (i + 1)]?)
    |>.takeWhile Option.isSome
    |>.reduceOption

end Block

namespace Context

variable {σ : Type}

/-- Compiles the inputs of a block in the order of their names, stacks left out. -/
def arguments (ctx : Context σ) (d : Descent σ) (b : Block) :
    List String → Compile (Code × List (String × Expr))
  | [] => return ([], [])
  | name :: names => do
    if isStackSlot name then ctx.arguments d b names
    else
      let (pre, o) ← ctx.input d b name
      let (code, args) ← ctx.arguments d b names
      return (pre ++ code, (name, o.expr) :: args)

/-- Compiles branches from the `n`th on into scripts. -/
def fragments (ctx : Context σ) (d : Descent σ) (opcode : String) :
    Nat → List Slot → Compile (List (Option Script))
  | _, [] => return []
  | n, slot :: slots => do
    let first ← match slot.block with
      | some id =>
        let s ← ctx.script d (opcode ++ " branch " ++ Nat.repr n) (some id)
        pure (some s)
      | none => pure none
    let rest ← ctx.fragments d opcode (n + 1) slots
    return first :: rest

/-- Calls the primitive of a block; the value goes to the slot, if there is one. -/
def primitiveCall (ctx : Context σ) (d : Descent σ) (b : Block) (dest : Option Nat) :
    Compile Code := do
  let (code, args) ← ctx.arguments d b b.inputs.keys
  let branches ← ctx.fragments d b.opcode 1 b.branches
  return code ++ [.primitive
    { opcode := b.opcode, block := b.id, args, fields := b.fields, mutation := b.mutation,
      branches, dest }]

/-- Compiles the body of a procedure unless that is done or under way, and gives its key; none when
the procedure is not defined. -/
def procedure (ctx : Context σ) (d : Descent σ) (proccode : String) (signature : Signature) :
    Compile (Option ProcedureKey) := do
  match ctx.sheet.definition? proccode with
  | none => return none
  | some definition =>
    let key : ProcedureKey := { proccode, warp := ctx.warp || signature.warp }
    if ((← get).body? key).isNone then
      modify (·.setBody key none)
      let b ← ctx.block definition
      let inner := { ctx with warp := key.warp, params := signature.names }
      let body ← inner.script d ("procedure " ++ Text.quote proccode) b.next
      modify (·.setBody key (some body))
    return some key

end Context
end BlockMachine

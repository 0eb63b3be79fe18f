import BlockMachine.Code.Memo

/-!
# Assembling

How a script is compiled. Instructions are put down one after the other, a jump whose target is not
known yet leads to index 0 until it is patched, and scripts of their own (branches, bodies of
procedures) are put down apart. Procedures are looked up in the book on the way, and the answers
stay there, also when the compilation gives up. `Sheet.compile` lays the same code out at once.
-/

namespace BlockMachine

/-- The jump with another target; none for an instruction that is not a jump. -/
def Instr.aim? {σ : Type} (target : Nat) : Instr σ → Option (Instr σ)
  | .jump _ => some (.jump target)
  | .jumpUnless condition _ => some (.jumpUnless condition target)
  | .jumpIf condition _ => some (.jumpIf condition target)
  | .repeatTest slot _ => some (.repeatTest slot target)
  | _ => none

/-- A compilation under way. -/
structure Assembly extends Draft where
  book : Book
  code : Array (Instr Script) := #[]
  /-- Where a jump was to be patched and there was none. -/
  strays : List Nat := []

abbrev Assemble := ExceptT CompileError (StateM Assembly)

namespace Assemble

/-- Puts an instruction down and gives its index. -/
def emit (i : Instr Script) : Assemble Nat :=
  modifyGet fun a => (a.code.size, { a with code := a.code.push i })

/-- Puts an instruction down. -/
def put (i : Instr Script) : Assemble Unit :=
  discard (emit i)

/-- The index of the next instruction. -/
def here : Assemble Nat :=
  return (← get).code.size

/-- Points the jump at an index to a target. -/
def patch (index target : Nat) : Assemble Unit :=
  modify fun a =>
    match a.code[index]? >>= Instr.aim? target with
    | some i => { a with code := a.code.setIfInBounds index i }
    | none => { a with strays := index :: a.strays }

/-- Takes a new local slot. -/
def newSlot : Assemble Nat :=
  modifyGet fun a => (a.locals, { a with locals := a.locals + 1 })

/-- Looks something up in the book. -/
def ask {α : Type} (question : Book → α × Book) : Assemble α :=
  modifyGet fun a => ((question a.book).1, { a with book := (question a.book).2 })

/-- Enters the body of a procedure. -/
def setBody (key : ProcedureKey) (body : Option Script) : Assemble Unit :=
  modify fun a => { a with toDraft := a.setBody key body }

end Assemble

/-- How to assemble the parts of a block: a stack, and a reporter, whose code runs before its
operand is read. -/
structure Emitter (σ : Type) where
  stack : Context σ → Option BlockId → Assemble Unit
  reporter : Context σ → Block → Assemble Operand

open Assemble

namespace Context

variable {σ : Type}

def fetch (ctx : Context σ) (id : BlockId) : Assemble Block :=
  match ctx.sheet.block? id with
  | some b => return b
  | none => throw (.missingBlock id)

/-- Assembles the block in an input slot; an empty slot reads as the empty text. -/
def emitInput (ctx : Context σ) (e : Emitter σ) (b : Block) (name : String) : Assemble Operand := do
  match b.inputBlock? name with
  | some id => e.reporter ctx (← ctx.fetch id)
  | none => return .const Value.empty

/-- Assembles the stack in a slot. -/
def emitSubstack (ctx : Context σ) (e : Emitter σ) (b : Block) (name : String) : Assemble Unit :=
  e.stack ctx (b.inputBlock? name)

/-- Assembles a stack to a script of its own. -/
def emitScript (ctx : Context σ) (e : Emitter σ) (name : String) (first : Option BlockId) :
    Assemble Script := do
  let outer ← get
  set { outer with code := #[], locals := 0 }
  e.stack ctx first
  let inner ← get
  set { inner with code := outer.code, locals := outer.locals }
  return { name, code := inner.code, locals := inner.locals, warp := ctx.warp }

/-- Assembles some inputs of a block, one after the other. -/
def emitInputs (ctx : Context σ) (e : Emitter σ) (b : Block) :
    List String → Assemble (List (String × Operand))
  | [] => return []
  | name :: names => do
    let o ← ctx.emitInput e b name
    let os ← ctx.emitInputs e b names
    return (name, o) :: os

/-- Assembles the inputs of a block in the order of their names, stacks left out. -/
def emitArguments (ctx : Context σ) (e : Emitter σ) (b : Block) :
    List String → Assemble (List (String × Expr))
  | [] => return []
  | name :: names => do
    if isStackSlot name then ctx.emitArguments e b names
    else
      let o ← ctx.emitInput e b name
      let args ← ctx.emitArguments e b names
      return (name, o.expr) :: args

/-- Assembles branches from the `n`th on into scripts. -/
def emitFragments (ctx : Context σ) (e : Emitter σ) (opcode : String) :
    Nat → List Slot → Assemble (List (Option Script))
  | _, [] => return []
  | n, slot :: slots => do
    let first ← match slot.block with
      | some id =>
        let s ← ctx.emitScript e (opcode ++ " branch " ++ Nat.repr n) (some id)
        pure (some s)
      | none => pure none
    let rest ← ctx.emitFragments e opcode (n + 1) slots
    return first :: rest

/-- Calls the primitive of a block; the value goes to the slot, if there is one. -/
def emitPrimitive (ctx : Context σ) (e : Emitter σ) (b : Block) (dest : Option Nat) :
    Assemble Unit := do
  let args ← ctx.emitArguments e b b.inputs.keys
  let branches ← ctx.emitFragments e b.opcode 1 b.branches
  put (.primitive
    { opcode := b.opcode, block := b.id, args, fields := b.fields, mutation := b.mutation,
      branches, dest })

/-- Assembles the body of a procedure unless that is done or under way, and gives its key; none when
the procedure is not defined. -/
def emitProcedure (ctx : Context σ) (e : Emitter σ) (proccode : String) (signature : Signature) :
    Assemble (Option ProcedureKey) := do
  match ← ask (·.definition? proccode) with
  | none => return none
  | some definition =>
    let key : ProcedureKey := { proccode, warp := ctx.warp || signature.warp }
    if ((← get).body? key).isNone then
      setBody key none
      let b ← ctx.fetch definition
      let inner := { ctx with warp := key.warp, params := signature.names }
      let body ← inner.emitScript e ("procedure " ++ Text.quote proccode) b.next
      setBody key (some body)
    return some key

end Context

namespace Reporter

variable {σ : Type}

/-- Assembles the inputs of a reporter and gives its operand. -/
def emit (ctx : Context σ) (e : Emitter σ) (b : Block) (r : Reporter) : Assemble Operand := do
  let os ← ctx.emitInputs e b r.inputs
  return r.operand ctx.params b fun name => (os.lookup name).getD (.const Value.empty)

end Reporter

namespace Statement

variable {σ : Type}

/-- An instruction on one input. -/
def emitSimple (ctx : Context σ) (e : Emitter σ) (b : Block) (name : String)
    (f : Operand → Instr Script) : Assemble Unit := do
  let o ← ctx.emitInput e b name
  put (f o)

/-- An instruction on an index and an item. -/
def emitPlacing (ctx : Context σ) (e : Emitter σ) (b : Block)
    (f : VarRef → Expr → Expr → Instr Script) : Assemble Unit := do
  let index ← ctx.emitInput e b "INDEX"
  let item ← ctx.emitInput e b "ITEM"
  put (f (b.ref "LIST") index.expr item.expr)

/-- The body of a loop, the jump back, and the way out of its test. -/
def emitRounds (ctx : Context σ) (e : Emitter σ) (b : Block) (test back : Nat) :
    Assemble Unit := do
  ctx.emitSubstack e b "SUBSTACK"
  put ctx.loopYield
  put (.jump back)
  patch test (← here)

/-- A loop that evaluates its condition in every round; `exit` makes the test, which leaves it. -/
def emitLoop (ctx : Context σ) (e : Emitter σ) (b : Block) (exit : Expr → Nat → Instr Script) :
    Assemble Unit := do
  let head ← here
  let condition ← ctx.emitInput e b "CONDITION"
  let test ← emit (exit condition.asBool 0)
  emitRounds ctx e b test head

/-- The arguments of a call, by parameter name: the input with the parameter's id, else the
default. -/
def emitBindings (ctx : Context σ) (e : Emitter σ) (b : Block) :
    List ((String × String) × Option Value) → Assemble (List (String × Expr))
  | [] => return []
  | ((id, name), default?) :: rest => do
    let value ← match b.inputBlock? id with
      | some _ =>
        let o ← ctx.emitInput e b id
        pure o.expr
      | none => pure (Expr.const (default?.getD Value.empty))
    let args ← emitBindings ctx e b rest
    return (name, value) :: args

/-- Binds the arguments and calls the body. A call in warp mode, and one of a procedure whose body
is still being assembled, yields first. -/
def emitCall (ctx : Context σ) (e : Emitter σ) (b : Block) : Assemble Unit := do
  match b.proccode? with
  | none => put (.nop "call without a proccode")
  | some proccode =>
    let signature ← match ← ask (·.signature? proccode) with
      | .ok s => pure (s.getD {})
      | .error err => throw err
    match ← ctx.emitProcedure e proccode signature with
    | none => put (.nop (Text.quote proccode ++ " has no definition"))
    | some key =>
      let args ← emitBindings ctx e b (parameters signature)
      let isRecursive := match (← get).body? key with
        | some none => true
        | _ => false
      if ctx.warp then put .yieldIfNeeded
      else if isRecursive then put .yield
      put (.call key args)

/-- Assembles a statement. -/
def emit (ctx : Context σ) (e : Emitter σ) (b : Block) : Statement → Assemble Unit
  | .ifThen => do
    let condition ← ctx.emitInput e b "CONDITION"
    match condition.expr.const? with
    | some v => if v.toBool then ctx.emitSubstack e b "SUBSTACK"
    | none =>
      let skip ← Assemble.emit (.jumpUnless condition.asBool 0)
      ctx.emitSubstack e b "SUBSTACK"
      patch skip (← here)
  | .ifElse => do
    let condition ← ctx.emitInput e b "CONDITION"
    let toElse ← Assemble.emit (.jumpUnless condition.asBool 0)
    ctx.emitSubstack e b "SUBSTACK"
    let toEnd ← Assemble.emit (.jump 0)
    patch toElse (← here)
    ctx.emitSubstack e b "SUBSTACK2"
    patch toEnd (← here)
  | .repeatTimes => do
    let times ← ctx.emitInput e b "TIMES"
    let slot ← newSlot
    put (.repeatInit slot times.asNumber)
    let head ← Assemble.emit (.repeatTest slot 0)
    emitRounds ctx e b head head
  | .repeatUntil => emitLoop ctx e b .jumpIf
  | .repeatWhile => emitLoop ctx e b .jumpUnless
  | .forever => do
    let head ← here
    ctx.emitSubstack e b "SUBSTACK"
    put ctx.loopYield
    put (.jump head)
  | .wait => emitSimple ctx e b "DURATION" fun o => .wait o.asNumber
  | .waitUntil => do
    let head ← here
    let condition ← ctx.emitInput e b "CONDITION"
    let test ← Assemble.emit (.jumpIf condition.asBool 0)
    put ctx.loopYield
    put (.jump head)
    patch test (← here)
  | .stop =>
    let option := b.fieldText "STOP_OPTION"
    match Library.Flow.stopOption? option with
    | some option => put (.stop option)
    | none => put (.nop ("unknown stop option " ++ Text.quote option))
  | .allAtOnce => ctx.emitSubstack e b "SUBSTACK"
  | .setVariable => emitSimple ctx e b "VALUE" fun o => .setVariable (b.ref "VARIABLE") o.expr
  | .changeVariable =>
    emitSimple ctx e b "VALUE" fun o => .changeVariable (b.ref "VARIABLE") o.asNumber
  | .addToList => emitSimple ctx e b "ITEM" fun o => .addToList (b.ref "LIST") o.expr
  | .deleteOfList => emitSimple ctx e b "INDEX" fun o => .deleteOfList (b.ref "LIST") o.expr
  | .clearList => put (.clearList (b.ref "LIST"))
  | .insertAtList => emitPlacing ctx e b .insertAtList
  | .replaceInList => emitPlacing ctx e b .replaceInList
  | .call => emitCall ctx e b

end Statement

namespace Context

variable {σ : Type}

/-- Assembles a reporter with the help of an emitter for its parts. -/
def emitReporter (ctx : Context σ) (e : Emitter σ) (b : Block) : Assemble Operand := do
  match literal? b with
  | some v => return .const v
  | none =>
    match ctx.catalog.lowering? b.opcode with
    | some (.reporter r) => r.emit ctx e b
    | some (.statement _) => throw (.unknownOpcode b.opcode)
    | none =>
      if ctx.catalog.hasPrimitive b.opcode then
        let slot ← newSlot
        ctx.emitPrimitive e b (some slot)
        return .dynamic (.slot slot)
      else
        match b.soleField? with
        | some f => return .const f.value
        | none => throw (.unknownOpcode b.opcode)

/-- Assembles a statement. -/
def emitStatement (ctx : Context σ) (e : Emitter σ) (b : Block) : Assemble Unit := do
  match ctx.catalog.lowering? b.opcode with
  | some (.statement s) => s.emit ctx e b
  | some (.reporter r) =>
    let _ ← r.emit ctx e b
    return
  | none =>
    if ctx.catalog.hasPrimitive b.opcode then ctx.emitPrimitive e b none
    else if ctx.catalog.isHat b.opcode then return
    else throw (.unknownOpcode b.opcode)

/-- Assembles a stack. -/
def emitStack (ctx : Context σ) (e : Emitter σ) : Option BlockId → Assemble Unit
  | none => return
  | some id => do
    let b ← ctx.fetch id
    ctx.emitStatement e b
    e.stack ctx b.next

end Context

namespace Emitter

variable {σ : Type}

mutual

/-- Assembles a stack, going down `depth` blocks at most. -/
def assembleStack (depth : Nat) (ctx : Context σ) (first : Option BlockId) : Assemble Unit :=
  match depth with
  | 0 => throw .endless
  | depth + 1 => ctx.emitStack ⟨assembleStack depth, assembleReporter depth⟩ first

/-- Assembles a reporter, going down `depth` blocks at most. -/
def assembleReporter (depth : Nat) (ctx : Context σ) (b : Block) : Assemble Operand :=
  match depth with
  | 0 => throw .endless
  | depth + 1 => ctx.emitReporter ⟨assembleStack depth, assembleReporter depth⟩ b

end

/-- Goes down `depth` blocks at most. -/
def ofDepth (depth : Nat) : Emitter σ :=
  ⟨assembleStack depth, assembleReporter depth⟩

end Emitter

namespace Book

variable {σ : Type}

/-- Assembles the script with that top block, and the procedures that it reaches. -/
def assemble (k : Book) (catalog : Catalog σ) (top : BlockId) :
    Except CompileError Program × Assembly :=
  match k.sheet.skipHats catalog (k.sheet.blocks.size + 1) (some top) with
  | .error err => (.error err, { book := k })
  | .ok first =>
    let ctx : Context σ := { catalog, sheet := k.sheet }
    let made := ctx.emitScript (Emitter.ofDepth k.sheet.compileDepth)
      ("script " ++ Text.quote top) first { book := k }
    (made.1.map fun script => { script, procedures := made.2.bodies }, made.2)

/-- The compiled script with that top block. -/
def program (k : Book) (catalog : Catalog σ) (top : BlockId) :
    Except CompileError Program × Book :=
  match k.memo.programs[top]? with
  | some answer => (answer, k)
  | none =>
    let made := k.assemble catalog top
    let memo := made.2.book.memo
    (made.1, { made.2.book with memo.programs := memo.programs.insert top made.1 })

end Book
end BlockMachine

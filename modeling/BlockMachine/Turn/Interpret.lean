import BlockMachine.Turn.Call

/-!
# The interpreter

Runs the block at the top of a thread's stack. The reporters in its inputs are run first, each in a
frame of its own, so that one of them can suspend the thread: the inputs that have a value already
are kept in the frame, and the block is run again when the missing value has arrived.
-/

namespace BlockMachine.Turn

open Exec

variable {σ : Type}

/-- Applies the answer of a hat's predicate; whether the hat fires. An edge-activated hat fires when
the answer turns to yes, unless its script was clicked. A hat that does not fire ends its thread. -/
def reportHat (s : Turn σ) (catalog : Catalog σ) (block : BlockId) (opcode : String) (v : Value) :
    Bool × Turn σ :=
  let yes := v.toBool
  let (fires, machine) :=
    if catalog.isEdge opcode then
      if s.thread.isClick then (true, s.machine)
      else s.machine.edgeFires s.thread.target block yes
    else (yes, s.machine)
  (fires, { machine, thread := if fires then s.thread else s.thread.retire })

/-- Evaluates inputs in the order of their names and adds them to the arguments; none when the
thread was suspended or ended. `depth` is the depth of the block's frame, `reported` holds the
inputs that have a value already, and `go` runs the block at the top of the stack. -/
def evalInputs (go : Exec (Turn σ) Unit) (b : Block) (depth : Nat) (reported : Table Value) :
    Args → List String → Exec (Turn σ) (Option Args)
  | args, [] => return some args
  | args, name :: names => do
    if isStackSlot name then evalInputs go b depth reported args names
    else
      match reported[name]?, b.inputBlock? name with
      | some v, _ => evalInputs go b depth reported (args.insert name v) names
      | none, none => evalInputs go b depth reported args names
      | none, some input =>
        onThread fun t => (t.onDepth depth ({ · with waiting := some name })).push (some input)
        go
        let t ← getThread
        if t.status == .promiseWait then
          onThread (·.onDepth depth fun f =>
            { f with reported := f.reported.insertMany args.values.toList })
          return none
        else if t.depth != depth + 1 || t.isDone then return none
        else
          let t := t.pop
          let v := (t.frame?.bind (·.reported[name]?)).getD default
          onThread fun _ => t.onFrame fun f =>
            { f with waiting := none, reported := f.reported.erase name }
          evalInputs go b depth reported (args.insert name v) names

/-- Calls the primitive of a block in the frame of that depth. The frame keeps what the block
remembers, if it is still there. -/
def callBlock (kit : Kit σ) (go : Exec (Turn σ) Unit) (depth : Nat) (primitive : Primitive σ)
    (args : Args) : Exec (Turn σ) Reported :=
  ExceptT.mk fun s => do
    let scratch := (s.thread.frame?.map Frame.scratch).getD {}
    let (r, c) ← Call.run kit go .interpreted (primitive args) { s with scratch }
    return (r, { c.toTurn with thread := c.thread.onDepth depth ({ · with scratch := c.scratch }) })

/-- Takes over what a block reported. -/
def takeReport (catalog : Catalog σ) (block : BlockId) (opcode : String) :
    Reported → Exec (Turn σ) Unit
  | .nothing => return
  | .promise promise =>
    onThread fun t =>
      { t with
        status := .promiseWait
        pending := some { promise, waiter := .block (catalog.isHat opcode) } }
  | .value v => do
    if catalog.isHat opcode then modify fun s => (s.reportHat catalog block opcode v).2
    else onThread (·.report v)

/-- Runs a block whose primitive is known. -/
def runBlock (kit : Kit σ) (go : Exec (Turn σ) Unit) (b : Block) (primitive : Primitive σ) :
    Exec (Turn σ) Unit := do
  let t ← getThread
  let depth := t.depth
  let reported := (t.frame?.map Frame.reported).getD ∅
  onThread (·.onFrame ({ · with reported := ∅, waiting := none }))
  match ← evalInputs go b depth reported (.ofFields b.opcode b.mutation b.fields) b.inputs.keys with
  | none => return
  | some args =>
    let r ← callBlock kit go depth primitive args
    takeReport kit.toCatalog b.id b.opcode r

/-- Runs a block without a primitive: a hat does nothing, a block with a single field and no inputs
reports that field. -/
def runLiteral (catalog : Catalog σ) (b : Block) : Exec (Turn σ) Unit := do
  if catalog.isHat b.opcode then return
  else
    match b.soleField? with
    | some f => onThread (·.report f.value)
    | none => return

/-- Runs the block at the top of the stack. A thread without its target or its block ends. -/
def execute (kit : Kit σ) : Nat → Exec (Turn σ) Unit
  | 0 => outOfFuel
  | fuel + 1 => do
    let s ← get
    if !s.machine.targets.contains s.thread.target then onThread Thread.retire
    else
      match s.thread.block? with
      | none => return
      | some id =>
        match s.thread.sheet.block? id with
        | none => onThread Thread.retire
        | some b =>
          match kit.primitive? b.opcode with
          | none => runLiteral kit.toCatalog b
          | some primitive => runBlock kit (execute kit fuel) b primitive

end BlockMachine.Turn

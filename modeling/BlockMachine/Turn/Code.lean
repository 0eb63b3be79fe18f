import BlockMachine.Turn.Interpret

/-!
# Compiled code

Runs the instructions of compiled scripts. All that a script needs to go on is in the frames of its
thread, so a turn can end after any instruction.
-/

namespace BlockMachine.Turn

open Exec

variable {σ : Type}

/-- Whether instructions are run on after one of them. -/
inductive Flow where
  | go
  | pause
  deriving DecidableEq, Repr

/-- What expressions read in a turn. -/
def env : Env (Exec (Turn σ)) where
  slot n := do return ((← getThread).cursor? >>= (·.locals[n]?)).getD default
  argument name := do return (← getThread).param? name
  var ref := do service (Machine.readVariable (← getThread).target ref)
  list ref := do service (Machine.readList (← getThread).target ref)
  timer := do
    let r ← service (Machine.queryClock "projectTimer")
    return (r.value?.map Value.toNumber).getD 0.0
  draw := service (modifyGet Machine.draw)

def eval (e : Expr) : Exec (Turn σ) Value :=
  e.eval env

/-- Goes on in warp mode with time left, else ends the turn. -/
def yieldPoint : Exec (Turn σ) Flow := do
  let s ← get
  let (goes, s) := s.goesOn
  set s
  return if goes then .go else .pause

/-- Goes to the next instruction. -/
def advance : Exec (Turn σ) Flow := do
  onThread (·.onCursor Cursor.advance)
  return .go

def jumpTo (target : Nat) : Exec (Turn σ) Flow := do
  onThread (·.onCursor (·.jump target))
  return .go

def setLocal (slot : Nat) (v : Value) : Exec (Turn σ) Unit :=
  onThread (·.onCursor (·.setLocal slot v))

/-- The frames below the innermost procedure. -/
def dropProcedure : List Frame → List Frame
  | [] => []
  | f :: rest =>
    match f.code.map Cursor.kind with
    | some .procedure => rest
    | _ => dropProcedure rest

/-- Ends a thread that has no frames left. -/
def endIfEmpty (t : Thread) : Thread :=
  if t.stack.isEmpty then { t with status := .done } else t

/-- Leaves the script or procedure; without a caller the thread is done. -/
def leaveScript (t : Thread) : Thread :=
  endIfEmpty { t with stack := dropProcedure t.stack }

/-- Leaves a frame whose code has run out. A branch that is a loop ends a round. -/
def finishFrame : Exec (Turn σ) Flow := do
  let t ← getThread
  onThread fun t => endIfEmpty t.pop
  if (← getThread).stack.isEmpty then return .pause
  else
    match t.cursor?.map Cursor.kind with
    | some (.branch true) => yieldPoint
    | _ => return .go

/-- Waits from the first visit of the instruction until the time is up. -/
def wait (duration : Expr) (pc : Nat) : Exec (Turn σ) Flow := do
  let now := (← get).machine.now
  match (← getThread).cursor? >>= (·.scratches[pc]?) with
  | none =>
    let seconds ← eval duration
    let scratch : Scratch :=
      { timerStart := some now, duration := Library.Flow.waitTime seconds.toNumber }
    onThread (·.onCursor fun c => { c with scratches := c.scratches.insert pc scratch })
    onMachine ({ · with redraw := true })
    yieldPoint
  | some scratch =>
    if now - scratch.timerStart.getD now >= scratch.duration then
      onThread (·.onCursor fun c => { c with scratches := c.scratches.erase pc, pc := c.pc + 1 })
      return .go
    else yieldPoint

/-- Evaluates arguments in order. -/
def evalArgs : List (String × Expr) → Exec (Turn σ) (List (String × Value))
  | [] => return []
  | (name, e) :: rest => do
    let v ← eval e
    let others ← evalArgs rest
    return (name, v) :: others

/-- Calls the body of a procedure, if there is one. -/
def call (key : ProcedureKey) (args : List (String × Expr)) : Exec (Turn σ) Flow := do
  let values ← evalArgs args
  discard advance
  match (← getThread).program.bind (·.procedures.lookup key) with
  | none => return .go
  | some body =>
    let params : Table Value := values.foldl (fun ps (name, v) => ps.insert name v) ∅
    onThread fun t => (t.enter body .procedure).onFrame fun f =>
      { f with warp := f.warp || key.warp, params := some params }
    modify startWarp
    return .go

/-- Keeps what the block of an instruction remembers. -/
def saveScratch (pc : Nat) (scratch : Scratch) : Exec (Turn σ) Unit :=
  onThread (·.onCursor fun c => { c with scratches := c.scratches.insert pc scratch })

/-- Enters a branch of a block; a loop comes back to the instruction. -/
def enterFragment (c : PrimitiveCall Script) (pc : Nat) (scratch : Scratch) (n : Nat)
    (isLoop : Bool) : Exec (Turn σ) Flow := do
  if isLoop then saveScratch pc scratch else discard advance
  match if n == 0 then none else (c.branches[n - 1]?).join with
  | some body =>
    onThread (·.enter body (.branch isLoop))
    return .go
  | none => if isLoop then yieldPoint else return .go

/-- What follows a call of a primitive: whether it is to be called again at once, or what to do
then. -/
inductive After where
  | again (scratch : Scratch)
  | flow (f : Flow)

/-- Calls the primitive once and does what it asked for. -/
def callOnce (kit : Kit σ) (predicate : Exec (Turn σ) Unit) (c : PrimitiveCall Script) (pc : Nat)
    (primitive : Primitive σ) (args : Args) (depth : Nat) (scratch : Scratch) :
    Exec (Turn σ) After := do
  let warp := (← getThread).isWarp
  let (reported, call) ← ExceptT.mk fun s => do
    let (r, c) ← Call.run kit predicate (.compiled warp) (primitive args) { s with scratch }
    return (r.map (·, c), c.toTurn)
  let t ← getThread
  if t.status == .done || t.depth < depth then return .flow .pause
  else if call.leaves then
    onThread leaveScript
    return .flow .go
  else
    match reported with
    | .promise promise =>
      onThread fun t =>
        { t with status := .promiseWait, pending := some { promise, waiter := .code c.dest } }
      discard advance
      return .flow .pause
    | _ =>
      if t.status == .yield then
        onThread ({ · with status := .running })
        let s ← get
        let (expired, s) := if warp then s.warpExpired else (true, s)
        set s
        if expired then
          saveScratch pc call.scratch
          return .flow .pause
        else return .again call.scratch
      else if t.status == .yieldTick then
        saveScratch pc call.scratch
        return .flow .pause
      else
        match call.branch with
        | some (n, isLoop) => .flow <$> enterFragment c pc call.scratch n isLoop
        | none =>
          match c.dest, reported.value? with
          | some dest, some v => setLocal dest v
          | _, _ => pure ()
          .flow <$> advance

/-- Calls the primitive until it does not yield with time left. -/
def callAgain (kit : Kit σ) (predicate : Exec (Turn σ) Unit) (c : PrimitiveCall Script) (pc : Nat)
    (primitive : Primitive σ) (args : Args) (depth : Nat) : Nat → Scratch → Exec (Turn σ) Flow
  | 0, _ => outOfFuel
  | fuel + 1, scratch => do
    match ← callOnce kit predicate c pc primitive args depth scratch with
    | .again scratch => callAgain kit predicate c pc primitive args depth fuel scratch
    | .flow f => return f

/-- Runs a block through its primitive. What an unfinished block remembers is kept with the
instruction. -/
def callPrimitive (kit : Kit σ) (fuel : Nat) (c : PrimitiveCall Script) (pc : Nat) :
    Exec (Turn σ) Flow := do
  match kit.primitive? c.opcode with
  | none => advance
  | some primitive =>
    let values ← evalArgs c.args
    let args := values.foldl (fun args (name, v) => args.insert name v)
      (Args.ofFields c.opcode c.mutation c.fields)
    let t ← getThread
    let scratch := (t.cursor? >>= (·.scratches[pc]?)).getD {}
    onThread (·.onCursor fun c => { c with scratches := c.scratches.erase pc })
    callAgain kit (execute kit fuel) c pc primitive args t.depth fuel scratch

/-- Runs one instruction, the one at index `pc`. -/
def runInstr (kit : Kit σ) (fuel : Nat) (pc : Nat) : Instr Script → Exec (Turn σ) Flow
  | .setVariable var value => do
    let v ← eval value
    service (Machine.setVariable kit (← getThread).target var v)
    advance
  | .changeVariable var amount => do
    let v ← eval amount
    service (Machine.changeVariable kit (← getThread).target var v.toNumber)
    advance
  | .addToList list item => do
    let item ← eval item
    service (Machine.editList (← getThread).target list (.add item))
    advance
  | .deleteOfList list index => do
    let index ← eval index
    service (Machine.editList (← getThread).target list (.delete index))
    advance
  | .clearList list => do
    service (Machine.editList (← getThread).target list .clear)
    advance
  | .insertAtList list index item => do
    let index ← eval index
    let item ← eval item
    service (Machine.editList (← getThread).target list (.insert index item))
    advance
  | .replaceInList list index item => do
    let index ← eval index
    let item ← eval item
    service (Machine.editList (← getThread).target list (.replace index item))
    advance
  | .store slot value => do
    let v ← eval value
    setLocal slot v
    advance
  | .jump target => jumpTo target
  | .jumpUnless condition target => do
    let v ← eval condition
    if v.toBool then advance else jumpTo target
  | .jumpIf condition target => do
    let v ← eval condition
    if v.toBool then jumpTo target else advance
  | .repeatInit slot times => do
    let v ← eval times
    setLocal slot (.number (Number.roundHalfUp v.toNumber))
    advance
  | .repeatTest slot exit => do
    let remaining := (((← getThread).cursor? >>= (·.locals[slot]?)).map Value.toNumber).getD 0.0
    if remaining >= 0.5 then
      setLocal slot (.number (remaining - 1.0))
      advance
    else jumpTo exit
  | .yield => do
    discard advance
    return .pause
  | .yieldIfNeeded => do
    discard advance
    yieldPoint
  | .yieldTick => do
    discard advance
    onThread ({ · with status := .yieldTick })
    return .pause
  | .wait duration => wait duration pc
  | .call key args => call key args
  | .primitive c => callPrimitive kit fuel c pc
  | .stop .all => do
    onMachine Machine.stopAll
    onThread Thread.retire
    return .pause
  | .stop .thisScript => do
    onThread leaveScript
    return .go
  | .stop .otherScripts => do
    let t ← getThread
    onMachine (·.stopTarget t.target (some t.id))
    advance
  | .nop _ => advance

/-- Runs instructions until the thread yields, waits or is done. -/
def runCode (kit : Kit σ) : Nat → Exec (Turn σ) Unit
  | 0 => outOfFuel
  | fuel + 1 => do
    let t ← getThread
    if t.status != .running then return
    else
      match t.cursor? with
      | none => onThread Thread.retire
      | some c =>
        let flow ← match c.instr? with
          | some i => runInstr kit fuel c.pc i
          | none => finishFrame
        match flow with
        | .go => runCode kit fuel
        | .pause => return

end BlockMachine.Turn

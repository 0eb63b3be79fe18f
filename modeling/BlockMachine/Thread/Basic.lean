import BlockMachine.Promise
import BlockMachine.Target
import BlockMachine.Thread.Frame

/-!
# Threads

A thread is one running instance of a script. Its stack lists the innermost frame first. A thread
whose stack is empty is done, whatever its status says.
-/

namespace BlockMachine

inductive Status where
  /-- Runs when it is visited next. -/
  | running
  /-- Gave up the rest of the pass. -/
  | yield
  /-- Sleeps until the next frame of the machine. -/
  | yieldTick
  /-- Waits for a promise to be settled. -/
  | promiseWait
  | done
  deriving DecidableEq, Repr

/-- What goes on when a promise is settled. -/
inductive Waiter where
  /-- An interpreted block; whether it is a hat that asks its predicate. -/
  | block (isHat : Bool)
  /-- Compiled code; the value goes to the slot, if there is one. -/
  | code (dest : Option Nat)
  deriving DecidableEq, Repr

structure Pending where
  promise : PromiseId
  waiter : Waiter
  deriving DecidableEq, Repr

structure Thread where
  id : ThreadId
  target : TargetId
  /-- The top block of the script. -/
  top : BlockId
  status : Status := .running
  /-- Whether the script was started by a click on it. -/
  isClick : Bool := false
  /-- Whether the thread evaluates a monitored reporter. -/
  isMonitor : Bool := false
  /-- What the top block reported. -/
  reported : Option Value := none
  sheet : Sheet
  /-- The frames, innermost first. -/
  stack : List Frame := []
  program : Option Program := none
  /-- When the time for warp mode began in this turn. -/
  warpStart : Option Float := none
  pending : Option Pending := none

namespace Thread

def depth (t : Thread) : Nat :=
  t.stack.length

def frame? (t : Thread) : Option Frame :=
  t.stack.head?

/-- The block that the innermost frame is at. -/
def block? (t : Thread) : Option BlockId :=
  t.frame? >>= Frame.block

def cursor? (t : Thread) : Option Cursor :=
  t.frame? >>= Frame.code

def isWarp (t : Thread) : Bool :=
  t.frame?.any Frame.warp

def isDone (t : Thread) : Bool :=
  t.status == .done || t.stack.isEmpty

/-- Changes the innermost frame. -/
def onFrame (t : Thread) (f : Frame → Frame) : Thread :=
  { t with stack := t.stack.modifyHead f }

/-- Changes the cursor of the innermost frame. -/
def onCursor (t : Thread) (f : Cursor → Cursor) : Thread :=
  t.onFrame (·.withCursor f)

/-- Changes the frame that is the `n`th from the outermost one. -/
def onDepth (t : Thread) (n : Nat) (f : Frame → Frame) : Thread :=
  if n ≤ t.depth then { t with stack := t.stack.modify (t.depth - n) f } else t

/-- Puts a frame on the stack. -/
def pushFrame (t : Thread) (f : Frame) : Thread :=
  { t with stack := f :: t.stack }

/-- Enters a block in a frame of its own, in the mode of the frame before; no block makes an empty
branch. -/
def push (t : Thread) (block : Option BlockId) : Thread :=
  t.pushFrame { block, warp := t.isWarp }

/-- Enters compiled code. -/
def enter (t : Thread) (script : Script) (kind : FrameKind) : Thread :=
  t.pushFrame { isLoop := kind.isLoop, warp := t.isWarp, code := some { script, kind } }

def pop (t : Thread) : Thread :=
  { t with stack := t.stack.tail }

/-- Moves the innermost frame to the block after the one that it is at. -/
def goNext (t : Thread) : Thread :=
  let next := t.block? >>= t.sheet.next?
  t.onFrame (·.moveTo next)

/-- A parameter of the innermost frame that has bound any. -/
def param? (t : Thread) (name : String) : Option Value :=
  t.stack.findSome? Frame.params >>= (·[name]?)

/-- Hands a value to the frame that waits for it, or keeps it as what the thread reports. -/
def report (t : Thread) (v : Value) : Thread :=
  match t.stack with
  | top :: parent :: rest => { t with stack := top :: parent.takeReport v :: rest }
  | _ => { t with reported := some v }

/-- Whether a block calls a custom procedure. -/
def isCall (t : Thread) (block : BlockId) : Bool :=
  t.sheet.opcode? block == some "procedures_call"

/-- Drops frames down to the innermost one that calls a procedure, or one that is at no block. -/
def dropToCall (t : Thread) : List Frame → List Frame
  | [] => []
  | f :: rest =>
    match f.block with
    | some block => if t.isCall block then f :: rest else t.dropToCall rest
    | none => f :: rest

/-- Goes back to the innermost call of a procedure, or ends when there is none. -/
def stopScript (t : Thread) : Thread :=
  let stack := t.dropToCall t.stack
  { t with stack, status := if stack.isEmpty then .done else t.status }

/-- How many frames are searched for an enclosing call of the same procedure. -/
def recursionScan : Nat := 6

/-- Whether a frame is at a call of the procedure. -/
def calls (t : Thread) (proccode : String) (f : Frame) : Bool :=
  (f.block >>= t.sheet.block?).any fun b =>
    b.opcode == "procedures_call" && b.proccode? == some proccode

/-- Whether one of the frames next to the innermost one calls the procedure. -/
def isRecursive (t : Thread) (proccode : String) : Bool :=
  (t.stack.tail.take recursionScan).any (t.calls proccode)

/-- Ends the thread for good. -/
def retire (t : Thread) : Thread :=
  { t with stack := [], pending := none, warpStart := none, status := .done }

/-- Starts the compiled script, if there is one. -/
def enterProgram? (t : Thread) : Option Thread :=
  t.program.map fun p => { t with stack := [] }.enter p.script .script

/-- Goes on behind a hat that fired. -/
def leaveHat (t : Thread) : Thread :=
  t.enterProgram?.getD t.goNext

/-- Keeps the place of a thread in the list while the thread itself has its turn. -/
def placeholder (t : Thread) : Thread :=
  { t with reported := none, stack := [], program := none, warpStart := none, pending := none }

/-- A thread at the top block of a script. -/
def start (id : ThreadId) (target : TargetId) (top : BlockId) (sheet : Sheet) : Thread :=
  { id, target, top, sheet, stack := [{ block := some top }] }

end Thread
end BlockMachine

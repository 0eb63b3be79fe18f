import BlockMachine.Code.Instr

/-!
# Call frames

A thread has a stack of frames. An interpreted frame stands at a block; a compiled frame has a
cursor into a script. Either keeps what its block has to remember from visit to visit.
-/

namespace BlockMachine

abbrev ThreadId := Nat

/-- What a block remembers between its visits. -/
structure Scratch where
  loopCounter : Option Float := none
  timerStart : Option Float := none
  /-- Milliseconds that the timer runs. -/
  duration : Float := 0.0
  /-- Whether a call has entered its procedure. -/
  executed : Bool := false
  /-- The threads that a broadcast waits for. -/
  started : Option (List ThreadId) := none

namespace Scratch

instance : Inhabited Scratch := ⟨{}⟩

/-- Whether the timer has run for its duration. -/
def isTimeUp (s : Scratch) (now : Float) : Bool :=
  now - s.timerStart.getD 0.0 >= s.duration

end Scratch

/-- What a compiled frame runs. -/
inductive FrameKind where
  /-- The script that the thread was started with. -/
  | script
  /-- The body of a custom procedure. -/
  | procedure
  /-- A branch of a block that is called through its primitive. -/
  | branch (isLoop : Bool)
  deriving DecidableEq, Repr

def FrameKind.isLoop : FrameKind → Bool
  | .branch isLoop => isLoop
  | _ => false

/-- A position in a compiled script. -/
structure Cursor where
  script : Script
  kind : FrameKind
  pc : Nat := 0
  locals : Array Value := Array.replicate script.locals default
  /-- What unfinished instructions remember, by index. -/
  scratches : Std.TreeMap Nat Scratch := ∅

namespace Cursor

def instr? (c : Cursor) : Option (Instr Script) :=
  c.script.code[c.pc]?

def advance (c : Cursor) : Cursor :=
  { c with pc := c.pc + 1 }

def jump (c : Cursor) (target : Nat) : Cursor :=
  { c with pc := target }

/-- Stores a value; a slot that does not exist is ignored. -/
def setLocal (c : Cursor) (slot : Nat) (v : Value) : Cursor :=
  { c with locals := c.locals.setIfInBounds slot v }

end Cursor

structure Frame where
  /-- The block the frame is at; none for an empty branch and for compiled frames. -/
  block : Option BlockId := none
  /-- Whether the frame's block starts its branch again and again. -/
  isLoop : Bool := false
  /-- Whether the frame runs without giving way to other threads. -/
  warp : Bool := false
  scratch : Scratch := {}
  /-- The arguments of the procedure that the frame calls. -/
  params : Option (Table Value) := none
  /-- Inputs that are evaluated already. -/
  reported : Table Value := ∅
  /-- The input whose reporter is running. -/
  waiting : Option String := none
  code : Option Cursor := none

namespace Frame

instance : Inhabited Frame := ⟨{}⟩

/-- The frame moved to another block; only the mode stays. -/
def moveTo (f : Frame) (block : Option BlockId) : Frame :=
  { block, warp := f.warp }

/-- Binds a parameter. -/
def bindParam (f : Frame) (name : String) (v : Value) : Frame :=
  { f with params := some ((f.params.getD ∅).insert name v) }

/-- Keeps the value of the input whose reporter is running. -/
def takeReport (f : Frame) (v : Value) : Frame :=
  match f.waiting with
  | some name => { f with reported := f.reported.insert name v }
  | none => f

/-- Changes the cursor of a compiled frame. -/
def withCursor (f : Frame) (g : Cursor → Cursor) : Frame :=
  { f with code := f.code.map g }

end Frame
end BlockMachine

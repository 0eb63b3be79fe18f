import BlockMachine.Clock
import BlockMachine.Code.Assemble
import BlockMachine.Settings
import BlockMachine.Stopwatch

/-!
# Machines

The state of a machine: its targets in layers, its threads in the order in which they are visited,
and what it has to tell. `σ` is the state of the host program.
-/

namespace BlockMachine

/-- What a machine tells. -/
inductive Event where
  | projectStart
  | projectStopAll
  /-- A clicked reporter has a value. -/
  | visualReport (block : BlockId) (value : Value)
  /-- A monitored reporter has another value. -/
  | monitorUpdate (block : BlockId) (value : Value)
  /-- A list has changed. -/
  | listUpdate (target : TargetId) (list : String) (items : List Value)
  | threadError (thread : ThreadId) (target : TargetId) (error : BlockError)

/-- A reporter that is evaluated in every frame. -/
structure Monitor where
  block : BlockId
  target : TargetId
  deriving DecidableEq, Repr

structure Machine (σ : Type) where
  settings : Settings := {}
  targets : Std.TreeMap TargetId Target := ∅
  /-- The targets in layer order, the stage first. Hats are started from the last one on. -/
  layers : List TargetId := []
  stage : Option TargetId := none
  nextTarget : TargetId := 0
  cloneCount : Nat := 0
  /-- The threads in the order of their visits. -/
  threads : List Thread := []
  nextThread : ThreadId := 0
  clock : Clock := {}
  /-- The time of the current pass. -/
  now : Float := 0.0
  redraw : Bool := false
  stopwatch : Stopwatch Float := .new
  /-- The counter that all scripts share. -/
  counter : Float := 0.0
  monitors : List Monitor := []
  /-- The values last told of monitored reporters, by block. -/
  monitorValues : Table Value := ∅
  events : List Event := []
  /-- Remembered answers about the sheets, by the sprite that a sheet belongs to. -/
  memos : Std.TreeMap TargetId Memo := ∅
  promises : Promises := []
  dice : Dice := default
  host : σ

namespace Machine

variable {σ : Type}

/-- Reads the clock. -/
def readClock (m : Machine σ) : Float × Machine σ :=
  let (time, clock) := m.clock.read
  (time, { m with clock })

/-- Takes the time for a pass. -/
def syncClock (m : Machine σ) : Machine σ :=
  let (now, m) := m.readClock
  { m with now }

/-- A machine without targets, whose project timer starts now. -/
def new (settings : Settings) (clock : Clock) (host : σ) : Machine σ :=
  let m := { settings, clock, host : Machine σ }.syncClock
  { m with stopwatch := m.stopwatch.restart m.now }

def emit (m : Machine σ) (e : Event) : Machine σ :=
  { m with events := m.events ++ [e] }

/-- Gives away what there is to tell. -/
def takeEvents (m : Machine σ) : List Event × Machine σ :=
  (m.events, { m with events := [] })

/-- A draw from the random source. -/
def draw (m : Machine σ) : Draw × Machine σ :=
  let (d, dice) := m.dice.roll
  (d, { m with dice })

/-- Changes a target. -/
def onTarget (m : Machine σ) (id : TargetId) (f : Target → Target) : Machine σ :=
  { m with targets := m.targets.modify id f }

/-- Changes every thread for which a condition holds. -/
def onThreads (m : Machine σ) (p : Thread → Bool) (f : Thread → Thread) : Machine σ :=
  { m with threads := m.threads.map fun t => if p t then f t else t }

def hasThread (m : Machine σ) (id : ThreadId) : Bool :=
  m.threads.any (·.id == id)

/-- Whether a thread is in the list and not done. -/
def isActive (m : Machine σ) (id : ThreadId) : Bool :=
  m.threads.any fun t => t.id == id && !t.isDone

/-- Whether a thread waits for a promise, sleeps, is done or is not there. -/
def isWaiting (m : Machine σ) (id : ThreadId) : Bool :=
  match m.threads.find? (·.id == id) with
  | some t => t.status == .promiseWait || t.status == .yieldTick || t.status == .done
  | none => true

/-- The compiled script of a target; none when it cannot be compiled. The answer is remembered. -/
def program? (m : Machine σ) (catalog : Catalog σ) (t : Target) (top : BlockId) :
    Option Program × Machine σ :=
  let memo := m.memos[t.origin]?.getD {}
  let (answer, book) := Book.program { sheet := t.sheet, memo } catalog top
  (answer.toOption, { m with memos := m.memos.insert t.origin book.memo })

/-- What is remembered of the compilation of a script. -/
def compiled? (m : Machine σ) (t : Target) (top : BlockId) : Option (Except CompileError Program) :=
  m.memos[t.origin]? >>= (·.programs[top]?)

end Machine
end BlockMachine

import BlockMachine.Kit.Args
import BlockMachine.Thread.Basic

/-!
# Actions

A primitive does not touch the machine itself: it is a tree of requests, each followed by what to do
with the answer. The machine carries the requests out, in one way for interpreted and in another
for compiled code. `σ` is the state of the host program, which its own blocks and devices may use.
-/

namespace BlockMachine

/-- What a primitive may ask for. -/
inductive Request (σ : Type) where
  /-- What the block remembers from its last visit. -/
  | scratch
  | setScratch (s : Scratch)
  /-- Whether the block runs in warp mode. -/
  | isWarp
  /-- The time of the current pass. -/
  | now
  | threadId
  | targetId
  /-- Lets other threads run and visits the block again. -/
  | yield
  /-- Sleeps until the next frame of the machine. -/
  | yieldTick
  /-- Enters a branch; a loop visits the block again afterwards. -/
  | startBranch (n : Nat) (isLoop : Bool)
  | startProcedure (proccode : String)
  | stopAll
  /-- Stops the other threads of the target. -/
  | stopOthers
  /-- Leaves the script or procedure. -/
  | stopScript
  | stopThread
  | requestRedraw
  /-- Binds parameters for the procedure to be entered. -/
  | bindParams (params : List (String × Value))
  | param (name : String)
  /-- Starts the scripts of all targets with that hat and those fields. -/
  | startHats (opcode : String) (fields : List (String × String))
  | query (device function : String) (args : List Value)
  | readVariable (ref : VarRef)
  | setVariable (ref : VarRef) (v : Value)
  | readList (ref : VarRef)
  | editList (ref : VarRef) (edit : ListEdit)
  | signature (proccode : String)
  /-- The target of that name that is no clone. -/
  | targetNamed (name : String)
  | createClone (source : TargetId)
  /-- Whether the thread's target is a clone. -/
  | isClone
  /-- Removes the thread's target. -/
  | removeTarget
  /-- Whether the thread is still in the list. -/
  | hasThread (id : ThreadId)
  /-- Whether the thread waits, sleeps or is not there. -/
  | isWaiting (id : ThreadId)
  | counter
  | setCounter (x : Float)
  /-- A draw from the random source. -/
  | draw
  | openPromise (state : Promise)
  /-- Moves the clock. -/
  | advanceClock (ms : Float)
  | host
  | setHost (s : σ)

/-- The type of the answer to a request. -/
def Request.Answer {σ : Type} : Request σ → Type
  | .scratch => Scratch
  | .isWarp => Bool
  | .now => Float
  | .threadId => ThreadId
  | .targetId => TargetId
  | .param _ => Option Value
  | .startHats _ _ => List ThreadId
  | .query _ _ _ => Reported
  | .readVariable _ => Value
  | .readList _ => List Value
  | .signature _ => Except CompileError (Option Signature)
  | .targetNamed _ => Option TargetId
  | .isClone => Bool
  | .hasThread _ => Bool
  | .isWaiting _ => Bool
  | .counter => Float
  | .draw => Draw
  | .openPromise _ => PromiseId
  | .host => σ
  | .setScratch _ | .yield | .yieldTick | .startBranch _ _ | .startProcedure _ | .stopAll
  | .stopOthers | .stopScript | .stopThread | .requestRedraw | .bindParams _ | .setVariable _ _
  | .editList _ _ | .createClone _ | .removeTarget | .setCounter _ | .advanceClock _
  | .setHost _ => Unit

/-- Requests one after the other, ended by a result or an error. -/
inductive Action (σ α : Type) where
  | done (a : α)
  | fail (e : BlockError)
  | ask (r : Request σ) (next : r.Answer → Action σ α)

namespace Action

variable {σ α β : Type}

protected def bind : Action σ α → (α → Action σ β) → Action σ β
  | .done a, f => f a
  | .fail e, _ => .fail e
  | .ask r next, f => .ask r fun answer => (next answer).bind f

instance : Monad (Action σ) where
  pure := .done
  bind := Action.bind

/-- A single request. -/
def request (r : Request σ) : Action σ r.Answer :=
  .ask r .done

def getScratch : Action σ Scratch := request .scratch

def setScratch (s : Scratch) : Action σ Unit := request (.setScratch s)

def isWarp : Action σ Bool := request .isWarp

def now : Action σ Float := request .now

def threadId : Action σ ThreadId := request .threadId

def targetId : Action σ TargetId := request .targetId

def yield : Action σ Unit := request .yield

def yieldTick : Action σ Unit := request .yieldTick

def startBranch (n : Nat) (isLoop : Bool) : Action σ Unit := request (.startBranch n isLoop)

def startProcedure (proccode : String) : Action σ Unit := request (.startProcedure proccode)

def stopAll : Action σ Unit := request .stopAll

def stopOthers : Action σ Unit := request .stopOthers

def stopScript : Action σ Unit := request .stopScript

def stopThread : Action σ Unit := request .stopThread

def requestRedraw : Action σ Unit := request .requestRedraw

def bindParams (params : List (String × Value)) : Action σ Unit := request (.bindParams params)

def param (name : String) : Action σ (Option Value) := request (.param name)

def startHats (opcode : String) (fields : List (String × String)) : Action σ (List ThreadId) :=
  request (.startHats opcode fields)

def query (device function : String) (args : List Value) : Action σ Reported :=
  request (.query device function args)

def readVariable (ref : VarRef) : Action σ Value := request (.readVariable ref)

def setVariable (ref : VarRef) (v : Value) : Action σ Unit := request (.setVariable ref v)

def readList (ref : VarRef) : Action σ (List Value) := request (.readList ref)

def editList (ref : VarRef) (edit : ListEdit) : Action σ Unit := request (.editList ref edit)

def signature (proccode : String) : Action σ (Except CompileError (Option Signature)) :=
  request (.signature proccode)

def targetNamed (name : String) : Action σ (Option TargetId) := request (.targetNamed name)

def createClone (source : TargetId) : Action σ Unit := request (.createClone source)

def isClone : Action σ Bool := request .isClone

def removeTarget : Action σ Unit := request .removeTarget

def hasThread (id : ThreadId) : Action σ Bool := request (.hasThread id)

def isWaiting (id : ThreadId) : Action σ Bool := request (.isWaiting id)

def getCounter : Action σ Float := request .counter

def setCounter (x : Float) : Action σ Unit := request (.setCounter x)

def draw : Action σ Draw := request .draw

def openPromise (state : Promise) : Action σ PromiseId := request (.openPromise state)

def advanceClock (ms : Float) : Action σ Unit := request (.advanceClock ms)

def getHost : Action σ σ := request .host

def setHost (s : σ) : Action σ Unit := request (.setHost s)

end Action

/-- The behaviour of a block: what it does and reports when it is called. -/
abbrev Primitive (σ : Type) := Args → Action σ Reported

end BlockMachine

import BlockMachine.Turn.Basic

/-!
# Calls of primitives

Carries out what a primitive asks for. In compiled code the requests that concern control flow are
only noted: entering a branch and leaving the script are up to the code that made the call.
-/

namespace BlockMachine

/-- Which executor calls a primitive. -/
inductive Mode where
  | interpreted
  /-- Compiled code, and whether it runs in warp mode. -/
  | compiled (warp : Bool)
  deriving DecidableEq, Repr

/-- A primitive being called. -/
structure Call (σ : Type) extends Turn σ where
  /-- What the block remembers. -/
  scratch : Scratch
  /-- The branch that compiled code is asked to enter, and whether it is a loop. -/
  branch : Option (Nat × Bool) := none
  /-- Whether compiled code is asked to leave the script. -/
  leaves : Bool := false

namespace Call

variable {σ α : Type}

/-- Runs a service on the machine. -/
def service (x : Service σ α) : Exec (Call σ) α :=
  ExceptT.mk fun c =>
    let (r, machine) := x c.machine
    some (r, { c with machine })

/-- Runs a computation on the machine. -/
def onMachine (x : Run (Machine σ) α) : Exec (Call σ) α :=
  ExceptT.mk fun c => do
    let (a, machine) ← x c.machine
    return (.ok a, { c with machine })

/-- Changes the turn. -/
def onTurn (f : Turn σ → Turn σ) : Exec (Call σ) Unit :=
  modify fun c => { c with toTurn := f c.toTurn }

/-- Changes the thread. -/
def onThread (f : Thread → Thread) : Exec (Call σ) Unit :=
  modify fun c => { c with thread := f c.thread }

/-- Reads something. -/
def read (f : Call σ → α) : Exec (Call σ) α :=
  return f (← get)

/-- Carries out a request. -/
def perform (kit : Kit σ) (predicate : Exec (Turn σ) Unit) (mode : Mode) :
    (r : Request σ) → Exec (Call σ) r.Answer
  | .scratch => read (·.scratch)
  | .setScratch scratch => modify ({ · with scratch })
  | .isWarp =>
    match mode with
    | .interpreted => read (·.thread.isWarp)
    | .compiled warp => pure (f := Exec (Call σ)) warp
  | .now => read (·.machine.now)
  | .threadId => read (·.thread.id)
  | .targetId => read (·.thread.target)
  | .yield => onThread ({ · with status := .yield })
  | .yieldTick => onThread ({ · with status := .yieldTick })
  | .startBranch n isLoop =>
    match mode with
    | .interpreted => onTurn (·.enterBranch n isLoop)
    | .compiled _ => modify ({ · with branch := some (n, isLoop) })
  | .startProcedure proccode =>
    match mode with
    | .interpreted => onTurn (·.enterProcedure proccode)
    | .compiled _ => pure (f := Exec (Call σ)) ()
  | .stopAll =>
    onTurn fun s => { s with machine := s.machine.stopAll, thread := s.thread.retire }
  | .stopOthers =>
    onTurn fun s => { s with machine := s.machine.stopTarget s.thread.target (some s.thread.id) }
  | .stopScript =>
    match mode with
    | .interpreted => onThread Thread.stopScript
    | .compiled _ => modify ({ · with leaves := true })
  | .stopThread => onThread Thread.retire
  | .requestRedraw => onTurn fun s => { s with machine := { s.machine with redraw := true } }
  | .bindParams params =>
    onThread (·.onFrame fun f =>
      { f with params := some (params.foldl (fun ps (name, v) => ps.insert name v) ∅) })
  | .param name => read (·.thread.param? name)
  | .startHats opcode fields =>
    onMachine (Machine.startHats kit.toCatalog predicate opcode fields none)
  | .query device function args => service (Machine.query kit device function args)
  | .readVariable ref => do service (Machine.readVariable (← read (·.thread.target)) ref)
  | .setVariable ref v => do service (Machine.setVariable kit (← read (·.thread.target)) ref v)
  | .readList ref => do service (Machine.readList (← read (·.thread.target)) ref)
  | .editList ref edit => do service (Machine.editList (← read (·.thread.target)) ref edit)
  | .signature proccode => read (·.thread.sheet.signature? proccode)
  | .targetNamed name => read (·.machine.targetNamed? name)
  | .createClone source => discard (onMachine (Machine.createClone kit.toCatalog predicate source))
  | .isClone => read fun c => c.machine.isClone c.thread.target
  | .removeTarget =>
    onTurn fun s => { s with machine := s.machine.removeTarget s.thread.target }
  | .hasThread id => read (·.machine.hasThread id)
  | .isWaiting id => read (·.machine.isWaiting id)
  | .counter => read (·.machine.counter)
  | .setCounter x => onTurn fun s => { s with machine := { s.machine with counter := x } }
  | .draw => onMachine (modifyGet Machine.draw)
  | .openPromise state =>
    onMachine (modifyGet fun m =>
      let (id, promises) := m.promises.add state
      (id, { m with promises }))
  | .advanceClock ms =>
    onTurn fun s => { s with machine := { s.machine with clock := s.machine.clock.advance ms } }
  | .host => read (·.machine.host)
  | .setHost host => onTurn fun s => { s with machine := { s.machine with host } }

/-- Carries out all requests of an action. -/
def run (kit : Kit σ) (predicate : Exec (Turn σ) Unit) (mode : Mode) :
    Action σ α → Exec (Call σ) α
  | .done a => return a
  | .fail e => throw e
  | .ask r next => do
    let answer ← perform kit predicate mode r
    run kit predicate mode (next answer)

end Call
end BlockMachine

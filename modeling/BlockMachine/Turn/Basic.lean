import BlockMachine.Machine.Hats
import BlockMachine.Machine.Variables

/-!
# Turns

What both executors do in a turn: measure the time for warp mode, enter branches and procedures, and
go back to the frame that has something left to do.
-/

namespace BlockMachine

namespace Exec

variable {S T α : Type} {σ : Type}

/-- Runs a service on the machine of a turn. -/
def service (x : Service σ α) : Exec (Turn σ) α :=
  ExceptT.mk fun s =>
    let (r, machine) := x s.machine
    some (r, { s with machine })

/-- Changes the thread of a turn. -/
def onThread (f : Thread → Thread) : Exec (Turn σ) Unit :=
  modify fun s => { s with thread := f s.thread }

/-- Changes the machine of a turn. -/
def onMachine (f : Machine σ → Machine σ) : Exec (Turn σ) Unit :=
  modify fun s => { s with machine := f s.machine }

/-- The thread of a turn. -/
def getThread : Exec (Turn σ) Thread :=
  return (← get).thread

end Exec

namespace Turn

variable {σ : Type}

/-- Begins to measure the time of a thread in warp mode, unless that is done. -/
def startWarp (s : Turn σ) : Turn σ :=
  if s.thread.isWarp && s.thread.warpStart.isNone then
    let (_, machine) := s.machine.readClock
    let (time, machine) := machine.readClock
    { machine, thread := { s.thread with warpStart := some time } }
  else s

/-- Whether the time for warp mode is used up; so it is when it was never measured. -/
def warpExpired (s : Turn σ) : Bool × Turn σ :=
  match s.thread.warpStart with
  | none => (true, s)
  | some start =>
    let (time, machine) := s.machine.readClock
    (time - start > s.machine.settings.warpTime, { s with machine })

/-- Whether the thread goes on at a point where others may run: only in warp mode with time left. -/
def goesOn (s : Turn σ) : Bool × Turn σ :=
  if s.thread.isWarp then
    let (expired, s) := s.warpExpired
    (!expired, s)
  else (false, s)

/-- Enters a branch of the current block; without a block in it, an empty frame stands for it. -/
def enterBranch (s : Turn σ) (n : Nat) (isLoop : Bool) : Turn σ :=
  match s.thread.block? with
  | none => s
  | some block =>
    let branch := s.thread.sheet.branch? block n
    { s with thread := (s.thread.onFrame ({ · with isLoop })).push branch }

/-- Enters the definition of a procedure. A recursive call gives way to other threads, in warp mode
any call does when the time is used up. -/
def enterProcedure (s : Turn σ) (proccode : String) : Turn σ :=
  match s.thread.sheet.definition? proccode with
  | none => s
  | some definition =>
    let isRecursive := s.thread.isRecursive proccode
    let s := { s with thread := s.thread.push (some definition) }
    let yielding (s : Turn σ) : Turn σ := { s with thread := { s.thread with status := .yield } }
    let (expired, s) := if s.thread.isWarp then s.warpExpired else (false, s)
    if expired then yielding s
    else
      match s.thread.sheet.signature? proccode with
      | .ok (some signature) =>
        if signature.warp then { s with thread := s.thread.onFrame ({ · with warp := true }) }
        else if isRecursive then yielding s
        else s
      | _ => if isRecursive then yielding s else s

end Turn

/-- Where a thread is after its finished frames are dropped. -/
inductive Unwound where
  /-- At a block. -/
  | ready
  /-- No frame is left. -/
  | finished
  /-- At a loop whose round is over. -/
  | looped
  /-- At a block that waits for a reporter. -/
  | waiting
  deriving DecidableEq, Repr

/-- Drops frames that are at no block; the frame below moves on to its next block unless it is a
loop or waits for a reporter. -/
def unwindFrom (sheet : Sheet) (top : Frame) : List Frame → Unwound × List Frame
  | [] => if top.block.isSome then (.ready, [top]) else (.finished, [])
  | f :: rest =>
    if top.block.isSome then (.ready, top :: f :: rest)
    else if f.isLoop then (.looped, f :: rest)
    else if f.waiting.isSome then (.waiting, f :: rest)
    else unwindFrom sheet (f.moveTo (f.block >>= sheet.next?)) rest

/-- Drops the finished frames of a thread. -/
def Thread.unwind (t : Thread) : Unwound × Thread :=
  match t.stack with
  | [] => (.finished, { t with status := .done })
  | top :: rest =>
    let (place, stack) := unwindFrom t.sheet top rest
    (place, { t with stack, status := if place == .finished then .done else t.status })

namespace Turn

variable {σ : Type}

/-- Drops the finished frames; whether the thread goes on. After a round of a loop it does so only
in warp mode with time left. -/
def unwind (s : Turn σ) : Bool × Turn σ :=
  let (place, thread) := s.thread.unwind
  let s := { s with thread }
  match place with
  | .ready => (true, s)
  | .looped => s.goesOn
  | .finished | .waiting => (false, s)

end Turn
end BlockMachine

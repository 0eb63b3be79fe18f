import BlockMachine.Kit.Basic

/-!
# Control flow

Branches, loops, waits and stops. A loop enters its branch and is visited again when the branch is
finished, so it keeps a counter in its scratch; a wait keeps a timer there.
-/

namespace BlockMachine.Library.Flow

open BlockMachine.Action

variable {σ : Type}

/-- Enters the first branch as long as the counter, set on the first visit, is not used up. -/
def repeatTimes : Primitive σ := fun args => do
  let times := Number.roundHalfUp (args.number "TIMES")
  let scratch ← getScratch
  let counter := scratch.loopCounter.getD times - 1.0
  setScratch { scratch with loopCounter := some counter }
  if counter >= 0.0 then startBranch 1 true
  return .nothing

def repeatUntil : Primitive σ := fun args => do
  if !args.bool "CONDITION" then startBranch 1 true
  return .nothing

def repeatWhile : Primitive σ := fun args => do
  if args.bool "CONDITION" then startBranch 1 true
  return .nothing

def forever : Primitive σ := fun _ => do
  startBranch 1 true
  return .nothing

def ifThen : Primitive σ := fun args => do
  if args.bool "CONDITION" then startBranch 1 false
  return .nothing

def ifElse : Primitive σ := fun args => do
  startBranch (if args.bool "CONDITION" then 1 else 2) false
  return .nothing

def allAtOnce : Primitive σ := fun _ => do
  startBranch 1 false
  return .nothing

/-- Seconds as a duration in milliseconds, which is never negative. -/
def waitTime (seconds : Float) : Float :=
  let ms := 1000.0 * seconds
  if ms > 0.0 then ms else 0.0

/-- Starts the timer on the first visit, and yields then and until the time is up. -/
def wait : Primitive σ := fun args => do
  let scratch ← getScratch
  let time ← now
  if scratch.timerStart.isNone then
    setScratch
      { scratch with timerStart := some time, duration := waitTime (args.number "DURATION") }
    requestRedraw
    yield
  else if !scratch.isTimeUp time then yield
  return .nothing

def waitUntil : Primitive σ := fun args => do
  if !args.bool "CONDITION" then yield
  return .nothing

/-- What the menu of the stop block offers. -/
def stopOption? : String → Option StopOption
  | "all" => some .all
  | "this script" => some .thisScript
  | "other scripts in sprite" => some .otherScripts
  | "other scripts in stage" => some .otherScripts
  | _ => none

def stop : Primitive σ := fun args => do
  match stopOption? (args.text "STOP_OPTION") with
  | some .all => stopAll
  | some .thisScript => stopScript
  | some .otherScripts => stopOthers
  | none => pure ()
  return .nothing

def primitive? : String → Option (Primitive σ)
  | "control_repeat" => some repeatTimes
  | "control_repeat_until" => some repeatUntil
  | "control_while" => some repeatWhile
  | "control_forever" => some forever
  | "control_if" => some ifThen
  | "control_if_else" => some ifElse
  | "control_all_at_once" => some allAtOnce
  | "control_wait" => some wait
  | "control_wait_until" => some waitUntil
  | "control_stop" => some stop
  | _ => none

def lowering? : String → Option Lowering
  | "control_if" => some (.statement .ifThen)
  | "control_if_else" => some (.statement .ifElse)
  | "control_repeat" => some (.statement .repeatTimes)
  | "control_repeat_until" => some (.statement .repeatUntil)
  | "control_while" => some (.statement .repeatWhile)
  | "control_forever" => some (.statement .forever)
  | "control_wait" => some (.statement .wait)
  | "control_wait_until" => some (.statement .waitUntil)
  | "control_stop" => some (.statement .stop)
  | "control_all_at_once" => some (.statement .allAtOnce)
  | _ => none

def catalog : Catalog σ where
  primitive? := primitive?
  lowering? := lowering?

end BlockMachine.Library.Flow

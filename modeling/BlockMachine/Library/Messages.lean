import BlockMachine.Kit.Basic

/-!
# Hats and messages

The flag hat, the hat that watches the timer, and broadcasts with the hat that receives them.
-/

namespace BlockMachine.Library.Messages

open BlockMachine.Action

variable {σ : Type}

/-- The hat of scripts that receive a message. -/
def received : String := "event_whenbroadcastreceived"

/-- Whether the timer has passed a number of seconds. -/
def whenGreater : Primitive σ := fun args => do
  if Text.lower (args.text "WHENGREATERTHANMENU") == "timer" then
    let timer ← query "clock" "projectTimer" []
    let seconds := (timer.value?.map Value.toNumber).getD 0.0
    return .value (.bool (seconds > args.number "VALUE"))
  else return .value (.bool false)

/-- Starts the scripts that receive the message. -/
def send (args : Args) : Action σ (List ThreadId) :=
  startHats received [("BROADCAST_OPTION", args.text "BROADCAST_INPUT")]

def broadcast : Primitive σ := fun args => do
  discard (send args)
  return .nothing

/-- Whether an answer is yes for some thread; asks no further than that. -/
def anyThread (ask : ThreadId → Action σ Bool) : List ThreadId → Action σ Bool
  | [] => return false
  | id :: rest => do if ← ask id then return true else anyThread ask rest

/-- Whether an answer is yes for every thread. -/
def allThreads (ask : ThreadId → Action σ Bool) : List ThreadId → Action σ Bool
  | [] => return true
  | id :: rest => do if ← ask id then allThreads ask rest else return false

/-- Yields while one of the threads is left, until the next frame when none of them can go on. -/
def await (threads : List ThreadId) : Action σ Reported := do
  if ← anyThread hasThread threads then
    if ← allThreads isWaiting threads then yieldTick else yield
  return .nothing

/-- Starts the receivers on the first visit and waits for them. -/
def broadcastAndWait : Primitive σ := fun args => do
  let scratch ← getScratch
  match scratch.started with
  | some threads => await threads
  | none =>
    let threads ← send args
    if threads.isEmpty then return .nothing
    setScratch { scratch with started := some threads }
    await threads

def primitive? : String → Option (Primitive σ)
  | "event_whengreaterthan" => some whenGreater
  | "event_broadcast" => some broadcast
  | "event_broadcastandwait" => some broadcastAndWait
  | _ => none

def catalog : Catalog σ where
  primitive? := primitive?
  hats := Table.of [
    ("event_whenflagclicked", { restarts := true }),
    (received, { restarts := true }),
    ("event_whengreaterthan", { isEdge := true })]

end BlockMachine.Library.Messages

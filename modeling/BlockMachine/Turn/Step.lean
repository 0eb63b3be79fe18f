import BlockMachine.Turn.Code

/-!
# The turn of a thread

A turn runs a thread until it yields, waits or is done. A thread that waits for a promise takes the
value first, once the promise is settled. A block that fails ends its thread.
-/

namespace BlockMachine.Turn

open Exec

variable {σ : Type}

/-- Runs blocks one after the other. In warp mode a block that yields is run again at once, as long
as there is time. -/
def interpret (kit : Kit σ) : Nat → Exec (Turn σ) Unit
  | 0 => outOfFuel
  | fuel + 1 => do
    match (← getThread).block? with
    | none => return
    | some current =>
      let t ← getThread
      modify startWarp
      execute kit fuel
      match (← getThread).status with
      | .yield =>
        onThread ({ · with status := .running })
        let s ← get
        let (expired, s) := if t.isWarp then s.warpExpired else (true, s)
        set s
        if expired then return else interpret kit fuel
      | .promiseWait | .yieldTick | .done => return
      | .running =>
        onThread fun t' =>
          if t'.depth == t.depth && t'.block? == some current then t'.goNext else t'
        let s ← get
        let (goes, s) := s.unwind
        set s
        if goes then interpret kit fuel else return

/-- Goes on with the thread, in compiled code or with its blocks. -/
def resume (kit : Kit σ) (fuel : Nat) : Exec (Turn σ) Unit := do
  let t ← getThread
  if t.cursor?.isSome then
    modify startWarp
    onThread fun t => if t.status == .yield then { t with status := .running } else t
    runCode kit fuel
  else
    let s ← get
    let (goes, s) := if t.block?.isNone then s.unwind else (true, s)
    set s
    if goes then interpret kit fuel else return

/-- Ends a thread that failed. -/
def fail (s : Turn σ) (e : BlockError) : Turn σ where
  machine := s.machine.reportError s.thread e
  thread := s.thread.retire

/-- Runs a thread until it yields, waits or is done. -/
def step (kit : Kit σ) (fuel : Nat) (s : Turn σ) : Option (Turn σ) := do
  let (outcome, s) ← resume kit fuel s
  match outcome with
  | .ok () => return s
  | .error e => return s.fail e

/-- Hands the value of a promise to what waits for it. -/
def settle (s : Turn σ) (catalog : Catalog σ) (v : Value) : Waiter → Turn σ
  | .code dest =>
    match dest with
    | some slot => { s with thread := s.thread.onCursor (·.setLocal slot v) }
    | none => s
  | .block true =>
    match s.thread.block? with
    | none => s
    | some block =>
      let opcode := (s.thread.sheet.opcode? block).getD ""
      let (fires, s) := s.reportHat catalog block opcode v
      if fires then { s with thread := s.thread.leaveHat } else s
  | .block false =>
    let isReporter := (s.thread.stack[1]?.bind Frame.waiting).isSome
    let t := s.thread.report v
    if isReporter then { s with thread := t.pop }
    else ({ s with thread := t.goNext } : Turn σ).unwind.2

/-- Goes on without a value: an interpreted block is given up. -/
def forgo (s : Turn σ) : Waiter → Turn σ
  | .code _ => s
  | .block _ => { s with thread := endIfEmpty s.thread.pop }

/-- The turn of a thread that waits for a promise. While the promise is pending nothing happens;
once it is settled the thread goes on. -/
def await (kit : Kit σ) (fuel : Nat) (s : Turn σ) : Option (Turn σ) :=
  match s.thread.pending with
  | none => some { s with thread := { s.thread with status := .running } }
  | some pending =>
    let awake := { s with thread := { s.thread with pending := none, status := .running } }
    let go (s : Turn σ) : Option (Turn σ) :=
      if s.thread.status == .running && !s.thread.isDone then s.step kit fuel else some s
    match s.machine.promises[pending.promise]? with
    | some (.resolved v) => go (awake.settle kit.toCatalog v pending.waiter)
    | some (.rejected _) => go (awake.forgo pending.waiter)
    | _ => some s

end BlockMachine.Turn

import BlockMachine.Turn.Step

/-!
# Frames of a machine

A frame polls the edge-activated hats, starts the threads of the monitors, and then makes passes
over the threads until the time for work is used up, no thread is running, or a redraw was
requested. In a pass every thread has at most one turn, in the order of the list; threads that are
started in the pass have their turn too.
-/

namespace BlockMachine.Machine

variable {σ : Type}

/-- How the predicates of hats are asked. -/
abbrev predicate (kit : Kit σ) (fuel : Nat) : Exec (Turn σ) Unit :=
  Turn.execute kit fuel

/-- Puts a thread back in its place after its turn, unless its script was started afresh there; a
thread that was stopped meanwhile ends. -/
def putBack (m : Machine σ) (i : Nat) (t : Thread) : Machine σ :=
  match m.threads[i]? with
  | some slot =>
    if slot.id == t.id then
      { m with threads := m.threads.set i (if slot.status == .done then t.retire else t) }
    else m
  | none => m

/-- The thread as it is visited: a sleeping one wakes up in the first pass of a frame. -/
def wake (isFirst : Bool) (t : Thread) : Thread :=
  if t.status == .yieldTick && isFirst then { t with status := .running } else t

/-- Whether a visited thread has a turn. -/
def hasTurn (t : Thread) : Bool :=
  (t.status == .running || t.status == .yield || t.status == .promiseWait) && !t.isDone

/-- Gives the thread at a place its turn. -/
def giveTurn (kit : Kit σ) (fuel : Nat) (i : Nat) (t : Thread) (m : Machine σ) :
    Option (Machine σ) := do
  let machine := { m with threads := m.threads.set i t.placeholder }
  let s : Turn σ := { machine, thread := t }
  let s ← if t.status == .promiseWait then s.await kit fuel else s.step kit fuel
  return s.machine.putBack i { s.thread with warpStart := none }

/-- Visits the thread at a place. -/
def visit (kit : Kit σ) (fuel : Nat) (isFirst : Bool) (i : Nat) (m : Machine σ) :
    Option (Machine σ) :=
  match m.threads[i]? with
  | none => some m
  | some t =>
    let t := wake isFirst t
    if hasTurn t then giveTurn kit fuel i t m
    else some { m with threads := m.threads.set i t }

/-- Whether the thread at a place is running. -/
def isRunning (m : Machine σ) (i : Nat) : Bool :=
  m.threads[i]?.any (·.status == .running)

/-- Visits the places from the `i`th on, also those added on the way, and counts the threads that
are running after their visit. -/
def visitFrom (kit : Kit σ) (isFirst : Bool) : Nat → Nat → Run (Machine σ) Nat
  | 0, _ => fun _ => none
  | fuel + 1, i => fun m =>
    if i < m.threads.length then do
      let m ← m.visit kit fuel isFirst i
      let (n, m') ← visitFrom kit isFirst fuel (i + 1) m
      return ((if m.isRunning i then 1 else 0) + n, m')
    else some (0, m)

/-- Takes the threads that are done out of the list. -/
def takeDone (m : Machine σ) : List Thread × Machine σ :=
  let (done, alive) := m.threads.partition Thread.isDone
  (done, { m with threads := alive })

/-- A pass over all threads: how many are running after it, and those that are done. -/
def pass (kit : Kit σ) (fuel : Nat) (isFirst : Bool) : Run (Machine σ) (Nat × List Thread) := do
  modify syncClock
  let running ← visitFrom kit isFirst fuel 0
  let done ← modifyGet takeDone
  return (running, done)

/-- Whether another pass is to be made, the last one having left so many threads running. The clock
is read only where it decides. -/
def continues (m : Machine σ) (start : Float) (running : Nat) : Bool × Machine σ :=
  if m.threads.isEmpty || running == 0 then (false, m)
  else
    let (time, m) := m.readClock
    (time - start < m.settings.workTime && (m.settings.turboMode || !m.redraw), m)

/-- Passes after the first one, in a frame whose work began at `start`. -/
def passes (kit : Kit σ) (start : Float) : Nat → Nat → Run (Machine σ) (List Thread)
  | 0, _ => fun _ => none
  | fuel + 1, running => do
    if ← modifyGet (·.continues start running) then
      let (running, done) ← pass kit fuel false
      let rest ← passes kit start fuel running
      return done ++ rest
    else return []

/-- Steps the threads for one frame and gives those that are done. -/
def stepThreads (kit : Kit σ) (fuel : Nat) : Run (Machine σ) (List Thread) := do
  discard (modifyGet readClock)
  let start ← modifyGet readClock
  let m ← get
  if m.threads.isEmpty || (m.redraw && !m.settings.turboMode) then return []
  else
    let (running, done) ← pass kit fuel true
    let rest ← passes kit start fuel running
    return done ++ rest

/-- Starts the thread of a monitor unless it is running. -/
def startMonitor (m : Machine σ) (monitor : Monitor) : Machine σ :=
  let runs := m.threads.any fun t =>
    t.isMonitor && t.top == monitor.block && t.target == monitor.target && !t.isDone
  if runs then m
  else
    match m.newThread? monitor.target monitor.block with
    | some (t, m) => { m with threads := m.threads ++ [{ t with isMonitor := true }] }
    | none => m

/-- Tells what a clicked or monitored reporter reported; of a monitor only what is new. -/
def reportValue (m : Machine σ) (t : Thread) : Machine σ :=
  match t.reported with
  | none => m
  | some v =>
    if t.isClick then m.emit (.visualReport t.top v)
    else if t.isMonitor && m.monitorValues[t.top]? != some v then
      { m with monitorValues := m.monitorValues.insert t.top v }.emit (.monitorUpdate t.top v)
    else m

/-- The lists of a target that have changed since they were told. -/
def changedLists (t : Target) : List Event :=
  (t.vars.values.filter fun v => v.isList && !v.isShown).map fun v =>
    .listUpdate t.id v.id v.items

/-- Tells the lists that have changed. -/
def reportLists (m : Machine σ) : Machine σ :=
  { m with
    events := m.events ++ m.targets.values.flatMap changedLists
    targets := m.targets.map fun _ t =>
      { t with vars := t.vars.map fun _ v =>
          if v.isList then { v with isShown := true } else v } }

/-- Polls the edge-activated hats. -/
def pollHats (kit : Kit σ) (fuel : Nat) : List String → Run (Machine σ) Unit
  | [] => return
  | opcode :: rest => do
    discard (startHats kit.toCatalog (predicate kit fuel) opcode [] none)
    pollHats kit fuel rest

/-- One frame: gives the threads that are done. -/
def step (kit : Kit σ) (fuel : Nat) : Run (Machine σ) (List Thread) := do
  modify fun m => { m.syncClock with redraw := false }
  pollHats kit fuel kit.edgeHats
  modify fun m => m.monitors.foldl startMonitor m
  let done ← stepThreads kit fuel
  modify fun m => (done.foldl reportValue m).reportLists
  return done

/-- Stops everything and starts the scripts under the flag. -/
def greenFlag (kit : Kit σ) (fuel : Nat) : Run (Machine σ) Unit := do
  modify fun m =>
    let m := m.stopAll.emit .projectStart
    { m with
      stopwatch := m.stopwatch.restart m.now
      targets := m.targets.map fun _ t => t.clearEdges }
  discard (startHats kit.toCatalog (predicate kit fuel) "event_whenflagclicked" [] none)

/-- Starts a script as if its hat were triggered. -/
def pushThread (kit : Kit σ) (fuel : Nat) (top : BlockId) (target : TargetId) :
    Run (Machine σ) (Option ThreadId) := do
  match (← get).targets[target]? >>= (·.sheet.opcode? top) with
  | none => return none
  | some opcode =>
    let hasPredicate := kit.isHat opcode && kit.hasPrimitive opcode
    match ← spawn kit.toCatalog (predicate kit fuel) hasPredicate target top with
    | none => return none
    | some t =>
      modify (·.place none t)
      return some t.id

/-- Runs a clicked script, or stops it if it is running. Clicked scripts are interpreted. -/
def toggle (m : Machine σ) (top : BlockId) (target : TargetId) : Option ThreadId × Machine σ :=
  let isIt (t : Thread) : Bool := t.target == target && t.top == top && !t.isDone
  match m.threads.findIdx? isIt with
  | some i => (none, { m with threads := m.threads.modify i Thread.retire })
  | none =>
    match m.newThread? target top with
    | some (t, m) => (some t.id, { m with threads := m.threads ++ [{ t with isClick := true }] })
    | none => (none, m)

end BlockMachine.Machine

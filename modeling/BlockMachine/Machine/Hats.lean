import BlockMachine.Machine.Targets

/-!
# Starting scripts

Scripts are started by their hats. A hat with a primitive has a predicate, which is asked on the new
thread before that thread is put in the list. How a predicate is asked is a parameter here: the
interpreter asks it, and is itself able to start scripts.
-/

namespace BlockMachine

/-- The machine and the thread that has its turn. -/
structure Turn (σ : Type) where
  machine : Machine σ
  thread : Thread

/-- Computations on a state that may run out of fuel. -/
abbrev Run (S : Type) := StateT S Option

/-- Computations that may also fail, keeping what was changed before. -/
abbrev Exec (S : Type) := ExceptT BlockError (Run S)

/-- The end of the fuel. -/
def outOfFuel {S α : Type} : Exec S α :=
  ExceptT.mk fun _ => none

namespace Machine

variable {σ : Type}

/-- A new thread at the top of a script, not yet in the list. -/
def newThread? (m : Machine σ) (target : TargetId) (top : BlockId) : Option (Thread × Machine σ) :=
  m.targets[target]?.map fun t =>
    (.start m.nextThread target top t.sheet, { m with nextThread := m.nextThread + 1 })

/-- Gives a thread its compiled script, if there is one. -/
def withProgram (m : Machine σ) (catalog : Catalog σ) (t : Thread) : Thread × Machine σ :=
  match m.targets[t.target]? with
  | some target =>
    let (program, m) := m.program? catalog target t.top
    ({ t with program }, m)
  | none => (t, m)

/-- Tells that a thread failed. -/
def reportError (m : Machine σ) (t : Thread) (e : BlockError) : Machine σ :=
  m.emit (.threadError t.id t.target e)

/-- Asks the predicate of a hat on its thread, and gives the thread if its script is to run. -/
def askPredicate (predicate : Exec (Turn σ) Unit) (t : Thread) : Run (Machine σ) (Option Thread) :=
  fun m => do
    let (_, m) := m.readClock
    let (outcome, turn) ← predicate ⟨m, t⟩
    let m := turn.machine
    match outcome with
    | .error e => return (none, m.reportError t e)
    | .ok () =>
      match turn.thread.status with
      | .done => return (none, m)
      | .promiseWait => return (some turn.thread, m)
      | _ => return (some turn.thread.leaveHat, m)

/-- A thread for a script whose hat is triggered; none when the predicate says no. -/
def spawn (catalog : Catalog σ) (predicate : Exec (Turn σ) Unit) (hasPredicate : Bool)
    (target : TargetId) (top : BlockId) : Run (Machine σ) (Option Thread) := do
  match (← get).newThread? target top with
  | none => return none
  | some (t, m) =>
    let (t, m) := if m.settings.compilerEnabled then m.withProgram catalog t else (t, m)
    set m
    if hasPredicate then askPredicate predicate t else return some (t.enterProgram?.getD t)

/-- Whether a thread runs a script by its hat. -/
def runs (target : TargetId) (top : BlockId) (t : Thread) : Bool :=
  t.target == target && t.top == top && !t.isClick && !t.isMonitor

/-- Puts a thread in the place of another one, or at the end. -/
def place (m : Machine σ) (slot : Option Nat) (t : Thread) : Machine σ :=
  match slot with
  | some i =>
    if i < m.threads.length then { m with threads := m.threads.set i t }
    else { m with threads := m.threads ++ [t] }
  | none => { m with threads := m.threads ++ [t] }

/-- Where a triggered script is to run: in the place of its thread if the hat restarts scripts, not
at all if the script is running, else at the end of the list. -/
def slotFor (m : Machine σ) (hat : Hat) (target : TargetId) (top : BlockId) :
    Option (Option Nat) :=
  match m.threads.findIdx? (runs target top) with
  | none => some none
  | some i =>
    if hat.restarts then some (some i)
    else if m.threads[i]?.all Thread.isDone then some none
    else none

/-- Starts a script; the id of the new thread, if there is one. -/
def startScript (catalog : Catalog σ) (predicate : Exec (Turn σ) Unit) (opcode : String) (hat : Hat)
    (target : TargetId) (top : BlockId) : Run (Machine σ) (Option ThreadId) := do
  match (← get).slotFor hat target top with
  | none => return none
  | some slot =>
    match ← spawn catalog predicate (catalog.hasPrimitive opcode) target top with
    | none => return none
    | some t =>
      modify (·.place slot t)
      return some t.id

/-- Whether the fields of a hat have the given texts, in any case of letters. -/
def fieldsMatch (b : Block) (fields : List (String × String)) : Bool :=
  fields.all fun (name, text) =>
    b.fields[name]?.any fun f => Text.upper f.text == Text.upper text

/-- Starts scripts one after the other. -/
def startScripts (catalog : Catalog σ) (predicate : Exec (Turn σ) Unit) (opcode : String)
    (hat : Hat) : List (TargetId × BlockId) → Run (Machine σ) (List ThreadId)
  | [] => return []
  | (target, top) :: rest => do
    let first ← startScript catalog predicate opcode hat target top
    let others ← startScripts catalog predicate opcode hat rest
    return first.toList ++ others

/-- The scripts of a target with that hat and those fields. -/
def scriptsOf (m : Machine σ) (opcode : String) (fields : List (String × String))
    (target : TargetId) : List (TargetId × BlockId) :=
  match m.targets[target]? with
  | none => []
  | some t =>
    ((t.sheet.scriptsWith opcode).filter fun top =>
      (t.sheet.block? top).any (fieldsMatch · fields)).map (target, ·)

/-- Starts the scripts of targets, each target looked up when its turn comes. -/
def startOn (catalog : Catalog σ) (predicate : Exec (Turn σ) Unit) (opcode : String) (hat : Hat)
    (fields : List (String × String)) : List TargetId → Run (Machine σ) (List ThreadId)
  | [] => return []
  | target :: rest => do
    let scripts := (← get).scriptsOf opcode fields target
    let first ← startScripts catalog predicate opcode hat scripts
    let others ← startOn catalog predicate opcode hat fields rest
    return first ++ others

/-- Starts the scripts with that hat and those fields, on one target or on all from the last layer
to the first. -/
def startHats (catalog : Catalog σ) (predicate : Exec (Turn σ) Unit) (opcode : String)
    (fields : List (String × String)) (only : Option TargetId) :
    Run (Machine σ) (List ThreadId) := do
  match catalog.hats[opcode]? with
  | none => return []
  | some hat =>
    let m ← get
    let targets := (only.map fun target => [target]).getD m.layers.reverse
    startOn catalog predicate opcode hat fields targets

/-- Clones a sprite and starts the clone's scripts. -/
def createClone (catalog : Catalog σ) (predicate : Exec (Turn σ) Unit) (source : TargetId) :
    Run (Machine σ) (Option TargetId) := do
  match (← get).addClone? source with
  | none => return none
  | some (id, m) =>
    set m
    discard (startHats catalog predicate "control_start_as_clone" [] (some id))
    return some id

end Machine
end BlockMachine

import BlockMachine.Machine.Basic
import BlockMachine.Project

/-!
# Targets of a machine

Adding, cloning and removing targets. The layers hold every target once, the stage first. Removing a
target stops its threads.
-/

namespace BlockMachine

/-- An item put in before the first occurrence of another, or at the end. -/
def insertBefore {α : Type} [BEq α] (x mark : α) : List α → List α
  | [] => [x]
  | y :: ys => if y == mark then x :: y :: ys else y :: insertBefore x mark ys

namespace Machine

variable {σ : Type}

/-- Adds a target under a new id: the stage in front of all layers, a sprite behind them. -/
def addTarget (m : Machine σ) (t : Target) : TargetId × Machine σ :=
  let id := m.nextTarget
  let m := { m with nextTarget := id + 1, targets := m.targets.insert id { t with id } }
  (id, if t.isStage then { m with stage := some id, layers := id :: m.layers }
    else { m with layers := m.layers ++ [id] })

/-- Adds targets one after the other. -/
def addTargets (m : Machine σ) : List Target → List TargetId × Machine σ
  | [] => ([], m)
  | t :: ts =>
    let (id, m) := m.addTarget t
    let (ids, m) := m.addTargets ts
    (id :: ids, m)

/-- Adds the targets of a project, its first stage before the others, and gives their ids in the
order of the project. Without a stage there is nothing to install. -/
def install? (m : Machine σ) (p : Project) : Option (List TargetId × Machine σ) :=
  match p.targets.span (!·.isStage) with
  | (_, []) => none
  | (before, stage :: after) =>
    let (stageId, m) := m.addTarget stage
    let (idsBefore, m) := m.addTargets before
    let (idsAfter, m) := m.addTargets after
    some (idsBefore ++ stageId :: idsAfter, m)

/-- The first target of that name that is no clone, in the order of the ids. -/
def targetNamed? (m : Machine σ) (name : String) : Option TargetId :=
  (m.targets.values.find? fun t => !t.isClone && t.name == name).map Target.id

def isClone (m : Machine σ) (id : TargetId) : Bool :=
  m.targets[id]?.any Target.isClone

/-- Stops the threads of a target, one of them excepted. -/
def stopTarget (m : Machine σ) (target : TargetId) (except : Option ThreadId) : Machine σ :=
  m.onThreads (fun t => t.target == target && some t.id != except) Thread.retire

/-- Removes a target and stops its threads. -/
def removeTarget (m : Machine σ) (id : TargetId) : Machine σ :=
  match m.targets[id]? with
  | none => m
  | some t =>
    let m :=
      { m with
        targets := m.targets.erase id
        cloneCount := if t.isClone then m.cloneCount - 1 else m.cloneCount
        stage := if m.stage == some id then none else m.stage
        layers := m.layers.filter (· != id)
        monitors := m.monitors.filter (·.target != id) }
    m.stopTarget id none

/-- Puts a clone of a sprite in the layer before it; none when the source is no sprite or there are
too many clones. -/
def addClone? (m : Machine σ) (source : TargetId) : Option (TargetId × Machine σ) := do
  let t ← m.targets[source]?
  if t.isStage || m.settings.maxClones ≤ m.cloneCount then none
  else
    let id := m.nextTarget
    some (id,
      { m with
        nextTarget := id + 1
        targets := m.targets.insert id { t.clone with id }
        layers := insertBefore id source m.layers
        cloneCount := m.cloneCount + 1 })

/-- Ends all threads and removes all clones. -/
def stopAll (m : Machine σ) : Machine σ :=
  let m := m.emit .projectStopAll
  let clones := (m.targets.values.filter Target.isClone).map Target.id
  let m := clones.foldl removeTarget m
  m.onThreads (fun _ => true) Thread.retire

/-- Forgets everything but the settings, the clock and the numbers given out. -/
def dispose (m : Machine σ) (kit : Kit σ) : Machine σ :=
  let m := m.stopAll
  let m := m.targets.keys.foldl removeTarget m
  { m with
    threads := []
    monitors := []
    monitorValues := ∅
    events := []
    memos := ∅
    counter := 0.0
    stopwatch := .new
    host := kit.devices.foldl (fun host _ device => device.reset host) (kit.resetHost m.host) }

/-- Watches a reporter of a target. -/
def addMonitor (m : Machine σ) (monitor : Monitor) : Machine σ :=
  if m.monitors.contains monitor then m else { m with monitors := m.monitors ++ [monitor] }

/-- Notes the answer of an edge-activated hat and tells whether the hat fires: when the answer is
yes and was not yes before. -/
def edgeFires (m : Machine σ) (target : TargetId) (block : BlockId) (value : Bool) :
    Bool × Machine σ :=
  match m.targets[target]? with
  | none => (false, m)
  | some t =>
    let (before, t) := t.noteEdge block value
    (value && !before.getD false, { m with targets := m.targets.insert target t })

end Machine
end BlockMachine

import BlockMachine.Machine.Basic

/-!
# Variables of a machine

A reference is resolved by id and then by name, on the target first and on the stage then. What is
not found is created on the target. Changes of cloud variables are passed on to the cloud device.
-/

namespace BlockMachine

/-- Operations on a machine that may fail; what was changed before stays changed. -/
abbrev Service (σ : Type) := ExceptT BlockError (StateM (Machine σ))

/-- Where a variable is: on which target, under which id. -/
structure Place where
  owner : TargetId
  id : String
  deriving DecidableEq, Repr

namespace Machine

variable {σ : Type}

/-- The targets on which the references of a target are looked up. -/
def owners (m : Machine σ) (target : TargetId) : List TargetId :=
  target :: (m.stage.filter (· != target)).toList

/-- The variable with the id of the reference. -/
def placeById? (m : Machine σ) (ref : VarRef) (owner : TargetId) : Option Place :=
  if m.targets[owner]?.any (·.vars.contains ref.id) then some ⟨owner, ref.id⟩ else none

/-- The first list, or the first variable that is no list, with the name of the reference. -/
def placeByName? (m : Machine σ) (ref : VarRef) (isList : Bool) (owner : TargetId) :
    Option Place := do
  let t ← m.targets[owner]?
  let v ← t.vars.values.find? fun v => v.name == ref.name && v.isList == isList
  some ⟨owner, v.id⟩

/-- Resolves a reference. -/
def place? (m : Machine σ) (target : TargetId) (ref : VarRef) (isList : Bool) : Option Place :=
  let owners := m.owners target
  owners.findSome? (m.placeById? ref) <|> owners.findSome? (m.placeByName? ref isList)

def variableAt? (m : Machine σ) (p : Place) : Option Variable :=
  m.targets[p.owner]? >>= (·.vars[p.id]?)

/-- What a reference that finds nothing creates. -/
def fresh (ref : VarRef) (isList : Bool) : Variable :=
  if isList then .list ref.id ref.name [] else .scalar ref.id ref.name .zero

/-- Resolves a reference, creating what it does not find. -/
def resolve (target : TargetId) (ref : VarRef) (isList : Bool) : Service σ Place := do
  let m ← get
  match m.place? target ref isList with
  | some p => return p
  | none =>
    if m.targets.contains target then
      set (m.onTarget target (·.addVariable (fresh ref isList)))
      return ⟨target, ref.id⟩
    else throw (.missingTarget target)

/-- The variable that a reference denotes. -/
def lookUp (target : TargetId) (ref : VarRef) (isList : Bool) : Service σ (Place × Variable) := do
  let p ← resolve target ref isList
  match (← get).variableAt? p with
  | some v => return (p, v)
  | none => throw (.missingTarget p.owner)

/-- Stores a variable. -/
def store (m : Machine σ) (p : Place) (v : Variable) : Machine σ :=
  m.onTarget p.owner fun t => { t with vars := t.vars.insert p.id v }

def readVariable (target : TargetId) (ref : VarRef) : Service σ Value := do
  let (_, v) ← lookUp target ref false
  return v.get

def readList (target : TargetId) (ref : VarRef) : Service σ (List Value) := do
  let (_, v) ← lookUp target ref true
  return v.items

/-- Whether an edit takes a draw. -/
def asksDraw : ListEdit → Bool
  | .delete index | .insert index _ | .replace index _ => Position.asksDraw index
  | _ => false

def editList (target : TargetId) (ref : VarRef) (edit : ListEdit) : Service σ Unit := do
  let (p, v) ← lookUp target ref true
  let d ← if asksDraw edit then modifyGet draw else pure 0
  modify fun m => m.store p (v.edit m.settings.listItemLimit d edit)

/-- Asks the project timer. -/
def queryClock (function : String) : Service σ Reported := do
  let m ← get
  match m.stopwatch.query? function m.now with
  | some (answer, stopwatch) =>
    set { m with stopwatch }
    return match answer with
      | some x => .value (.number x)
      | none => .nothing
  | none => throw (.unknownFunction "clock" function)

/-- Asks a device. -/
def query (kit : Kit σ) (device function : String) (args : List Value) : Service σ Reported := do
  if device == "clock" then queryClock function
  else
    match kit.devices[device]? with
    | none => throw (.unknownDevice device)
    | some d =>
      let m ← get
      let (answer, s) := d.query function args m.now ⟨m.promises, m.host⟩
      set { m with promises := s.promises, host := s.host }
      match answer with
      | .ok r => return r
      | .error e => throw e

/-- Sets a variable, and passes the change of a cloud variable on. -/
def setVariable (kit : Kit σ) (target : TargetId) (ref : VarRef) (value : Value) :
    Service σ Unit := do
  let (p, v) ← lookUp target ref false
  modify (·.store p (v.set value))
  if v.isCloud && kit.devices.contains "cloud" then
    discard (query kit "cloud" "requestUpdateVariable" [.text v.name, value])

/-- Adds a number to a variable. -/
def changeVariable (kit : Kit σ) (target : TargetId) (ref : VarRef) (amount : Float) :
    Service σ Unit := do
  let old ← readVariable target ref
  setVariable kit target ref (.number (old.toNumber + amount))

end Machine
end BlockMachine

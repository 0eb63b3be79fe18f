import BlockMachine.Block.Sheet
import BlockMachine.Variable

/-!
# Targets

The stage, a sprite, or a clone of a sprite: a sheet of blocks with variables and a look. A clone
has the sheet of its source and copies of its variables, cloud variables apart.
-/

namespace BlockMachine

abbrev TargetId := Nat

/-- How a target is shown. -/
structure Look where
  visible : Bool := true
  x : Float := 0.0
  y : Float := 0.0
  size : Float := 100.0
  direction : Float := 90.0
  costume : Nat := 0

structure Target where
  id : TargetId := 0
  name : String
  isStage : Bool := false
  /-- For a clone, the sprite it goes back to. -/
  cloneOf : Option TargetId := none
  sheet : Sheet := {}
  vars : Table Variable := ∅
  look : Look := {}
  /-- The last answers of the predicates of edge-activated hats. -/
  edges : Table Bool := ∅

namespace Target

def stage (sheet : Sheet) : Target :=
  { name := "Stage", isStage := true, sheet }

def sprite (name : String) (sheet : Sheet) : Target :=
  { name, sheet }

/-- Adds a variable, in place of one with the same id. It is local unless this is the stage. -/
def addVariable (t : Target) (v : Variable) : Target :=
  { t with vars := t.vars.insert v.id { v with isLocal := !t.isStage } }

/-- The first variable of that name, in the order of the ids. -/
def variableNamed? (t : Target) (name : String) : Option Variable :=
  t.vars.values.find? (·.name == name)

/-- Notes the answer of an edge-activated hat and gives the one before. -/
def noteEdge (t : Target) (block : BlockId) (value : Bool) : Option Bool × Target :=
  (t.edges[block]?, { t with edges := t.edges.insert block value })

def clearEdges (t : Target) : Target :=
  { t with edges := ∅ }

def isClone (t : Target) : Bool :=
  t.cloneOf.isSome

/-- The sprite whose sheet the target runs: a clone's source, else itself. -/
def origin (t : Target) : TargetId :=
  t.cloneOf.getD t.id

/-- A clone, yet without an id of its own. -/
def clone (t : Target) : Target where
  id := 0
  name := t.name
  isStage := false
  cloneOf := some t.origin
  sheet := t.sheet
  vars := t.vars.filter fun _ v => !v.isCloud
  look := t.look
  edges := ∅

end Target
end BlockMachine

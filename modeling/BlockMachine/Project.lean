import BlockMachine.Target

/-!
# Projects

A project is a list of targets, read from a document. Variables are written as `[name, value]`, or
with a third item that tells whether they are cloud variables; lists as `[name, items]`; messages by
their name.
-/

namespace BlockMachine

/-- The targets of a project in the order of the document, yet without ids. -/
structure Project where
  targets : List Target

namespace Project

open Json

/-- A variable, once its id is known. -/
def decodeVariable : Json → Decoded (String → Variable)
  | .array [name, value] => do
    let name ← asText name
    let value ← asValue value
    return fun id => .scalar id name value
  | .array [name, value, cloud] => do
    let name ← asText name
    let value ← asValue value
    let isCloud ← asBool cloud
    return fun id => { Variable.scalar id name value with isCloud }
  | _ => .error .shape

def decodeList : Json → Decoded (String → Variable)
  | .array [name, items] => do
    let name ← asText name
    let items ← asList asValue items
    return fun id => .list id name items
  | _ => .error .shape

def decodeMessage (j : Json) : Decoded (String → Variable) :=
  (asText j).map fun name id => .broadcast id name

/-- What is known of a target while its fields are read. -/
structure Draft where
  name : Option String := none
  isStage : Bool := false
  vars : Table (String → Variable) := ∅
  lists : Table (String → Variable) := ∅
  messages : Table (String → Variable) := ∅
  blocks : List Block := []
  look : Look := {}

/-- The fields of a target in the order in which an array gives them. -/
def Draft.fields : List String :=
  ["isStage", "name", "variables", "lists", "broadcasts", "blocks", "visible", "x", "y", "size",
    "direction", "currentCostume"]

def Draft.step (d : Draft) (key : String) (value : Json) : Decoded Draft :=
  match key with
  | "isStage" => (asBool value).map fun isStage => { d with isStage }
  | "name" => (asText value).map fun name => { d with name := some name }
  | "variables" => (asTable decodeVariable value).map fun vars => { d with vars }
  | "lists" => (asTable decodeList value).map fun lists => { d with lists }
  | "broadcasts" => (asTable decodeMessage value).map fun messages => { d with messages }
  | "blocks" => (asList Block.decode value).map fun blocks => { d with blocks }
  | "visible" => (asBool value).map fun visible => { d with look.visible := visible }
  | "x" => (asFloat value).map fun x => { d with look.x := x }
  | "y" => (asFloat value).map fun y => { d with look.y := y }
  | "size" => (asFloat value).map fun size => { d with look.size := size }
  | "direction" => (asFloat value).map fun direction => { d with look.direction := direction }
  | "currentCostume" =>
    (asCount maxCount value).map fun costume => { d with look.costume := costume }
  | _ => (checkRead value).map fun _ => d

/-- Adds the variables of a table to a target, in the order of the ids. -/
def addAll (entries : Table (String → Variable)) (t : Target) : Target :=
  entries.foldl (fun t id make => t.addVariable (make id)) t

/-- The target of a draft; its name is required. -/
def Draft.target? (d : Draft) : Option Target :=
  d.name.map fun name =>
    let bare : Target :=
      { name, isStage := d.isStage, sheet := Sheet.ofBlocks d.blocks, look := d.look }
    addAll d.messages (addAll d.lists (addAll d.vars bare))

def decodeTarget (j : Json) : Decoded Target := do
  let draft ← foldRecord Draft.fields Draft.step {} j
  match draft.target? with
  | some target => .ok target
  | none => .error .shape

/-- A project; its list of targets is required. -/
def decode (j : Json) : Decoded Project := do
  let targets? ← foldRecord ["targets"] (fun acc key value =>
    match key with
    | "targets" => (asList decodeTarget value).map some
    | _ => (checkRead value).map fun _ => acc) (none : Option (List Target)) j
  match targets? with
  | some targets => .ok { targets }
  | none => .error .shape

end Project
end BlockMachine

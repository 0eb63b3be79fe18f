import BlockMachine.Kit.Basic

/-!
# Variables and lists

Reading and changing variables and lists by reference. What a reference does not find is created.
-/

namespace BlockMachine.Library.Memory

open BlockMachine.Action

variable {σ : Type}

def getVariable : Primitive σ := fun args => do
  return .value (← readVariable (args.ref "VARIABLE"))

def assign : Primitive σ := fun args => do
  setVariable (args.ref "VARIABLE") (args.get "VALUE")
  return .nothing

/-- Adds a number to the variable. -/
def change : Primitive σ := fun args => do
  let ref := args.ref "VARIABLE"
  let old ← readVariable ref
  setVariable ref (.number (old.toNumber + args.number "VALUE"))
  return .nothing

/-- Reports something about the items of the list. -/
def ofItems (f : Args → List Value → Value) : Primitive σ := fun args => do
  let items ← readList (args.ref "LIST")
  return .value (f args items)

/-- The item at an index, which may ask for a draw. -/
def item : Primitive σ := fun args => do
  let items ← readList (args.ref "LIST")
  let index := args.get "INDEX"
  let d ← if Position.asksDraw index then draw else pure 0
  return .value (itemAt items index d)

/-- Changes the list. -/
def edit (f : Args → ListEdit) : Primitive σ := fun args => do
  editList (args.ref "LIST") (f args)
  return .nothing

def primitive? : String → Option (Primitive σ)
  | "data_variable" => some getVariable
  | "data_setvariableto" => some assign
  | "data_changevariableby" => some change
  | "data_listcontents" => some (ofItems fun _ items => .text (listText items))
  | "data_addtolist" => some (edit fun args => .add (args.get "ITEM"))
  | "data_deleteoflist" => some (edit fun args => .delete (args.get "INDEX"))
  | "data_deletealloflist" => some (edit fun _ => .clear)
  | "data_insertatlist" => some (edit fun args => .insert (args.get "INDEX") (args.get "ITEM"))
  | "data_replaceitemoflist" =>
    some (edit fun args => .replace (args.get "INDEX") (args.get "ITEM"))
  | "data_itemoflist" => some item
  | "data_itemnumoflist" =>
    some (ofItems fun args items => .number (Float.ofNat (positionOf items (args.get "ITEM"))))
  | "data_lengthoflist" => some (ofItems fun _ items => .number (Float.ofNat items.length))
  | "data_listcontainsitem" =>
    some (ofItems fun args items => .bool (containsItem items (args.get "ITEM")))
  | _ => none

def lowering? : String → Option Lowering
  | "data_variable" => some (.reporter .var)
  | "data_setvariableto" => some (.statement .setVariable)
  | "data_changevariableby" => some (.statement .changeVariable)
  | "data_listcontents" => some (.reporter .listText)
  | "data_addtolist" => some (.statement .addToList)
  | "data_deleteoflist" => some (.statement .deleteOfList)
  | "data_deletealloflist" => some (.statement .clearList)
  | "data_insertatlist" => some (.statement .insertAtList)
  | "data_replaceitemoflist" => some (.statement .replaceInList)
  | "data_itemoflist" => some (.reporter .listItem)
  | "data_itemnumoflist" => some (.reporter .listPosition)
  | "data_lengthoflist" => some (.reporter .listLength)
  | "data_listcontainsitem" => some (.reporter .listContains)
  | _ => none

def catalog : Catalog σ where
  primitive? := primitive?
  lowering? := lowering?

end BlockMachine.Library.Memory

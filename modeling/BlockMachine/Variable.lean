import BlockMachine.Value.Compare
import BlockMachine.Value.Position

/-!
# Variables and lists

A variable holds one value, a list of values, or stands for a broadcast message. List operations
count positions from one, turn what is not a list into one, and note that the list's monitor has to
be refreshed.
-/

namespace BlockMachine

/-- What a variable holds. -/
inductive Content where
  | scalar (value : Value)
  | list (items : List Value)
  /-- A broadcast message reads as the name of its variable. -/
  | broadcast

structure Variable where
  id : String
  name : String
  content : Content
  isCloud : Bool := false
  isLocal : Bool := false
  /-- Whether the list monitor shows the current items. -/
  isShown : Bool := true

/-- Items of a list as one text: without separators when each is a single character, else
separated by spaces. -/
def listText (items : List Value) : String :=
  let texts := items.map Value.toText
  if texts.all (·.length == 1) then String.join texts else String.intercalate " " texts

/-- The position of the first item equal to `item` under the comparison rules, or zero. -/
def positionOf (items : List Value) (item : Value) : Nat :=
  match items.findIdx? (·.equals item) with
  | some i => i + 1
  | none => 0

/-- Whether an item is the given one, or equal to it under the comparison rules. -/
def containsItem (items : List Value) (item : Value) : Bool :=
  items.any fun candidate => candidate == item || candidate.equals item

/-- The item an index value denotes, or the empty text. -/
def itemAt (items : List Value) (index : Value) (d : Draw) : Value :=
  match Position.resolve index items.length d false with
  | .item n => (items[n - 1]?).getD Value.empty
  | _ => Value.empty

namespace Variable

def scalar (id name : String) (value : Value) : Variable :=
  { id, name, content := .scalar value }

def list (id name : String) (items : List Value) : Variable :=
  { id, name, content := .list items, isShown := false }

def broadcast (id name : String) : Variable :=
  { id, name, content := .broadcast }

def isList (v : Variable) : Bool :=
  match v.content with
  | .list _ => true
  | _ => false

/-- The items; none for what is not a list. -/
def items (v : Variable) : List Value :=
  match v.content with
  | .list items => items
  | _ => []

/-- What the variable reads as. -/
def get (v : Variable) : Value :=
  match v.content with
  | .scalar value => value
  | .list items => .text (listText items)
  | .broadcast => .text v.name

/-- Makes the variable hold one value. -/
def set (v : Variable) (value : Value) : Variable :=
  { v with content := .scalar value }

/-- Makes the variable hold these items, not yet shown by its monitor. -/
def setItems (v : Variable) (items : List Value) : Variable :=
  { v with content := .list items, isShown := false }

/-- Appends an item unless the list is at the limit; whether it was appended. -/
def pushItem (v : Variable) (item : Value) (limit : Nat) : Bool × Variable :=
  if limit ≤ v.items.length then (false, v) else (true, v.setItems (v.items ++ [item]))

/-- The items with one put in at a position; one more than the limit loses the last item. -/
def inserted (items : List Value) (n : Nat) (item : Value) (limit : Nat) : List Value :=
  let longer := items.take (n - 1) ++ item :: items.drop (n - 1)
  if limit < longer.length then longer.dropLast else longer

/-- Inserts an item at a position up to one past the end; whether there was such a position. -/
def insertItem (v : Variable) (n : Nat) (item : Value) (limit : Nat) : Bool × Variable :=
  if n == 0 || v.items.length + 1 < n then (false, v)
  else (true, v.setItems (inserted v.items n item limit))

/-- Removes the item at a position and gives it back. -/
def deleteItem (v : Variable) (n : Nat) : Option Value × Variable :=
  if n == 0 then (none, v)
  else
    match v.items[n - 1]? with
    | some item => (some item, v.setItems (v.items.eraseIdx (n - 1)))
    | none => (none, v)

def deleteAllItems (v : Variable) : Variable :=
  v.setItems []

/-- Replaces the item at a position; whether there was one. -/
def replaceItem (v : Variable) (n : Nat) (item : Value) : Bool × Variable :=
  if n == 0 || v.items.length < n then (false, v)
  else (true, v.setItems (v.items.set (n - 1) item))

end Variable

/-- A change of a list as the list blocks make it: the position is an index value. -/
inductive ListEdit where
  | add (item : Value)
  | delete (index : Value)
  | clear
  | insert (index item : Value)
  | replace (index item : Value)

/-- Applies a change. Where the index denotes no position the variable stays as it is. -/
def Variable.edit (v : Variable) (limit : Nat) (d : Draw) : ListEdit → Variable
  | .add item => (v.pushItem item limit).2
  | .delete index =>
    match Position.resolve index v.items.length d true with
    | .item n => (v.deleteItem n).2
    | .all => v.deleteAllItems
    | .nowhere => v
  | .clear => v.deleteAllItems
  | .insert index item =>
    match Position.resolve index (v.items.length + 1) d false with
    | .item n => if n ≤ limit then (v.insertItem n item limit).2 else v
    | _ => v
  | .replace index item =>
    match Position.resolve index v.items.length d false with
    | .item n => (v.replaceItem n item).2
    | _ => v

end BlockMachine

import BlockMachine.Block.Basic
import BlockMachine.Json.Decode

/-!
# Blocks in documents

A slot is written as `[kind, block, shadow]` or as an object, a field as `[value, id]`, as an object
or as a bare literal.
-/

namespace BlockMachine

open Json

/-- The first of the remaining items as something optional; absent reads as none. -/
def takeOptional {α : Type} (decode : Json → Decoded α) :
    List Json → Decoded (Option α × List Json)
  | [] => .ok (none, [])
  | item :: items => (asOptional decode item).map (·, items)

/-- A slot as an array. Kind 1 is a shadow alone, 2 a block alone, 3 a block over a shadow. -/
def Slot.decodeItems : List Json → Decoded Slot
  | [] => .error .shape
  | kind :: items => do
    let kind ← asCount 255 kind
    let (block, items) ← takeOptional asText items
    let (shadow, items) ←
      match kind with
      | 1 => .ok (block, items)
      | 2 => .ok (none, items)
      | 3 => takeOptional asText items
      | kind => .error (.slotKind kind)
    items.forM checkSound
    return { block, shadow }

def Slot.decode : Json → Decoded Slot
  | .array items => Slot.decodeItems items
  | j =>
    foldFields (fun slot key value =>
      match key with
      | "block" => (asOptional asText value).map fun block => { slot with block }
      | "shadow" => (asOptional asText value).map fun shadow => { slot with shadow }
      | _ => (checkSound value).map fun _ => slot) {} j

def Field.decodeItems : List Json → Decoded Field
  | [] => .error .shape
  | value :: items => do
    let value ← asValue value
    let (id, items) ← takeOptional asText items
    items.forM checkSound
    return { value, id }

def Field.decode : Json → Decoded Field
  | .array items => Field.decodeItems items
  | .object fields => do
    let (value, id) ← foldFields (fun (value, id) key j =>
      match key with
      | "value" => (asValue j).map fun v => (some v, id)
      | "id" => (asOptional asText j).map fun id => (value, id)
      | _ => (checkSound j).map fun _ => (value, id))
      ((none, none) : Option Value × Option String) (.object fields)
    match value with
    | some value => .ok { value, id }
    | none => .error .shape
  | j => (asValue j).map fun value => { value }

/-- Whether a `warp` entry asks for warp mode: `true`, or the text `true`. -/
def asWarp (j : Json) : Decoded Bool := do
  checkSound j
  return match j with
    | .bool b => b
    | .text s => s == "true"
    | _ => false

def Mutation.decode : Json → Decoded Mutation :=
  foldRecord ["proccode", "argumentids", "argumentnames", "argumentdefaults", "warp"]
    (fun m key value =>
    match key with
    | "proccode" => (asOptional asText value).map fun proccode => { m with proccode }
    | "argumentids" => (asOptional asText value).map fun argumentIds => { m with argumentIds }
    | "argumentnames" => (asOptional asText value).map fun argumentNames => { m with argumentNames }
    | "argumentdefaults" =>
      (asOptional asText value).map fun argumentDefaults => { m with argumentDefaults }
    | "warp" => (asWarp value).map fun warp => { m with warp }
    | _ => (checkRead value).map fun _ => m) {}

/-- An object as a table. -/
def asTable {α : Type} (decode : Json → Decoded α) : Json → Decoded (Table α) :=
  foldFields (fun table key value => (decode value).map (table.insert key)) ∅

/-- A block; its id and opcode are required. -/
def Block.decode (j : Json) : Decoded Block := do
  let (id, opcode, block) ← foldRecord ["id", "opcode", "next", "parent", "inputs", "fields",
      "mutation", "shadow", "topLevel"] (fun (id, opcode, b) key value =>
    let keep (b : Block) : Option String × Option String × Block := (id, opcode, b)
    match key with
    | "id" => (asText value).map fun s => (some s, opcode, b)
    | "opcode" => (asText value).map fun s => (id, some s, b)
    | "next" => (asOptional asText value).map fun next => keep { b with next }
    | "parent" => (asOptional asText value).map fun parent => keep { b with parent }
    | "inputs" => (asTable Slot.decode value).map fun inputs => keep { b with inputs }
    | "fields" => (asTable Field.decode value).map fun fields => keep { b with fields }
    | "mutation" =>
      (asOptional Mutation.decode value).map fun mutation => keep { b with mutation }
    | "shadow" => (asBool value).map fun isShadow => keep { b with isShadow }
    | "topLevel" => (asBool value).map fun isTopLevel => keep { b with isTopLevel }
    | _ => (checkRead value).map fun _ => keep b)
    ((none, none, { id := "", opcode := "" }) : Option String × Option String × Block) j
  match id, opcode with
  | some id, some opcode => .ok { block with id, opcode }
  | _, _ => .error .shape

end BlockMachine

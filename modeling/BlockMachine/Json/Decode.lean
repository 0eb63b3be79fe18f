import BlockMachine.Json.Reader
import BlockMachine.Value.Basic

/-!
# Decoding documents

Small readers from which the decoders of blocks, projects and settings are made. Each goes through
its part of the tree in order and reports the first fault.
-/

namespace BlockMachine

/-- Why a document could not be decoded. -/
inductive DecodeError where
  /-- The text is not JSON, or not of the expected shape. -/
  | shape
  /-- An input slot is marked with an unknown kind. -/
  | slotKind (kind : Nat)
  deriving DecidableEq, Repr

/-- The message that goes with a fault, where there is one. -/
def DecodeError.message? : DecodeError → Option String
  | .shape => none
  | .slotKind kind =>
    some ("unknown input kind " ++ Nat.repr kind
      ++ "; inline primitives must be expanded into shadow blocks")

abbrev Decoded := Except DecodeError

namespace Json

def asBool : Json → Decoded Bool
  | .bool b => .ok b
  | _ => .error .shape

def asText : Json → Decoded String
  | .text s => .ok s
  | _ => .error .shape

def asFloat : Json → Decoded Float
  | .number n =>
    match n.toFloat? with
    | some x => .ok x
    | none => .error .shape
  | _ => .error .shape

/-- A count of at most `bound`, written as a plain integer. -/
def asCount (bound : Nat) : Json → Decoded Nat
  | .number n =>
    match n.toCount? bound with
    | some k => .ok k
    | none => .error .shape
  | _ => .error .shape

/-- The greatest count of a field that counts things. -/
def maxCount : Nat := 2 ^ 64 - 1

/-- `null` or what the decoder takes. -/
def asOptional {α : Type} (decode : Json → Decoded α) : Json → Decoded (Option α)
  | .null => .ok none
  | j => (decode j).map some

/-- All items of an array, in order. -/
def asList {α : Type} (decode : Json → Decoded α) : Json → Decoded (List α)
  | .array items => items.mapM decode
  | _ => .error .shape

/-- Fails unless the whole subtree is sound. -/
def checkSound (j : Json) : Decoded Unit :=
  if j.isSound then .ok () else .error .shape

/-- Fails where reading stopped; used for what is otherwise ignored. -/
def checkRead : Json → Decoded Unit
  | .unread => .error .shape
  | _ => .ok ()

/-- Goes through the fields of an object in order with a state. -/
def foldFields {σ : Type} (step : σ → String → Json → Decoded σ) (init : σ) : Json → Decoded σ
  | .object fields => fields.foldlM (fun s (key, value) => step s key value) init
  | _ => .error .shape

/-- Goes through the fields of a record, which are named in order: an object that repeats none of
them, or an array of as many as are given. -/
def foldRecord {σ : Type} (names : List String) (step : σ → String → Json → Decoded σ) (init : σ) :
    Json → Decoded σ
  | .array items => do
    let s ← (names.zip items).foldlM (fun s (key, value) => step s key value) init
    if items.length ≤ names.length then .ok s else .error .shape
  | j => do
    let (s, _) ← foldFields (fun (s, given) key value =>
      if given.contains key then .error .shape
      else (step s key value).map (·, if names.contains key then key :: given else given))
      ((init, []) : σ × List String) j
    return s

/-- A truth value, a number or a text. -/
def asValue : Json → Decoded Value
  | .bool b => .ok (.bool b)
  | .text s => .ok (.text s)
  | .number n => (asFloat (.number n)).map .number
  | _ => .error .shape

/-- Decodes a whole text. A fault inside comes before one after the document. -/
def decodeText {α : Type} (decode : Json → Decoded α) (s : String) : Decoded α := do
  let (j, complete) := Json.read s
  let a ← decode j
  if complete then .ok a else .error .shape

end Json
end BlockMachine

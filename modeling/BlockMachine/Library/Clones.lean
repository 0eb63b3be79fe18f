import BlockMachine.Kit.Basic

/-!
# Clones and the counter

Making and removing clones of sprites, and the counter that all scripts share.
-/

namespace BlockMachine.Library.Clones

open BlockMachine.Action

variable {σ : Type}

/-- Clones the sprite of that name, or the target itself. -/
def create : Primitive σ := fun args => do
  let option := args.text "CLONE_OPTION"
  let source ← if option == "_myself_" then some <$> targetId else targetNamed option
  match source with
  | some source => createClone source
  | none => pure ()
  return .nothing

/-- Removes the target if it is a clone. -/
def delete : Primitive σ := fun _ => do
  if ← isClone then
    removeTarget
    stopThread
  return .nothing

def counter : Primitive σ := fun _ => do
  return .value (.number (← getCounter))

def increment : Primitive σ := fun _ => do
  setCounter ((← getCounter) + 1.0)
  return .nothing

def clear : Primitive σ := fun _ => do
  setCounter 0.0
  return .nothing

def primitive? : String → Option (Primitive σ)
  | "control_create_clone_of" => some create
  | "control_delete_this_clone" => some delete
  | "control_get_counter" => some counter
  | "control_incr_counter" => some increment
  | "control_clear_counter" => some clear
  | _ => none

def catalog : Catalog σ where
  primitive? := primitive?
  hats := Table.of [("control_start_as_clone", {})]

end BlockMachine.Library.Clones

import BlockMachine.Kit.Basic

/-!
# Custom procedures

Calls of the procedures that a sheet defines, and the parameters of a running one.
-/

namespace BlockMachine.Library.Custom

open BlockMachine.Action

variable {σ : Type}

/-- The arguments of a call by parameter name: the input with the parameter's id, else the default.
An id without a name is left out. -/
def bindings (signature : Signature) (value? : String → Option Value) : List (String × Value) :=
  (signature.ids.zip signature.names).zipIdx.map fun ((id, name), i) =>
    (name, (value? id).getD (signature.defaults[i]?.getD Value.empty))

/-- Binds the arguments and enters the definition, on the first visit only. -/
def call : Primitive σ := fun args => do
  let scratch ← getScratch
  if scratch.executed then return .nothing
  match args.mutation >>= Mutation.proccode with
  | none => return .nothing
  | some proccode =>
    match ← signature proccode with
    | .ok (some signature) =>
      bindParams (bindings signature args.get?)
      setScratch { scratch with executed := true }
      startProcedure proccode
      return .nothing
    | _ => return .nothing

/-- A parameter, with what it reads as where it is not bound. -/
def argument (default : Value) : Primitive σ := fun args => do
  return .value ((← param (args.text "VALUE")).getD default)

def primitive? : String → Option (Primitive σ)
  | "procedures_definition" => some (fun _ => return .nothing)
  | "procedures_call" => some call
  | "argument_reporter_string_number" => some (argument (.number 0.0))
  | "argument_reporter_boolean" => some (argument (.bool false))
  | _ => none

def lowering? : String → Option Lowering
  | "procedures_call" => some (.statement .call)
  | "argument_reporter_string_number" => some (.reporter (.argument (.number 0.0)))
  | "argument_reporter_boolean" => some (.reporter (.argument (.bool false)))
  | _ => none

def catalog : Catalog σ where
  primitive? := primitive?
  lowering? := lowering?

end BlockMachine.Library.Custom

/-!
# Errors

Why a script could not be compiled, and why a block stopped its thread. The wording of each error
is in its `message`.
-/

namespace BlockMachine

/-- Why a stack of blocks could not be compiled. -/
inductive CompileError where
  | missingBlock (id : String)
  /-- The argument lists of a custom block's prototype cannot be read. -/
  | malformedMutation (block : String)
  | unknownOpcode (opcode : String)
  /-- The blocks refer to each other in a circle. -/
  | endless
  deriving DecidableEq, Repr

def CompileError.message : CompileError → String
  | .missingBlock id => "block " ++ id ++ " does not exist"
  | .malformedMutation block => "block " ++ block ++ " has a malformed mutation"
  | .unknownOpcode opcode => "opcode " ++ opcode ++ " has neither a generator nor a primitive"
  | .endless => "the blocks refer to each other in a circle"

/-- Why a running block failed. Its thread stops, the others go on. -/
inductive BlockError where
  | primitive (opcode message : String)
  | unknownDevice (device : String)
  | unknownFunction (device function : String)
  | missingTarget (target : Nat)
  deriving DecidableEq, Repr

def BlockError.message : BlockError → String
  | .primitive opcode message => opcode ++ ": " ++ message
  | .unknownDevice device => "no I/O device named " ++ device
  | .unknownFunction device function =>
    "I/O device " ++ device ++ " has no function " ++ function
  | .missingTarget target => "target " ++ Nat.repr target ++ " no longer exists"

end BlockMachine

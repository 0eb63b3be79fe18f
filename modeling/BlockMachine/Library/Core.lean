import BlockMachine.Library.Clones
import BlockMachine.Library.Custom
import BlockMachine.Library.Flow
import BlockMachine.Library.Memory
import BlockMachine.Library.Messages
import BlockMachine.Library.Operators

/-!
# The core library

The blocks that every machine has.
-/

namespace BlockMachine.Library

open BlockMachine.Action

variable {σ : Type}

/-- Asks the clock device. -/
def askClock (function : String) : Primitive σ := fun _ =>
  query "clock" function []

def timerPrimitive? : String → Option (Primitive σ)
  | "sensing_timer" => some (askClock "projectTimer")
  | "sensing_resettimer" => some (askClock "resetProjectTimer")
  | _ => none

def timerLowering? : String → Option Lowering
  | "sensing_timer" => some (.reporter .timer)
  | _ => none

/-- The project timer. -/
def timer : Catalog σ where
  primitive? := timerPrimitive?
  lowering? := timerLowering?

/-- All core blocks. -/
def core : Catalog σ :=
  [Clones.catalog, Memory.catalog, Messages.catalog, Operators.catalog, Custom.catalog, timer].foldl
    Catalog.union Flow.catalog

end BlockMachine.Library

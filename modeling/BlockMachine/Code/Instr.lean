import BlockMachine.Block.Basic
import BlockMachine.Code.Expr

/-!
# Instructions

A script is a list of instructions that jump by index, so a thread can stop after any of them and go
on from the index it saved. Blocks that have no instruction of their own are called through their
primitive, with their branches compiled into scripts.
-/

namespace BlockMachine

inductive StopOption where
  | all
  | thisScript
  | otherScripts
  deriving DecidableEq, Repr

/-- Which body of a procedure a call runs. Callers in warp mode take the warp body, whatever the
procedure says. -/
structure ProcedureKey where
  proccode : String
  warp : Bool
  deriving DecidableEq, Repr

/-- A call of a block's primitive, over scripts of type `σ`. -/
structure PrimitiveCall (σ : Type) where
  opcode : String
  block : BlockId
  args : List (String × Expr) := []
  fields : Table Field := ∅
  mutation : Option Mutation := none
  /-- The compiled branches, from the first on. -/
  branches : List (Option σ) := []
  /-- The slot that receives the reported value. -/
  dest : Option Nat := none

inductive Instr (σ : Type) where
  | setVariable (var : VarRef) (value : Expr)
  | changeVariable (var : VarRef) (amount : Expr)
  | addToList (list : VarRef) (item : Expr)
  | deleteOfList (list : VarRef) (index : Expr)
  | clearList (list : VarRef)
  | insertAtList (list : VarRef) (index item : Expr)
  | replaceInList (list : VarRef) (index item : Expr)
  | store (slot : Nat) (value : Expr)
  | jump (target : Nat)
  | jumpUnless (condition : Expr) (target : Nat)
  | jumpIf (condition : Expr) (target : Nat)
  /-- Sets the counter in a slot to the rounded number of repetitions. -/
  | repeatInit (slot : Nat) (times : Expr)
  /-- Leaves for `exit` once the counter is used up, else counts one down. -/
  | repeatTest (slot exit : Nat)
  /-- Ends the turn. -/
  | yield
  /-- Ends the turn once the time for warp mode is used up. -/
  | yieldIfNeeded
  /-- Sleeps until the next frame. -/
  | yieldTick
  | wait (duration : Expr)
  | call (key : ProcedureKey) (args : List (String × Expr))
  | primitive (call : PrimitiveCall σ)
  | stop (option : StopOption)
  | nop (comment : String)

/-- The compiled form of a stack of blocks. -/
structure Script where
  name : String
  code : Array (Instr Script)
  /-- How many local slots the code uses. -/
  locals : Nat
  warp : Bool

namespace Script

instance : Inhabited Script := ⟨{ name := "", code := #[], locals := 0, warp := false }⟩

end Script

/-- A compiled script with the bodies of the procedures that it reaches. -/
structure Program where
  script : Script
  procedures : List (ProcedureKey × Script)

instance : Inhabited Program := ⟨⟨default, []⟩⟩

end BlockMachine

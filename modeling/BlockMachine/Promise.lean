import BlockMachine.Value.Basic

/-!
# Promises

A value that arrives later. A promise is settled once, with a value or with a reason why there is
none; what is asked of it after that changes nothing. A machine keeps its promises in a list and
threads hold their numbers.
-/

namespace BlockMachine

inductive Promise where
  | pending
  | resolved (value : Value)
  | rejected (reason : String)

namespace Promise

def isSettled : Promise → Bool
  | .pending => false
  | _ => true

/-- Settles a pending promise. -/
def settle (outcome : Promise) : Promise → Promise
  | .pending => outcome
  | settled => settled

end Promise

/-- The number of a promise among those of its machine. -/
abbrev PromiseId := Nat

/-- The promises of a machine, by number. -/
abbrev Promises := List Promise

namespace Promises

/-- A new promise and its number. -/
def add (ps : Promises) (p : Promise) : PromiseId × Promises :=
  (ps.length, ps ++ [p])

/-- Settles a promise if it is pending. -/
def settle (ps : Promises) (id : PromiseId) (outcome : Promise) : Promises :=
  ps.modify id (Promise.settle outcome)

end Promises

/-- What a block reports. -/
inductive Reported where
  | nothing
  | value (v : Value)
  /-- The value arrives later. -/
  | promise (id : PromiseId)

def Reported.value? : Reported → Option Value
  | .value v => some v
  | _ => none

end BlockMachine

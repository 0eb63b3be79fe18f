import BlockMachine.Proofs.Code.Layout
import BlockMachine.Proofs.Machine.Memory

/-!
# The values of expressions

An expression has its value from the machine, the slots and the parameters alone (`Turn.eval_eq`).
-/

namespace BlockMachine

variable {σ α : Type}

/-- What expressions read of a machine, in a script of the target with those slots and
parameters. -/
def Machine.env (locals : Nat → Value) (target : TargetId) (param : String → Option Value) :
    Env (Service σ) where
  slot n := pure (locals n)
  argument name := pure (param name)
  var ref := readVariable target ref
  list ref := readList target ref
  timer := do
    let r ← queryClock "projectTimer"
    return (r.value?.map Value.toNumber).getD 0.0
  draw := modifyGet Machine.draw

/-- The value of an expression on a machine. -/
def Machine.value (locals : Nat → Value) (target : TargetId) (param : String → Option Value)
    (e : Expr) :
    Service σ Value :=
  e.eval (Machine.env locals target param)

namespace Turn

open Exec

theorem service_ok {x : Service σ α} {s : Turn σ} {a : α} {m : Machine σ}
    (h : x s.machine = (.ok a, m)) :
    (service x : Exec (Turn σ) α) s = some (.ok a, { s with machine := m }) := by
  show some ((x s.machine).1, { s with machine := (x s.machine).2 }) = _
  rw [h]

/-- On a turn of the thread the computation is a service of the machine. -/
def Serves (t : Thread) {α : Type} (x : Exec (Turn σ) α) (y : Service σ α) : Prop :=
  ∀ s : Turn σ, s.thread = t → x s = service y s

theorem Serves.andThen {t : Thread} {β : Type} {x : Exec (Turn σ) α} {y : Service σ α}
    {f : α → Exec (Turn σ) β} {g : α → Service σ β} (hx : Serves t x y)
    (hf : ∀ a, Serves t (f a) (g a)) :
    Serves t (x >>= f) (y >>= g) := by
  intro s hs
  show (ExceptT.bind x f) s = _
  simp only [ExceptT.bind, ExceptT.mk, bind, StateT.bind, hx s hs]
  show (ExceptT.bindCont f (y s.machine).1 { s with machine := (y s.machine).2 }) =
    some ((ExceptT.bindCont g (y s.machine).1 (y s.machine).2).1,
      { s with machine := (ExceptT.bindCont g (y s.machine).1 (y s.machine).2).2 })
  cases (y s.machine).1 with
  | error e => rfl
  | ok a => exact hf a _ hs

/-- What is in the slots of the innermost frame. -/
def slots (t : Thread) (n : Nat) : Value :=
  (t.cursor? >>= (·.locals[n]?)).getD default

theorem eval_eq (e : Expr) (s : Turn σ) :
    eval e s = service (Machine.value (slots s.thread) s.thread.target s.thread.param? e) s := by
  refine Expr.eval_related (R := Serves s.thread) (fun _ _ _ => rfl) Serves.andThen
    (fun _ s hs => ?_) (fun _ s hs => ?_) (fun _ s hs => ?_) (fun _ _ => rfl) (fun _ s hs => ?_)
    (fun _ _ => rfl) e s rfl
  all_goals rw [← hs]; rfl

end Turn

theorem Operand.const?_some {e : Expr} {v : Value} (h : e.const? = some v) : e = .const v := by
  cases e <;> cases h
  rfl

end BlockMachine

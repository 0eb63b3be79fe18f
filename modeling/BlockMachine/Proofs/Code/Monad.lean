import BlockMachine.Code.Compile

/-!
# What a successful compilation step did

`Compile` is a state over results that may be errors. Each lemma takes one construct of the monad
apart: from the fact that the whole succeeded it gives what the parts did, so that the lowering of a
block can be read from the result backwards.
-/

namespace BlockMachine.Compile

variable {α β : Type} {d d' : Draft}

theorem bind_ok {x : Compile α} {f : α → Compile β} {b : β} :
    (x >>= f) d = .ok (b, d') ↔ ∃ a d₁, x d = .ok (a, d₁) ∧ f a d₁ = .ok (b, d') := by
  show (StateT.bind x f) d = _ ↔ _
  simp only [StateT.bind, bind, Except.bind]
  cases x d with
  | error e => simp
  | ok p => exact ⟨fun h => ⟨p.1, p.2, rfl, h⟩, fun ⟨a, d₁, h, hf⟩ => by cases h; exact hf⟩

theorem pure_ok {a b : α} : (pure a : Compile α) d = .ok (b, d') ↔ a = b ∧ d = d' := by
  show (Except.ok (a, d) : Except Failure _) = .ok (b, d') ↔ _
  simp

theorem fail_ok {e : CompileError} {b : α} : (fail e : Compile α) d = .ok (b, d') ↔ False := by
  simp [fail]

theorem get_ok {a : Draft} : (get : Compile Draft) d = .ok (a, d') ↔ d = a ∧ d = d' := by
  show (Except.ok (d, d) : Except Failure _) = .ok (a, d') ↔ _
  simp

theorem modify_ok {f : Draft → Draft} {a : Unit} :
    (modify f : Compile Unit) d = .ok (a, d') ↔ f d = d' := by
  show (Except.ok ((), f d) : Except Failure _) = .ok (a, d') ↔ _
  simp

theorem newSlot_ok {n : Nat} :
    Draft.newSlot d = .ok (n, d') ↔ d.locals = n ∧ { d with locals := d.locals + 1 } = d' := by
  show (Except.ok (d.locals, _) : Except Failure _) = .ok (n, d') ↔ _
  simp

theorem block_ok {σ : Type} {ctx : Context σ} {id : BlockId} {b : Block} :
    ctx.block id d = .ok (b, d') ↔ ctx.sheet.block? id = some b ∧ d = d' := by
  unfold Context.block
  cases ctx.sheet.block? id with
  | none => simp [fail_ok]
  | some c => simp [pure_ok]

end BlockMachine.Compile

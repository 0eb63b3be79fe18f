import BlockMachine.Turn.Basic

/-!
# What computations keep

Turns are computations on a state that may run out of fuel and may fail. `Exec.bind_some` takes a
computation that ended apart. A relation between states that holds from any state to itself and
along two steps is *kept* by a computation if it holds from the state before to the state after,
whether the computation failed or not (`Exec.Keeps`); it is enough to look at the parts.
-/

namespace BlockMachine

open Option

/-- A relation that holds from any state to itself and along two steps. -/
class Lasting {S : Type} (R : S → S → Prop) : Prop where
  refl : ∀ s, R s s
  trans : ∀ {s s' s''}, R s s' → R s' s'' → R s s''

section

variable {S α β : Type} {s s' t : S} {u : PUnit} {b : β} {a : α} {f : S → S} {e : BlockError}

/-! ## Computations without failure -/

namespace Run

variable {x : Run S α}

theorem bind_some {f : α → Run S β} :
    (x >>= f) s = some (b, s') ↔ ∃ a s₁, x s = some (a, s₁) ∧ f a s₁ = some (b, s') := by
  show (x s >>= fun p => f p.1 p.2) = _ ↔ _
  cases x s with
  | none => simp
  | some p => exact ⟨fun h => ⟨p.1, p.2, rfl, h⟩, fun ⟨a, s₁, h, hf⟩ => by cases h; exact hf⟩

theorem pure_some {b : α} : (pure a : Run S α) s = some (b, s') ↔ a = b ∧ s = s' := by
  show some (a, s) = some (b, s') ↔ _
  simp

theorem get_some : (get : Run S S) s = some (t, s') ↔ s = t ∧ s = s' := by
  show some (s, s) = some (t, s') ↔ _
  simp

theorem set_some : (set t : Run S PUnit) s = some (u, s') ↔ t = s' := by
  show some (PUnit.unit, t) = some (u, s') ↔ _
  simp

theorem modify_some : (modify f : Run S PUnit) s = some (u, s') ↔ f s = s' := by
  show some (PUnit.unit, f s) = some (u, s') ↔ _
  simp

theorem modifyGet_some {f : S → α × S} :
    (modifyGet f : Run S α) s = some (a, s') ↔ f s = (a, s') := by
  show some (f s) = some (a, s') ↔ _
  simp

theorem discard_some : (discard x : Run S PUnit) s = some (u, s') ↔ ∃ a, x s = some (a, s') := by
  show (x s >>= fun p => some (PUnit.unit, p.2)) = _ ↔ _
  cases x s with
  | none => simp
  | some p => exact ⟨fun h => ⟨p.1, by cases h; rfl⟩, fun ⟨a, h⟩ => by cases h; rfl⟩

theorem get_andThen {k : S → Run S β} : (get >>= k) s = k s s := rfl

/-- The relation holds from the state before to the state after. -/
def Keeps (R : S → S → Prop) (x : Run S α) : Prop :=
  ∀ s a s', x s = some (a, s') → R s s'

variable {R : S → S → Prop}

theorem keeps_modify (hf : ∀ s, R s (f s)) : Keeps R (modify f : Run S PUnit) := by
  intro s a s' h
  exact modify_some.mp h ▸ hf s

theorem keeps_modifyGet {f : S → α × S} (hf : ∀ s, R s (f s).2) :
    Keeps R (modifyGet f : Run S α) := by
  intro s a s' h
  have := hf s
  rwa [modifyGet_some.mp h] at this

theorem Keeps.discarded (hx : Keeps R x) : Keeps R (discard x : Run S PUnit) := by
  intro s b s' h
  obtain ⟨a, hxa⟩ := discard_some.mp h
  exact hx s a s' hxa

variable [Lasting R]

theorem keeps_pure (a : α) : Keeps R (pure a : Run S α) := by
  intro s b s' h
  obtain ⟨-, rfl⟩ := pure_some.mp h
  exact Lasting.refl s

theorem keeps_get : Keeps R (get : Run S S) := by
  intro s a s' h
  obtain ⟨-, rfl⟩ := get_some.mp h
  exact Lasting.refl s

theorem Keeps.andThen {f : α → Run S β} (hx : Keeps R x) (hf : ∀ a, Keeps R (f a)) :
    Keeps R (x >>= f) := by
  intro s b s' h
  obtain ⟨a, s₁, hxa, hfb⟩ := bind_some.mp h
  exact Lasting.trans (hx s a s₁ hxa) (hf a s₁ b s' hfb)

omit [Lasting R]

/-- The computation cannot run out of fuel. -/
def Total (x : Run S α) : Prop := ∀ s, (x s).isSome

theorem total_pure (a : α) : Total (pure a : Run S α) := fun _ => rfl

theorem Total.andThen {f : α → Run S β} (hx : Total x) (hf : ∀ a, Total (f a)) :
    Total (x >>= f) := by
  intro s
  obtain ⟨⟨a, s₁⟩, hxs⟩ := isSome_iff_exists.mp (hx s)
  obtain ⟨⟨b, s'⟩, hfs⟩ := isSome_iff_exists.mp (hf a s₁)
  rw [bind_some.mpr ⟨a, s₁, hxs, hfs⟩]
  rfl

theorem Total.discarded (hx : Total x) : Total (discard x : Run S PUnit) := by
  intro s
  obtain ⟨⟨a, s'⟩, hxs⟩ := isSome_iff_exists.mp (hx s)
  have hdone : (discard x : Run S PUnit) s = some ((), s') := discard_some.mpr ⟨a, hxs⟩
  rw [hdone]
  rfl

end Run

/-! ## Computations that may fail -/

namespace Exec

variable {r : Except BlockError β} {x : Exec S α}

/-- Either the first part failed, or the second part went on from where it ended. -/
theorem bind_some {f : α → Exec S β} :
    (x >>= f) s = some (r, s') ↔
      (∃ e, x s = some (.error e, s') ∧ r = .error e) ∨
        ∃ a s₁, x s = some (.ok a, s₁) ∧ f a s₁ = some (r, s') := by
  show (x s >>= fun p => ExceptT.bindCont f p.1 p.2) = _ ↔ _
  cases x s with
  | none => simp
  | some p =>
    obtain ⟨a, s₁⟩ := p
    cases a with
    | error e =>
      show some (Except.error e, s₁) = some (r, s') ↔ _
      simp only [Option.some.injEq, Prod.mk.injEq, Except.error.injEq, reduceCtorEq, false_and,
        exists_false, or_false]
      exact ⟨fun ⟨hr, hs⟩ => ⟨e, ⟨rfl, hs⟩, hr.symm⟩, fun ⟨_, ⟨he, hs⟩, hr⟩ => ⟨he ▸ hr.symm, hs⟩⟩
    | ok a =>
      show f a s₁ = some (r, s') ↔ _
      simp only [Option.some.injEq, Prod.mk.injEq, Except.ok.injEq, reduceCtorEq, false_and,
        exists_false, false_or]
      exact ⟨fun h => ⟨a, s₁, ⟨rfl, rfl⟩, h⟩, fun ⟨_, _, ⟨ha, hs⟩, h⟩ => ha ▸ hs ▸ h⟩

/-- Where nothing failed, both parts came to an end. -/
theorem bind_ok {f : α → Exec S β} :
    (x >>= f) s = some (.ok b, s') ↔
      ∃ a s₁, x s = some (.ok a, s₁) ∧ f a s₁ = some (.ok b, s') := by
  constructor
  · intro h
    rcases bind_some.mp h with ⟨e, -, he⟩ | hok
    · cases he
    · exact hok
  · exact fun h => bind_some.mpr (.inr h)

theorem pure_some : (pure b : Exec S β) s = some (r, s') ↔ .ok b = r ∧ s = s' := by
  show some (Except.ok b, s) = some (r, s') ↔ _
  simp

theorem throw_some : (throw e : Exec S β) s = some (r, s') ↔ .error e = r ∧ s = s' := by
  show some (Except.error e, s) = some (r, s') ↔ _
  simp

theorem get_some {r : Except BlockError S} :
    (get : Exec S S) s = some (r, s') ↔ .ok s = r ∧ s = s' := by
  show some (Except.ok s, s) = some (r, s') ↔ _
  simp

theorem modify_some {r : Except BlockError PUnit} :
    (modify f : Exec S PUnit) s = some (r, s') ↔ .ok () = r ∧ f s = s' := by
  show some (Except.ok PUnit.unit, f s) = some (r, s') ↔ _
  simp

theorem map_some {f : α → β} :
    (f <$> x) s = some (r, s') ↔ ∃ a, x s = some (a, s') ∧ a.map f = r := by
  show (x s >>= fun p => _) = _ ↔ _
  cases x s with
  | none => simp
  | some p =>
    obtain ⟨a, s₁⟩ := p
    cases a with
    | error e => exact ⟨fun h => ⟨.error e, by cases h; exact ⟨rfl, rfl⟩⟩,
        fun ⟨a, h, hr⟩ => by cases h; cases hr; rfl⟩
    | ok a => exact ⟨fun h => ⟨.ok a, by cases h; exact ⟨rfl, rfl⟩⟩,
        fun ⟨a, h, hr⟩ => by cases h; cases hr; rfl⟩

theorem discard_some {r : Except BlockError PUnit} :
    (discard x : Exec S PUnit) s = some (r, s') ↔
      ∃ a, x s = some (a, s') ∧ a.map (fun _ => ()) = r :=
  map_some

/-- The relation holds from the state before to the state after. -/
def Keeps (R : S → S → Prop) (x : Exec S α) : Prop :=
  ∀ s r s', x s = some (r, s') → R s s'

variable {R : S → S → Prop}

theorem keeps_modify (hf : ∀ s, R s (f s)) : Keeps R (modify f : Exec S PUnit) := by
  intro s r s' h
  exact (modify_some.mp h).2 ▸ hf s

theorem Keeps.mapped {f : α → β} (hx : Keeps R x) : Keeps R (f <$> x) := by
  intro s r s' h
  obtain ⟨a, hxa, -⟩ := map_some.mp h
  exact hx s a s' hxa

theorem Keeps.discarded (hx : Keeps R x) : Keeps R (discard x : Exec S PUnit) :=
  hx.mapped

variable [Lasting R]

theorem keeps_pure (b : β) : Keeps R (pure b : Exec S β) := by
  intro s r s' h
  obtain ⟨-, rfl⟩ := pure_some.mp h
  exact Lasting.refl s

theorem keeps_throw (e : BlockError) : Keeps R (throw e : Exec S β) := by
  intro s r s' h
  obtain ⟨-, rfl⟩ := throw_some.mp h
  exact Lasting.refl s

theorem keeps_get : Keeps R (get : Exec S S) := by
  intro s r s' h
  obtain ⟨-, rfl⟩ := get_some.mp h
  exact Lasting.refl s

theorem Keeps.andThen {f : α → Exec S β} (hx : Keeps R x) (hf : ∀ a, Keeps R (f a)) :
    Keeps R (x >>= f) := by
  intro s r s' h
  rcases bind_some.mp h with ⟨e, hxe, -⟩ | ⟨a, s₁, hxa, hfr⟩
  · exact hx s _ s' hxe
  · exact Lasting.trans (hx s _ s₁ hxa) (hf a s₁ r s' hfr)

/-- The computation cannot run out of fuel. -/
def Total (x : Exec S α) : Prop := ∀ s, (x s).isSome

omit [Lasting R]

theorem total_pure (b : β) : Total (pure b : Exec S β) := fun _ => rfl

theorem Total.andThen {f : α → Exec S β} (hx : Total x) (hf : ∀ a, Total (f a)) :
    Total (x >>= f) := by
  intro s
  obtain ⟨⟨r, s₁⟩, hxs⟩ := isSome_iff_exists.mp (hx s)
  cases r with
  | error e =>
    rw [bind_some.mpr (.inl ⟨e, hxs, rfl⟩)]
    rfl
  | ok a =>
    obtain ⟨⟨r', s'⟩, hfs⟩ := isSome_iff_exists.mp (hf a s₁)
    rw [bind_some.mpr (.inr ⟨a, s₁, hxs, hfs⟩)]
    rfl

theorem total_ite {p : Prop} [Decidable p] {y : Exec S α} (hx : Total x) (hy : Total y) :
    Total (if p then x else y) := by
  split
  · exact hx
  · exact hy

theorem Total.mapped {f : α → β} (hx : Total x) : Total (f <$> x) := by
  intro s
  obtain ⟨⟨r, s'⟩, hxs⟩ := isSome_iff_exists.mp (hx s)
  rw [map_some.mpr ⟨r, hxs, rfl⟩]
  rfl

/-! Steps that cannot fail are carried out by rewriting. -/

variable {k : α → Exec S β}

theorem get_andThen {k : S → Exec S β} : (get >>= k) s = k s s := rfl

theorem set_andThen {k : PUnit → Exec S β} : (set t >>= k) s = k () t := rfl

theorem modify_andThen {k : PUnit → Exec S β} : (modify f >>= k) s = k () (f s) := rfl

/-- A part that came to an end is taken out. -/
theorem andThen_ok (h : x s = some (.ok a, s')) : (x >>= k) s = k a s' := by
  show (x s >>= fun p => ExceptT.bindCont k p.1 p.2) = _
  rw [h]
  rfl

theorem andThen_error (h : x s = some (.error e, s')) : (x >>= k) s = some (.error e, s') :=
  bind_some.mpr (.inl ⟨e, h, rfl⟩)

theorem andThen_none (h : x s = none) : (x >>= k) s = none := by
  show (x s >>= fun p => ExceptT.bindCont k p.1 p.2) = _
  rw [h]
  rfl

theorem pure_run (b : β) : (pure b : Exec S β) s = some (.ok b, s) := rfl

section Turns

variable {σ : Type} {s : Turn σ} {β : Type}

theorem getThread_andThen {k : Thread → Exec (Turn σ) β} :
    (getThread >>= k) s = k s.thread s := rfl

theorem onThread_andThen {f : Thread → Thread} {k : Unit → Exec (Turn σ) β} :
    (onThread f >>= k) s = k () { s with thread := f s.thread } := rfl

theorem onMachine_andThen {f : Machine σ → Machine σ} {k : Unit → Exec (Turn σ) β} :
    (onMachine f >>= k) s = k () { s with machine := f s.machine } := rfl

end Turns
end Exec
end

/-! ## Starting scripts -/

namespace Machine

variable {σ : Type} {catalog : Catalog σ} {opcode : String}
  {P : {α : Type} → (Exec (Turn σ) Unit → Run (Machine σ) α) → Prop}
  (hpure : ∀ {α : Type} (a : α), P fun _ => pure a) (hget : P fun _ => get)
  (hbind : ∀ {α β : Type} {x : Exec (Turn σ) Unit → Run (Machine σ) α}
    {f : Exec (Turn σ) Unit → α → Run (Machine σ) β}, P x → (∀ a, P (f · a)) →
    P fun p => x p >>= f p)
  (hscript : ∀ hat target top, P fun p => startScript catalog p opcode hat target top)
  (fields : List (String × String))

include hpure hget hbind hscript

/-- What holds of starting one script and goes on through `pure` and `bind` holds of starting those
of some targets. -/
theorem startOn_induction (hat : Hat) (targets : List TargetId) :
    P fun p => startOn catalog p opcode hat fields targets := by
  have hscripts : ∀ scripts, P fun p => startScripts catalog p opcode hat scripts := by
    intro scripts
    induction scripts with
    | nil => exact hpure _
    | cons script scripts ih =>
      exact hbind (hscript hat script.1 script.2) fun _ => hbind ih fun _ => hpure _
  induction targets with
  | nil => exact hpure _
  | cons target targets ih =>
    exact hbind hget fun m => hbind (hscripts _) fun _ => hbind ih fun _ => hpure _

theorem startHats_induction (only : Option TargetId) :
    P fun p => startHats catalog p opcode fields only := by
  unfold startHats
  cases catalog.hats[opcode]? with
  | none => exact hpure _
  | some hat => exact hbind hget fun m => startOn_induction hpure hget hbind hscript fields hat _

end Machine
end BlockMachine

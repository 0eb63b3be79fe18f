import BlockMachine.Proofs.Exec
import BlockMachine.Turn.Code

/-!
# Primitives called from compiled code

What a primitive can do to the thread of a turn when compiled code calls it is little: whatever it
asks for, the frames of the thread stay as they are but for the parameters of the innermost one, or
the thread is ended (`Call.run_called`).
-/

namespace BlockMachine

/-- What a primitive that compiled code calls can do to its thread. -/
structure Thread.Called (t t' : Thread) : Prop where
  program : t'.program = t.program
  outcome :
    (t'.stack = [] ∧ t'.status ≠ .running ∧ t'.pending = none) ∨
      (∃ g : Frame → Frame, (∀ f, (g f).code = f.code ∧ (g f).warp = f.warp) ∧
        t'.stack = t.stack.modifyHead g) ∧
      t'.pending = t.pending ∧ t'.warpStart = t.warpStart ∧
      (t'.status = t.status ∨ t'.status = .yield ∨ t'.status = .yieldTick)

namespace Thread.Called

variable {t t' t'' : Thread}

theorem refl (t : Thread) : t.Called t :=
  ⟨rfl, .inr ⟨⟨fun f => f, fun _ => ⟨rfl, rfl⟩, (by cases t.stack <;> rfl)⟩, rfl, rfl, .inl rfl⟩⟩

theorem trans (h : t.Called t') (h' : t'.Called t'') : t.Called t'' := by
  refine ⟨h'.program.trans h.program, ?_⟩
  rcases h'.outcome with hend | ⟨⟨g', hg', hs'⟩, hp', hw', hst'⟩
  · exact .inl hend
  · rcases h.outcome with ⟨hs, hst, hp⟩ | ⟨⟨g, hg, hs⟩, hp, hw, hst⟩
    · refine .inl ⟨by rw [hs', hs]; rfl, ?_, hp'.trans hp⟩
      rcases hst' with hst' | hst' | hst' <;> rw [hst']
      · exact hst
      · decide
      · decide
    · refine .inr ⟨⟨g' ∘ g, fun f => ⟨(hg' _).1.trans (hg f).1, (hg' _).2.trans (hg f).2⟩, ?_⟩,
        hp'.trans hp, hw'.trans hw, ?_⟩
      · rw [hs', hs, List.modifyHead_modifyHead]
      · rcases hst' with hst' | hst'
        · rw [hst']
          exact hst
        · exact .inr hst'

theorem retire (t : Thread) : t.Called t.retire :=
  ⟨rfl, .inl ⟨rfl, by simp [Thread.retire], rfl⟩⟩

theorem onFrame (t : Thread) {g : Frame → Frame}
    (hg : ∀ f, (g f).code = f.code ∧ (g f).warp = f.warp) : t.Called (t.onFrame g) :=
  ⟨rfl, .inr ⟨⟨g, hg, rfl⟩, rfl, rfl, .inl rfl⟩⟩

theorem status (t : Thread) {st : Status} (h : st = .yield ∨ st = .yieldTick) :
    t.Called { t with status := st } :=
  ⟨rfl, .inr ⟨⟨fun f => f, fun _ => ⟨rfl, rfl⟩, (by cases t.stack <;> rfl)⟩, rfl, rfl, .inr h⟩⟩

end Thread.Called

namespace Call

variable {σ α : Type}

/-- The thread of the call was changed at most as a call may change it. -/
def Did (c c' : Call σ) : Prop := c.thread.Called c'.thread

instance : Lasting (Did : Call σ → Call σ → Prop) where
  refl c := .refl c.thread
  trans h h' := Thread.Called.trans h h'

open Exec

section Parts

variable {R : Call σ → Call σ → Prop}

theorem keeps_read [Lasting R] (f : Call σ → α) : Keeps R (read f) :=
  keeps_get.andThen fun _ => keeps_pure _

theorem keeps_onThread {f : Thread → Thread}
    (hf : ∀ c : Call σ, R c { c with thread := f c.thread }) : Keeps R (onThread f) :=
  keeps_modify hf

theorem keeps_onTurn {f : Turn σ → Turn σ}
    (hf : ∀ c : Call σ, R c { c with toTurn := f c.toTurn }) : Keeps R (onTurn f) :=
  keeps_modify hf

theorem keeps_service {x : Service σ α}
    (hx : ∀ c : Call σ, R c { c with machine := (x c.machine).2 }) : Keeps R (service x) := by
  intro c r c' h
  cases h
  exact hx c

theorem keeps_onMachine {x : Run (Machine σ) α}
    (hx : ∀ (c : Call σ) a m, x c.machine = some (a, m) → R c { c with machine := m }) :
    Keeps R (onMachine x) := by
  intro c r c' h
  change (x c.machine >>= fun p => some (Except.ok p.1, { c with machine := p.2 })) = _ at h
  cases hxm : x c.machine with
  | none =>
    rw [hxm] at h
    cases h
  | some p =>
    rw [hxm] at h
    cases h
    exact hx c p.1 p.2 hxm

end Parts

/-- Whatever is asked for from compiled code, the thread stays the caller's. -/
theorem perform_called (kit : Kit σ) (predicate : Exec (Turn σ) Unit) (warp : Bool)
    (r : Request σ) : Keeps Did (perform kit predicate (.compiled warp) r) := by
  cases r
  all_goals rw [perform]
  case scratch | now | threadId | targetId | param | signature | targetNamed | isClone
    | hasThread | isWaiting | counter | host => exact keeps_read _
  case setScratch | startBranch | stopScript => exact keeps_modify fun c => .refl c.thread
  case isWarp | startProcedure => exact keeps_pure _
  case yield => exact keeps_onThread fun c => .status c.thread (.inl rfl)
  case yieldTick => exact keeps_onThread fun c => .status c.thread (.inr rfl)
  case stopAll => exact keeps_onTurn fun c => .retire c.thread
  case stopOthers | requestRedraw | setCounter | advanceClock | setHost | removeTarget =>
    exact keeps_onTurn fun c => .refl c.thread
  case stopThread => exact keeps_onThread fun c => .retire c.thread
  case bindParams => exact keeps_onThread fun c => .onFrame c.thread fun f => ⟨rfl, rfl⟩
  case startHats | draw | openPromise => exact keeps_onMachine fun c _ _ _ => .refl c.thread
  case createClone source =>
    have h : Keeps Did (onMachine (Machine.createClone kit.toCatalog predicate source)) :=
      keeps_onMachine fun c _ _ _ => .refl c.thread
    exact h.discarded
  case query => exact keeps_service fun c => .refl c.thread
  case readVariable | setVariable | readList | editList =>
    exact (keeps_read _).andThen fun _ => keeps_service fun c => .refl c.thread

/-- Actions one after the other are run one after the other. -/
theorem run_bind {β : Type} (kit : Kit σ) (predicate : Exec (Turn σ) Unit) (mode : Mode)
    (a : Action σ α) (f : α → Action σ β) :
    run kit predicate mode (a >>= f) =
      (run kit predicate mode a >>= fun x => run kit predicate mode (f x)) := by
  induction a with
  | done a => rfl
  | fail e => rfl
  | ask r next ih =>
    have hbind : (Action.ask r next >>= f) = .ask r fun answer => next answer >>= f := rfl
    rw [hbind, run, run, bind_assoc]
    congr 1
    funext answer
    exact ih answer

theorem run_called (kit : Kit σ) (predicate : Exec (Turn σ) Unit) (warp : Bool) (a : Action σ α) :
    Keeps Did (run kit predicate (.compiled warp) a) := by
  induction a with
  | done a => exact keeps_pure a
  | fail e => exact keeps_throw e
  | ask r next ih => exact (perform_called kit predicate warp r).andThen ih

end Call

/-! ## Requests of one kind -/

section Only

variable {σ α : Type} {a x : Action σ α}

/-- All requests of the action are of one kind. -/
def Action.Only (p : Request σ → Prop) : Action σ α → Prop
  | .done _ | .fail _ => True
  | .ask r next => p r ∧ ∀ answer, (next answer).Only p

namespace Action

variable {β : Type} {p : Request σ → Prop}

theorem only_request {r : Request σ} (h : p r) : (request r).Only p := ⟨h, fun _ => trivial⟩

theorem Only.imp {q : Request σ → Prop} (h : a.Only p) (hpq : ∀ r, p r → q r) : a.Only q := by
  induction a with
  | done a => trivial
  | fail e => trivial
  | ask r next ih => exact ⟨hpq r h.1, fun answer => ih answer (h.2 answer)⟩

theorem only_bind {f : α → Action σ β} (hx : x.Only p) (hf : ∀ a, (f a).Only p) :
    (x >>= f).Only p := by
  induction x with
  | done a => exact hf a
  | fail e => trivial
  | ask r next ih => exact ⟨hx.1, fun answer => ih answer (hx.2 answer)⟩

theorem only_map {f : α → β} (hx : x.Only p) : (f <$> x).Only p :=
  only_bind hx fun _ => trivial

end Action

open Exec in
/-- An action keeps what its requests keep. -/
theorem Call.run_only {R : Call σ → Call σ → Prop} [Lasting R] {kit : Kit σ}
    {predicate : Exec (Turn σ) Unit} {mode : Mode} {p : Request σ → Prop} (hp : ∀ r, p r →
      Keeps R (perform kit predicate mode r))
    (ha : a.Only p) : Keeps R (run kit predicate mode a) := by
  induction a with
  | done a => exact keeps_pure a
  | fail e => exact keeps_throw e
  | ask r next ih => exact (hp r ha.1).andThen fun answer => ih answer (ha.2 answer)

end Only
end BlockMachine

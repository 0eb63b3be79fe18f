import BlockMachine.Proofs.Library.Requests
import BlockMachine.Proofs.Machine.Places

/-!
# Quiet primitives

A primitive is quiet when it neither moves the clock nor starts a hat whose predicate would have to
be asked. A quiet primitive that compiled code calls comes to an end by itself, without the
interpreter's help, and leaves the time of the machine alone (`Call.run_quiet`). The core blocks are
quiet (`Library.core_quiet`).
-/

namespace BlockMachine

open Option

variable {σ : Type} {α β : Type} {x : Exec (Turn σ) Unit → Run (Machine σ) α} {a : Action σ α}

namespace Machine

/-- Neither the clock nor the settings were touched. -/
structure Timeless (m m' : Machine σ) : Prop where
  clock : m'.clock = m.clock
  settings : m'.settings = m.settings

instance : Lasting (Timeless : Machine σ → Machine σ → Prop) where
  refl _ := ⟨rfl, rfl⟩
  trans h h' := ⟨h'.clock.trans h.clock, h'.settings.trans h.settings⟩

theorem Aside.timeless {m m' : Machine σ} (h : m.Aside m') : m.Timeless m' :=
  ⟨h.clock, h.settings⟩

theorem timeless_removeTarget (m : Machine σ) (id : TargetId) : m.Timeless (m.removeTarget id) := by
  unfold removeTarget
  split <;> exact ⟨rfl, rfl⟩

theorem timeless_stopAll (m : Machine σ) : m.Timeless m.stopAll :=
  stopAll_along timeless_removeTarget (fun _ => ⟨rfl, rfl⟩) ⟨rfl, rfl⟩

end Machine

/-! ## Hats without a predicate -/

namespace Machine

open Run

variable (catalog : Catalog σ)

theorem timeless_place (m : Machine σ) (slot : Option Nat) (t : Thread) :
    m.Timeless (m.place slot t) := by
  unfold place
  split
  · split <;> exact ⟨rfl, rfl⟩
  · exact ⟨rfl, rfl⟩

/-- The computation does not depend on how predicates are asked, ends, and leaves the time alone. -/
structure Calm (x : Exec (Turn σ) Unit → Run (Machine σ) α) : Prop where
  same : ∀ predicate predicate', x predicate = x predicate'
  total : ∀ predicate, Total (x predicate)
  timeless : ∀ predicate, Keeps Timeless (x predicate)

namespace Calm

theorem of_fixed {x : Run (Machine σ) α} (ht : Total x) (hk : Keeps Timeless x) : Calm fun _ => x :=
  ⟨fun _ _ => rfl, fun _ => ht, fun _ => hk⟩

theorem andThen {f : Exec (Turn σ) Unit → α → Run (Machine σ) β} (hx : Calm x)
    (hf : ∀ a, Calm fun predicate => f predicate a) :
    Calm fun predicate => x predicate >>= f predicate where
  same p p' := by rw [hx.same p p', funext fun a => (hf a).same p p']
  total p := (hx.total p).andThen fun a => (hf a).total p
  timeless p := (hx.timeless p).andThen fun a => (hf a).timeless p

end Calm

theorem spawn_calm (target : TargetId) (top : BlockId) :
    Calm fun predicate => spawn catalog predicate false target top where
  same p p' := by
    funext m
    rw [spawn_eq, spawn_eq]
    cases m.newThread? target top <;> rfl
  total p m := by
    rw [spawn_eq]
    cases m.newThread? target top <;> rfl
  timeless p m r m' h := by
    rcases spawn_cases h with ⟨-, rfl⟩ | ⟨_, _, _, -, ⟨hasked, -⟩ | ⟨-, rfl, -⟩⟩
    · exact Lasting.refl _
    · cases hasked
    · exact ⟨rfl, rfl⟩

variable {catalog} {opcode : String}

section

variable (h : catalog.hasPrimitive opcode = false)

include h

theorem startScript_calm (hat : Hat) (target : TargetId) (top : BlockId) :
    Calm fun predicate => startScript catalog predicate opcode hat target top := by
  unfold startScript
  rw [h]
  refine Calm.andThen (.of_fixed (fun _ => rfl) keeps_get) fun m => ?_
  cases m.slotFor hat target top with
  | none => exact .of_fixed (total_pure _) (keeps_pure _)
  | some slot =>
    refine Calm.andThen (spawn_calm catalog target top) fun t => ?_
    cases t with
    | none => exact .of_fixed (total_pure _) (keeps_pure _)
    | some t =>
      exact .of_fixed (Total.andThen (fun _ => rfl) fun _ => total_pure _)
        ((keeps_modify fun m => timeless_place m slot t).andThen fun _ => keeps_pure _)

theorem startHats_calm (fields : List (String × String)) (only : Option TargetId) :
    Calm fun predicate => startHats catalog predicate opcode fields only :=
  startHats_induction (P := Calm) (fun _ => .of_fixed (total_pure _) (keeps_pure _))
    (.of_fixed (fun _ => rfl) keeps_get) Calm.andThen (startScript_calm h) fields only

end

theorem createClone_calm (h : catalog.hasPrimitive "control_start_as_clone" = false)
    (source : TargetId) : Calm fun predicate => createClone catalog predicate source := by
  have hhats := fun id => startHats_calm h [] (some id)
  refine ⟨fun p p' => funext fun m => ?_, fun p m => ?_, fun p m a m' hm => ?_⟩
  · unfold createClone
    rw [Run.get_andThen, Run.get_andThen]
    cases m.addClone? source with
    | none => rfl
    | some q =>
      exact congrArg (fun x =>
        (do set q.2; discard x; return some q.1 : Run (Machine σ) (Option TargetId)) m)
        ((hhats q.1).same p p')
  · unfold createClone
    rw [Run.get_andThen]
    cases m.addClone? source with
    | none => rfl
    | some q =>
      exact Total.andThen (fun _ => rfl)
        (fun _ => ((hhats q.1).total p).discarded.andThen fun _ => total_pure _) m
  · rcases createClone_cases hm with ⟨-, -, rfl⟩ | ⟨id, m₁, ids, hadd, -, hstart⟩
    · exact Lasting.refl _
    · obtain ⟨t, -, -, -, -, rfl⟩ := addClone?_some hadd
      obtain ⟨hclock, hsettings⟩ := (hhats id).timeless p _ _ _ hstart
      exact ⟨hclock, hsettings⟩

end Machine

/-! ## Quiet actions -/

/-- The request neither moves the clock nor asks the predicate of a hat. -/
def Request.Quiet (catalog : Catalog σ) : Request σ → Prop
  | .advanceClock _ => False
  | .startHats opcode _ => catalog.hasPrimitive opcode = false
  | .createClone _ => catalog.hasPrimitive "control_start_as_clone" = false
  | _ => True

/-- All requests of the action are quiet. -/
def Action.Quiet (catalog : Catalog σ) : Action σ α → Prop
  | .done _ | .fail _ => True
  | .ask r next => r.Quiet catalog ∧ ∀ answer, (next answer).Quiet catalog

/-- All primitives of the catalog are quiet. -/
def Catalog.Quiet (catalog : Catalog σ) : Prop :=
  ∀ opcode primitive, catalog.primitive? opcode = some primitive →
    ∀ args, (primitive args).Quiet catalog

namespace Call

open Exec

/-- The computation does not depend on how predicates are asked, ends, and leaves the time alone. -/
structure Calm (x : Exec (Turn σ) Unit → Exec (Call σ) α) : Prop where
  same : ∀ predicate predicate', x predicate = x predicate'
  total : ∀ predicate, Total (x predicate)
  timeless : ∀ predicate, Keeps (fun c c' => c.machine.Timeless c'.machine) (x predicate)

instance : Lasting fun c c' : Call σ => c.machine.Timeless c'.machine where
  refl c := Lasting.refl c.machine
  trans h h' := Lasting.trans h h'

namespace Calm

theorem of_fixed {x : Exec (Call σ) α} (ht : Total x)
    (hk : Keeps (fun c c' => c.machine.Timeless c'.machine) x) : Calm fun _ => x :=
  ⟨fun _ _ => rfl, fun _ => ht, fun _ => hk⟩

theorem of_pure (a : α) : Calm fun _ => (pure a : Exec (Call σ) α) :=
  .of_fixed (total_pure a) (keeps_pure a)

theorem of_read (f : Call σ → α) : Calm fun _ => (read f : Exec (Call σ) α) :=
  .of_fixed (fun _ => rfl) (keeps_read f)

theorem of_modify {f : Call σ → Call σ} (hf : ∀ c : Call σ, c.machine.Timeless (f c).machine) :
    Calm fun _ => (modify f : Exec (Call σ) Unit) :=
  .of_fixed (fun _ => rfl) (keeps_modify hf)

theorem of_service {x : Service σ α} (hx : Service.Keeps Machine.Aside x) :
    Calm fun _ => (service x : Exec (Call σ) α) :=
  .of_fixed (fun _ => rfl) (keeps_service fun c => (hx c.machine).timeless)

theorem of_machine (hx : Machine.Calm x) : Calm fun predicate => onMachine (x predicate) where
  same p p' := by rw [hx.same p p']
  total p c := by
    obtain ⟨q, hq⟩ := isSome_iff_exists.mp (hx.total p c.machine)
    show (x p c.machine >>= fun q => some (Except.ok q.1, { c with machine := q.2 })).isSome
    rw [hq]
    rfl
  timeless p := keeps_onMachine fun c a m h => hx.timeless p c.machine a m h

theorem andThen {x : Exec (Turn σ) Unit → Exec (Call σ) α}
    {f : Exec (Turn σ) Unit → α → Exec (Call σ) β} (hx : Calm x)
    (hf : ∀ a, Calm fun predicate => f predicate a) :
    Calm fun predicate => x predicate >>= f predicate where
  same p p' := by rw [hx.same p p', funext fun a => (hf a).same p p']
  total p := (hx.total p).andThen fun a => (hf a).total p
  timeless p := (hx.timeless p).andThen fun a => (hf a).timeless p

theorem discarded {x : Exec (Turn σ) Unit → Exec (Call σ) α} (hx : Calm x) :
    Calm fun predicate => (discard (x predicate) : Exec (Call σ) Unit) where
  same p p' := by rw [hx.same p p']
  total p := (hx.total p).mapped
  timeless p := (hx.timeless p).discarded

end Calm

theorem perform_quiet (kit : Kit σ) (warp : Bool) {r : Request σ} (h : r.Quiet kit.toCatalog) :
    Calm fun predicate => perform kit predicate (.compiled warp) r := by
  cases r
  all_goals simp only [perform]
  case advanceClock => exact h.elim
  case startHats => exact .of_machine (Machine.startHats_calm h _ _)
  case createClone => exact (Calm.of_machine (Machine.createClone_calm h _)).discarded
  case scratch | now | threadId | targetId | param | signature | targetNamed | isClone
    | hasThread | isWaiting | counter | host => exact .of_read _
  case setScratch | startBranch | stopScript => exact .of_modify fun c => Lasting.refl c.machine
  case isWarp | startProcedure => exact .of_pure _
  case yield | yieldTick | stopThread | bindParams =>
    exact .of_modify fun c => Lasting.refl c.machine
  case stopAll => exact .of_modify fun c => Machine.timeless_stopAll c.machine
  case removeTarget => exact .of_modify fun c => Machine.timeless_removeTarget c.machine _
  case stopOthers | requestRedraw | setCounter | setHost => exact .of_modify fun c => ⟨rfl, rfl⟩
  case draw =>
    refine .of_machine (.of_fixed (fun _ => rfl) (Run.keeps_modifyGet fun m => ?_))
    exact (Machine.aside_draw m).timeless
  case openPromise =>
    exact .of_machine (.of_fixed (fun _ => rfl) (Run.keeps_modifyGet fun m => ⟨rfl, rfl⟩))
  case query => exact .of_service (Machine.query_aside _ _ _ _)
  case readVariable =>
    exact (Calm.of_read _).andThen fun _ => .of_service (Machine.readVariable_aside _ _)
  case setVariable =>
    exact (Calm.of_read _).andThen fun _ => .of_service (Machine.setVariable_aside _ _ _ _)
  case readList => exact (Calm.of_read _).andThen fun _ => .of_service (Machine.readList_aside _ _)
  case editList =>
    exact (Calm.of_read _).andThen fun _ => .of_service (Machine.editList_aside _ _ _)

/-- A quiet action that compiled code calls ends by itself and leaves the time alone. -/
theorem run_quiet (kit : Kit σ) (warp : Bool) (h : a.Quiet kit.toCatalog) :
    Calm fun predicate => run kit predicate (.compiled warp) a := by
  induction a with
  | done a => exact .of_pure a
  | fail e => exact .of_fixed (fun _ => rfl) (keeps_throw e)
  | ask r next ih => exact (perform_quiet kit warp h.1).andThen fun answer => ih answer (h.2 answer)

end Call

/-! ## The core blocks -/

namespace Action

variable {p : Request σ → Prop}

theorem Only.quiet {catalog : Catalog σ} (h : a.Only p) (hp : ∀ r, p r → r.Quiet catalog) :
    a.Quiet catalog := by
  induction a with
  | done a => trivial
  | fail e => trivial
  | ask r next ih => exact ⟨hp r h.1, fun answer => ih answer (h.2 answer)⟩

end Action

/-- What core blocks may ask for: of all hats they start only those that receive a message. -/
def Request.IsCore : Request σ → Prop
  | .advanceClock _ => False
  | .startHats opcode _ => opcode = Library.Messages.received
  | _ => True

theorem Request.IsLight.isCore {r : Request σ} (h : r.IsLight) : r.IsCore := by
  cases r
  case advanceClock => exact h.elim
  case startHats => exact h
  all_goals trivial

theorem Request.IsCore.quiet {r : Request σ} (h : r.IsCore) : r.Quiet Library.core := by
  cases r
  case advanceClock => exact h.elim
  case startHats =>
    cases h
    exact (rfl : (Library.core : Catalog σ).hasPrimitive Library.Messages.received = false)
  case createClone =>
    exact (rfl : (Library.core : Catalog σ).hasPrimitive "control_start_as_clone" = false)
  all_goals trivial

namespace Library

open Action

theorem core_only {opcode : String} {primitive : Primitive σ}
    (h : (core : Catalog σ).primitive? opcode = some primitive) (args : Args) :
    (primitive args).Only Request.IsCore := by
  have hmove : ∀ {r : Request σ}, r.isMove = true → r.IsCore := by
    intro r hr
    cases r
    case advanceClock | startHats => cases hr
    all_goals trivial
  have hcore := core_requests h args
  generalize primitive args = a at hcore ⊢
  induction hcore with
  | done r => trivial
  | fail e => trivial
  | ask hr _ _ ih => exact ⟨hr.isCore, ih⟩
  | move hr _ => exact ⟨hmove hr, fun _ => trivial⟩
  | removeTarget _ => exact ⟨trivial, fun _ => ⟨trivial, fun _ => trivial⟩⟩

/-- **The core blocks are quiet.** -/
theorem core_quiet : (core : Catalog σ).Quiet := by
  intro opcode primitive h args
  exact (core_only h args).quiet fun _ hr => hr.quiet

end Library
end BlockMachine

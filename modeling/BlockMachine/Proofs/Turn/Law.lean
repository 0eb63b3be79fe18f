import BlockMachine.Proofs.Turn.Ran

/-!
# What turns keep

A turn changes its machine in a few ways: it reads and writes variables, stops threads, adds and
removes targets, notes the answers of edge-activated hats and starts scripts. A relation between
machines that holds along each of these is a *law* of the kit (`Machine.Law`), and it holds along
every turn, interpreted or compiled (`Turn.step_along`, `Turn.await_along`). All that turns need of
a law is what the primitives of the kit keep (`Machine.Rule`, `Machine.TurnRule`).
-/

namespace BlockMachine

variable {σ α : Type}

/-- Whether an event tells the items of a list or the value of a monitor. -/
def Event.isUpdate : Event → Bool
  | .listUpdate _ _ _ | .monitorUpdate _ _ => true
  | _ => false

/-- A relation between machines that holds along whatever a turn does to its machine. Starting a
script may rely on what asking the predicates of hats keeps. -/
structure Machine.Law (kit : Kit σ) (R : Machine σ → Machine σ → Prop) :
    Prop extends Machine.Lenient R where
  tell : ∀ m event, Event.isUpdate event = false → R m (m.emit event)
  stopAll : ∀ m, R m m.stopAll
  stopTarget : ∀ m target except, R m (m.stopTarget target except)
  removeTarget : ∀ m target, R m (m.removeTarget target)
  edgeFires : ∀ m target block value, R m (m.edgeFires target block value).2
  addClone : ∀ {m source id m'}, m.addClone? source = some (id, m') → R m m'
  startScript : ∀ fuel, Exec.Keeps (Turn.Along R) (Turn.execute kit fuel) →
    ∀ opcode hat target top,
      Run.Keeps R (startScript kit.toCatalog (Turn.execute kit fuel) opcode hat target top)

variable {kit : Kit σ} {R : Machine σ → Machine σ → Prop} [Lasting R] {fuel : Nat}

/-! ## Starting scripts -/

namespace Machine

open Run

variable {predicate : Exec (Turn σ) Unit} {opcode : String}

section

variable (hscript : ∀ hat target top,
  Keeps R (startScript kit.toCatalog predicate opcode hat target top))

include hscript

theorem startHats_along (fields : List (String × String)) (only : Option TargetId) :
    Keeps R (startHats kit.toCatalog predicate opcode fields only) :=
  startHats_induction (P := fun x => Keeps R (x predicate)) keeps_pure keeps_get Keeps.andThen
    hscript fields only

omit hscript

theorem createClone_along (hclone : ∀ {m source id m'}, m.addClone? source = some (id, m') → R m m')
    (hscript : ∀ hat target top,
      Keeps R (startScript kit.toCatalog predicate "control_start_as_clone" hat
      target top))
    (source : TargetId) : Keeps R (createClone kit.toCatalog predicate source) := by
  intro m r m' h
  rcases createClone_cases h with ⟨-, -, rfl⟩ | ⟨id, m₁, ids, hadd, -, hstart⟩
  · exact Lasting.refl _
  · exact Lasting.trans (hclone hadd) (startHats_along hscript _ _ _ _ _ hstart)

end
end Machine

/-! ## Turns -/

namespace Turn

open Exec

variable {s s' : Turn σ}

/-- A change of the thread that leaves it the same one. -/
theorem along_of_thread {t : Thread} (h : s.thread.Same t) : s.Along R { s with thread := t } :=
  ⟨Lasting.refl s.machine, h⟩

theorem onThread_along {f : Thread → Thread} (hf : ∀ t : Thread, t.Same (f t)) :
    Keeps (Along R) (onThread f : Exec (Turn σ) Unit) :=
  keeps_modify fun s => along_of_thread (hf s.thread)

omit [Lasting R]

theorem along_of_machine {m : Machine σ} (h : R s.machine m) : s.Along R { s with machine := m } :=
  ⟨h, rfl, rfl, rfl, rfl, rfl⟩

theorem onMachine_along {f : Machine σ → Machine σ} (hf : ∀ m : Machine σ, R m (f m)) :
    Keeps (Along R) (onMachine f : Exec (Turn σ) Unit) :=
  keeps_modify fun s => along_of_machine (hf s.machine)

end Turn

/-- What holds along all that is done to variables holds along what a thread does by itself. -/
theorem Machine.Lenient.lax (h : Machine.Lenient R) : Turn.Lax (Turn.Along R) where
  thread hs := Turn.along_of_thread hs
  reads t :=
    { rest := fun hrest => Turn.along_of_machine (h.rest hrest)
      create := fun hplace hpresent =>
        Turn.along_of_machine ((h.reads t.target).create hplace hpresent) }

omit [Lasting R] in
theorem Machine.Lenient.turnWrites (h : Machine.Lenient R) (ref : VarRef) :
    Turn.Writes (Turn.Along R) ref := fun t =>
  { assign := fun value hplace hv =>
      Turn.along_of_machine ((h.writes t.target ref).assign value hplace hv)
    edit := fun d e hplace hv =>
      Turn.along_of_machine ((h.writes t.target ref).edit d e hplace hv) }

/-! ## Primitives -/

namespace Call

open Exec

/-- The relation holds between the machines, and the thread of the call is still the same one. -/
abbrev Along (R : Machine σ → Machine σ → Prop) : Call σ → Call σ → Prop := On (Turn.Along R)

omit [Lasting R] in
theorem onMachine_along {x : Run (Machine σ) α} (hx : Run.Keeps R x) :
    Keeps (Along R) (onMachine x) :=
  keeps_onMachine fun c a m h => Turn.along_of_machine (hx c.machine a m h)

variable (law : Machine.Law kit R) {fuel : Nat} (hgo : Keeps (Turn.Along R) (Turn.execute kit fuel))

include law hgo

theorem perform_along (mode : Mode) (r : Request σ) :
    Keeps (Along R) (perform kit (Turn.execute kit fuel) mode r) := by
  cases hfar : r.isFar with
  | false => exact perform_near law.lax _ mode hfar fun ref _ => law.turnWrites ref
  | true =>
    cases r
    case stopAll =>
      rw [perform]
      exact keeps_onTurn fun c => ⟨law.stopAll c.machine, rfl, rfl, rfl, rfl, rfl⟩
    case stopOthers =>
      rw [perform]
      exact keeps_onTurn fun c => Turn.along_of_machine (law.stopTarget c.machine _ _)
    case removeTarget =>
      rw [perform]
      exact keeps_onTurn fun c => Turn.along_of_machine (law.removeTarget c.machine _)
    case startHats =>
      rw [perform]
      exact onMachine_along (Machine.startHats_along (law.startScript fuel hgo _) _ _)
    case createClone source =>
      rw [perform]
      exact (onMachine_along (Machine.createClone_along law.addClone
        (law.startScript fuel hgo _) source)).discarded
    all_goals cases hfar

theorem run_along (mode : Mode) (a : Action σ α) :
    Keeps (Along R) (run kit (Turn.execute kit fuel) mode a) := by
  induction a with
  | done a => exact keeps_pure a
  | fail e => exact keeps_throw e
  | ask r next ih => exact (perform_along law hgo mode r).andThen ih

end Call

/-- A relation between machines that holds along what the interpreter does: whatever a primitive
asks for, and noting the answers of edge-activated hats. -/
structure Machine.Rule (kit : Kit σ) (R : Machine σ → Machine σ → Prop) : Prop
    extends Machine.Lenient R where
  edgeFires : ∀ m target block value, R m (m.edgeFires target block value).2
  primitive : ∀ fuel, Exec.Keeps (Turn.Along R) (Turn.execute kit fuel) →
    ∀ opcode primitive, kit.primitive? opcode = some primitive → ∀ mode args,
      Exec.Keeps (Call.Along R) (Call.run kit (Turn.execute kit fuel) mode (primitive args))

omit [Lasting R] in
theorem Machine.Rule.notes (rule : Machine.Rule kit R) : Turn.Notes (Turn.Along R) :=
  fun s _ _ => Turn.along_of_machine (rule.edgeFires s.machine _ _ _)

/-- A rule that holds along the instructions that stop threads and along the report of an error,
too. -/
structure Machine.TurnRule (kit : Kit σ) (R : Machine σ → Machine σ → Prop) : Prop
    extends Machine.Rule kit R where
  reportError : ∀ m t e, R m (m.reportError t e)
  stopAll : ∀ m, R m m.stopAll
  stopTarget : ∀ m target except, R m (m.stopTarget target except)

theorem Machine.Law.turnRule (law : Machine.Law kit R) : Machine.TurnRule kit R where
  toLenient := law.toLenient
  reportError _ _ _ := law.tell _ _ rfl
  edgeFires := law.edgeFires
  primitive _ hgo _ primitive _ mode args := Call.run_along law hgo mode (primitive args)
  stopAll := law.stopAll
  stopTarget := law.stopTarget

theorem Machine.Law.rule (law : Machine.Law kit R) : Machine.Rule kit R := law.turnRule.toRule

/-! ## The interpreter -/

namespace Turn

open Exec

variable {s s' : Turn σ}

section Rule

variable (rule : Machine.Rule kit R)

include rule

omit [Lasting R] in
theorem blocks_along (fuel : Nat) (hgo : ∀ s r s', execute kit fuel s = some (r, s') →
    (∀ b ∈ executeRuns kit fuel s, True) → s.Along R s') (b : Block) (_ :
      True) : b.Keeps kit (Along R) fuel :=
  fun primitive hprimitive args _ =>
    rule.primitive fuel (fun s r s' h => hgo s r s' h fun _ _ => trivial)
    b.opcode primitive hprimitive .interpreted args

/-- **Running a block keeps every rule.** -/
theorem execute_along (fuel : Nat) : Keeps (Along R) (execute kit fuel) := fun s r s' h =>
  execute_ran (P := fun _ => True) rule.lax rule.notes (blocks_along rule) fuel s r s' h fun _ _ =>
    trivial

theorem interpret_along (fuel : Nat) : Keeps (Along R) (interpret kit fuel) := fun s r s' h =>
  interpret_ran (P := fun _ => True) rule.lax rule.notes (blocks_along rule) fuel s r s' h
    fun _ _ => trivial

/-! ## Compiled code -/

/-- An instruction keeps every rule, if those that stop threads do. -/
theorem runInstr_along (fuel pc : Nat) (i : Instr Script)
    (hstop : ∀ option, i = .stop option → Keeps (Along R) (runInstr kit fuel pc (.stop option))) :
    Keeps (Along R) (runInstr kit fuel pc i) := by
  refine runInstr_lax rule.lax fuel pc i (fun ref _ => rule.turnWrites ref) (fun c _ => ?_) hstop
  exact callPrimitive_lax rule.lax pc fun primitive hprimitive values warp =>
    rule.primitive fuel (execute_along rule fuel) c.opcode primitive hprimitive _ _

end Rule

variable (rule : Machine.TurnRule kit R)

include rule

theorem runStop_along (fuel pc : Nat) (option : StopOption) :
    Keeps (Along R) (runInstr kit fuel pc (.stop option)) := by
  cases option with
  | all =>
    refine (onMachine_along rule.stopAll).andThen fun _ =>
      Keeps.andThen ?_ fun _ => keeps_pure _
    exact onThread_along fun t => ⟨rfl, rfl, rfl, rfl, rfl⟩
  | thisScript => exact (leaveScript_lax rule.lax).andThen fun _ => keeps_pure _
  | otherScripts =>
    refine getThread_lax.andThen fun t => Keeps.andThen ?_ fun _ => advance_lax rule.lax
    exact onMachine_along fun m => rule.stopTarget m _ _

theorem instrs_along (i : Instr Script) (_ : True) (fuel pc : Nat) :
    Keeps (Along R) (runInstr kit fuel pc i) :=
  runInstr_along rule.toRule fuel pc i fun option _ => runStop_along rule fuel pc option

/-! ## Turns -/

omit [Lasting R] in
theorem fail_along (s : Turn σ) (e : BlockError) : s.Along R (s.fail e) :=
  ⟨rule.reportError _ _ _, rfl, rfl, rfl, rfl, rfl⟩

/-- **A turn keeps every rule.** -/
theorem step_along (h : s.step kit fuel = some s') : s.Along R s' :=
  step_ran (P := fun _ => True) rule.lax rule.notes (blocks_along rule.toRule) (instrs_along rule)
    (fail_along rule) h fun _ _ => trivial

theorem await_along (h : s.await kit fuel = some s') : s.Along R s' :=
  await_ran (P := fun _ => True) rule.lax rule.notes (blocks_along rule.toRule) (instrs_along rule)
    (fail_along rule) h fun _ _ => trivial

end Turn
end BlockMachine

import BlockMachine.Machine.Frames
import BlockMachine.Proofs.Turn.Evolving

/-!
# Chronicles

What happens to the threads of a machine within an operation is not seen from its result. A
chronicle runs the same operations and notes each moment on the way: every turn that is given to a
thread, every sweep that takes threads out of the list, and anything else that may start or stop
threads. Leaving the notes aside it is the machine itself (`Chronicle.play_follows`).
-/

namespace BlockMachine

open Option

variable {σ α β : Type} {kit : Kit σ} {fuel i : Nat}

/-- What happens in a moment. -/
inductive Deed (σ : Type) where
  /-- The thread in a place has its turn; at the end of it, the machine and the thread are as
  given. -/
  | turn (id : ThreadId) (place : Nat) (ended : Turn σ)
  /-- The threads that are done are taken out of the list and given away. -/
  | give (done : List Thread)
  | other

/-- The threads that are given away. -/
def Deed.given : Deed σ → List Thread
  | .give done => done
  | _ => []

/-- What happens, and the machine after it. -/
structure Moment (σ : Type) where
  deed : Deed σ
  machine : Machine σ

/-- A machine with its past, the latest moment last. -/
structure Chronicle (σ : Type) where
  machine : Machine σ
  moments : List (Moment σ) := []

namespace Machine

/-- The turn of a thread in its place, before the thread is put back. -/
def turn (kit : Kit σ) (fuel i : Nat) (t : Thread) (m : Machine σ) : Option (Turn σ) :=
  let s : Turn σ := { machine := { m with threads := m.threads.set i t.placeholder }, thread := t }
  if t.status == .promiseWait then s.await kit fuel else s.step kit fuel

/-- What a visit of a place will be. -/
def visitDeed (kit : Kit σ) (fuel : Nat) (isFirst : Bool) (i : Nat) (m : Machine σ) : Deed σ :=
  match m.threads[i]? with
  | none => .other
  | some t =>
    if hasTurn (wake isFirst t) then
      match m.turn kit fuel i (wake isFirst t) with
      | some s => .turn t.id i s
      | none => .other
    else .other

theorem giveTurn_eq (kit : Kit σ) (fuel i : Nat) (t : Thread) (m : Machine σ) :
    m.giveTurn kit fuel i t =
      (m.turn kit fuel i t).map fun s =>
        s.machine.putBack i { s.thread with warpStart := none } := by
  unfold giveTurn turn
  dsimp only
  split
  · cases Turn.await kit fuel _ <;> rfl
  · cases Turn.step kit fuel _ <;> rfl

/-- A turn in a place keeps every rule. -/
theorem turn_along {R : Machine σ → Machine σ → Prop} [Lasting R] (rule : TurnRule kit R)
    {t : Thread} {m : Machine σ} {s : Turn σ} (h : m.turn kit fuel i t = some s) :
    Turn.Along R ⟨{ m with threads := m.threads.set i t.placeholder }, t⟩ s := by
  unfold turn at h
  dsimp only at h
  split at h
  · exact Turn.await_along rule h
  · exact Turn.step_along rule h

/-- A script is pushed whose hat says no, or its thread is put at the end of the list. -/
theorem pushThread_cases {top : BlockId} {target : TargetId} {m m' : Machine σ}
    {r : Option ThreadId} (h : pushThread kit fuel top target m = some (r, m')) :
    m' = m ∨ ∃ hasPredicate t m₁,
      spawn kit.toCatalog (Turn.execute kit fuel) hasPredicate target top m = some (t, m₁) ∧
      m' = t.elim m₁ fun t => { m₁ with threads := m₁.threads ++ [t] } := by
  unfold pushThread at h
  rw [Run.get_andThen] at h
  cases hopcode : m.targets[target]? >>= (·.sheet.opcode? top) with
  | none =>
    rw [hopcode] at h
    obtain ⟨-, rfl⟩ := Run.pure_some.mp h
    exact .inl rfl
  | some opcode =>
    rw [hopcode] at h
    obtain ⟨t, m₁, hspawn, h⟩ := Run.bind_some.mp h
    refine .inr ⟨_, t, m₁, hspawn, ?_⟩
    cases t with
    | none => exact (Run.pure_some.mp h).2.symm
    | some t =>
      obtain ⟨u, m₂, hplace, h⟩ := Run.bind_some.mp h
      exact (Run.pure_some.mp h).2.symm.trans (Run.modify_some.mp hplace).symm

/-- A visit of a place: there is no thread, or it wakes up and has no turn, or it has its turn. -/
theorem visit_cases {isFirst : Bool} {m m' : Machine σ} (h : m.visit kit fuel isFirst i = some m') :
    m.threads[i]? = none ∧ m' = m ∨ ∃ t, m.threads[i]? = some t ∧
      (hasTurn (wake isFirst t) = false ∧
        m' = { m with threads := m.threads.set i (wake isFirst t) } ∨
        hasTurn (wake isFirst t) = true ∧ ∃ s, m.turn kit fuel i (wake isFirst t) = some s ∧
          m' = s.machine.putBack i { s.thread with warpStart := none }) := by
  unfold visit at h
  cases ht : m.threads[i]? with
  | none =>
    rw [ht] at h
    exact .inl ⟨rfl, (Option.some.inj h).symm⟩
  | some t =>
    rw [ht] at h
    refine .inr ⟨t, rfl, ?_⟩
    dsimp only at h
    cases hturn : hasTurn (wake isFirst t) with
    | false =>
      rw [hturn] at h
      exact .inl ⟨rfl, (Option.some.inj h).symm⟩
    | true =>
      rw [hturn, if_pos rfl, giveTurn_eq] at h
      obtain ⟨s, hs, rfl⟩ := map_eq_some_iff.mp h
      exact .inr ⟨rfl, s, hs, rfl⟩

end Machine

namespace Chronicle

/-- Runs a computation on the machine and notes the moment. -/
def record (deed : Machine σ → α → Deed σ) (x : Run (Machine σ) α) : Run (Chronicle σ) α :=
  fun c => do
    let (a, machine) ← x c.machine
    return (a, { machine, moments := c.moments ++ [{ deed := deed c.machine a, machine }] })

/-- Runs a computation that neither gives a turn nor gives threads away. -/
def quietly (x : Run (Machine σ) α) : Run (Chronicle σ) α :=
  record (fun _ _ => .other) x

/-! ## Frames with their moments -/

def visitFrom (kit : Kit σ) (isFirst : Bool) : Nat → Nat → Run (Chronicle σ) Nat
  | 0, _ => fun _ => none
  | fuel + 1, i => fun c =>
    if i < c.machine.threads.length then do
      let (_, c) ← record (fun m _ => m.visitDeed kit fuel isFirst i)
        (fun m => (m.visit kit fuel isFirst i).map ((), ·)) c
      let (n, c') ← visitFrom kit isFirst fuel (i + 1) c
      return ((if c.machine.isRunning i then 1 else 0) + n, c')
    else some (0, c)

def pass (kit : Kit σ) (fuel : Nat) (isFirst : Bool) : Run (Chronicle σ) (Nat × List Thread) := do
  quietly (modify Machine.syncClock)
  let running ← visitFrom kit isFirst fuel 0
  let done ← record (fun _ done => .give done) (modifyGet Machine.takeDone)
  return (running, done)

def passes (kit : Kit σ) (start : Float) : Nat → Nat → Run (Chronicle σ) (List Thread)
  | 0, _ => fun _ => none
  | fuel + 1, running => do
    if ← quietly (modifyGet (·.continues start running)) then
      let (running, done) ← pass kit fuel false
      let rest ← passes kit start fuel running
      return done ++ rest
    else return []

def stepThreads (kit : Kit σ) (fuel : Nat) : Run (Chronicle σ) (List Thread) := do
  quietly (discard (modifyGet Machine.readClock))
  let start ← quietly (modifyGet Machine.readClock)
  let m ← quietly get
  if m.threads.isEmpty || (m.redraw && !m.settings.turboMode) then return []
  else
    let (running, done) ← pass kit fuel true
    let rest ← passes kit start fuel running
    return done ++ rest

def step (kit : Kit σ) (fuel : Nat) : Run (Chronicle σ) (List Thread) := do
  quietly (modify fun m => { m.syncClock with redraw := false })
  quietly (Machine.pollHats kit fuel kit.edgeHats)
  quietly (modify fun m => m.monitors.foldl Machine.startMonitor m)
  let done ← stepThreads kit fuel
  quietly (modify fun m => (done.foldl Machine.reportValue m).reportLists)
  return done

end Chronicle

/-! ## Operations -/

/-- What may be asked of a machine from outside. -/
inductive Operation where
  | startHats (opcode : String) (fields : List (String × String)) (only : Option TargetId)
  | greenFlag
  | stopAll
  | toggle (top : BlockId) (target : TargetId)
  | pushThread (top : BlockId) (target : TargetId)
  | createClone (source : TargetId)
  | removeTarget (target : TargetId)
  | step
  | settle (promise : PromiseId) (outcome : Promise)

/-- Carries out an operation and gives the threads that it gives away. -/
def Operation.apply (kit : Kit σ) (fuel : Nat) : Operation → Run (Machine σ) (List Thread)
  | .startHats opcode fields only => do
    discard (Machine.startHats kit.toCatalog (Machine.predicate kit fuel) opcode fields only)
    return []
  | .greenFlag => do
    Machine.greenFlag kit fuel
    return []
  | .stopAll => do
    modify Machine.stopAll
    return []
  | .toggle top target => do
    discard (modifyGet fun m => m.toggle top target)
    return []
  | .pushThread top target => do
    discard (Machine.pushThread kit fuel top target)
    return []
  | .createClone source => do
    discard (Machine.createClone kit.toCatalog (Machine.predicate kit fuel) source)
    return []
  | .removeTarget target => do
    modify (·.removeTarget target)
    return []
  | .step => Machine.step kit fuel
  | .settle promise outcome => do
    modify fun m => { m with promises := m.promises.settle promise outcome }
    return []

/-- Carries out operations one after the other, each with its fuel. -/
def Machine.play (kit : Kit σ) : List (Operation × Nat) → Run (Machine σ) (List Thread)
  | [] => return []
  | (op, fuel) :: rest => do
    let done ← op.apply kit fuel
    let others ← play kit rest
    return done ++ others

namespace Chronicle

/-- An operation with its moments. -/
def apply (kit : Kit σ) (fuel : Nat) : Operation → Run (Chronicle σ) (List Thread)
  | .step => step kit fuel
  | op => quietly (op.apply kit fuel)

def play (kit : Kit σ) : List (Operation × Nat) → Run (Chronicle σ) (List Thread)
  | [] => return []
  | (op, fuel) :: rest => do
    let done ← apply kit fuel op
    let others ← play kit rest
    return done ++ others

/-! ## Chronicles tell what the machine does -/

/-- Without its moments the chronicle does what the machine does. -/
def Follows (x : Run (Chronicle σ) α) (y : Run (Machine σ) α) : Prop :=
  ∀ c, (x c).map (fun p => (p.1, p.2.machine)) = y c.machine

theorem record_follows (deed : Machine σ → α → Deed σ) (x : Run (Machine σ) α) :
    Follows (record deed x) x := by
  intro c
  unfold record
  cases x c.machine <;> rfl

theorem quietly_follows (x : Run (Machine σ) α) : Follows (quietly x) x :=
  record_follows _ x

theorem follows_pure (a : α) : Follows (pure a : Run (Chronicle σ) α) (pure a) := fun _ => rfl

theorem Follows.andThen {x : Run (Chronicle σ) α} {y : Run (Machine σ) α}
    {f : α → Run (Chronicle σ) β} {g : α → Run (Machine σ) β} (hx : Follows x y)
    (hf : ∀ a, Follows (f a) (g a)) : Follows (x >>= f) (y >>= g) := by
  intro c
  show ((x c >>= fun p => f p.1 p.2).map _) = (y c.machine >>= fun p => g p.1 p.2)
  rw [← hx c]
  cases x c with
  | none => rfl
  | some p => exact hf p.1 p.2

theorem visitFrom_follows (kit : Kit σ) (isFirst : Bool) (fuel : Nat) : ∀ i,
    Follows (visitFrom kit isFirst fuel i) (Machine.visitFrom kit isFirst fuel i) := by
  induction fuel with
  | zero => exact fun _ _ => rfl
  | succ fuel ih =>
    intro i c
    rw [visitFrom, Machine.visitFrom]
    dsimp only
    split
    · cases hvisit : c.machine.visit kit fuel isFirst i with
      | none => simp only [record, hvisit, Option.map_none, bind_eq_bind, bind_none]
      | some m =>
        simp only [record, hvisit, map_some, bind_eq_bind, Option.bind_some, pure]
        rw [← ih (i + 1) ⟨m, _⟩]
        cases visitFrom kit isFirst fuel (i + 1) ⟨m, _⟩ <;> rfl
    · rfl

theorem pass_follows (kit : Kit σ) (fuel : Nat) (isFirst : Bool) :
    Follows (pass kit fuel isFirst) (Machine.pass kit fuel isFirst) :=
  (quietly_follows _).andThen fun _ => (visitFrom_follows kit isFirst fuel 0).andThen fun _ =>
    (record_follows _ _).andThen fun _ => follows_pure _

theorem passes_follows (kit : Kit σ) (start : Float) (fuel : Nat) : ∀ running,
    Follows (passes kit start fuel running) (Machine.passes kit start fuel running) := by
  induction fuel with
  | zero => exact fun _ _ => rfl
  | succ fuel ih =>
    intro running
    rw [passes, Machine.passes]
    refine (quietly_follows _).andThen fun goes => ?_
    cases goes with
    | true =>
      exact (pass_follows kit fuel false).andThen fun p => (ih p.1).andThen fun _ => follows_pure _
    | false => exact follows_pure _

theorem stepThreads_follows (kit : Kit σ) (fuel : Nat) :
    Follows (stepThreads kit fuel) (Machine.stepThreads kit fuel) := by
  refine (quietly_follows _).andThen fun _ => (quietly_follows _).andThen fun start =>
    (quietly_follows _).andThen fun m => ?_
  split
  · exact follows_pure _
  · exact (pass_follows kit fuel true).andThen fun p =>
      (passes_follows kit start fuel p.1).andThen fun _ => follows_pure _

theorem step_follows (kit : Kit σ) (fuel : Nat) : Follows (step kit fuel) (Machine.step kit fuel) :=
  (quietly_follows _).andThen fun _ => (quietly_follows _).andThen fun _ =>
    (quietly_follows _).andThen fun _ => (stepThreads_follows kit fuel).andThen fun _ =>
    (quietly_follows _).andThen fun _ => follows_pure _

theorem apply_follows (kit : Kit σ) (fuel : Nat) (op : Operation) :
    Follows (apply kit fuel op) (op.apply kit fuel) := by
  cases op
  case step => exact step_follows kit fuel
  all_goals exact quietly_follows _

/-- **A chronicle tells what the machine does.** -/
theorem play_follows (kit : Kit σ) (ops : List (Operation × Nat)) :
    Follows (play kit ops) (Machine.play kit ops) := by
  induction ops with
  | nil => exact follows_pure _
  | cons op ops ih =>
    exact (apply_follows kit op.2 op.1).andThen fun _ => ih.andThen fun _ => follows_pure _

end Chronicle
end BlockMachine

import BlockMachine.Proofs.Exec
import BlockMachine.Turn.Step

/-!
# A turn, piece by piece

What `Turn.execute`, `Turn.interpret` and `Turn.resume` do from a given state, as equations that
take apart the cases they distinguish. `Turn.afterBlock` is what the interpreter does between two
blocks: it says whether the turn goes on, and from where. `Turn.tick` is the step of compiled code.
-/

namespace BlockMachine.Turn

open Exec

variable {σ : Type} {kit : Kit σ} {s s₁ : Turn σ} {fuel : Nat} {id current : BlockId} {b : Block}

/-! ## Running a block -/

theorem execute_lost (htarget : s.machine.targets.contains s.thread.target = false) :
    execute kit (fuel + 1) s = some (.ok (), { s with thread := s.thread.retire }) := by
  rw [execute, get_andThen, if_pos (by simp [htarget])]
  rfl

section

variable (htarget : s.machine.targets.contains s.thread.target = true)

include htarget

theorem execute_literal (hblock : s.thread.block? = some id)
    (hb : s.thread.sheet.block? id = some b) (hprimitive : kit.primitive? b.opcode = none) :
    execute kit (fuel + 1) s = runLiteral kit.toCatalog b s := by
  rw [execute, get_andThen, if_neg (by simp [htarget]), hblock]
  dsimp only
  rw [hb]
  dsimp only
  rw [hprimitive]

theorem execute_primitive {primitive : Primitive σ} (hblock : s.thread.block? = some id)
    (hb : s.thread.sheet.block? id = some b)
    (hprimitive : kit.primitive? b.opcode = some primitive) :
    execute kit (fuel + 1) s = runBlock kit (execute kit fuel) b primitive s := by
  rw [execute, get_andThen, if_neg (by simp [htarget]), hblock]
  dsimp only
  rw [hb]
  dsimp only
  rw [hprimitive]

end

/-- All that running a block comes to. -/
theorem execute_cases {r : Except BlockError Unit} (h : execute kit (fuel + 1) s = some (r, s₁)) :
    r = .ok () ∧ s₁ = { s with thread := s.thread.retire } ∨
    s.machine.targets.contains s.thread.target = true ∧
      (r = .ok () ∧ s₁ = s ∨
        ∃ id b, s.thread.block? = some id ∧ s.thread.sheet.block? id = some b ∧
          (kit.primitive? b.opcode = none ∧ runLiteral kit.toCatalog b s = some (r, s₁) ∨
            ∃ primitive, kit.primitive? b.opcode = some primitive ∧
              runBlock kit (execute kit fuel) b primitive s = some (r, s₁))) := by
  cases htarget : s.machine.targets.contains s.thread.target with
  | false =>
    cases (execute_lost htarget).symm.trans h
    exact .inl ⟨rfl, rfl⟩
  | true =>
    cases hblock : s.thread.block? with
    | none =>
      rw [execute, get_andThen, if_neg (by simp [htarget]), hblock] at h
      cases h
      exact .inr ⟨rfl, .inl ⟨rfl, rfl⟩⟩
    | some id =>
      cases hb : s.thread.sheet.block? id with
      | none =>
        rw [execute, get_andThen, if_neg (by simp [htarget]), hblock] at h
        dsimp only at h
        rw [hb] at h
        cases h
        exact .inl ⟨rfl, rfl⟩
      | some b =>
        refine .inr ⟨rfl, .inr ⟨id, b, rfl, hb, ?_⟩⟩
        cases hprimitive : kit.primitive? b.opcode with
        | none => exact .inl ⟨rfl, (execute_literal htarget hblock hb hprimitive).symm.trans h⟩
        | some primitive =>
          exact .inr ⟨primitive, rfl, (execute_primitive htarget hblock hb hprimitive).symm.trans h⟩

/-- What holds between two inputs, and what holds whenever a reporter has stopped. -/
theorem evalInputs_induction {go : Exec (Turn σ) Unit} {depth : Nat} {reported : Table Value}
    {between stopped : Turn σ → Prop} (hstopped : ∀ s, between s → stopped s)
    (hgo : ∀ s name input s₁, between s → go { s with
        thread := (s.thread.onDepth depth ({ · with waiting := some name })).push (some input) } =
      some (.ok (), s₁) → stopped s₁)
    (hwait : ∀ s (values : List (String × Value)), stopped s → s.thread.status = .promiseWait →
      stopped { s with
        thread := s.thread.onDepth depth fun f =>
          { f with reported := f.reported.insertMany values } })
    (hpop : ∀ s name, stopped s → s.thread.depth = depth + 1 → s.thread.status ≠ .done →
      between { s with
        thread := s.thread.pop.onFrame fun f =>
          { f with waiting := none, reported := f.reported.erase name } })
    {names : List String} {args : Args} {r : Option Args} (hs : between s)
    (h : evalInputs go b depth reported args names s = some (.ok r, s₁)) :
    stopped s₁ ∧ (r.isSome → between s₁) := by
  induction names generalizing s args with
  | nil =>
    obtain ⟨-, rfl⟩ := pure_some.mp h
    exact ⟨hstopped _ hs, fun _ => hs⟩
  | cons name names ih =>
    rw [evalInputs] at h
    by_cases hslot : isStackSlot name
    · rw [if_pos hslot] at h
      exact ih hs h
    rw [if_neg hslot] at h
    cases hreported : reported[name]? with
    | some v =>
      simp only [hreported] at h
      exact ih hs h
    | none =>
    cases hinput : b.inputBlock? name with
    | none =>
      simp only [hreported, hinput] at h
      exact ih hs h
    | some input =>
      simp only [hreported, hinput] at h
      rw [onThread_andThen] at h
      obtain ⟨u, s₂, hrun, h⟩ := bind_ok.mp h
      have hs₂ := hgo _ _ _ _ hs hrun
      rw [getThread_andThen] at h
      by_cases hstatus : s₂.thread.status = .promiseWait
      · rw [if_pos (by rw [hstatus]; rfl), onThread_andThen] at h
        obtain ⟨hr, rfl⟩ := pure_some.mp h
        cases hr
        exact ⟨hwait _ _ hs₂ hstatus, by simp⟩
      rw [if_neg (by simpa using hstatus)] at h
      by_cases hgone : s₂.thread.depth != depth + 1 || s₂.thread.isDone
      · rw [if_pos hgone] at h
        obtain ⟨hr, rfl⟩ := pure_some.mp h
        cases hr
        exact ⟨hs₂, by simp⟩
      · rw [if_neg hgone, onThread_andThen] at h
        simp only [Thread.isDone, Bool.or_eq_true, bne_iff_ne, beq_iff_eq, not_or,
          Decidable.not_not] at hgone
        exact ih (hpop _ _ hs₂ hgone.1 hgone.2.1) h

/-! ## From block to block -/

theorem warpExpired_thread (s : Turn σ) : s.warpExpired.2.thread = s.thread := by
  unfold warpExpired
  split <;> rfl

theorem goesOn_thread (s : Turn σ) : s.goesOn.2.thread = s.thread := by
  unfold goesOn
  split
  · exact warpExpired_thread s
  · rfl

theorem unwind_thread (s : Turn σ) : s.unwind.2.thread = s.thread.unwind.2 := by
  unfold unwind
  rcases s.thread.unwind with ⟨place, t⟩
  cases place with
  | looped => exact goesOn_thread _
  | ready | finished | waiting => rfl

/-- What the interpreter does after a block: whether the turn goes on, and from where. The block was
run from the thread `t`, whose innermost frame was at `current`. -/
def afterBlock (t : Thread) (current : BlockId) (s : Turn σ) : Bool × Turn σ :=
  match s.thread.status with
  | .yield =>
    let s := { s with thread := { s.thread with status := .running } }
    let (expired, s) := if t.isWarp then s.warpExpired else (true, s)
    (!expired, s)
  | .promiseWait | .yieldTick | .done => (false, s)
  | .running =>
    let moves := s.thread.depth == t.depth && s.thread.block? == some current
    unwind { s with thread := if moves then s.thread.goNext else s.thread }

/-- After a block that is done, its frame goes on to the next block. -/
theorem afterBlock_done {t : Thread} (hrun : s.thread.status = .running)
    (hdepth : s.thread.depth = t.depth) (hblock : s.thread.block? = some current) :
    afterBlock t current s = unwind { s with thread := s.thread.goNext } := by
  unfold afterBlock
  rw [hrun, hdepth, hblock]
  dsimp only
  rw [if_pos (by simp)]

theorem goesOn_andThen (p : Bool × Turn σ) :
    (if p.1 then interpret kit fuel else pure () : Exec (Turn σ) Unit) p.2 =
      if p.1 then interpret kit fuel p.2 else some (.ok (), p.2) := by
  obtain ⟨goes, s⟩ := p
  cases goes <;> rfl

theorem stops_andThen (p : Bool × Turn σ) :
    (if p.1 then pure () else interpret kit fuel : Exec (Turn σ) Unit) p.2 =
      if !p.1 then interpret kit fuel p.2 else some (.ok (), p.2) := by
  obtain ⟨stops, s⟩ := p
  cases stops <;> rfl

theorem interpret_nowhere (hblock : s.thread.block? = none) :
    interpret kit (fuel + 1) s = some (.ok (), s) := by
  rw [interpret, getThread_andThen, hblock]
  rfl

section

variable (hblock : s.thread.block? = some current)

include hblock

theorem interpret_outOfFuel (h : execute kit fuel s.startWarp = none) :
    interpret kit (fuel + 1) s = none := by
  rw [interpret, getThread_andThen, hblock]
  dsimp only
  rw [getThread_andThen, modify_andThen]
  exact andThen_none h

theorem interpret_failed {e : BlockError} (h : execute kit fuel s.startWarp = some (.error e, s₁)) :
    interpret kit (fuel + 1) s = some (.error e, s₁) := by
  rw [interpret, getThread_andThen, hblock]
  dsimp only
  rw [getThread_andThen, modify_andThen]
  exact andThen_error h

theorem interpret_succ (h : execute kit fuel s.startWarp = some (.ok (), s₁)) :
    interpret kit (fuel + 1) s =
      if (afterBlock s.thread current s₁).1 then
        interpret kit fuel (afterBlock s.thread current s₁).2
      else some (.ok (), (afterBlock s.thread current s₁).2) := by
  rw [interpret, getThread_andThen, hblock]
  dsimp only
  rw [getThread_andThen, modify_andThen, andThen_ok h]
  rw [getThread_andThen, afterBlock]
  cases hstatus : s₁.thread.status
  case promiseWait | yieldTick | done => rfl
  case yield =>
    dsimp only
    rw [onThread_andThen, get_andThen, set_andThen]
    exact stops_andThen _
  case running =>
    dsimp only
    rw [onThread_andThen, get_andThen, set_andThen]
    exact goesOn_andThen _

end

/-! ## Compiled code -/

/-- Runs the instruction at the cursor; a frame whose code has run out is left. -/
def tick (kit : Kit σ) (fuel : Nat) (c : Cursor) : Exec (Turn σ) Flow :=
  match c.instr? with
  | some i => runInstr kit fuel c.pc i
  | none => finishFrame

/-- Running code is running its instructions one after the other. -/
theorem runCode_succ (kit : Kit σ) (fuel : Nat) :
    runCode kit (fuel + 1) = do
      let t ← getThread
      if t.status != .running then return
      else
        match t.cursor? with
        | none => onThread Thread.retire
        | some c => do
          match ← tick kit fuel c with
          | .go => runCode kit fuel
          | .pause => return := by
  rw [runCode]
  refine congrArg _ (funext fun t => ?_)
  split
  · rfl
  · cases t.cursor? with
    | none => rfl
    | some c =>
      unfold tick
      dsimp only
      cases c.instr? <;> rfl

/-! ## Turns -/

/-- A thread as it goes on in compiled code. -/
def resumed (s : Turn σ) : Turn σ :=
  let s := s.startWarp
  { s with thread :=
      if s.thread.status == .yield then { s.thread with status := .running } else s.thread }

/-- The end of a turn, whether it failed or not. -/
def finish (q : Except BlockError Unit × Turn σ) : Turn σ :=
  match q.1 with
  | .ok () => q.2
  | .error e => q.2.fail e

theorem step_eq (kit : Kit σ) (fuel : Nat) (s : Turn σ) :
    s.step kit fuel = (resume kit fuel s).map finish := by
  unfold step
  cases resume kit fuel s with
  | none => rfl
  | some q =>
    obtain ⟨r, s₁⟩ := q
    cases r <;> rfl

/-- A turn of a thread in compiled code. -/
theorem resume_coded (hcursor : s.thread.cursor?.isSome) :
    resume kit fuel s = runCode kit fuel s.resumed := by
  rw [resume, getThread_andThen, if_pos hcursor, modify_andThen, onThread_andThen]
  rfl

/-- Whether an interpreted thread has a block to go on with, once it has left a frame that has
none. -/
def placed (s : Turn σ) : Bool × Turn σ :=
  if s.thread.block?.isNone then s.unwind else (true, s)

theorem placed_induction {P : Turn σ → Prop} (hunwind : P s.unwind.2) (hs : P s) :
    P s.placed.2 := by
  unfold placed
  split
  · exact hunwind
  · exact hs

/-- A turn of an interpreted thread. -/
theorem resume_interpreted (hcursor : s.thread.cursor? = none) :
    resume kit fuel s = if s.placed.1 then interpret kit fuel s.placed.2
      else some (.ok (), s.placed.2) := by
  rw [resume, getThread_andThen, if_neg (by simp [hcursor]), get_andThen]
  exact goesOn_andThen s.placed

/-- What a thread makes of the promise it has waited for: whether the turn goes on, and from
where. -/
def awaken (kit : Kit σ) (s : Turn σ) : Bool × Turn σ :=
  match s.thread.pending with
  | none => (false, { s with thread := { s.thread with status := .running } })
  | some pending =>
    let awake := { s with thread := { s.thread with pending := none, status := .running } }
    let go (s : Turn σ) : Bool × Turn σ := (s.thread.status == .running && !s.thread.isDone, s)
    match s.machine.promises[pending.promise]? with
    | some (.resolved v) => go (awake.settle kit.toCatalog v pending.waiter)
    | some (.rejected _) => go (awake.forgo pending.waiter)
    | _ => (false, s)

theorem awaken_induction {P : Turn σ → Prop} (hstays : P s)
    (hwakes : P { s with thread := { s.thread with status := .running } })
    (hsettle : ∀ pending v, s.thread.pending = some pending →
      P (settle { s with thread := { s.thread with pending := none, status := .running } }
        kit.toCatalog v pending.waiter))
    (hforgo : ∀ pending, s.thread.pending = some pending →
      P (forgo { s with thread := { s.thread with pending := none, status := .running } }
        pending.waiter)) :
    P (s.awaken kit).2 := by
  unfold awaken
  cases hpending : s.thread.pending with
  | none => exact hwakes
  | some pending =>
    dsimp only
    split
    · exact hsettle pending _ hpending
    · exact hforgo pending hpending
    · exact hstays

theorem awaken_status (h : (s.awaken kit).1 = true) :
    (s.awaken kit).2.thread.status = .running := by
  unfold awaken at h ⊢
  cases hpending : s.thread.pending with
  | none => rfl
  | some pending =>
    rw [hpending] at h
    dsimp only at h ⊢
    split at h
    · exact eq_of_beq (Bool.and_eq_true_iff.mp h).1
    · exact eq_of_beq (Bool.and_eq_true_iff.mp h).1
    · cases h

theorem await_eq (kit : Kit σ) (fuel : Nat) (s : Turn σ) : s.await kit fuel =
    if (s.awaken kit).1 then (s.awaken kit).2.step kit fuel else some (s.awaken kit).2 := by
  unfold await awaken
  cases s.thread.pending with
  | none => rfl
  | some pending =>
    rcases hp : s.machine.promises[pending.promise]? with _ | _ | _ | _ <;> simp only [hp] <;> rfl

end BlockMachine.Turn

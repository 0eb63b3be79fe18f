import BlockMachine.Proofs.Script.Recursion

/-!
# Waits

A wait starts a timer when the thread comes to it, and ends the turn then and on every visit that
finds that the time is not up. The timer is kept in the frame of the block, or with the instruction
that the block was compiled to.

The visits of a thread follow each other as the scheduler makes them (`Turn.Course`): each finds the
thread as the turn before has left it, and a machine that may have changed in any way. What a visit
does at a wait is read off the executor of the frame (`Frame.executor`), with the primitive that the
kit has for the block.

## Results

* `Turn.visits_wait`: one visit of a wait, from the timer that it finds to the one that it leaves.
* `Turn.wait_takes_its_time`: all visits, from the one in which the thread comes to the wait to the
  first one that is late enough.
* `wait_asks_again`: a duration that is a promise each time keeps the block from looking at the
  time.

Left out are waits in warp mode, and visits in which the duration is not known yet.
-/

namespace BlockMachine

variable {σ : Type}

/-- A timer that runs. -/
structure Timer where
  start : Float
  duration : Float

namespace Timer

/-- What is remembered of a timer. -/
def scratch (timer : Timer) : Scratch :=
  { timerStart := some timer.start, duration := timer.duration }

/-- The timer that runs after a visit; none when the time is up. -/
def onward (timer : Option Timer) (now seconds : Float) : Option Timer :=
  match timer with
  | none => some ⟨now, Library.Flow.waitTime seconds⟩
  | some timer => if now - timer.start >= timer.duration then none else some timer

end Timer

/-- The primitive starts the timer, or looks whether the time is up. -/
theorem Call.run_wait (kit : Kit σ) (args : Args) (s : Turn σ) (timer : Option Timer) :
    let c : Call σ := { s with scratch := (timer.map Timer.scratch).getD {} }
    match Timer.onward timer s.machine.now (args.number "DURATION") with
    | none => ∀ go, run kit go .interpreted (Library.Flow.wait args) c = some (.ok .nothing, c)
    | some next => ∃ machine, ∀ go, run kit go .interpreted (Library.Flow.wait args) c =
        some (.ok .nothing,
          { machine, thread := { s.thread with status := .yield }, scratch := next.scratch }) := by
  intro c
  cases timer with
  | none => exact ⟨_, fun _ => rfl⟩
  | some timer =>
    have hrun : ∀ go, run kit go .interpreted (Library.Flow.wait args) c =
        run kit go .interpreted (if !c.scratch.isTimeUp s.machine.now then do
          Action.yield
          return .nothing
        else return .nothing) c := fun _ => rfl
    have hup : c.scratch.isTimeUp s.machine.now =
        decide (s.machine.now - timer.start >= timer.duration) := rfl
    simp only [hrun, hup, Timer.onward]
    by_cases hlate : s.machine.now - timer.start >= timer.duration
    · rw [if_pos hlate, decide_eq_true hlate]
      exact fun _ => rfl
    · rw [if_neg hlate, decide_eq_false hlate]
      exact ⟨_, fun _ => rfl⟩

/-- The place in the code, but for what instructions remember. -/
def Cursor.idle (c : Cursor) : Cursor :=
  { c with scratches := ∅ }

/-- The frame but for what is remembered in it. -/
def Frame.idle (f : Frame) : Frame :=
  { f.bare with scratch := {}, code := f.bare.code.map Cursor.idle }

theorem Frame.idle_of_bare {f g : Frame} (h : g.bare = f.bare) (scratch : Scratch) :
    Frame.idle { g with scratch } = f.idle :=
  (congrArg (fun b : Frame => { b with scratch := {}, code := b.code.map Cursor.idle }) h :)

/-- The frame is at a wait, where that timer runs: at a block, or at the instruction that one was
compiled to. -/
inductive Frame.Waits (sheet : Sheet) (timer : Option Timer) (f : Frame) : Prop
  | block {id : BlockId} {b : Block} (hcode : f.code = none) (hblock : f.block = some id)
      (hb : sheet.block? id = some b) (hopcode : b.opcode = "control_wait")
      (htimer : f.scratch = (timer.map Timer.scratch).getD {})
  | instr {c : Cursor} {e : Expr} (hcode : f.code = some c) (hinstr : c.instr? = some (.wait e))
      (htimer : c.scratches[c.pc]? = timer.map Timer.scratch)

/-- What runs the frame. -/
def Frame.executor (f : Frame) : Kit σ → Nat → Exec (Turn σ) Unit :=
  match f.code with
  | none => Turn.interpret
  | some _ => Turn.runCode

namespace Turn

open Exec

variable {kit : Kit σ} {executor : Kit σ → Nat → Exec (Turn σ) Unit} {s s₁ : Turn σ}
  {f g : Frame} {rest : List Frame} {timer : Option Timer} {now seconds : Float}
  {p : Bool × Turn σ}

/-! ## Where visits come to -/

/-- What is left to do at a place: the executor goes on there, or the turn ends. -/
def onward (executor : Kit σ → Nat → Exec (Turn σ) Unit) (kit : Kit σ) (fuel : Nat)
    (p : Bool × Turn σ) : Option (Except BlockError Unit × Turn σ) :=
  if p.1 then executor kit fuel p.2 else some (.ok (), p.2)

/-- A turn that starts in `s` comes to that place. -/
def Comes (kit : Kit σ) (executor : Kit σ → Nat → Exec (Turn σ) Unit) (s : Turn σ)
    (p : Bool × Turn σ) : Prop :=
  ∃ k fuel₀, ∀ fuel ≥ fuel₀, s.visit kit (fuel + k) = ended (onward executor kit fuel p)

/-- The executor goes from there to that place in one step. -/
def Goes (kit : Kit σ) (executor : Kit σ → Nat → Exec (Turn σ) Unit) (s : Turn σ)
    (p : Bool × Turn σ) : Prop :=
  ∃ fuel₀, ∀ fuel ≥ fuel₀, executor kit (fuel + 1) s = onward executor kit fuel p

theorem Comes.andGoes (h : Comes kit executor s (true, s₁)) (h' : Goes kit executor s₁ p) :
    Comes kit executor s p := by
  obtain ⟨k, fuel₀, h⟩ := h
  obtain ⟨fuel₁, h'⟩ := h'
  refine ⟨k + 1, fuel₀ + fuel₁, fun fuel hfuel => ?_⟩
  rw [← Nat.add_assoc, Nat.add_right_comm, h (fuel + 1) (by omega)]
  exact congrArg ended (h' fuel (by omega))

/-- A turn that comes to its end is over. -/
theorem Comes.over (h : Comes kit executor s (false, s₁)) : ∃ fuel, s.visit kit fuel = some s₁ := by
  obtain ⟨k, fuel₀, h⟩ := h
  exact ⟨fuel₀ + k, h fuel₀ (Nat.le_refl _)⟩

/-- The visits of a thread, from the one on in which it comes to `first`. Each finds the thread as
the turn before has left it; meanwhile the machine may change in any way. -/
structure Course (kit : Kit σ) (executor : Kit σ → Nat → Exec (Turn σ) Unit) (first : Turn σ)
    (s : Nat → Turn σ) : Prop where
  comes : Comes kit executor (s 0) (true, first)
  next : ∀ {n fuel s'}, (s n).visit kit fuel = some s' →
    (s (n + 1)).thread = { s'.thread with warpStart := none }

/-- Where the visits come to the block or the instruction that the first one has come to. -/
def places (first : Turn σ) (s : Nat → Turn σ) : Nat → Turn σ
  | 0 => first
  | n + 1 => s (n + 1)

/-! ## Visits of a wait -/

/-- The thread `t` is at the wait of the frame `f` in normal mode. The frame is `g` by now, and that
timer runs. -/
structure AtWait (t : Thread) (f : Frame) (rest : List Frame) (timer : Option Timer) (s : Turn σ)
    (g : Frame) : Prop where
  running : t.status = .running
  thread : ∃ start, s.thread = { t with stack := g :: rest, warpStart := start }
  normal : g.warp = false
  same : g.idle = f.idle
  waits : g.Waits t.sheet timer

/-- The wait is called at that time of the pass, and its duration comes out as so many seconds. The
inputs of a block are evaluated on each visit, whatever that does to the machine; an instruction
evaluates its expression when it starts the timer. -/
inductive AsksFor (kit : Kit σ) (s : Turn σ) (g : Frame) (rest : List Frame) (now seconds : Float) :
    Prop
  | block {id : BlockId} {b : Block} {args : Args} {m : Machine σ} {g' : Frame} {fuel₀ : Nat}
      (hcode : g.code = none) (hblock : g.block = some id)
      (hb : s.thread.sheet.block? id = some b)
      (hpresent : s.machine.targets.contains s.thread.target = true)
      (hinputs : ∀ fuel, evalInputs (execute kit (fuel + fuel₀)) b (rest.length + 1) g.reported
        (.ofFields b.opcode b.mutation b.fields) b.inputs.keys
          (of s.machine s.thread (g.bare :: rest)) =
        some (.ok (some args), of m s.thread (g' :: rest)))
      (hbare : g'.bare = g.bare) (hnow : m.now = now)
      (hseconds : args.number "DURATION" = seconds) :
      AsksFor kit s g rest now seconds
  | instr {c : Cursor} {e : Expr} (hcode : g.code = some c) (hinstr : c.instr? = some (.wait e))
      (hnow : s.machine.now = now) (heval : c.scratches[c.pc]? = none →
        ∃ v s₁, eval e s = some (.ok v, s₁) ∧ v.toNumber = seconds) : AsksFor kit s g
          rest now seconds

/-- Without inputs, the duration is the one in the field. -/
theorem AsksFor.of_fields (kit : Kit σ) (rest : List Frame) {id : BlockId} {b : Block}
    (hcode : g.code = none) (hblock : g.block = some id) (hb : s.thread.sheet.block? id = some b)
    (hpresent : s.machine.targets.contains s.thread.target = true) (hinputs : b.inputs.keys = []) :
    AsksFor kit s g rest s.machine.now
      ((Args.ofFields b.opcode b.mutation b.fields).number "DURATION") := by
  have heval : ∀ fuel, evalInputs (execute kit (fuel + 0)) b (rest.length + 1) g.reported
      (.ofFields b.opcode b.mutation b.fields) b.inputs.keys
        (of s.machine s.thread (g.bare :: rest)) =
      some (.ok (some (.ofFields b.opcode b.mutation b.fields)),
        of s.machine s.thread (g.bare :: rest)) := by
    intro fuel
    rw [hinputs]
    rfl
  exact .block hcode hblock hb hpresent heval rfl rfl rfl

/-- What a visit leaves of a wait. With a timer that runs the turn ends there; without one it goes
on behind the wait, of which nothing is kept. -/
inductive Becomes (s : Turn σ) (g : Frame) (rest : List Frame) :
    Option Timer → Bool × Turn σ → Prop
  | stays {timer : Timer} (m : Machine σ) {g' : Frame} (hsame : g'.idle = g.idle)
      (hwaits : g'.Waits s.thread.sheet (some timer)) :
      Becomes s g rest (some timer) (false, of m s.thread (g' :: rest))
  | block (m : Machine σ) (hcode : g.code = none) :
      Becomes s g rest none
        (of m s.thread ({ block := g.block >>= s.thread.sheet.next? } :: rest)).unwind
  | instr {c : Cursor} {scratches : Std.TreeMap Nat Scratch} (hcode : g.code = some c)
      (hfresh : scratches[c.pc]? = none) :
      Becomes s g rest none (true, of s.machine s.thread
        ({ g with code := some { c with scratches, pc := c.pc + 1 } } :: rest))

section

variable {t : Thread} (hat : s.AtWait t f rest timer g)

include hat

theorem AtWait.of_eq : of s.machine s.thread (g :: rest) = s := by
  obtain ⟨start, hthread⟩ := hat.thread
  rw [of, hthread]
  exact (congrArg (Turn.mk s.machine) hthread).symm

theorem AtWait.status : s.thread.status = .running := by
  obtain ⟨start, hthread⟩ := hat.thread
  rw [hthread]
  exact hat.running

theorem AtWait.sheet : s.thread.sheet = t.sheet := by
  obtain ⟨start, hthread⟩ := hat.thread
  rw [hthread]

end

theorem yieldPoint_normal (hnormal : s.thread.isWarp = false) :
    yieldPoint s = some (.ok .pause, s) := by
  rw [yieldPoint_eq, goesOn, hnormal]
  rfl

section

variable {m m' : Machine σ} {t : Thread} {g' : Frame} (hwarp : g.warp = false)

include hwarp

/-- In normal mode the interpreter is behind a block when its primitive was called and reports
nothing. -/
theorem goes_called {id : BlockId} {b : Block} {primitive : Primitive σ} {args : Args} {fuel₀ : Nat}
    (hblock : g.block = some id) (hb : t.sheet.block? id = some b)
    (hprimitive : kit.primitive? b.opcode = some primitive)
    (hpresent : m.targets.contains t.target = true)
    (hinputs : ∀ fuel, evalInputs (execute kit (fuel + fuel₀)) b (rest.length + 1) g.reported
      (.ofFields b.opcode b.mutation b.fields) b.inputs.keys (of m t (g.bare :: rest)) =
        some (.ok (some args), of m' t (g' :: rest)))
    (hcall : ∀ fuel, callBlock kit (execute kit fuel) (rest.length + 1) primitive args
      (of m' t (g' :: rest)) = some (.ok .nothing, s₁)) :
    Goes kit interpret (of m t (g :: rest)) (afterBlock (of m t (g :: rest)).thread id s₁) := by
  have hstart : (of m t (g :: rest)).startWarp = of m t (g :: rest) := by
    have hmode : (of m t (g :: rest)).thread.isWarp = false := hwarp
    rw [startWarp, hmode]
    rfl
  have hexecute : ∀ fuel, execute kit (fuel + fuel₀ + 1) (of m t (g :: rest)) =
      (callBlock kit (execute kit (fuel + fuel₀)) (rest.length + 1) primitive args
        >>= takeReport kit.toCatalog b.id b.opcode) (of m' t (g' :: rest)) := by
    intro fuel
    rw [execute_primitive (s := of m t (g :: rest)) hpresent hblock hb hprimitive, runBlock,
      getThread_andThen, onThread_andThen]
    exact andThen_ok (hinputs fuel)
  refine ⟨fuel₀ + 1, fun fuel hfuel => interpret_succ hblock ?_⟩
  obtain ⟨k, rfl⟩ := Nat.exists_eq_add_of_le' hfuel
  rw [hstart, ← Nat.add_assoc, hexecute k]
  exact (andThen_ok (hcall _)).trans rfl

variable (hrun : t.status = .running)

include hrun

/-- A visit of the block. -/
theorem goes_block {id : BlockId} {b : Block} {args : Args} {fuel₀ : Nat}
    (hkit : kit.primitive? "control_wait" = (Library.core : Catalog σ).primitive? "control_wait")
    (hcode : g.code = none) (hblock : g.block = some id) (hb : t.sheet.block? id = some b)
    (hopcode : b.opcode = "control_wait")
    (htimer : g.scratch = (timer.map Timer.scratch).getD {})
    (hpresent : m.targets.contains t.target = true)
    (hinputs : ∀ fuel, evalInputs (execute kit (fuel + fuel₀)) b (rest.length + 1) g.reported
      (.ofFields b.opcode b.mutation b.fields) b.inputs.keys (of m t (g.bare :: rest)) =
        some (.ok (some args), of m' t (g' :: rest)))
    (hbare : g'.bare = g.bare) :
    ∃ p, (of m t (g :: rest)).Becomes g rest
        (Timer.onward timer m'.now (args.number "DURATION")) p ∧
      Goes kit interpret (of m t (g :: rest)) p := by
  have hprimitive : kit.primitive? b.opcode = some Library.Flow.wait := by rw [hopcode, hkit]; rfl
  have hblock' : g'.block = some id := (congrArg Frame.block hbare).trans hblock
  have hwarp' : g'.warp = false := (Scene.bare_warp hbare).trans hwarp
  have hscratch : g'.scratch = g.scratch := (congrArg Frame.scratch hbare :)
  have hgoes : ∀ {s₁ : Turn σ}, (∀ fuel, callBlock kit (execute kit fuel) (rest.length + 1)
      Library.Flow.wait args (of m' t (g' :: rest)) = some (.ok .nothing, s₁)) →
        Goes kit interpret (of m t (g :: rest)) (afterBlock (of m t (g :: rest)).thread id s₁) :=
    goes_called hwarp hblock hb hprimitive hpresent hinputs
  have hcall := Call.run_wait kit args (of m' t (g' :: rest)) timer
  dsimp only at hcall
  rw [← htimer, ← hscratch] at hcall
  have hnow : (of m' t (g' :: rest)).machine.now = m'.now := rfl
  rw [hnow] at hcall
  generalize Timer.onward timer m'.now (args.number "DURATION") = next at hcall ⊢
  cases next with
  | none =>
    have hmoves : (of m' t (g' :: rest)).thread.goNext =
        { t with stack := { block := g.block >>= t.sheet.next? } :: rest } := by
      show { t with stack := { block := g'.block >>= t.sheet.next?, warp := g'.warp } :: rest } = _
      rw [hwarp', hblock', hblock]
    have hafter := afterBlock_done (s := of m' t (g' :: rest)) (t := (of m t (g :: rest)).thread)
      hrun rfl hblock'
    rw [hmoves] at hafter
    have hdone : Goes kit interpret (of m t (g :: rest))
        (afterBlock (of m t (g :: rest)).thread id (of m' t (g' :: rest))) :=
      hgoes fun fuel => callBlock_ran [] (hcall _) rfl
    rw [hafter] at hdone
    exact ⟨_, .block m' hcode, hdone⟩
  | some next =>
    obtain ⟨m₁, hcall⟩ := hcall
    have hyields : Goes kit interpret (of m t (g :: rest))
      (afterBlock (of m t (g :: rest)).thread id
        (of m₁ { t with status := .yield } ({ g' with scratch := next.scratch } :: rest))) :=
      hgoes fun fuel => callBlock_ran (u := { t with status := .yield }) [] (hcall _) rfl
    have hmode : (of m t (g :: rest)).thread.isWarp = false := hwarp
    have hafter : afterBlock (of m t (g :: rest)).thread id
        (of m₁ { t with status := .yield } ({ g' with scratch := next.scratch } :: rest)) =
          (false, of m₁ t ({ g' with scratch := next.scratch } :: rest)) := by
      rw [afterBlock, hmode, ← hrun]
      rfl
    rw [hafter] at hyields
    have hcode' : g'.code = none := (congrArg Frame.code hbare :).trans hcode
    exact ⟨_, .stays m₁ (Frame.idle_of_bare hbare next.scratch)
      (.block hcode' hblock' hb hopcode rfl), hyields⟩

/-- A visit of the instruction. -/
theorem goes_instr {c : Cursor} {e : Expr} (hcode : g.code = some c)
    (hinstr : c.instr? = some (.wait e)) (htimer : c.scratches[c.pc]? = timer.map Timer.scratch)
    (heval : c.scratches[c.pc]? = none →
      ∃ v s₁, eval e (of m t (g :: rest)) = some (.ok v, s₁) ∧ v.toNumber = seconds) :
    ∃ p, (of m t (g :: rest)).Becomes g rest (Timer.onward timer m.now seconds) p ∧
      Goes kit runCode (of m t (g :: rest)) p := by
  have hat : (of m t (g :: rest)).thread.At g c rest := ⟨rfl, hcode⟩
  have hgoes : ∀ {flow s'}, wait e c.pc (of m t (g :: rest)) = some (.ok flow, s') →
      Goes kit runCode (of m t (g :: rest)) (flow == .go, s') := by
    intro flow s' h
    have htick : ∀ fuel, tick kit fuel c (of m t (g :: rest)) = some (.ok flow, s') := by
      intro fuel
      rw [tick, hinstr]
      exact h
    cases flow with
    | go => exact ⟨0, fun fuel _ => runCode_go hat hrun (htick fuel)⟩
    | pause => exact ⟨0, fun fuel _ => runCode_pause hat hrun (htick fuel)⟩
  unfold wait at hgoes
  rw [get_andThen, getThread_andThen, hat.cursor?] at hgoes
  simp only [Option.bind_eq_bind, Option.bind_some, htimer] at hgoes
  cases timer with
  | none =>
    obtain ⟨v, s₁, heval, hseconds⟩ := heval htimer
    simp only [Option.map_none] at hgoes
    rw [andThen_ok heval, onThread_andThen, (eval_aside e _ _ _ heval).thread, onCursor_of hcode,
      hseconds] at hgoes
    have hpauses := hgoes (yieldPoint_normal hwarp)
    refine ⟨_, .stays _ ?_ ?_, hpauses⟩
    · simp [Frame.idle, Frame.bare, Cursor.idle, hcode]
    · exact .instr rfl hinstr Std.TreeMap.getElem?_insert_self
  | some timer =>
    simp only [Option.map_some, Timer.scratch, Option.getD_some] at hgoes
    unfold Timer.onward
    dsimp only
    by_cases hlate : m.now - timer.start >= timer.duration
    · rw [if_pos hlate]
      rw [show (of m t (g :: rest)).machine.now = m.now from rfl, if_pos hlate, onThread_andThen,
        onCursor_of hcode] at hgoes
      exact ⟨_, .instr hcode Std.TreeMap.getElem?_erase_self, hgoes rfl⟩
    · rw [if_neg hlate]
      rw [show (of m t (g :: rest)).machine.now = m.now from rfl, if_neg hlate] at hgoes
      exact ⟨_, .stays m rfl (.instr hcode hinstr htimer), hgoes (yieldPoint_normal hwarp)⟩

end

theorem executor_congr (h : g.idle = f.idle) :
    (g.executor : Kit σ → Nat → Exec (Turn σ) Unit) = f.executor := by
  have hcode : g.code.map Cursor.idle = f.code.map Cursor.idle := (congrArg Frame.code h :)
  unfold Frame.executor
  cases hg : g.code <;> cases hf : f.code <;> simp_all

/-- **A visit of a wait.** It finds a timer or none, and leaves the one that runs from then on. -/
theorem visits_wait {t : Thread}
    (hkit : kit.primitive? "control_wait" = (Library.core : Catalog σ).primitive? "control_wait")
    (hat : s.AtWait t f rest timer g) (hasks : AsksFor kit s g rest now seconds) :
    ∃ p, s.Becomes g rest (Timer.onward timer now seconds) p ∧ Goes kit f.executor s p := by
  have hs := hat.of_eq
  have hwaits := hat.waits
  rw [← hat.sheet] at hwaits
  rw [← executor_congr hat.same]
  unfold Frame.executor
  cases hwaits with
  | block hcode hblock hb hopcode htimer =>
    cases hasks with
    | block _ hblock' hb' hpresent hinputs hbare hnow hseconds =>
      cases hblock.symm.trans hblock'
      cases hb.symm.trans hb'
      rw [hcode, ← hnow, ← hseconds]
      dsimp only
      have hvisit := goes_block hat.normal hat.status hkit hcode hblock hb hopcode htimer hpresent
        hinputs hbare
      rwa [hs] at hvisit
    | instr hcode' => cases hcode.symm.trans hcode'
  | instr hcode hinstr htimer =>
    cases hasks with
    | block hcode' => cases hcode.symm.trans hcode'
    | instr hcode' hinstr' hnow heval =>
      cases hcode.symm.trans hcode'
      cases hinstr.symm.trans hinstr'
      rw [hcode, ← hnow]
      dsimp only
      rw [← hs] at heval
      obtain ⟨p, hbecomes, hgoes⟩ := goes_instr hat.normal hat.status hcode hinstr htimer heval
      rw [hs] at hbecomes hgoes
      exact ⟨p, hbecomes, hgoes⟩

/-- A thread at a wait goes on there. -/
theorem AtWait.comes {t : Thread} (hat : s.AtWait t f rest timer g) :
    Comes kit f.executor s (true, s) := by
  refine ⟨0, 0, fun fuel _ => ?_⟩
  rw [← executor_congr hat.same, Nat.add_zero, ← hat.of_eq, visit_step hat.status]
  cases hat.waits with
  | block hcode hblock =>
    have hexecutor : (g.executor : Kit σ → Nat → Exec (Turn σ) Unit) = interpret := by
      rw [Frame.executor, hcode]
    rw [hexecutor]
    exact step_block hcode (by rw [hblock]; rfl) fuel
  | instr hcode =>
    have hexecutor : (g.executor : Kit σ → Nat → Exec (Turn σ) Unit) = runCode := by
      rw [Frame.executor, hcode]
    rw [hexecutor, ← visit_step hat.status]
    exact visit_code hcode hat.normal hat.status fuel

/-- A thread that was left at a wait is found there. -/
theorem Course.finds {first : Turn σ} {s : Nat → Turn σ} {m : Machine σ} {t : Thread} {g' : Frame}
    {k : Nat} {timer' : Timer} (hcourse : Course kit f.executor first s)
    (hat : (places first s k).AtWait t f rest timer g) (hsame : g'.idle = g.idle)
    (hwaits : g'.Waits (places first s k).thread.sheet (some timer'))
    (hcomes : Comes kit f.executor (s k) (false, of m (places first s k).thread (g' :: rest))) :
    (places first s (k + 1)).AtWait t f rest (some timer') g' := by
  obtain ⟨fuel, hvisit⟩ := hcomes.over
  obtain ⟨start, hthread⟩ := hat.thread
  have hnext := hcourse.next hvisit
  rw [of, hthread] at hnext
  have hwarp : g'.warp = g.warp := (congrArg Frame.warp hsame :)
  rw [hat.sheet] at hwaits
  exact ⟨hat.running, ⟨none, hnext⟩, hwarp.trans hat.normal, hsame.trans hat.same, hwaits⟩

/-- **A wait takes its time.** In normal mode a thread comes to a wait, where no timer runs. The
visit in which it does so ends the turn there, and so do the later ones at a time that is not the
duration or more after the first. The first one that is goes on behind the wait in the same turn,
and nothing is kept of the timer then, so that another execution starts one anew. The duration is
the one that was asked for in the first visit. This is so for the block with the primitive of the
core blocks, and for the instruction that the core blocks compile it to. -/
theorem wait_takes_its_time
    (hkit : kit.primitive? "control_wait" = (Library.core : Catalog σ).primitive? "control_wait")
    {first : Turn σ} {s : Nat → Turn σ} (hcourse : Course kit f.executor first s)
    (hfirst : first.AtWait first.thread f rest none f) (now seconds : Nat → Float) :
    let duration := if 1000.0 * seconds 0 > 0.0 then 1000.0 * seconds 0 else 0.0
    (∀ k, (∀ j ≤ k, ∀ timer g, (places first s j).AtWait first.thread f rest timer g →
        AsksFor kit (places first s j) g rest (now j) (seconds j)) →
      (∀ j, 0 < j → j < k → ¬ now j - now 0 >= duration) →
      ∃ g p, g.idle = f.idle ∧ Comes kit f.executor (s k) p ∧ (places first s k).Becomes g rest
        (if 0 < k ∧ now k - now 0 >= duration then none else some ⟨now 0, duration⟩) p) ∧
    ∀ {ctx : Context σ} {d : Descent σ} {b : Block} {pc : Nat} {st st' : Draft} {code : Code},
      ctx.catalog.lowering? "control_wait" = (Library.core : Catalog σ).lowering? "control_wait" →
      b.opcode = "control_wait" → ctx.statementWith d pc b st = .ok (code, st') →
        ∃ pre o, ctx.input d b "DURATION" st = .ok ((pre, o), st') ∧
          code = pre ++ [.wait o.asNumber] := by
  intro duration
  have htimer : ∀ k, Timer.onward (if k = 0 then none else some ⟨now 0, duration⟩) (now k)
      (seconds k) = if 0 < k ∧ now k - now 0 >= duration then none else some ⟨now 0, duration⟩ := by
    intro k
    cases k with
    | zero => rfl
    | succ k => simp [Timer.onward]
  refine ⟨fun k hasks hearly => ?_, ?_⟩
  · -- As long as the time is not up, each visit finds the timer that the first one has started.
    have hfinds : ∃ g, (places first s k).AtWait first.thread f rest
        (if k = 0 then none else some ⟨now 0, duration⟩) g ∧
          Comes kit f.executor (s k) (true, places first s k) := by
      induction k with
      | zero => exact ⟨f, hfirst, hcourse.comes⟩
      | succ k ih =>
        obtain ⟨g, hat, hcomes⟩ := ih (fun j hj => hasks j (by omega)) fun j hj hlt =>
          hearly j hj (by omega)
        obtain ⟨p, hbecomes, hgoes⟩ := visits_wait hkit hat (hasks k (by omega) _ g hat)
        have hstays : ¬ (0 < k ∧ now k - now 0 >= duration) := fun h => hearly k h.1 (by omega) h.2
        rw [htimer, if_neg hstays] at hbecomes
        cases hbecomes with
        | stays m hsame hwaits =>
          have hat' := hcourse.finds hat hsame hwaits (hcomes.andGoes hgoes)
          exact ⟨_, hat', hat'.comes⟩
    obtain ⟨g, hat, hcomes⟩ := hfinds
    obtain ⟨p, hbecomes, hgoes⟩ := visits_wait hkit hat (hasks k (Nat.le_refl k) _ g hat)
    rw [htimer] at hbecomes
    exact ⟨g, p, hat.same, hcomes.andGoes hgoes, hbecomes⟩
  · intro ctx d b pc st st' code hlowering hopcode hcode
    have hwait : ctx.catalog.lowering? b.opcode = some (.statement .wait) := by
      rw [hopcode, hlowering]
      rfl
    unfold Context.statementWith at hcode
    rw [hwait] at hcode
    obtain ⟨⟨pre, o⟩, st₁, hinput, hpure⟩ := Compile.bind_ok.mp hcode
    obtain ⟨rfl, rfl⟩ := Compile.pure_ok.mp hpure
    exact ⟨pre, o, hinput, rfl⟩

/-- A thread can be visited on any machines one after the other. -/
theorem exists_visits (kit : Kit σ) (t : Thread) (machines : Nat → Machine σ) :
    ∃ s : Nat → Turn σ, s 0 = ⟨machines 0, t⟩ ∧ (∀ n, (s n).machine = machines n) ∧
      ∀ {n fuel s'}, (s n).visit kit fuel = some s' →
        (s (n + 1)).thread = { s'.thread with warpStart := none } := by
  have hnext : ∀ s : Turn σ, ∃ t : Thread, ∀ {fuel s'}, s.visit kit fuel = some s' →
      t = { s'.thread with warpStart := none } := by
    intro s
    by_cases h : ∃ fuel s', s.visit kit fuel = some s'
    · obtain ⟨fuel, s', h⟩ := h
      refine ⟨{ s'.thread with warpStart := none }, fun h' => ?_⟩
      rw [visit_unique h h']
    · exact ⟨s.thread, fun h' => absurd ⟨_, _, h'⟩ h⟩
  choose next hnext using hnext
  refine ⟨fun n => n.rec ⟨machines 0, t⟩ fun n s => ⟨machines (n + 1), next s⟩, rfl, fun n => ?_,
    hnext _⟩
  cases n with
  | zero => rfl
  | succ n => rfl

/-- A wait of one second. -/
def napBlock : Block where
  id := "wait"
  opcode := "control_wait"
  fields := Table.of [("DURATION", { value := .text "1" })]

/-- The times of three visits of it. -/
def napTimes : Nat → Float
  | 0 => 0.0
  | 1 => 400.0
  | _ => 1000.0

/-- The thread at the wait, on the machine of a visit. -/
def napping (n : Nat) : Turn Unit :=
  ⟨{ Machine.holding "" with now := napTimes n }, .start 0 0 "wait" (.ofBlocks [napBlock])⟩

/-- It stays at the wait on the second visit, and goes on in the third one. -/
theorem nap_takes_a_second : ∃ s : Nat → Turn Unit,
    Course { Library.core with } interpret (napping 0) s ∧
      (∀ n, (s n).machine = (napping n).machine) ∧
      (∃ g p, Comes { Library.core with } interpret (s 1) p ∧
        (s 1).Becomes g [] (some ⟨0.0, 1000.0 * 1.0⟩) p) ∧
      ∃ g p, Comes { Library.core with } interpret (s 2) p ∧ (s 2).Becomes g [] none p := by
  obtain ⟨s, hzero, hmachines, hnext⟩ :=
    exists_visits ({ Library.core with } : Kit Unit) (napping 0).thread fun n => (napping n).machine
  have hb : (napping 0).thread.sheet.block? "wait" = some napBlock := rfl
  have hfirst : (napping 0).AtWait (napping 0).thread { block := some "wait" } [] none
      { block := some "wait" } :=
    ⟨rfl, ⟨none, rfl⟩, rfl, rfl, .block rfl rfl hb rfl rfl⟩
  have hcourse : Course { Library.core with } interpret (napping 0) s := by
    refine ⟨?_, hnext⟩
    rw [hzero]
    exact hfirst.comes
  have hplaces : ∀ n, (places (napping 0) s n).machine = (napping n).machine := by
    intro n
    cases n with
    | zero => rfl
    | succ n => exact hmachines (n + 1)
  have hasks : ∀ n timer g,
      (places (napping 0) s n).AtWait (napping 0).thread { block := some "wait" } [] timer g →
        AsksFor { Library.core with } (places (napping 0) s n) g [] (napTimes n) 1.0 := by
    intro n timer g hat
    have hblock : g.block = some "wait" := (congrArg Frame.block hat.same :)
    have hcode : g.code.map Cursor.idle = none := (congrArg Frame.code hat.same :)
    obtain ⟨start, hthread⟩ := hat.thread
    have hpresent : (places (napping 0) s n).machine.targets.contains
        (places (napping 0) s n).thread.target = true := by
      rw [hplaces, hthread]
      rfl
    have hfield := AsksFor.of_fields { Library.core with } []
      (Option.map_eq_none_iff.mp hcode) hblock
      (hat.sheet ▸ hb) hpresent rfl
    rw [hplaces] at hfield
    exact hfield
  obtain ⟨hwaits, -⟩ := wait_takes_its_time rfl hcourse hfirst napTimes fun _ => 1.0
  refine ⟨s, hcourse, hmachines, ?_, ?_⟩
  · obtain ⟨g, p, -, hcomes, hbecomes⟩ := hwaits 1 (fun j _ => hasks j) (by omega)
    rw [if_neg (by decide +kernel), if_pos (by decide +kernel)] at hbecomes
    exact ⟨g, p, hcomes, hbecomes⟩
  · have hearly : ∀ j, 0 < j → j < 2 → ¬ napTimes j - napTimes 0 >=
        if 1000.0 * 1.0 > (0.0 : Float) then 1000.0 * 1.0 else 0.0 := by
      intro j hpos hlt
      obtain rfl : j = 1 := by omega
      decide +kernel
    obtain ⟨g, p, -, hcomes, hbecomes⟩ := hwaits 2 (fun j _ => hasks j) hearly
    rw [if_pos (by decide +kernel)] at hbecomes
    exact ⟨g, p, hcomes, hbecomes⟩

end Turn

/-- The core blocks, and one that asks. -/
def Kit.questioning : Kit Unit where
  toCatalog := Catalog.union
    { primitive? := fun opcode =>
        if opcode = "ask" then some fun _ => do return .promise (← Action.openPromise .pending)
        else none }
    Library.core

/-- A turn while the variable holds the old word, and one with the answer when it holds the new
one. -/
def Thread.answered (t : Thread) : Option (Turn Unit) := do
  let s ← Turn.visit Kit.questioning 9 ⟨.holding "old", t⟩
  Turn.visit Kit.questioning 9
    ⟨{ Machine.holding "new" with promises := [.resolved (.text "!")] }, s.thread⟩

/-- A wait whose duration is a promise. -/
def Sheet.dozing : Sheet :=
  .ofBlocks [
    { id := "wait", opcode := "control_wait",
      inputs := Table.of [("DURATION", { block := some "ask" })] },
    { id := "ask", opcode := "ask" }]

/-- The interpreter asks for the duration on every visit, and does not look at the time before it
has it. -/
theorem wait_asks_again :
    (do
      let s ← (Thread.start 0 0 "wait" .dozing).answered
      let s ← s.visit Kit.questioning 9
      return (s.thread.stack.map fun f =>
          (f.block, f.scratch.timerStart.isSome && f.scratch.isTimeUp s.machine.now),
        s.thread.status)) = some ([(some "ask", false), (some "wait", true)], .promiseWait) := by
  decide +kernel

end BlockMachine

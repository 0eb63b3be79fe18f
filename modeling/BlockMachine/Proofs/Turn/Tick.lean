import BlockMachine.Proofs.Code.Layout
import BlockMachine.Proofs.Turn.Interpret
import BlockMachine.Proofs.Turn.Quiet
import BlockMachine.Proofs.Turn.Time

/-!
# One instruction

Compiled code runs instruction by instruction (`Turn.tick`). Whatever an instruction does, little
can happen to the frames of its thread, and all of it is said here once (`Turn.Shift`): the
innermost frame goes on in its code, a frame for the body of a procedure or for a branch is put on
top, the innermost frame is left, the procedure is left, or the thread ends. Everything that is
known of compiled threads follows from `Turn.tick_shift`.
-/

namespace BlockMachine

open List

/-- The locals are those that the first cursor has, but for the slot that its instruction writes. -/
structure Cursor.Retains (c c' : Cursor) : Prop where
  size : c'.locals.size = c.locals.size
  slots : ∀ n, c.instr?.bind Instr.dest? ≠ some n → c'.locals[n]? = c.locals[n]?

theorem Cursor.Retains.of_eq {c c' : Cursor} (h : c'.locals = c.locals) : c.Retains c' where
  size := by rw [h]
  slots n _ := by rw [h]

/-- The frame has moved to an index of its code. -/
structure Frame.Moved (f : Frame) (c : Cursor) (pc : Nat) (f' : Frame) : Prop where
  warp : f'.warp = f.warp
  code : ∃ c', f'.code = some c' ∧ c'.script = c.script ∧ c'.kind = c.kind ∧
    c.Retains c' ∧ c'.pc = pc

/-- The innermost frame of the thread is a compiled one. -/
structure Thread.At (t : Thread) (f : Frame) (c : Cursor) (rest : List Frame) : Prop where
  stack : t.stack = f :: rest
  code : f.code = some c

namespace Turn

open Exec

variable {σ : Type} {kit : Kit σ} {s s₁ s' : Turn σ} {f f' : Frame} {c : Cursor} {rest : List Frame}

/-- The innermost frame is still there, at its instruction or behind it, or its code had run out and
it is gone. -/
def Stays (f : Frame) (c : Cursor) (rest : List Frame) (stack : List Frame) : Prop :=
  (∃ f' pc, stack = f' :: rest ∧ f.Moved c pc f' ∧ (pc = c.pc ∨ pc = c.pc + 1 ∧ c.instr?.isSome)) ∨
    c.instr? = none ∧ stack = rest ∧ rest ≠ []

/-- What one instruction can do to the frames of its thread. Where the turn goes on with the time
left, code has moved on; else there is less time left. -/
inductive Shift (kit : Kit σ) (s : Turn σ) (f : Frame) (c : Cursor) (rest : List Frame) :
    Except BlockError Flow → Turn σ → Prop
  /-- The thread has ended. -/
  | ended {r : Except BlockError Flow} {s' : Turn σ} (hs : s'.thread.stack = [])
      (hst : s'.thread.status ≠ .running) : Shift kit s f c rest r s'
  /-- The turn is over, or the instruction failed. -/
  | halted {r : Except BlockError Flow} {s' : Turn σ} (hr : r ≠ .ok .go)
      (hs : Stays f c rest s'.thread.stack) : Shift kit s f c rest r s'
  /-- The turn goes on with less time left. -/
  | spent {s' : Turn σ} (hs : Stays f c rest s'.thread.stack)
      (ht : kit.toCatalog.Quiet → s.Spends s') : Shift kit s f c rest (.ok .go) s'
  /-- The frame goes on in its code. -/
  | moved {s' : Turn σ} {f' : Frame} {i : Instr Script} {pc : Nat} (hi : c.instr? = some i)
      (hpc : pc = c.pc + 1 ∧ i.isYield = false ∨ i.target? = some pc)
      (hs : s'.thread.stack = f' :: rest) (hf : f.Moved c pc f')
      (ht : kit.toCatalog.Quiet → s.Within s') : Shift kit s f c rest (.ok .go) s'
  /-- The body of a procedure is entered. -/
  | called {s' : Turn σ} {f' g : Frame} {i : Instr Script} {key : ProcedureKey} {p : Program}
      {body : Script} (hi : c.instr? = some i) (hkey : i.callee? = some key)
      (hp : s.thread.program = some p) (hbody : p.procedures.lookup key = some body)
      (hs : s'.thread.stack = g :: f' :: rest) (hf : f.Moved c (c.pc + 1) f')
      (hg : g.code = some { script := body, kind := .procedure })
      (hw : g.warp = (f.warp || key.warp)) (ht : kit.toCatalog.Quiet → s.Within s') :
      Shift kit s f c rest (.ok .go) s'
  /-- A branch of a block is entered; a loop comes back to the block. -/
  | branched {s' : Turn σ} {f' g : Frame} {i : Instr Script} {b : Script} {isLoop : Bool}
      (hi : c.instr? = some i) (hb : b ∈ i.branches) (hs : s'.thread.stack = g :: f' :: rest)
      (hf : f.Moved c (if isLoop then c.pc else c.pc + 1) f')
      (hg : g.code = some { script := b, kind := .branch isLoop }) (hw : g.warp = f.warp)
      (ht : kit.toCatalog.Quiet → s.Within s') : Shift kit s f c rest (.ok .go) s'
  /-- A frame whose code has run out is left. -/
  | popped {s' : Turn σ} (hi : c.instr? = none) (hk : c.kind ≠ .branch true)
      (hs : s'.thread.stack = rest) (hne : rest ≠ []) (ht : kit.toCatalog.Quiet → s.Within s') :
      Shift kit s f c rest (.ok .go) s'
  /-- The procedure is left, or the whole script. -/
  | left {s' : Turn σ} (hs : s'.thread.stack = dropProcedure (f :: rest))
      (hst : s'.thread.stack = [] → s'.thread.status ≠ .running)
      (ht : kit.toCatalog.Quiet → s.Within s') : Shift kit s f c rest (.ok .go) s'

/-- A primitive has reported a promise: the thread waits behind the call, with its locals as they
were. -/
def Asks (c : Cursor) (rest : List Frame) (t : Thread) : Prop :=
  ∃ promise call f' c', c.instr? = some (.primitive call) ∧
    t.pending = some ⟨promise, .code call.dest⟩ ∧
    t.At f' c' rest ∧ c'.script = c.script ∧ c'.pc = c.pc + 1 ∧ c'.locals = c.locals

/-- One instruction: what happens to the frames, and what does not happen to the thread. -/
structure Ticked (kit : Kit σ) (s : Turn σ) (f : Frame) (c : Cursor) (rest : List Frame)
    (r : Except BlockError Flow) (s' : Turn σ) : Prop where
  program : s'.thread.program = s.thread.program
  pending : s'.thread.pending = s.thread.pending ∨ s'.thread.pending = none ∨ Asks c rest s'.thread
  shift : Shift kit s f c rest r s'

end Turn

/-! ## Frames and cursors -/

theorem Thread.onCursor_id (t : Thread) : t.onCursor (fun c => c) = t := by
  unfold Thread.onCursor Thread.onFrame
  obtain ⟨id, target, top, status, isClick, isMonitor, reported, sheet, stack, program⟩ := t
  cases stack with
  | nil => rfl
  | cons f rest => simp [Frame.withCursor]

theorem Thread.onCursor_onCursor (t : Thread) (g g' : Cursor → Cursor) :
    (t.onCursor g).onCursor g' = t.onCursor (g' ∘ g) := by
  unfold Thread.onCursor Thread.onFrame
  simp [modifyHead_modifyHead, Function.comp_def, Frame.withCursor]

namespace Thread.At

variable {t : Thread} {f : Frame} {c : Cursor} {rest : List Frame}

theorem cursor? (h : t.At f c rest) : t.cursor? = some c := by
  unfold Thread.cursor? Thread.frame?
  rw [h.stack]
  exact h.code

theorem isWarp (h : t.At f c rest) : t.isWarp = f.warp := by
  unfold Thread.isWarp Thread.frame?
  rw [h.stack]
  rfl

theorem onCursor (h : t.At f c rest) (g : Cursor → Cursor) :
    (t.onCursor g).At { f with code := some (g c) } (g c) rest where
  stack := by
    unfold Thread.onCursor Thread.onFrame
    rw [h.stack]
    simp [Frame.withCursor, h.code]
  code := rfl

end Thread.At

namespace Frame.Moved

variable {f f' f'' : Frame} {c c' : Cursor} {pc : Nat}

theorem of_cursor (g : Cursor → Cursor) (hs : (g c).script = c.script) (hk : (g c).kind = c.kind)
    (hl : c.Retains (g c)) : f.Moved c (g c).pc { f with code := some (g c) } :=
  ⟨rfl, g c, rfl, hs, hk, hl, rfl⟩

theorem trans (h : f.Moved c c.pc f') (hc : f'.code = some c') (h' : f'.Moved c' pc f'') :
    f.Moved c pc f'' := by
  obtain ⟨hw, c₁, hc₁, hs, hk, hl, hpc₁⟩ := h
  obtain ⟨hw', c₂, hc₂, hs', hk', hl', hpc⟩ := h'
  rw [hc] at hc₁
  cases hc₁
  have hi : c'.instr? = c.instr? := by
    unfold Cursor.instr?
    rw [hs, hpc₁]
  refine ⟨hw'.trans hw, c₂, hc₂, hs'.trans hs, hk'.trans hk, ⟨hl'.size.trans hl.size, ?_⟩, hpc⟩
  intro n hn
  exact (hl'.slots n (by rwa [hi])).trans (hl.slots n hn)

end Frame.Moved

namespace Turn
open Exec
variable {σ : Type} {kit : Kit σ} {s s₁ s' : Turn σ} {f f' : Frame} {c : Cursor} {rest : List Frame}
  {r : Except BlockError Flow} {pc fuel : Nat} {args : Args} {i : Instr Script} {scratch : Scratch}
  {primitive : Primitive σ} {predicate : Exec (Turn σ) Unit}
  {warp isLoop : Bool}

/-! ## From instruction to instruction -/

section

variable {fuel : Nat} (hat : s.thread.At f c rest) (hrun : s.thread.status = .running)
include hat hrun

theorem runCode_go (h : tick kit fuel c s = some (.ok .go, s')) :
    runCode kit (fuel + 1) s = runCode kit fuel s' := by
  rw [runCode_succ, getThread_andThen, hrun, hat.cursor?]
  exact andThen_ok h

theorem runCode_pause (h : tick kit fuel c s = some (.ok .pause, s')) :
    runCode kit (fuel + 1) s = some (.ok (), s') := by
  rw [runCode_succ, getThread_andThen, hrun, hat.cursor?]
  exact andThen_ok h

theorem runCode_error {e : BlockError} (h : tick kit fuel c s = some (.error e, s')) :
    runCode kit (fuel + 1) s = some (.error e, s') := by
  rw [runCode_succ, getThread_andThen, hrun, hat.cursor?]
  exact andThen_error h

end

/-! ## Instructions that go on in their code -/

theorem dropProcedure_moved (hf : f.code = some c) (h : f.Moved c pc f') :
    dropProcedure (f' :: rest) = dropProcedure (f :: rest) := by
  obtain ⟨-, c', hc', -, hk, -, -⟩ := h
  unfold dropProcedure
  rw [hf, hc', Option.map_some, Option.map_some, hk]

/-- The instruction is under way: the frame is where it was. -/
structure Holds (kit : Kit σ) (s : Turn σ) (f : Frame) (c : Cursor) (rest : List Frame)
    (s₁ : Turn σ) (f₁ : Frame) (c₁ : Cursor) : Prop where
  program : s₁.thread.program = s.thread.program
  pending : s₁.thread.pending = s.thread.pending
  place : s₁.thread.At f₁ c₁ rest
  moved : f.Moved c c.pc f₁
  locals : c₁.locals = c.locals
  time : kit.toCatalog.Quiet → s.Within s₁

section Holds

variable {f₁ f₂ : Frame} {c₁ c₂ : Cursor} {s₂ : Turn σ}

theorem Holds.cursor (h : Holds kit s f c rest s₁ f₁ c₁) :
    c₁.script = c.script ∧ c₁.kind = c.kind ∧ c.Retains c₁ ∧ c₁.pc = c.pc := by
  obtain ⟨-, c', hc', hmoved⟩ := h.moved
  rw [h.place.code] at hc'
  cases hc'
  exact hmoved

theorem Holds.instr? (h : Holds kit s f c rest s₁ f₁ c₁) : c₁.instr? = c.instr? := by
  obtain ⟨hs, -, -, hpc⟩ := h.cursor
  unfold Cursor.instr?
  rw [hs, hpc]

theorem Holds.of_aside (hat : s.thread.At f c rest) (h : s.Aside s₁) :
    Holds kit s f c rest s₁ f c where
  program := by rw [h.thread]
  pending := by rw [h.thread]
  place := by rw [h.thread]; exact hat
  moved := ⟨rfl, c, hat.code, rfl, rfl, .of_eq rfl, rfl⟩
  locals := rfl
  time _ := h.within

theorem Holds.trans (h : Holds kit s f c rest s₁ f₁ c₁) (h' : Holds kit s₁ f₁ c₁ rest s₂ f₂ c₂) :
    Holds kit s f c rest s₂ f₂ c₂ where
  program := h'.program.trans h.program
  pending := h'.pending.trans h.pending
  place := h'.place
  moved := h.cursor.2.2.2 ▸ h.moved.trans h.place.code h'.moved
  locals := h'.locals.trans h.locals
  time hq := Lasting.trans (h.time hq) (h'.time hq)

theorem Holds.stays (h : Holds kit s f c rest s₁ f₁ c₁) {stack : List Frame}
    (hs : Stays f₁ c₁ rest stack) : Stays f c rest stack := by
  rcases hs with ⟨f', pc, hs, hf, hpc⟩ | ⟨hi, hs⟩
  · refine .inl ⟨f', pc, hs, h.moved.trans h.place.code hf, ?_⟩
    rwa [h.instr?, h.cursor.2.2.2] at hpc
  · exact .inr ⟨h.instr? ▸ hi, hs⟩

/-- What happens from there on counts for the whole instruction. -/
theorem Holds.ticked (hf : f.code = some c) (h : Holds kit s f c rest s₁ f₁ c₁)
    (h₁ : Ticked kit s₁ f₁ c₁ rest r s') : Ticked kit s f c rest r s' := by
  obtain ⟨hprogram, hpending, hshift⟩ := h₁
  rw [h.program] at hprogram
  rw [h.pending] at hpending
  obtain ⟨hscript, hkind, -, hpc⟩ := h.cursor
  have hi := h.instr?
  refine ⟨hprogram, hpending.imp_right (.imp_right fun hasks => ?_), ?_⟩
  · obtain ⟨promise, call, f', c', hcall, hsome, hat, hs', hpc', hl⟩ := hasks
    exact ⟨promise, call, f', c', hi ▸ hcall, hsome, hat, hs'.trans hscript, hpc ▸ hpc',
      hl.trans h.locals⟩
  have htime : kit.toCatalog.Quiet → s₁.Within s' → s.Within s' :=
    fun hq ht => Lasting.trans (h.time hq) ht
  cases hshift with
  | ended hs hst => exact .ended hs hst
  | halted hr hs => exact .halted hr (h.stays hs)
  | spent hs ht => exact .spent (h.stays hs) fun hq => (h.time hq).andSpends (ht hq)
  | moved hi' hpc' hs hf' ht =>
    rw [hpc] at hpc'
    exact .moved (hi ▸ hi') hpc' hs (h.moved.trans h.place.code hf') fun hq => htime hq (ht hq)
  | called hi' hkey hp hbody hs hf' hg hw ht =>
    rw [hpc] at hf'
    rw [h.moved.warp] at hw
    exact .called (hi ▸ hi') hkey (h.program ▸ hp) hbody hs (h.moved.trans h.place.code hf') hg hw
      fun hq => htime hq (ht hq)
  | branched hi' hb hs hf' hg hw ht =>
    rw [hpc] at hf'
    rw [h.moved.warp] at hw
    exact .branched (hi ▸ hi') hb hs (h.moved.trans h.place.code hf') hg hw
      fun hq => htime hq (ht hq)
  | popped hi' hk hs hne ht =>
    exact .popped (hi ▸ hi') (hkind ▸ hk) hs hne fun hq => htime hq (ht hq)
  | left hs hst ht =>
    rw [dropProcedure_moved hf h.moved] at hs
    exact .left hs hst fun hq => htime hq (ht hq)

/-- The end of an instruction that stays where it is. -/
theorem Holds.halted (h : Holds kit s f c rest s₁ f₁ c₁) (hr : r ≠ .ok .go) :
    Ticked kit s f c rest r s₁ :=
  ⟨h.program, .inl h.pending, .halted hr (.inl ⟨f₁, c.pc, h.place.stack, h.moved, .inl rfl⟩)⟩

end Holds

/-- An instruction that begins with something beside the thread. -/
theorem Ticked.after {α : Type} {x : Exec (Turn σ) α} {k : α → Exec (Turn σ) Flow}
    (hx : Keeps Aside x) (hat : s.thread.At f c rest) (h : (x >>= k) s = some (r, s'))
    (hk : ∀ a s₁, s.Aside s₁ → s₁.thread.At f c rest → k a s₁ = some (r, s') →
      Ticked kit s₁ f c rest r s') :
    Ticked kit s f c rest r s' := by
  rcases bind_some.mp h with ⟨e, hxe, rfl⟩ | ⟨a, s₁, hxa, hka⟩
  · exact (Holds.of_aside hat (hx _ _ _ hxe)).halted (by simp)
  · have hholds : Holds kit s f c rest s₁ f c := .of_aside hat (hx _ _ _ hxa)
    exact hholds.ticked hat.code (hk a s₁ (hx _ _ _ hxa) hholds.place hka)

theorem advance_andThen {β : Type} {k : Unit → Exec (Turn σ) β} :
    (discard advance >>= k) s =
      k () { s with thread := s.thread.onCursor Cursor.advance } := rfl

theorem endIfEmpty_stack (t : Thread) : (endIfEmpty t).stack = t.stack := by
  unfold endIfEmpty
  split <;> rfl

theorem endIfEmpty_status {t : Thread} (h : (endIfEmpty t).stack = []) :
    (endIfEmpty t).status = .done := by
  rw [endIfEmpty_stack] at h
  unfold endIfEmpty
  rw [h]
  rfl

/-- What is left alone when frames are dropped. -/
theorem endIfEmpty_fields (t : Thread) :
    (endIfEmpty t).program = t.program ∧ (endIfEmpty t).pending = t.pending ∧
      (endIfEmpty t).warpStart = t.warpStart := by
  unfold endIfEmpty
  split <;> exact ⟨rfl, rfl, rfl⟩

/-- The call proper. -/
theorem run_some {a : Action σ Reported} {r : Except BlockError (Reported × Call σ)}
    (h : (ExceptT.mk fun s => do
        let (r, c) ← Call.run kit predicate (.compiled warp) a { s with scratch }
        return (r.map (·, c), c.toTurn) : Exec (Turn σ) (Reported × Call σ)) s = some (r, s')) :
    ∃ r₀ call, Call.run kit predicate (.compiled warp) a { s with scratch } = some (r₀, call) ∧
      r = r₀.map (·, call) ∧ s' = call.toTurn := by
  obtain ⟨q, hq, h⟩ := Option.bind_eq_some_iff.mp h
  cases h
  exact ⟨q.1, q.2, hq, rfl, rfl⟩

section

variable (hat : s.thread.At f c rest)

include hat

/-- An instruction that changes its cursor and goes on. -/
theorem Ticked.of_cursor (hi : c.instr? = some i)
    (g : Cursor → Cursor) (hs : (g c).script = c.script) (hk : (g c).kind = c.kind)
    (hl : c.Retains (g c)) (hpc : (g c).pc = c.pc + 1 ∧ i.isYield = false ∨
      i.target? = some (g c).pc) :
    Ticked kit s f c rest (.ok .go) { s with thread := s.thread.onCursor g } where
  program := rfl
  pending := .inl rfl
  shift := .moved hi hpc (hat.onCursor g).stack (.of_cursor g hs hk hl) fun _ =>
    within_of_eq rfl rfl rfl

theorem advance_ticked (hi : c.instr? = some i)
    (hy : i.isYield = false) (h : advance s = some (r, s')) :
    Ticked kit s f c rest r s' := by
  cases h
  exact .of_cursor hat hi Cursor.advance rfl rfl (.of_eq rfl) (.inl ⟨rfl, hy⟩)

/-- A service for the target of the thread, and going on. -/
theorem service_ticked {x : Thread → Service σ Unit} (hx : ∀ t, Service.Keeps Machine.Aside (x t))
    (hi : c.instr? = some i) (hy : i.isYield = false)
    (h : (do let t ← getThread; service (x t); advance) s = some (r, s')) :
    Ticked kit s f c rest r s' := by
  refine .after getThread_aside hat h fun t s₁ _ hat h => ?_
  refine .after (service_aside (hx t)) hat h fun _ s₁ _ hat h => ?_
  exact advance_ticked hat hi hy h

theorem jumpTo_ticked (hi : c.instr? = some i) {target : Nat} (ht : i.target? = some target)
    (h : jumpTo target s = some (r, s')) : Ticked kit s f c rest r s' := by
  cases h
  exact .of_cursor hat hi (·.jump target) rfl rfl (.of_eq rfl) (.inr ht)

/-- Storing a value in the slot of the instruction and going on. -/
theorem setLocal_ticked (hi : c.instr? = some i) (hy : i.isYield = false) {slot : Nat} {v : Value}
    (hdest : i.dest? = some slot) (h : (do setLocal slot v; advance) s = some (r, s')) :
    Ticked kit s f c rest r s' := by
  cases h
  simp only [Thread.onCursor_onCursor]
  refine .of_cursor hat hi _ rfl rfl ⟨by simp [Cursor.advance, Cursor.setLocal], fun n hn => ?_⟩
    (.inl ⟨rfl, hy⟩)
  rw [hi, Option.bind_some, hdest] at hn
  exact Array.getElem?_setIfInBounds_ne fun heq => hn (congrArg some heq)

/-! ## Yields, waits, calls and stops -/

/-- A yield point after a change of the cursor that stays at the instruction or goes behind it. -/
theorem yieldPoint_ticked (h : yieldPoint s₁ = some (r, s')) (g : Cursor → Cursor)
    (hthread : s₁.thread = s.thread.onCursor g) (ht : s.Within s₁) (hs : (g c).script = c.script)
    (hk : (g c).kind = c.kind) (hl : c.Retains (g c))
    (hpc : (g c).pc = c.pc ∨ (g c).pc = c.pc + 1 ∧ c.instr?.isSome) :
    Ticked kit s f c rest r s' := by
  obtain ⟨hthread', -, hr⟩ := yieldPoint_some h
  have hstays : Stays f c rest s'.thread.stack := by
    refine .inl ⟨_, _, ?_, .of_cursor g hs hk hl, hpc⟩
    rw [hthread', hthread]
    exact (hat.onCursor g).stack
  refine ⟨by rw [hthread', hthread]; rfl, .inl (by rw [hthread', hthread]; rfl), ?_⟩
  rcases hr with rfl | ⟨rfl, hspends⟩
  · exact .halted (by simp) hstays
  · exact .spent hstays fun _ => ht.andSpends hspends

theorem wait_ticked {duration : Expr} (hi : c.instr? = some (.wait duration))
    (h : wait duration c.pc s = some (r, s')) : Ticked kit s f c rest r s' := by
  simp only [wait, get_andThen, getThread_andThen, hat.cursor?] at h
  cases hscratch : some c >>= (·.scratches[c.pc]?) with
  | none =>
    simp only [hscratch] at h
    refine .after (eval_aside duration) hat h fun v s₁ _ hat₁ h => ?_
    simp only [onThread_andThen, onMachine_andThen] at h
    exact yieldPoint_ticked hat₁ h _ rfl (within_of_eq rfl rfl rfl) rfl rfl (.of_eq rfl) (.inl rfl)
  | some scratch =>
    simp only [hscratch] at h
    split at h
    · simp only [onThread_andThen, pure_run] at h
      cases h
      exact .of_cursor hat hi _ rfl rfl (.of_eq rfl) (.inl ⟨rfl, rfl⟩)
    · exact yieldPoint_ticked hat h _ (Thread.onCursor_id _).symm (Lasting.refl s) rfl rfl
        (.of_eq rfl) (.inl rfl)

theorem yieldIfNeeded_ticked (hi : c.instr?.isSome)
    (h : (do discard advance; yieldPoint) s = some (r, s')) :
    Ticked kit s f c rest r s' := by
  rw [advance_andThen] at h
  exact yieldPoint_ticked hat h _ rfl (within_of_eq rfl rfl rfl) rfl rfl (.of_eq rfl)
    (.inr ⟨rfl, hi⟩)

theorem call_ticked {key : ProcedureKey} {args : List (String × Expr)}
    (hi : c.instr? = some (.call key args)) (h : call key args s = some (r, s')) :
    Ticked kit s f c rest r s' := by
  refine .after (evalArgs_aside args) hat h fun values s₁ _ hat₁ h => ?_
  simp only [advance_andThen, getThread_andThen] at h
  have hmoved : f.Moved c (c.pc + 1) { f with code := some c.advance } :=
    .of_cursor Cursor.advance rfl rfl (.of_eq rfl)
  cases hbody : (s₁.thread.onCursor Cursor.advance).program.bind (·.procedures.lookup key) with
  | none =>
    rw [hbody] at h
    cases h
    exact .of_cursor hat₁ hi Cursor.advance rfl rfl (.of_eq rfl) (.inl ⟨rfl, rfl⟩)
  | some body =>
    rw [hbody] at h
    simp only [onThread_andThen, modify_andThen, pure_run] at h
    cases h
    obtain ⟨p, hp, hlookup⟩ := Option.bind_eq_some_iff.mp hbody
    have hnext := hat₁.onCursor Cursor.advance
    refine ⟨by rw [startWarp_thread]; rfl, .inl (by rw [startWarp_thread]; rfl), ?_⟩
    refine Shift.called hi rfl hp hlookup (by rw [startWarp_thread]; exact congrArg _ hnext.stack)
      hmoved rfl (congrArg (· || key.warp) hnext.isWarp) fun _ => ?_
    refine Lasting.trans ?_ (startWarp_within _)
    exact within_of_eq rfl rfl rfl

/-- Leaving the procedure from a frame that has moved at most. -/
theorem leaveScript_ticked (hat₁ : s₁.thread.stack = f' :: rest) (hf : f.Moved c pc f')
    (hprogram : s₁.thread.program = s.thread.program) (hpending : s₁.thread.pending =
      s.thread.pending)
    (ht : kit.toCatalog.Quiet → s.Within s₁) :
    Ticked kit s f c rest (.ok .go) { s₁ with thread := leaveScript s₁.thread } := by
  obtain ⟨hp, hq, hw⟩ := endIfEmpty_fields { s₁.thread with stack := dropProcedure s₁.thread.stack }
  refine ⟨hp.trans hprogram, .inl (hq.trans hpending), .left ?_ (fun hnil => ?_) fun h => ?_⟩
  · show (leaveScript s₁.thread).stack = _
    rw [leaveScript, endIfEmpty_stack, hat₁]
    exact dropProcedure_moved hat.code hf
  · rw [show ({ s₁ with thread := leaveScript s₁.thread } : Turn σ).thread.status = .done from
      endIfEmpty_status hnil]
    decide
  · exact Lasting.trans (ht h) (within_of_eq rfl rfl hw)

theorem finishFrame_ticked (hi : c.instr? = none) (h : finishFrame s = some (r, s')) :
    Ticked kit s f c rest r s' := by
  simp only [finishFrame, getThread_andThen, onThread_andThen] at h
  have hstack : (endIfEmpty s.thread.pop).stack = rest := by
    rw [endIfEmpty_stack]
    show s.thread.stack.tail = rest
    rw [hat.stack]
    rfl
  obtain ⟨hp, hq, hw⟩ := endIfEmpty_fields s.thread.pop
  rw [hstack, hat.cursor?] at h
  cases rest with
  | nil =>
    cases h
    exact ⟨hp, .inl hq, .ended hstack (by rw [endIfEmpty_status hstack]; decide)⟩
  | cons g rest =>
    simp only [isEmpty_cons, Bool.false_eq_true, if_false, Option.map_some] at h
    have hwithin : s.Within { s with thread := endIfEmpty s.thread.pop } :=
      within_of_eq rfl rfl hw
    by_cases hloop : c.kind = .branch true
    · rw [hloop] at h
      obtain ⟨hthread, -, hr⟩ := yieldPoint_some h
      have hstays : Stays f c (g :: rest) s'.thread.stack :=
        .inr ⟨hi, by rw [hthread]; exact hstack, by simp⟩
      refine ⟨by rw [hthread]; exact hp, .inl (by rw [hthread]; exact hq), ?_⟩
      rcases hr with rfl | ⟨rfl, hspends⟩
      · exact .halted (by simp) hstays
      · exact .spent hstays fun _ => hwithin.andSpends hspends
    · have hgo : some (Except.ok Flow.go, { s with thread := endIfEmpty s.thread.pop }) =
          some (r, s') := by
        rcases hk : c.kind with _ | _ | ⟨_ | _⟩
        · rwa [hk] at h
        · rwa [hk] at h
        · rwa [hk] at h
        · exact absurd hk hloop
      cases hgo
      exact ⟨hp, .inl hq, .popped hi hloop hstack (by simp) fun _ => hwithin⟩

/-! ## Primitives -/

variable {call : PrimitiveCall Script}

/-- A primitive ends the thread or leaves the frame where it was. -/
theorem run_cases {opcode : String} {r : Except BlockError Reported} {result : Call σ}
    (hrun : s.thread.status = .running) (hprim : kit.primitive? opcode = some primitive)
    (h : Call.run kit predicate (.compiled warp) (primitive args) { s with scratch } =
      some (r, result)) :
    result.thread.program = s.thread.program ∧
      ((result.thread.stack = [] ∧ result.thread.status ≠ .running ∧
          result.thread.pending = none) ∨
        ∃ f₁, Holds kit s f c rest result.toTurn f₁ c ∧ (result.thread.status = .running ∨
          result.thread.status = .yield ∨ result.thread.status = .yieldTick)) := by
  have hcalled : s.thread.Called result.thread := Call.run_called _ _ _ _ _ _ _ h
  refine ⟨hcalled.program, ?_⟩
  rcases hcalled.outcome with hend | ⟨⟨g, hg, hs⟩, hp, hw, hst⟩
  · exact .inl hend
  · have hcode : (g f).code = some c := (hg f).1.trans hat.code
    refine .inr ⟨g f, ⟨hcalled.program, hp, ⟨by rw [hs, hat.stack]; rfl, hcode⟩,
      ⟨(hg f).2, c, hcode, rfl, rfl, .of_eq rfl, rfl⟩, rfl, fun hq => ?_⟩, hrun ▸ hst⟩
    have htime : s.machine.Timeless result.machine :=
      (Call.run_quiet kit warp (hq _ _ hprim args)).timeless _ _ _ _ h
    exact within_of_eq htime.clock htime.settings hw

theorem saveScratch_holds :
    Holds kit s f c rest
      { s with
        thread := s.thread.onCursor fun c =>
          { c with scratches := c.scratches.insert pc scratch } }
      { f with code := some { c with scratches := c.scratches.insert pc scratch } }
      { c with scratches := c.scratches.insert pc scratch } where
  program := rfl
  pending := rfl
  place := hat.onCursor _
  moved := .of_cursor (fun c => { c with scratches := c.scratches.insert pc scratch }) rfl rfl
    (.of_eq rfl)
  locals := rfl
  time _ := within_of_eq rfl rfl rfl

/-- Entering a branch of a block, if there is one, from a cursor that stays at the block if the
branch is a loop. -/
theorem enterBody_ticked {body? : Option Script} (g : Cursor → Cursor)
    (h : (match body? with
      | some body => do
        onThread (·.enter body (.branch isLoop))
        return .go
      | none => if isLoop then yieldPoint else return .go : Exec (Turn σ) Flow)
      { s with thread := s.thread.onCursor g } = some (r, s')) (hi : c.instr? = some i) (hy :
        i.isYield = false)
    (hbody : ∀ body ∈ body?, body ∈ i.branches) (hs : (g c).script = c.script)
    (hk : (g c).kind = c.kind) (hl : c.Retains (g c))
    (hpc : (g c).pc = if isLoop then c.pc else c.pc + 1) :
    Ticked kit s f c rest r s' := by
  have hnext := hat.onCursor g
  have hmoved : f.Moved c (g c).pc { f with code := some (g c) } := .of_cursor g hs hk hl
  cases body? with
  | some body =>
    cases h
    exact ⟨rfl, .inl rfl, .branched hi (hbody body rfl) (congrArg _ hnext.stack) (hpc ▸ hmoved) rfl
      hnext.isWarp fun _ => within_of_eq rfl rfl rfl⟩
  | none =>
    cases isLoop with
    | true =>
      exact yieldPoint_ticked hat h g rfl (within_of_eq rfl rfl rfl) hs hk hl (.inl hpc)
    | false =>
      cases h
      exact .of_cursor hat hi g hs hk hl (.inl ⟨hpc, hy⟩)

theorem enterFragment_ticked (hi : c.instr? = some (.primitive call)) {n : Nat}
    (h : enterFragment call c.pc scratch n isLoop s = some (r, s')) :
    Ticked kit s f c rest r s' := by
  have hbody : ∀ body ∈ (if n == 0 then none else (call.branches[n - 1]?).join),
      body ∈ (Instr.primitive call).branches := by
    intro body hb
    split at hb
    · cases hb
    · have hmem := mem_of_getElem? (Option.join_eq_some_iff.mp hb)
      exact mem_filterMap.mpr ⟨some body, hmem, rfl⟩
  cases isLoop with
  | true =>
    exact enterBody_ticked hat (fun c' => { c' with scratches := c'.scratches.insert c.pc scratch })
      h hi rfl hbody rfl rfl (.of_eq rfl) rfl
  | false => exact enterBody_ticked hat Cursor.advance h hi rfl hbody rfl rfl (.of_eq rfl) rfl

/-- What one call of a primitive leads to: it is called again with less time left, or the
instruction is over. -/
def AfterCall (kit : Kit σ) (s : Turn σ) (f : Frame) (c : Cursor) (rest : List Frame) :
    Except BlockError After → Turn σ → Prop
  | .error e, s' => Ticked kit s f c rest (.error e) s'
  | .ok (.flow flow), s' => Ticked kit s f c rest (.ok flow) s'
  | .ok (.again _), s' => s'.thread.status = .running ∧ (kit.toCatalog.Quiet → s.Spends s') ∧
    ∃ f' c', Holds kit s f c rest s' f' c'

omit hat in
/-- The end of a call after which the instruction goes on. -/
theorem AfterCall.of_map {x : Exec (Turn σ) Flow} {r : Except BlockError After}
    (hx : ∀ r s', x s₁ = some (r, s') → Ticked kit s f c rest r s')
    (h : (After.flow <$> x) s₁ = some (r, s')) : AfterCall kit s f c rest r s' := by
  obtain ⟨a, ha, rfl⟩ := map_some.mp h
  cases a with
  | error e => exact hx _ _ ha
  | ok flow => exact hx _ _ ha

omit hat in
/-- A primitive that yields is called again at once if there is time left in warp mode. -/
theorem retry_after {f₁ : Frame} {c₁ : Cursor} {r : Except BlockError After} {s₂ : Turn σ}
    {q : Bool × Turn σ} (hholds : Holds kit s f c rest s₁ f₁ c₁)
    (hs₂ : s₂ = { s₁ with thread := { s₁.thread with status := .running } })
    (hq : q = if warp then s₂.warpExpired else (true, s₂))
    (h : (if q.1 then do
        saveScratch pc scratch
        return .flow .pause
      else return .again scratch : Exec (Turn σ) After) q.2 = some (r, s')) :
    AfterCall kit s f c rest r s' := by
  obtain ⟨expired, s₃⟩ := q
  have hs₃ : s₃.thread = s₂.thread ∧ (expired = false → s₂.Spends s₃) := by
    cases warp with
    | true =>
      obtain ⟨hthread, -, hspends⟩ := warpExpired_some hq.symm
      exact ⟨hthread, hspends⟩
    | false =>
      cases hq
      exact ⟨rfl, by simp⟩
  obtain ⟨hthread, hspends⟩ := hs₃
  rw [hs₂] at hthread
  have hplace : s₃.thread.At f₁ c₁ rest := by
    rw [hthread]
    exact ⟨hholds.place.stack, hholds.place.code⟩
  have hprogram : s₃.thread.program = s.thread.program := by
    rw [hthread]
    exact hholds.program
  have hpending : s₃.thread.pending = s.thread.pending := by
    rw [hthread]
    exact hholds.pending
  cases expired with
  | true =>
    cases h
    refine ⟨hprogram, .inl hpending,
      .halted (by simp) (.inl ⟨_, c₁.pc, (hplace.onCursor _).stack, ?_, .inl hholds.cursor.2.2.2⟩)⟩
    exact hholds.moved.trans hholds.place.code (.of_cursor
      (fun c => { c with scratches := c.scratches.insert pc scratch }) rfl rfl (.of_eq rfl))
  | false =>
    cases h
    have htime : kit.toCatalog.Quiet → s.Spends s₃ := by
      intro hquiet
      have hwithin : s₁.Within s₂ := by
        rw [hs₂]
        exact within_of_eq rfl rfl rfl
      exact (Lasting.trans (hholds.time hquiet) hwithin).andSpends (hspends rfl)
    exact ⟨by rw [hthread], htime, f₁, c₁, hprogram, hpending, hplace, hholds.moved, hholds.locals,
      fun hquiet => (htime hquiet).within⟩

theorem callOnce_after {r : Except BlockError After} (hrun : s.thread.status = .running)
    (hi : c.instr? = some (.primitive call)) (hprim : kit.primitive? call.opcode = some primitive)
    (h : callOnce kit predicate call c.pc primitive args s.thread.depth scratch s = some (r, s')) :
    AfterCall kit s f c rest r s' := by
  rw [callOnce, getThread_andThen] at h
  rcases bind_some.mp h with ⟨e, hx, rfl⟩ | ⟨⟨reported, result⟩, s₁, hx, h⟩
  · obtain ⟨r₀, result, hcall, -, rfl⟩ := run_some hx
    obtain ⟨hprogram, ⟨hs, hst, hp⟩ | ⟨f₁, hholds, -⟩⟩ := run_cases hat hrun hprim hcall
    · exact ⟨hprogram, .inr (.inl hp), .ended hs hst⟩
    · exact hholds.halted (by simp)
  · obtain ⟨r₀, result', hcall, hr₀, rfl⟩ := run_some hx
    cases r₀ with
    | error e => cases hr₀
    | ok r₀ =>
      cases hr₀
      obtain ⟨hprogram, hcases⟩ := run_cases hat hrun hprim hcall
      dsimp only at h
      rw [getThread_andThen] at h
      have hdepth : s.thread.depth = rest.length + 1 := by
        unfold Thread.depth
        rw [hat.stack]
        rfl
      rcases hcases with ⟨hs, hst, hp⟩ | ⟨f₁, hholds, hst⟩
      · have hnone : result.thread.depth = 0 := congrArg length hs
        rw [if_pos (by simp [hnone, hdepth])] at h
        cases h
        exact ⟨hprogram, .inr (.inl hp), .ended hs hst⟩
      · have hsame : result.thread.depth = rest.length + 1 := congrArg length hholds.place.stack
        rw [if_neg (by rcases hst with h | h | h <;> simp [h, hsame, hdepth])] at h
        by_cases hl : result.leaves = true
        · rw [if_pos hl] at h
          cases h
          exact leaveScript_ticked hat hholds.place.stack hholds.moved hholds.program
            hholds.pending hholds.time
        · rw [if_neg hl] at h
          have hat₁ := hholds.place
          cases reported
          case promise promise =>
            cases h
            have hnext := hat₁.onCursor Cursor.advance
            refine ⟨hprogram, .inr
              (.inr ⟨promise, call, _, _, hi, rfl, ⟨hnext.stack, hnext.code⟩, rfl, rfl, rfl⟩),
              .halted (by simp) (.inl ⟨_, _, hnext.stack, ?_, .inr ⟨rfl, by simp [hi]⟩⟩)⟩
            exact hholds.moved.trans hat₁.code (.of_cursor Cursor.advance rfl rfl (.of_eq rfl))
          all_goals
            by_cases hyield : result.thread.status = .yield
            · rw [if_pos (by simp [hyield])] at h
              dsimp only at h
              rw [onThread_andThen, get_andThen, set_andThen] at h
              exact retry_after hholds rfl rfl h
            rw [if_neg (by simpa using hyield)] at h
            by_cases htick : result.thread.status = .yieldTick
            · rw [if_pos (by simp [htick])] at h
              cases h
              exact (hholds.trans (saveScratch_holds hat₁)).halted (by simp)
            rw [if_neg (by simpa using htick)] at h
            cases hbranch : result.branch with
            | some b =>
              rw [hbranch] at h
              refine .of_map (fun r s' h => ?_) h
              exact hholds.ticked hat.code (enterFragment_ticked hat₁ hi h)
            | none =>
              rw [hbranch] at h
              have hadvance : ∀ r s', advance result.toTurn = some (r, s') →
                  Ticked kit s f c rest r s' := fun r s' h =>
                hholds.ticked hat.code (advance_ticked hat₁ hi rfl h)
              have hset : ∀ dest v, call.dest = some dest → ∀ r s',
                  (do setLocal dest v; advance) result.toTurn = some (r, s') →
                  Ticked kit s f c rest r s' := fun dest v hdest r s' h =>
                hholds.ticked hat.code (setLocal_ticked hat₁ hi rfl hdest h)
              cases hdest : call.dest with
              | none =>
                rw [hdest] at h
                exact .of_map hadvance h
              | some dest =>
                rw [hdest] at h
                first
                  | exact .of_map hadvance h
                  | exact .of_map (hset dest _ hdest) h

omit hat in
theorem callAgain_ticked (hprim : kit.primitive? call.opcode = some primitive) (fuel : Nat) :
    ∀ {s : Turn σ} {f : Frame} {c : Cursor} {scratch : Scratch}, s.thread.At f c rest →
      s.thread.status = .running → c.instr? = some (.primitive call) →
      callAgain kit predicate call c.pc primitive args s.thread.depth fuel scratch s =
        some (r, s') →
      Ticked kit s f c rest r s' := by
  induction fuel with
  | zero => intro s f c scratch _ _ _ h; cases h
  | succ fuel ih =>
    intro s f c scratch hat hrun hi h
    rcases bind_some.mp h with ⟨e, hx, rfl⟩ | ⟨after, s₁, hx, h⟩
    · exact callOnce_after hat hrun hi hprim hx
    · have hafter := callOnce_after hat hrun hi hprim hx
      cases after with
      | flow flow =>
        cases h
        exact hafter
      | again scratch =>
        obtain ⟨hrun₁, -, f₁, c₁, hholds⟩ := hafter
        have hdepth : s₁.thread.depth = s.thread.depth := by
          unfold Thread.depth
          rw [hat.stack, hholds.place.stack]
          rfl
        rw [← hholds.cursor.2.2.2, ← hdepth] at h
        exact hholds.ticked hat.code (ih hholds.place hrun₁ (hholds.instr?.trans hi) h)

theorem callPrimitive_ticked (hrun : s.thread.status = .running)
    (hi : c.instr? = some (.primitive call))
    (h : callPrimitive kit fuel call c.pc s = some (r, s')) : Ticked kit s f c rest r s' := by
  unfold callPrimitive at h
  cases hprim : kit.primitive? call.opcode with
  | none =>
    rw [hprim] at h
    exact advance_ticked hat hi rfl h
  | some primitive =>
    rw [hprim] at h
    refine .after (evalArgs_aside call.args) hat h fun values s₁ haside hat₁ h => ?_
    dsimp only at h
    rw [getThread_andThen, onThread_andThen] at h
    have hholds : Holds kit s₁ f c rest
        { s₁ with
          thread := s₁.thread.onCursor fun c' => { c' with scratches := c'.scratches.erase c.pc } }
        { f with code := some { c with scratches := c.scratches.erase c.pc } }
        { c with scratches := c.scratches.erase c.pc } :=
      ⟨rfl, rfl, hat₁.onCursor _, .of_cursor
        (fun c' => { c' with scratches := c'.scratches.erase c.pc }) rfl rfl (.of_eq rfl), rfl,
        fun _ => within_of_eq rfl rfl rfl⟩
    have hdepth : s₁.thread.depth = (s₁.thread.onCursor fun c' =>
        { c' with scratches := c'.scratches.erase c.pc }).depth := by
      unfold Thread.depth
      rw [hat₁.stack, hholds.place.stack]
      rfl
    rw [hdepth] at h
    refine hholds.ticked hat.code (callAgain_ticked hprim fuel hholds.place ?_ hi h)
    show s₁.thread.status = .running
    rw [haside.thread, hrun]

/-! ## All instructions -/

/-- **What an instruction can do**, and what leaving a frame can do. -/
theorem tick_shift (hrun : s.thread.status = .running) (h : tick kit fuel c s = some (r, s')) :
    Ticked kit s f c rest r s' := by
  unfold tick at h
  cases hi : c.instr? with
  | none =>
    rw [hi] at h
    exact finishFrame_ticked hat hi h
  | some i =>
    rw [hi] at h
    change runInstr kit fuel c.pc i s = some (r, s') at h
    cases i
    -- a stop has an equation for each of its options
    case stop option =>
      cases option
      all_goals rw [runInstr] at h
      case all =>
        cases h
        exact ⟨rfl, .inr (.inl rfl), .ended rfl (by simp [Thread.retire])⟩
      case thisScript =>
        cases h
        exact leaveScript_ticked hat hat.stack ⟨rfl, c, hat.code, rfl, rfl, .of_eq rfl, rfl⟩ rfl rfl
          fun _ => Lasting.refl s
      case otherScripts =>
        cases h
        exact ⟨rfl, .inl rfl, .moved hi (.inl ⟨rfl, rfl⟩) (hat.onCursor _).stack
          (.of_cursor Cursor.advance rfl rfl (.of_eq rfl)) fun _ => within_of_eq rfl rfl rfl⟩
    all_goals rw [runInstr] at h
    case call key args => exact call_ticked hat hi h
    case primitive call => exact callPrimitive_ticked hat hrun hi h
    case wait duration => exact wait_ticked hat hi h
    case jump target => exact jumpTo_ticked hat hi rfl h
    case nop => exact advance_ticked hat hi rfl h
    case setVariable =>
      refine .after (eval_aside _) hat h fun v s₁ _ hat h => ?_
      exact service_ticked hat (fun _ => Machine.setVariable_aside _ _ _ _) hi rfl h
    case changeVariable =>
      refine .after (eval_aside _) hat h fun v s₁ _ hat h => ?_
      exact service_ticked hat (fun _ => Machine.changeVariable_aside _ _ _ _) hi rfl h
    case addToList | deleteOfList =>
      refine .after (eval_aside _) hat h fun v s₁ _ hat h => ?_
      exact service_ticked hat (fun _ => Machine.editList_aside _ _ _) hi rfl h
    case clearList => exact service_ticked hat (fun _ => Machine.editList_aside _ _ _) hi rfl h
    case insertAtList | replaceInList =>
      refine .after (eval_aside _) hat h fun v s₁ _ hat h => ?_
      refine .after (eval_aside _) hat h fun v s₁ _ hat h => ?_
      exact service_ticked hat (fun _ => Machine.editList_aside _ _ _) hi rfl h
    case store | repeatInit =>
      refine .after (eval_aside _) hat h fun v s₁ _ hat h => ?_
      exact setLocal_ticked hat hi rfl rfl h
    case jumpUnless =>
      refine .after (eval_aside _) hat h fun v s₁ _ hat h => ?_
      split at h
      · exact advance_ticked hat hi rfl h
      · exact jumpTo_ticked hat hi rfl h
    case jumpIf =>
      refine .after (eval_aside _) hat h fun v s₁ _ hat h => ?_
      split at h
      · exact jumpTo_ticked hat hi rfl h
      · exact advance_ticked hat hi rfl h
    case repeatTest =>
      refine .after getThread_aside hat h fun t s₁ _ hat h => ?_
      split at h
      · exact setLocal_ticked hat hi rfl rfl h
      · exact jumpTo_ticked hat hi rfl h
    case yield | yieldTick =>
      cases h
      exact ⟨rfl, .inl rfl, .halted (by simp) (.inl ⟨_, _, (hat.onCursor _).stack,
        .of_cursor Cursor.advance rfl rfl (.of_eq rfl), .inr ⟨rfl, by simp [hi]⟩⟩)⟩
    case yieldIfNeeded => exact yieldIfNeeded_ticked hat (by simp [hi]) h

end

end Turn
end BlockMachine

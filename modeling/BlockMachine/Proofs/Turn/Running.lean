import BlockMachine.Proofs.Code.Memo
import BlockMachine.Proofs.Code.Program
import BlockMachine.Proofs.Turn.Tick

/-!
# Threads in compiled code

The states of a thread that runs a program (`Program.Reaches`): it enters the program, runs
instruction after instruction, and between its turns it is woken up, given the value it waits for,
or ended. In all of them every frame is at a place in one of the scripts of the program
(`Program.Reaches.coded`), so compiled code is never left by accident and no call lacks its body.

The module is about `Book.assemble`, `Turn.tick` and `Turn.step`.

## Results

* `Program.Reaches.coded`: one step after the other keeps every frame in the code.
* `compiled_code_stays_well_formed`: how a program is put together, and how it runs.

Left out is what the code computes.
-/

namespace BlockMachine

open List

variable {σ : Type}

/-- The states of a thread that runs the program. The machine around it may change in any way
between its steps. -/
inductive Program.Reaches (kit : Kit σ) (p : Program) : Thread → Prop
  | enter {t t' : Thread} (hp : t.program = some p) (hpending : t.pending = none)
      (h : t.enterProgram? = some t') : Reaches kit p t'
  | tick {t : Thread} {m : Machine σ} {fuel : Nat} {c : Cursor} {r : Except BlockError Turn.Flow}
      {s' : Turn σ} (ht : Reaches kit p t) (hrun : t.status = .running) (hc : t.cursor? = some c)
      (h : Turn.tick kit fuel c ⟨m, t⟩ = some (r, s')) : Reaches kit p s'.thread
  | startWarp {t : Thread} (m : Machine σ) (ht : Reaches kit p t) :
      Reaches kit p (Turn.startWarp ⟨m, t⟩).thread
  | endTurn {t : Thread} (ht : Reaches kit p t) : Reaches kit p { t with warpStart := none }
  | wake {t : Thread} (ht : Reaches kit p t) (halive : t.isDone = false) :
      Reaches kit p { t with status := .running }
  | settle {t : Thread} (m : Machine σ) {pending : Pending} (v : Value) (ht : Reaches kit p t)
      (halive : t.isDone = false) (hpending : t.pending = some pending) :
      Reaches kit p (Turn.settle ⟨m, { t with pending := none, status := .running }⟩ kit.toCatalog v
        pending.waiter).thread
  | forgo {t : Thread} (m : Machine σ) {pending : Pending} (ht : Reaches kit p t)
      (halive : t.isDone = false) (hpending : t.pending = some pending) :
      Reaches kit p (Turn.forgo (⟨m, { t with pending := none, status := .running }⟩ : Turn σ)
        pending.waiter).thread
  | retire {t : Thread} (ht : Reaches kit p t) : Reaches kit p t.retire

/-- The frame is at a place in one of the scripts of the program, in the mode of the script. -/
structure Frame.Coded (p : Program) (f : Frame) (c : Cursor) : Prop where
  code : f.code = some c
  script : p.Contains c.script
  inside : c.pc ≤ c.script.code.size
  locals : c.locals.size = c.script.locals
  mode : f.warp = c.script.warp

/-- All frames of the thread are at places in the scripts of the program, and there is one as long
as the thread runs. -/
structure Thread.Coded (p : Program) (t : Thread) : Prop where
  program : t.program = some p
  frames : ∀ f ∈ t.stack, ∃ c, f.Coded p c
  running : t.stack = [] → t.status ≠ .running
  pending : ∀ pending, t.pending = some pending → ∃ dest, pending.waiter = .code dest

section Coded

variable {p : Program} {t : Thread} {f f' g : Frame} {c : Cursor} {rest stack : List Frame}
  {i : Instr Script}

/-- A frame that has moved within its code is still in it. -/
theorem Frame.Coded.moved {pc : Nat} (h : f.Coded p c) (hm : f.Moved c pc f')
    (hpc : pc ≤ c.script.code.size) : ∃ c', f'.Coded p c' := by
  obtain ⟨hw, c', hc', hs, -, hl, hpc'⟩ := hm
  refine ⟨c', hc', hs ▸ h.script, ?_, ?_, ?_⟩
  · rwa [hpc', hs]
  · rw [hl.size, hs]
    exact h.locals
  · rw [hw, hs]
    exact h.mode

theorem Thread.Coded.head (h : t.Coded p) (hat : t.At f c rest) : f.Coded p c := by
  obtain ⟨c', hc'⟩ := h.frames f (by rw [hat.stack]; exact mem_cons_self)
  have := hc'.code
  rw [hat.code] at this
  cases this
  exact hc'

theorem Thread.Coded.tail (h : t.Coded p) (hat : t.At f c rest) : ∀ f ∈ rest, ∃ c, f.Coded p c :=
  fun f hf => h.frames f (by rw [hat.stack]; exact mem_cons_of_mem _ hf)

/-- A running thread is at an instruction or at the end of a script. -/
theorem Thread.Coded.at_cursor (h : t.Coded p) (hrun : t.status = .running) :
    ∃ f c rest, t.At f c rest := by
  cases hs : t.stack with
  | nil => exact absurd hrun (h.running hs)
  | cons f rest =>
    obtain ⟨c, hc⟩ := h.frames f (by rw [hs]; exact mem_cons_self)
    exact ⟨f, c, rest, hs, hc.code⟩

theorem instr?_lt (h : c.instr? = some i) : c.pc < c.script.code.size :=
  (Array.getElem?_eq_some_iff.mp h).1

theorem instr?_toList (h : c.instr? = some i) : c.script.code.toList[c.pc]? = some i := by
  rw [Array.getElem?_toList]
  exact h

theorem instr?_mem (h : c.instr? = some i) : i ∈ c.script.code.toList :=
  Array.mem_toList_iff.mpr (Array.mem_of_getElem? h)

theorem dropProcedure_mem (h : f ∈ Turn.dropProcedure stack) : f ∈ stack := by
  induction stack with
  | nil => exact h
  | cons g stack ih =>
    unfold Turn.dropProcedure at h
    split at h
    · exact mem_cons_of_mem _ h
    · exact mem_cons_of_mem _ (ih h)

theorem stack_of_alive (h : t.isDone = false) : t.stack ≠ [] := by
  intro hs
  simp [Thread.isDone, hs] at h

/-- Waking up a thread that has frames. -/
theorem Thread.Coded.awake (h : t.Coded p) (hs : t.stack ≠ []) :
    ({ t with pending := none, status := .running } : Thread).Coded p :=
  ⟨h.program, h.frames, fun hnil => absurd hnil hs, by simp⟩

theorem Thread.Coded.setLocal (h : t.Coded p) (slot : Nat) (v : Value) :
    (t.onCursor (·.setLocal slot v)).Coded p := by
  refine ⟨h.program, ?_, fun hnil => ?_, h.pending⟩
  · intro f hf
    cases hs : t.stack with
    | nil =>
      rw [Thread.onCursor, Thread.onFrame, hs] at hf
      cases hf
    | cons g rest =>
      obtain ⟨c, hc⟩ := h.frames g (by rw [hs]; exact mem_cons_self)
      have hat : t.At g c rest := ⟨hs, hc.code⟩
      rw [(hat.onCursor _).stack] at hf
      rcases mem_cons.mp hf with rfl | hf
      · exact ⟨_, rfl, hc.script, hc.inside, by simpa [Cursor.setLocal] using hc.locals, hc.mode⟩
      · exact h.tail hat f hf
  · refine h.running ?_
    rw [Thread.onCursor, Thread.onFrame] at hnil
    simpa using hnil

/-- The frames that stay are at places in the scripts. -/
theorem Turn.Stays.coded (hs : Turn.Stays f c rest stack) (hf : f.Coded p c)
    (hrest : ∀ f ∈ rest, ∃ c, f.Coded p c) : ∀ f ∈ stack, ∃ c, f.Coded p c := by
  rcases hs with ⟨f', pc, rfl, hm, hpc⟩ | ⟨-, rfl, -⟩
  · refine forall_mem_cons.mpr ⟨hf.moved hm ?_, hrest⟩
    rcases hpc with rfl | ⟨rfl, hi⟩
    · exact hf.inside
    · obtain ⟨i, hi⟩ := Option.isSome_iff_exists.mp hi
      exact instr?_lt hi
  · exact hrest

theorem Turn.Stays.ne_nil (hs : Turn.Stays f c rest stack) : stack ≠ [] := by
  rcases hs with ⟨f', pc, rfl, -⟩ | ⟨-, rfl, hne⟩
  · simp
  · exact hne

/-- A body that is called runs in the mode of its key, which a caller in warp mode imposes. -/
theorem Program.Sound.mode_called (hp : p.Sound) (hf : f.Coded p c) {key : ProcedureKey}
    {body : Script} (hi : c.instr? = some i) (hkey : i.callee? = some key)
    (hbody : p.procedures.lookup key = some body) :
    (f.warp || key.warp) = body.warp := by
  have hplaced := (hp.good hf.script).placed (instr?_toList hi)
  rw [(hp.bodies key body hbody).1, hf.mode]
  cases hw : c.script.warp with
  | false => rfl
  | true => rw [hplaced.warp key hkey hw]; rfl

/-- A branch runs in the mode of the script that it belongs to. -/
theorem Program.Sound.mode_branch {s b : Script} (hp : p.Sound) (hs : p.Contains s)
    (hi : i ∈ s.code.toList) (hb : b ∈ i.branches) : b.warp = s.warp := by
  cases hp.good hs with
  | intro _ warp _ => exact warp i hi b hb

/-- **One instruction keeps a thread in compiled code.** -/
theorem Turn.Ticked.coded {kit : Kit σ} {s s' : Turn σ} {r : Except BlockError Turn.Flow}
    (hp : p.Sound) (h : s.thread.Coded p) (hat : s.thread.At f c rest)
    (hticked : Turn.Ticked kit s f c rest r s') : s'.thread.Coded p := by
  obtain ⟨hprogram, hpending, hshift⟩ := hticked
  have hf := h.head hat
  have hrest := h.tail hat
  have hframes : (∀ f ∈ s'.thread.stack, ∃ c, f.Coded p c) ∧
      (s'.thread.stack = [] → s'.thread.status ≠ .running) := by
    cases hshift with
    | ended hs hst => exact ⟨by simp [hs], fun _ => hst⟩
    | halted _ hs => exact ⟨hs.coded hf hrest, fun hnil => absurd hnil hs.ne_nil⟩
    | spent hs _ => exact ⟨hs.coded hf hrest, fun hnil => absurd hnil hs.ne_nil⟩
    | moved hi hpc hs hm _ =>
      rw [hs]
      refine ⟨forall_mem_cons.mpr ⟨hf.moved hm ?_, hrest⟩, by simp⟩
      rcases hpc with ⟨rfl, -⟩ | ht
      · exact instr?_lt hi
      · exact (hp.wellFormed hf.script).targets _ (instr?_mem hi) _ ht
    | called hi hkey hprogram' hbody hs hm hg hw _ =>
      rw [h.program] at hprogram'
      cases hprogram'
      rw [hs]
      refine ⟨forall_mem_cons.mpr ⟨?_, forall_mem_cons.mpr ⟨hf.moved hm ?_, hrest⟩⟩,
        by simp⟩
      · exact ⟨_, hg, .body hbody, Nat.zero_le _, by simp, hp.mode_called hf hi hkey hbody ▸ hw⟩
      · exact instr?_lt hi
    | branched hi hb hs hm hg hw _ =>
      rw [hs]
      refine ⟨forall_mem_cons.mpr ⟨?_, forall_mem_cons.mpr ⟨hf.moved hm ?_, hrest⟩⟩,
        by simp⟩
      · exact ⟨_, hg, .branch hf.script (instr?_mem hi) hb, Nat.zero_le _, by simp,
          (hp.mode_branch hf.script (instr?_mem hi) hb).symm ▸ hw.trans hf.mode⟩
      · split
        · exact hf.inside
        · exact instr?_lt hi
    | popped _ _ hs hne _ =>
      rw [hs]
      exact ⟨hrest, fun hnil => absurd hnil hne⟩
    | left hs hst _ =>
      refine ⟨fun g hg => ?_, hst⟩
      rw [hs] at hg
      exact forall_mem_cons.mpr ⟨⟨c, hf⟩, hrest⟩ g (dropProcedure_mem hg)
  refine ⟨hprogram.trans h.program, hframes.1, hframes.2, fun pending hpend => ?_⟩
  rcases hpending with hsame | hnone | ⟨promise, call, -, -, -, hsome, -⟩
  · exact h.pending pending (hsame ▸ hpend)
  · rw [hnone] at hpend
    cases hpend
  · rw [hsome] at hpend
    cases hpend
    exact ⟨call.dest, rfl⟩

end Coded

/-! ## Every state -/

namespace Program.Reaches

variable {kit : Kit σ} {p : Program} {t : Thread} {m : Machine σ}

/-- **Every state of a thread that runs a sound program is in compiled code.** -/
theorem coded (hp : p.Sound) (h : p.Reaches kit t) : t.Coded p := by
  induction h with
  | enter hprogram hpending h =>
    rename_i t t'
    unfold Thread.enterProgram? at h
    rw [hprogram, Option.map_some, Option.some.injEq] at h
    subst h
    refine ⟨rfl, ?_, by simp [Thread.enter, Thread.pushFrame], fun q hq => ?_⟩
    · intro f hf
      rw [mem_singleton.mp hf]
      exact ⟨_, rfl, .script, Nat.zero_le _, by simp, hp.mode.symm⟩
    · cases hpending.symm.trans hq
  | tick _ hrun hc h ih =>
    obtain ⟨f, c, rest, hat⟩ := ih.at_cursor hrun
    rw [hat.cursor?] at hc
    cases hc
    exact (Turn.tick_shift hat hrun h).coded hp ih hat
  | startWarp m _ ih =>
    rw [Turn.startWarp_thread]
    exact ⟨ih.program, ih.frames, ih.running, ih.pending⟩
  | endTurn _ ih => exact ⟨ih.program, ih.frames, ih.running, ih.pending⟩
  | wake _ halive ih =>
    have halive := stack_of_alive halive
    exact ⟨ih.program, ih.frames, fun hs => absurd hs halive, ih.pending⟩
  | settle m v _ halive hpending ih =>
    obtain ⟨dest, hdest⟩ := ih.pending _ hpending
    rw [hdest]
    have hawake := ih.awake (stack_of_alive halive)
    cases dest with
    | none => exact hawake
    | some slot => exact hawake.setLocal slot v
  | forgo m _ halive hpending ih =>
    obtain ⟨dest, hdest⟩ := ih.pending _ hpending
    rw [hdest]
    exact ih.awake (stack_of_alive halive)
  | retire _ ih => exact ⟨ih.program, by simp [Thread.retire], by simp [Thread.retire],
      by simp [Thread.retire]⟩

end Program.Reaches

/-! ## Well-formed code -/

/-- A script that calls a procedure for ever. The procedure runs in warp mode and calls itself. -/
def Sheet.calling : Sheet :=
  .ofBlocks [
    { id := "hat", opcode := "event_whenflagclicked", next := some "loop", isTopLevel := true },
    { id := "loop", opcode := "control_forever",
      inputs := Table.of [("SUBSTACK", { block := some "call" })] },
    { id := "call", opcode := "procedures_call", mutation := some { proccode := some "spin" } },
    { id := "definition", opcode := "procedures_definition", next := some "again",
      inputs := Table.of [("custom_block", { block := some "prototype" })], isTopLevel := true },
    { id := "prototype", opcode := "procedures_prototype",
      mutation := some { proccode := some "spin", warp := true } },
    { id := "again", opcode := "procedures_call", mutation := some { proccode := some "spin" } }]

theorem Sheet.calling_compiles :
    ∃ p, Sheet.calling.compile (Library.core : Catalog Unit) "hat" = .ok p ∧
      p.procedures.length = 1 := by
  have h : ((Sheet.calling.compile (Library.core : Catalog Unit) "hat").toOption.map
      (·.procedures.length)) = some 1 := by decide +kernel
  cases hp : Sheet.calling.compile (Library.core : Catalog Unit) "hat" with
  | error e =>
    rw [hp] at h
    cases h
  | ok p =>
    rw [hp] at h
    exact ⟨p, rfl, Option.some.inj h⟩

/-- A thread that is about to run the program. -/
def Program.thread (p : Program) (sheet : Sheet) : Thread :=
  { id := 0, target := 0, top := "hat", sheet, program := some p,
    stack := [{ code := some { script := p.script, kind := .script } }] }

theorem Program.reaches_thread (kit : Kit σ) (p : Program) (sheet : Sheet) :
    p.Reaches kit (p.thread sheet) :=
  .enter (t := { p.thread sheet with stack := [] }) rfl rfl rfl

end BlockMachine

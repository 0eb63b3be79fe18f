import BlockMachine.Proofs.Machine.Passes
import BlockMachine.Proofs.Turn.Fuel
import BlockMachine.Proofs.Turn.Running

/-!
# Errors stay in their threads

A turn that runs into an error ends its thread and tells the error, and nothing else happens to the
list of threads (`Visit.Fails.isolated`), provided that neither the primitives of the kit nor the
code of the thread reach for other threads. The thread is given away at the end of the pass, and the
places behind it are visited as ever. If the predicate of a hat fails, its thread never comes into
the list (`Machine.spawn_of_asking`). All this is `errors_stay_in_their_thread`.

The module is about `Turn.fail`, `Machine.visit` and `Machine.askPredicate`.

## Results

* `Visit.Fails.isolated`: one turn that fails.
* `Machine.spawn_of_asking`: one predicate that fails.
* `errors_stay_in_their_thread`: all turns of a frame, and all ways to trigger a hat.

Left out are kits whose primitives stop threads or remove targets, and code that stops other
scripts: there the turn may have reached other threads before it fails.
-/

namespace BlockMachine

open List Option

variable {σ : Type} {fuel : Nat}

/-! ## Code that spares other threads -/

/-- No instruction stops the other threads of its target. -/
inductive Script.Sparing : Script → Prop
  | intro {s : Script} (code : ∀ i ∈ s.code.toList, i ≠ .stop .otherScripts)
      (branches : ∀ i ∈ s.code.toList, ∀ b ∈ i.branches, Sparing b) : Sparing s

/-- All code that the thread can come to is sparing. -/
structure Thread.Sparing (t : Thread) : Prop where
  frames : ∀ f ∈ t.stack, ∀ c, f.code = some c → c.script.Sparing
  script : ∀ p, t.program = some p → p.script.Sparing
  bodies : ∀ p, t.program = some p → ∀ key s, p.procedures.lookup key = some s → s.Sparing

/-- The frame has no code, or code of the given frames. -/
def Frame.CodeOf (stack : List Frame) (f' : Frame) : Prop :=
  ∀ c', f'.code = some c' → ∃ f ∈ stack, ∃ c, f.code = some c ∧ c'.script = c.script

namespace Thread.Sparing

variable {t t' : Thread}

section

variable (h : t.Sparing)

include h

theorem of_frames (hprogram : t'.program = t.program) (hframes : ∀ f ∈ t'.stack, f.CodeOf t.stack) :
    t'.Sparing := by
  refine ⟨fun f' hf' c' hc' => ?_, hprogram ▸ h.script, hprogram ▸ h.bodies⟩
  obtain ⟨f, hf, c, hc, hscript⟩ := hframes f' hf' c' hc'
  exact hscript ▸ h.frames f hf c hc

/-- Frames that were there. -/
theorem of_subset (hprogram : t'.program = t.program) (hframes : ∀ f ∈ t'.stack, f ∈ t.stack) :
    t'.Sparing :=
  h.of_frames hprogram fun f hf c hc => ⟨f, hframes f hf, c, hc, rfl⟩

theorem pop : t.pop.Sparing :=
  h.of_subset rfl fun _ => mem_of_mem_tail

theorem onFrame {g : Frame → Frame}
    (hg : ∀ f c', (g f).code = some c' → ∃ c, f.code = some c ∧ c'.script = c.script) :
    (t.onFrame g).Sparing := by
  refine h.of_frames rfl fun f' hf' c' hc' => ?_
  unfold Thread.onFrame at hf'
  cases hstack : t.stack with
  | nil =>
    rw [hstack] at hf'
    cases hf'
  | cons f rest =>
    rw [hstack] at hf'
    rcases mem_cons.mp hf' with rfl | hmem
    · exact ⟨f, mem_cons_self, hg f c' hc'⟩
    · exact ⟨f', mem_cons_of_mem _ hmem, c', hc', rfl⟩

theorem goNext : t.goNext.Sparing :=
  h.onFrame fun _ _ hc' => by cases hc'

theorem setLocal (slot : Nat) (v : Value) : (t.onCursor (·.setLocal slot v)).Sparing := by
  refine h.onFrame fun f c' hc' => ?_
  obtain ⟨c, hc, rfl⟩ := map_eq_some_iff.mp hc'
  exact ⟨c, hc, rfl⟩

end

theorem takeReport_code (f : Frame) (v : Value) : (f.takeReport v).code = f.code := by
  unfold Frame.takeReport
  split <;> rfl

theorem report (h : t.Sparing) (v : Value) : (t.report v).Sparing := by
  unfold Thread.report
  split
  · rename_i top parent rest hstack
    refine h.of_frames rfl fun f' hf' c' hc' => ?_
    rw [hstack]
    rcases mem_cons.mp hf' with rfl | hmem
    · exact ⟨f', mem_cons_self, c', hc', rfl⟩
    rcases mem_cons.mp hmem with rfl | hmem
    · exact ⟨parent, mem_cons_of_mem _ mem_cons_self, c', takeReport_code parent v ▸ hc', rfl⟩
    · exact ⟨f', mem_cons_of_mem _ (mem_cons_of_mem _ hmem), c', hc', rfl⟩
  · exact ⟨h.frames, h.script, h.bodies⟩

theorem mem_unwindFrom {sheet : Sheet} {f top : Frame} {rest : List Frame}
    (h : f ∈ (unwindFrom sheet top rest).2) : f ∈ top :: rest ∨ f.code = none := by
  induction rest generalizing top with
  | nil =>
    rw [unwindFrom] at h
    split at h
    · exact .inl h
    · cases h
  | cons g rest ih =>
    rw [unwindFrom] at h
    split at h
    · exact .inl h
    split at h
    · exact .inl (mem_cons_of_mem _ h)
    split at h
    · exact .inl (mem_cons_of_mem _ h)
    rcases ih h with hmem | hnone
    · rcases mem_cons.mp hmem with rfl | hmem
      · exact .inr rfl
      · exact .inl (mem_cons_of_mem _ (mem_cons_of_mem _ hmem))
    · exact .inr hnone

theorem unwind (h : t.Sparing) : t.unwind.2.Sparing := by
  unfold Thread.unwind
  cases hstack : t.stack with
  | nil => exact h.of_subset rfl fun f hf => by cases hf
  | cons top rest =>
    refine h.of_frames rfl fun f' hf' c' hc' => ?_
    rcases mem_unwindFrom hf' with hmem | hnone
    · exact ⟨f', hstack ▸ hmem, c', hc', rfl⟩
    · rw [hnone] at hc'
      cases hc'

theorem leaveHat (h : t.Sparing) : t.leaveHat.Sparing := by
  unfold Thread.leaveHat Thread.enterProgram?
  cases hprogram : t.program with
  | none => exact h.goNext
  | some p =>
    refine ⟨fun f hf c hc => ?_, fun p' hp' => h.script p' (hprogram.trans hp'),
      fun p' hp' => h.bodies p' (hprogram.trans hp')⟩
    rw [mem_singleton.mp hf] at hc
    cases hc
    exact h.script p hprogram

end Thread.Sparing

namespace Turn

open Exec

variable {kit : Kit σ} {s s' : Turn σ} {f : Frame} {c : Cursor} {rest : List Frame} {e : BlockError}

theorem moved_codeOf {f' : Frame} {pc : Nat} (hf : f.code = some c) (h : f.Moved c pc f') :
    ∀ g ∈ f' :: rest, g.CodeOf (f :: rest) := by
  refine forall_mem_cons.mpr ⟨fun c' hc' => ?_, fun g hg c' hc' => ?_⟩
  · obtain ⟨c₁, hc₁, hscript, -⟩ := h.code
    cases hc₁.symm.trans hc'
    exact ⟨f, mem_cons_self, c, hf, hscript⟩
  · exact ⟨g, mem_cons_of_mem _ hg, c', hc', rfl⟩

theorem Stays.codeOf {stack : List Frame} (hf : f.code = some c) (h : Stays f c rest stack) :
    ∀ f' ∈ stack, f'.CodeOf (f :: rest) := by
  rcases h with ⟨f₁, pc, rfl, hmoved, -⟩ | ⟨-, rfl, -⟩
  · exact moved_codeOf hf hmoved
  · exact fun f' hf' c' hc' => ⟨f', mem_cons_of_mem _ hf', c', hc', rfl⟩

/-- An instruction leads to no other code than that of the thread. -/
theorem Ticked.sparing {r : Except BlockError Flow} (h : s.thread.Sparing)
    (hat : s.thread.At f c rest) (hticked : Ticked kit s f c rest r s') : s'.thread.Sparing := by
  obtain ⟨hprogram, -, hshift⟩ := hticked
  have hstack := hat.stack
  have hscript : c.script.Sparing := h.frames f (hstack ▸ mem_cons_self) c hat.code
  have hentered : ∀ {f' g : Frame} {c' : Cursor} {pc : Nat}, s'.thread.stack = g :: f' :: rest →
      f.Moved c pc f' → g.code = some c' → c'.script.Sparing → s'.thread.Sparing := by
    intro f' g c' pc hs hm hg hc'
    refine ⟨?_, hprogram ▸ h.script, hprogram ▸ h.bodies⟩
    rw [hs]
    refine forall_mem_cons.mpr ⟨fun c₁ hc₁ => ?_, fun g' hg' c₁ hc₁ => ?_⟩
    · cases hg.symm.trans hc₁
      exact hc'
    · obtain ⟨f₁, hf₁, c₂, hc₂, heq⟩ := moved_codeOf hat.code hm g' hg' c₁ hc₁
      exact heq ▸ h.frames f₁ (hstack ▸ hf₁) c₂ hc₂
  cases hshift with
  | ended hs _ => exact h.of_frames hprogram (hs ▸ forall_mem_nil _)
  | halted _ hs => exact h.of_frames hprogram (hstack ▸ hs.codeOf hat.code)
  | spent hs _ => exact h.of_frames hprogram (hstack ▸ hs.codeOf hat.code)
  | moved _ _ hs hm _ => exact h.of_frames hprogram (hs ▸ hstack ▸ moved_codeOf hat.code hm)
  | called _ _ hp hbody hs hm hg _ _ => exact hentered hs hm hg (h.bodies _ hp _ _ hbody)
  | branched hi hb hs hm hg _ _ =>
    cases hscript with
    | intro _ branches => exact hentered hs hm hg (branches _ (instr?_mem hi) _ hb)
  | popped _ _ hs _ _ =>
    exact h.of_subset hprogram fun g hg => hstack ▸ mem_cons_of_mem _ (hs ▸ hg)
  | left hs _ _ => exact h.of_subset hprogram fun g hg => hstack ▸ dropProcedure_mem (hs ▸ hg)

/-! ## Turns that fail -/

theorem exists_at {t : Thread} (h : t.cursor? = some c) : ∃ f rest, t.At f c rest := by
  unfold Thread.cursor? Thread.frame? at h
  cases hstack : t.stack with
  | nil =>
    rw [hstack] at h
    cases h
  | cons f rest =>
    rw [hstack] at h
    exact ⟨f, rest, hstack, h⟩

variable {R : Machine σ → Machine σ → Prop} [Lasting R] (rule : Machine.Rule kit R)

include rule

/-- Of the instructions that stop threads, sparing code has only those after which no error can
come. -/
theorem tick_along (hothers : c.instr? ≠ some (.stop .otherScripts))
    (hall : c.instr? ≠ some (.stop .all)) :
    Keeps (Along R) (tick kit fuel c) := by
  unfold tick
  cases hi : c.instr? with
  | none => exact finishFrame_lax rule.lax
  | some i =>
    refine runInstr_along rule fuel c.pc i fun option heq => ?_
    cases option with
    | all => exact absurd (heq ▸ hi) hall
    | thisScript => exact (leaveScript_lax rule.lax).andThen fun _ => keeps_pure _
    | otherScripts => exact absurd (heq ▸ hi) hothers

theorem runCode_failed (hsparing : s.thread.Sparing)
    (h : runCode kit fuel s = some (.error e, s')) :
    s.Along R s' := by
  induction fuel generalizing s with
  | zero => cases h
  | succ fuel ih =>
    rw [runCode_succ, getThread_andThen] at h
    by_cases hrun : s.thread.status = .running
    · rw [if_neg (by simp [hrun])] at h
      cases hcursor : s.thread.cursor? with
      | none =>
        rw [hcursor] at h
        cases h
      | some c =>
        rw [hcursor] at h
        dsimp only at h
        obtain ⟨f, rest, hat⟩ := exists_at hcursor
        have hothers : c.instr? ≠ some (.stop .otherScripts) := by
          intro hi
          cases hsparing.frames f (hat.stack ▸ mem_cons_self) c hat.code with
          | intro code _ => exact code _ (instr?_mem hi) rfl
        by_cases hall : c.instr? = some (.stop .all)
        · have htick : tick kit fuel c = runInstr kit fuel c.pc (.stop .all) := by
            unfold tick
            rw [hall]
          rw [htick] at h
          cases h
        · rcases bind_some.mp h with ⟨e', htick, heq⟩ | ⟨flow, s₁, htick, h⟩
          · exact tick_along rule hothers hall _ _ _ htick
          · have hs₁ := tick_along rule hothers hall _ _ _ htick
            cases flow with
            | go =>
              exact Lasting.trans hs₁ (ih ((tick_shift hat hrun htick).sparing hsparing hat) h)
            | pause => cases h
    · rw [if_pos (by simpa using hrun)] at h
      cases h

theorem resume_failed (hsparing : s.thread.Sparing) (h : resume kit fuel s = some (.error e, s')) :
    s.Along R s' := by
  by_cases hcursor : s.thread.cursor?.isSome = true
  · rw [resume_coded hcursor] at h
    refine Lasting.trans (along_resumed rule.lax s) (runCode_failed rule ?_ h)
    have hstart : s.startWarp.thread.Sparing := by
      rw [startWarp_thread]
      exact ⟨hsparing.frames, hsparing.script, hsparing.bodies⟩
    unfold resumed
    dsimp only
    split
    · exact ⟨hstart.frames, hstart.script, hstart.bodies⟩
    · exact hstart
  · rw [resume_interpreted (by simpa using hcursor)] at h
    split at h
    · exact Lasting.trans (along_placed rule.lax s) (interpret_along rule fuel _ _ s' h)
    · cases h

omit rule [Lasting R]

theorem unwind_sparing (h : s.thread.Sparing) : s.unwind.2.thread.Sparing := by
  rw [unwind_thread]
  exact h.unwind

theorem settle_sparing (h : s.thread.Sparing) (catalog : Catalog σ) (v : Value) (waiter : Waiter) :
    (s.settle catalog v waiter).thread.Sparing := by
  cases waiter with
  | code dest =>
    cases dest with
    | none => exact h
    | some slot => exact h.setLocal slot v
  | block isHat =>
    cases isHat with
    | true =>
      rw [settle]
      cases s.thread.block? with
      | none => exact h
      | some block =>
        have hhat : (s.reportHat catalog block ((s.thread.sheet.opcode? block).getD "")
            v).2.thread.Sparing := by
          unfold reportHat
          dsimp only
          generalize (if catalog.isEdge _ then _ else _ : Bool × Machine σ) = p
          split
          · exact h
          · exact h.of_subset rfl fun f hf => by cases hf
        dsimp only
        split
        · exact hhat.leaveHat
        · exact hhat
    | false =>
      rw [settle]
      split
      · exact (h.report v).pop
      · exact unwind_sparing (h.report v).goNext

theorem forgo_sparing (h : s.thread.Sparing) (waiter : Waiter) :
    (s.forgo waiter).thread.Sparing := by
  cases waiter with
  | code dest => exact h
  | block isHat =>
    show (endIfEmpty s.thread.pop).Sparing
    unfold endIfEmpty
    split
    · exact ⟨h.pop.frames, h.script, h.bodies⟩
    · exact h.pop

/-- Where a turn begins to run: at once, or behind the promise that the thread has waited for, if it
can go on there. -/
def begins (kit : Kit σ) (s : Turn σ) : Option (Turn σ) :=
  if s.thread.status == .promiseWait then
    match s.thread.pending with
    | none => none
    | some pending =>
      let awake := { s with thread := { s.thread with pending := none, status := .running } }
      let settled := match s.machine.promises[pending.promise]? with
        | some (.resolved v) => some (awake.settle kit.toCatalog v pending.waiter)
        | some (.rejected _) => some (awake.forgo pending.waiter)
        | _ => none
      settled.filter fun s => s.thread.status == .running && !s.thread.isDone
  else some s

/-- The turn runs into the error. -/
def Fails (kit : Kit σ) (s : Turn σ) (e : BlockError) : Prop :=
  ∃ fuel s₁ s₂, s.begins kit = some s₁ ∧ resume kit fuel s₁ = some (.error e, s₂)

theorem begins_eq (hstatus : s.thread.status = .promiseWait) :
    s.begins kit = if (s.awaken kit).1 then some (s.awaken kit).2 else none := by
  unfold begins awaken
  rw [if_pos (by simp [hstatus])]
  cases s.thread.pending with
  | none => rfl
  | some pending =>
    rcases hp : s.machine.promises[pending.promise]? with _ | _ | _ | _ <;> simp only [hp] <;> rfl

theorem visit_of_begins {s₁ s₂ : Turn σ} (h : s.begins kit = some s₁)
    (hresume : resume kit fuel s₁ = some (.error e, s₂)) : s.visit kit fuel = some (s₂.fail e) := by
  have hstep : s₁.step kit fuel = some (s₂.fail e) := by
    unfold step
    rw [hresume]
    rfl
  unfold visit
  split
  · rename_i hstatus
    rw [begins_eq (eq_of_beq hstatus)] at h
    obtain ⟨hgoes, ⟨⟩⟩ := Option.ite_none_right_eq_some.mp h
    rw [await_eq, if_pos hgoes]
    exact hstep
  · rename_i hstatus
    unfold begins at h
    rw [if_neg hstatus] at h
    cases h
    exact hstep

theorem begins_along (rule : Machine.Rule kit R) [Lasting R] (hsparing : s.thread.Sparing)
    (h : s.begins kit = some s') : s.Along R s' ∧ s'.thread.Sparing := by
  by_cases hstatus : s.thread.status = .promiseWait
  · rw [begins_eq hstatus] at h
    obtain ⟨-, ⟨⟩⟩ := Option.ite_none_right_eq_some.mp h
    have hawake : Thread.Sparing { s.thread with pending := none, status := .running } :=
      ⟨hsparing.frames, hsparing.script, hsparing.bodies⟩
    exact ⟨along_awaken rule.lax rule.notes kit s,
      awaken_induction (P := (·.thread.Sparing)) hsparing
      ⟨hsparing.frames, hsparing.script, hsparing.bodies⟩ (fun _ _ _ => settle_sparing hawake _ _ _)
      fun _ _ => forgo_sparing hawake _⟩
  · unfold begins at h
    rw [if_neg (by simpa using hstatus)] at h
    cases h
    exact ⟨Lasting.refl s, hsparing⟩

end Turn

/-! ## The list of threads -/

/-- No primitive starts or stops threads, or adds or removes targets. -/
def Catalog.Modest (catalog : Catalog σ) : Prop :=
  ∀ opcode primitive, catalog.primitive? opcode = some primitive →
    ∀ args, (primitive args).Only fun r => r.isFar = false

namespace Machine

/-- Nothing happened to the threads, and no event was told. -/
structure Undisturbed (m m' : Machine σ) : Prop where
  threads : m'.threads = m.threads
  events : m'.events = m.events

instance : Lasting (Undisturbed : Machine σ → Machine σ → Prop) where
  refl _ := ⟨rfl, rfl⟩
  trans h h' := ⟨h'.threads.trans h.threads, h'.events.trans h.events⟩

variable {kit : Kit σ} {m m' : Machine σ}

theorem near_rule (hkit : kit.Modest) {R : Machine σ → Machine σ → Prop} [Lasting R]
    (hstill : ∀ {m m'}, m.Still m' → R m m')
    (hedge : ∀ m target block value, R m (m.edgeFires target block value).2) : Rule kit R where
  toLenient := .of_still hstill
  edgeFires := hedge
  primitive _ _ opcode primitive hprimitive mode args :=
    have hlenient : Lenient R := .of_still hstill
    Call.run_only (fun _ hnear => Call.perform_near hlenient.lax _ mode hnear
      fun ref _ => hlenient.turnWrites ref)
      (hkit opcode primitive hprimitive args)

theorem undisturbed_edgeFires (m : Machine σ) (target : TargetId) (block : BlockId) (value : Bool) :
    m.Undisturbed (m.edgeFires target block value).2 := by
  unfold edgeFires
  cases m.targets[target]? <;> exact ⟨rfl, rfl⟩

theorem undisturbed_rule (hkit : kit.Modest) : Rule kit Undisturbed :=
  near_rule hkit (fun h => ⟨h.threads, h.events⟩) undisturbed_edgeFires

/-- Retired threads stay as they are, where they are. -/
def Remains (m m' : Machine σ) : Prop :=
  ∀ (i : Nat) (t : Thread), m.threads[i]? = some t → t.retire = t → m'.threads[i]? = some t

instance : Lasting (Remains : Machine σ → Machine σ → Prop) where
  refl _ _ _ h _ := h
  trans h h' i t ht hretired := h' i t (h i t ht hretired) hretired

theorem remains_of_threads (h : m'.threads = m.threads) : m.Remains m' :=
  fun _ _ ht _ => h ▸ ht

theorem remains_onThreads (m : Machine σ) (p : Thread → Bool) :
    m.Remains (m.onThreads p Thread.retire) := by
  intro i t ht hretired
  show (m.threads.map _)[i]? = _
  rw [getElem?_map, ht, map_some]
  split
  · rw [hretired]
  · rfl

theorem remains_removeTarget (m : Machine σ) (target : TargetId) :
    m.Remains (m.removeTarget target) := by
  unfold removeTarget
  cases m.targets[target]? with
  | none => exact Lasting.refl m
  | some t => exact remains_onThreads m _

theorem remains_stopAll (m : Machine σ) : m.Remains m.stopAll :=
  stopAll_along remains_removeTarget (fun m => remains_onThreads m _) (remains_of_threads rfl)

theorem remains_rule (hkit : kit.Modest) : TurnRule kit Remains where
  toRule := near_rule hkit (fun h => remains_of_threads h.threads)
    fun m target block value =>
      remains_of_threads (undisturbed_edgeFires m target block value).threads
  reportError _ _ _ := remains_of_threads rfl
  stopAll := remains_stopAll
  stopTarget m _ _ := remains_onThreads m _

end Machine

/-! ## Visits -/

/-- The turn in which the thread of a place is visited. -/
def Visit.start (isFirst : Bool) (v : Visit σ) : Turn σ :=
  let t := Machine.wake isFirst v.thread
  ⟨{ v.before with threads := v.before.threads.set v.place t.placeholder }, t⟩

/-- The visit is a turn that runs into the error. -/
def Visit.Fails (kit : Kit σ) (isFirst : Bool) (v : Visit σ) (e : BlockError) : Prop :=
  v.turn.isSome ∧ (v.start isFirst).Fails kit e

namespace Visit

variable {kit : Kit σ} {isFirst : Bool} {v : Visit σ} {e : BlockError}

/-- **A turn that fails ends its thread, and leaves the others alone.** -/
theorem Fails.isolated (hkit : kit.Modest) (hv : v.Made kit isFirst) (h : v.Fails kit isFirst e)
    (hsparing : v.thread.Sparing) :
    ∃ t : Thread, v.after.threads = v.before.threads.set v.place t.retire ∧ t.id = v.thread.id ∧
      v.after.events = v.before.events ++ [.threadError v.thread.id v.thread.target e] := by
  obtain ⟨hsome, fuel, s, s', hbegins, hresume⟩ := h
  obtain ⟨last, hturn⟩ := isSome_iff_exists.mp hsome
  obtain ⟨⟨fuel', hmade⟩, hafter⟩ := hv.turn last hturn
  replace hmade : (v.start isFirst).visit kit fuel' = some last := hmade
  cases Turn.visit_unique hmade (Turn.visit_of_begins hbegins hresume)
  obtain ⟨hid, htarget, -⟩ := Machine.wake_same isFirst v.thread
  have hlt := (List.getElem?_eq_some_iff.mp hv.thread).1
  have hwake : (Machine.wake isFirst v.thread).Sparing := by
    unfold Machine.wake
    split
    · exact ⟨hsparing.frames, hsparing.script, hsparing.bodies⟩
    · exact hsparing
  have rule := Machine.undisturbed_rule hkit
  obtain ⟨hbegun, hsparing'⟩ := Turn.begins_along rule hwake hbegins
  have halong := Lasting.trans hbegun (Turn.resume_failed rule hsparing' hresume)
  have hthreads : s'.machine.threads =
      v.before.threads.set v.place (Machine.wake isFirst v.thread).placeholder :=
        halong.machine.threads
  have hslot : (s'.fail e).machine.threads[v.place]? =
      some (Machine.wake isFirst v.thread).placeholder := by
    show s'.machine.threads[v.place]? = _
    rw [hthreads, getElem?_set_self hlt]
  have hback : s'.thread.id = v.thread.id := halong.thread.id.trans hid
  have hevents : (s'.fail e).machine.events =
      v.before.events ++ [.threadError v.thread.id v.thread.target e] := by
    show s'.machine.events ++ [.threadError s'.thread.id s'.thread.target e] = _
    rw [halong.machine.events, hback, halong.thread.target.trans htarget]
    rfl
  refine ⟨s'.thread, ?_, hback, ?_⟩
  · rcases Machine.putBack_eq hslot
      { (s'.fail e).thread with warpStart := none } with ⟨-, heq⟩ | ⟨hne, -⟩
    · rw [hafter, heq]
      show s'.machine.threads.set _ _ = _
      rw [hthreads, set_set]
      split <;> rfl
    · exact absurd (hid.trans hback.symm) hne
  · rw [hafter, ← hevents]
    unfold Machine.putBack
    rw [hslot]
    dsimp only
    split <;> rfl

/-- Retired threads have no turns. -/
theorem Made.remains (hkit : kit.Modest) (hv : v.Made kit isFirst) : v.before.Remains v.after := by
  intro i t ht hretired
  have hdone : t.isDone = true := by
    rw [← hretired]
    rfl
  by_cases hi : v.place = i
  · -- The thread in the place is retired itself, and passed over.
    subst hi
    cases hv.thread.symm.trans ht
    have hnone : v.turn = none := by
      have hdue := hv.due
      unfold Machine.isDue at hdue
      rw [hdone] at hdue
      exact isNone_iff_eq_none.mp (by simpa using hdue)
    have hpassed : v.thread.passedOver isFirst = v.thread := by
      have hstatus : v.thread.status = .done := by
        rw [← hretired]
        rfl
      simp [Thread.passedOver, Machine.wake, hstatus]
    rw [hv.rest hnone, hpassed]
    exact (getElem?_set_self (List.getElem?_eq_some_iff.mp hv.thread).1)
  · cases hturn : v.turn with
    | none =>
      rw [hv.rest hturn]
      exact (getElem?_set_ne hi).trans ht
    | some s =>
      obtain ⟨⟨fuel, hmade⟩, hafter⟩ := hv.turn s hturn
      have hs : s.machine.threads[i]? = some t :=
        (Machine.turn_along (Machine.remains_rule hkit) hmade).machine i t
          ((getElem?_set_ne hi).trans ht) hretired
      rw [hafter]
      unfold Machine.putBack
      split
      · split
        · exact (getElem?_set_ne hi).trans hs
        · exact hs
      · exact hs

end Visit

namespace Walk

variable {kit : Kit σ} {isFirst : Bool} {i : Nat} {m m' : Machine σ} {visits : List (Visit σ)}

theorem remains (hkit : kit.Modest) (h : Walk kit isFirst i m visits m') : m.Remains m' := by
  induction h with
  | nil _ => exact Lasting.refl _
  | cons hmade _ ih => exact Lasting.trans (hmade.remains hkit) ih

/-- What comes after a visit. -/
theorem behind (h : Walk kit isFirst i m visits m') :
    ∀ v ∈ visits, ∃ rest, Walk kit isFirst (v.place + 1) v.after rest m' ∧
      ∀ w ∈ rest, w ∈ visits := by
  induction h with
  | nil _ => exact forall_mem_nil _
  | @cons v visits m' _ hrest ih =>
    refine forall_mem_cons.mpr ⟨⟨visits, hrest, fun w => mem_cons_of_mem _⟩, fun v' hv' => ?_⟩
    obtain ⟨rest, hwalk, hsub⟩ := ih v' hv'
    exact ⟨rest, hwalk, fun w hw => mem_cons_of_mem _ (hsub w hw)⟩

/-- All places behind a visited one are visited, too. -/
theorem visits_later (h : Walk kit isFirst i m visits m') {v : Visit σ} (hv : v ∈ visits) {j : Nat}
    (hj : v.place < j) (hlt : j < v.after.threads.length) : ∃ w ∈ visits, w.place = j := by
  obtain ⟨rest, hwalk, hsub⟩ := h.behind v hv
  have hplace : v.place + 1 ≤ v.after.threads.length := Nat.le_of_lt (Nat.lt_of_le_of_lt hj hlt)
  obtain ⟨hplaces, hlength⟩ := hwalk.places hplace
  have hle := hwalk.proceeds.length_le
  have hmem : j ∈ rest.map Visit.place := by
    rw [hplaces, mem_range'_1]
    omega
  obtain ⟨w, hw, rfl⟩ := mem_map.mp hmem
  exact ⟨w, hsub w hw, rfl⟩

end Walk

/-! ## Hats -/

namespace Machine

variable {kit : Kit σ} {m : Machine σ} {target : TargetId} {top : BlockId}

/-- The turn in which the predicate of a hat is asked, on a thread of its own. -/
def asking (kit : Kit σ) (m : Machine σ) (target : TargetId) (top : BlockId) : Option (Turn σ) :=
  (m.newThread? target top).map fun p =>
    let q := prepared kit.toCatalog p.1 p.2
    ⟨q.2.readClock.2, q.1⟩

theorem asking_some {s : Turn σ} (h : m.asking kit target top = some s) :
    m.Undisturbed s.machine ∧ s.thread.id = m.nextThread ∧ s.thread.target = target := by
  unfold asking newThread? at h
  rw [Option.map_map] at h
  obtain ⟨source, -, rfl⟩ := map_eq_some_iff.mp h
  obtain ⟨program, memos, heq⟩ :=
    prepared_eq kit.toCatalog (.start m.nextThread target top source.sheet)
    { m with nextThread := m.nextThread + 1 }
  dsimp only [Function.comp]
  rw [heq]
  exact ⟨⟨rfl, rfl⟩, rfl, rfl⟩

theorem spawn_of_asking {s s' : Turn σ} {e : BlockError} (hask : m.asking kit target top = some s)
    (h : Turn.execute kit fuel s = some (.error e, s')) :
    spawn kit.toCatalog (predicate kit fuel) true target top m =
      some (none, s'.machine.reportError s.thread e) := by
  rw [spawn_eq]
  unfold asking at hask
  obtain ⟨⟨t, m₁⟩, hnew, rfl⟩ := map_eq_some_iff.mp hask
  rw [hnew]
  exact bind_eq_some_iff.mpr ⟨(.error e, s'), h, rfl⟩

end Machine

/-- A kit whose only primitive fails, be it that of a block or of a hat. -/
def Kit.faulty : Kit Unit where
  primitive? opcode := if opcode == "fault" then some fun _ =>
    .fail (.primitive opcode "out of order") else none
  lowering? _ := none
  hats := Table.of [("fault", {})]

theorem Kit.faulty_modest : Kit.faulty.Modest := by
  intro opcode primitive h args
  replace h : (if opcode == "fault" then some fun _ => .fail (.primitive opcode "out of order")
    else none) =
    some primitive := h
  split at h
  · cases h
    trivial
  · cases h

def Sheet.faulty : Sheet :=
  .ofBlocks [
    { id := "bad", opcode := "fault", isTopLevel := true },
    { id := "good", opcode := "idle", isTopLevel := true }]

/-- A stage with two scripts that are running, and the first one is going to fail. -/
def Machine.faulty : Machine Unit :=
  let m := (Machine.addTarget { clock := { tick := 5.0 }, host := () } (.stage .faulty)).2
  { m with
    threads := [.start 0 0 "bad" .faulty, .start 1 0 "good" .faulty]
    nextThread := 2 }

theorem Turn.resume_faulty {m : Machine Unit} (hm : m.targets.contains 0 = true) :
    resume .faulty 20 ⟨m, .start 0 0 "bad" .faulty⟩ =
      some (.error (.primitive "fault" "out of order"), ⟨m, .start 0 0 "bad" .faulty⟩) := by
  have hexecute := @execute_primitive Unit .faulty ⟨m, .start 0 0 "bad" .faulty⟩ 18 "bad" _
    hm _ rfl rfl rfl
  rw [resume_interpreted rfl]
  exact interpret_failed rfl (hexecute.trans rfl)

theorem Walk.head {kit : Kit σ} {isFirst : Bool} {i : Nat} {m m' : Machine σ}
    {visits : List (Visit σ)} (h : Walk kit isFirst i m visits m') (hi : i < m.threads.length) :
    ∃ v ∈ visits, v.place = i ∧ v.before = m := by
  cases h with
  | nil hle => exact absurd hi (Nat.not_lt.mpr hle)
  | @cons v visits _ _ _ => exact ⟨v, mem_cons_self, rfl, rfl⟩

end BlockMachine

import BlockMachine.Machine.Frames
import BlockMachine.Proofs.Machine.Places
import BlockMachine.Proofs.Turn.Interpret
import BlockMachine.Proofs.Turn.Quiet

/-!
# The stack of an interpreted thread

Blocks, branches and reporters are entered in frames of their own, so the stack of a thread that is
interpreted is a record of where it has been. Only the innermost frame can be at no block, and warp
mode, once entered, holds for all frames further in (`Layers`). During a turn most of the time every
frame is at a block (`Full`): a primitive finds the stack like that, and it moves the stack once at
most, as the last thing that it does (`Action.MovesOnce`, `Library.core_movesOnce`). From this
every piece of the interpreter leaves layers behind, `Turn.execute_layered` for a block with its
inputs and `Turn.step_layered` for a turn.

A thread whose innermost frame is at a block goes back to its innermost call when its script is
stopped. The innermost frame of an empty branch is at no block, and there a stop has no effect
(`stopScript_in_empty_branch`).

The module is about `Turn.execute`, `Turn.unwind` and `Thread.stopScript`.

## Results

* `Turn.execute_layered`, `Turn.step_layered`: a block with its inputs, and a turn.
* `interpreted_stack_is_layered`: every state of an interpreted thread.
* `stopScript_in_empty_branch`: a stop that has no effect.

Left out are compiled threads.
-/

namespace BlockMachine

open List Option

variable {σ α β : Type} {fuel depth : Nat} {r : Reported} {opcode : String} {catalog : Catalog σ}
  {a : Action σ Reported} {primitive : Primitive σ} {t : Thread}
  {g : Frame → Frame} {block : BlockId} {waiter : Waiter} {kit : Kit σ} {args : Args} {v : Value}

/-! ## Layers -/

/-- The innermost frame apart all frames are at blocks, and no frame in warp mode has one inside
that is not. -/
structure Layers (stack : List Frame) : Prop where
  code : ∀ f ∈ stack, f.code = none
  blocks : ∀ f ∈ stack.tail, f.block.isSome
  warp : stack.Pairwise fun inner outer => outer.warp = true → inner.warp = true

/-- All frames are at blocks. -/
structure Full (stack : List Frame) : Prop extends Layers stack where
  head : ∀ f ∈ stack.head?, f.block.isSome

/-- What layers depend on. -/
def Frame.outline (f : Frame) : Option BlockId × Bool × Option Cursor :=
  (f.block, f.warp, f.code)

section Layers

variable {f g top : Frame} {stack rest : List Frame}

theorem layers_nil : Layers [] :=
  ⟨by simp, by simp, .nil⟩

theorem Layers.full_tail (h : Layers (f :: rest)) : Full rest where
  code g hg := h.code g (mem_cons_of_mem f hg)
  blocks g hg := h.blocks g (mem_of_mem_tail hg)
  warp := (pairwise_cons.mp h.warp).2
  head g hg := h.blocks g (mem_of_mem_head? hg)

theorem Full.cons (h : Full (f :: rest)) (hcode : g.code = none)
    (hwarp : f.warp = true → g.warp = true) : Layers (g :: f :: rest) where
  code := forall_mem_cons.mpr ⟨hcode, h.code⟩
  blocks := forall_mem_cons.mpr ⟨h.head f rfl, h.blocks⟩
  warp := by
    refine pairwise_cons.mpr ⟨fun outer houter hw => hwarp ?_, h.warp⟩
    rcases mem_cons.mp houter with rfl | hrest
    · exact hw
    · exact (pairwise_cons.mp h.warp).1 outer hrest hw

/-- The frame on top may move on. -/
theorem Full.replace (h : Full (f :: rest)) (hcode : g.code = none) (hwarp : g.warp = f.warp) :
    Layers (g :: rest) where
  code := forall_mem_cons.mpr ⟨hcode, (forall_mem_cons.mp h.code).2⟩
  blocks := h.blocks
  warp := by
    obtain ⟨hhead, hrest⟩ := pairwise_cons.mp h.warp
    exact pairwise_cons.mpr ⟨fun outer houter => hwarp ▸ hhead outer houter, hrest⟩

theorem Full.suffix (h : Full stack) (hsuffix : rest <:+ stack) : Full rest := by
  induction stack with
  | nil => exact suffix_nil.mp hsuffix ▸ h
  | cons f stack ih =>
    rcases suffix_cons_iff.mp hsuffix with rfl | hrest
    · exact h
    · exact ih h.toLayers.full_tail hrest

theorem Full.all_blocks (h : Full stack) : ∀ f ∈ stack, f.block.isSome := by
  cases stack with
  | nil => simp
  | cons f rest => exact forall_mem_cons.mpr ⟨h.head f rfl, h.blocks⟩

theorem Layers.of_outline (h : Layers stack)
    (heq : rest.map Frame.outline = stack.map Frame.outline) : Layers rest := by
  obtain ⟨hcode, hblocks, hwarp⟩ := h
  refine ⟨?_, ?_, ?_⟩
  · have : ∀ o ∈ rest.map Frame.outline, o.2.2 = none := by
      rw [heq]
      exact forall_mem_map.mpr hcode
    exact forall_mem_map.mp this
  · have : ∀ o ∈ rest.tail.map Frame.outline, o.1.isSome := by
      rw [map_tail, heq, ← map_tail]
      exact forall_mem_map.mpr hblocks
    exact forall_mem_map.mp this
  · have : (rest.map Frame.outline).Pairwise fun i o => o.2.1 = true → i.2.1 = true := by
      rw [heq]
      exact pairwise_map.mpr hwarp
    exact pairwise_map.mp this

theorem Full.of_outline (h : Full stack)
    (heq : rest.map Frame.outline = stack.map Frame.outline) : Full rest := by
  refine ⟨h.toLayers.of_outline heq, fun f hf => ?_⟩
  have hmem : f.outline ∈ (rest.map Frame.outline).head? := by
    rw [head?_map]
    exact Option.mem_map_of_mem _ hf
  rw [heq, head?_map] at hmem
  obtain ⟨g, hg, hgf⟩ := map_eq_some_iff.mp hmem
  have hblock : g.block = f.block := congrArg Prod.fst hgf
  exact hblock ▸ h.head g hg

theorem map_modify_outline {g : Frame → Frame} (hg : ∀ f, (g f).outline = f.outline) (i : Nat) :
    (stack.modify i g).map Frame.outline = stack.map Frame.outline := by
  induction stack generalizing i with
  | nil => simp
  | cons f rest ih =>
    cases i with
    | zero => simp [hg]
    | succ i => simp [ih]

theorem map_modifyHead_outline {g : Frame → Frame} (hg : ∀ f, (g f).outline = f.outline) :
    (stack.modifyHead g).map Frame.outline = stack.map Frame.outline := by
  cases stack <;> simp [hg]

/-- What is left of layers after unwinding are layers. -/
theorem Layers.unwindFrom (sheet : Sheet) (h : Layers (top :: rest)) :
    Layers (unwindFrom sheet top rest).2 := by
  induction rest generalizing top with
  | nil =>
    rw [BlockMachine.unwindFrom]
    split
    · exact h
    · exact layers_nil
  | cons f rest ih =>
    rw [BlockMachine.unwindFrom]
    split
    · exact h
    · split
      · exact h.full_tail.toLayers
      · split
        · exact h.full_tail.toLayers
        · exact ih (h.full_tail.replace rfl rfl)

theorem unwindFrom_ne_nil {sheet : Sheet} (h : (unwindFrom sheet top rest).1 ≠ .finished) :
    (unwindFrom sheet top rest).2 ≠ [] := by
  induction rest generalizing top with
  | nil =>
    rw [unwindFrom] at h ⊢
    split at h
    · simp_all
    · exact absurd rfl h
  | cons f rest ih =>
    rw [unwindFrom] at h ⊢
    split
    · simp
    · rename_i htop
      rw [if_neg htop] at h
      split
      · simp
      · rename_i hloop
        rw [if_neg hloop] at h
        split
        · simp
        · rename_i hwaiting
          rw [if_neg hwaiting] at h
          exact ih h

end Layers

/-! ## Threads with layers -/

/-- An interpreted thread between the steps of its turn. -/
structure Thread.Layered (t : Thread) : Prop where
  layers : Layers t.stack
  alive : t.status = .done ∨ t.stack ≠ []
  interpreted : t.stack ≠ [] → t.program = none

/-- An interpreted thread that is about to run a block or to call a primitive. -/
structure Thread.Standing (t : Thread) : Prop where
  full : Full t.stack
  alive : t.stack ≠ []
  interpreted : t.program = none

/-- The frames stay where they are. The status stays too, unless something yields. -/
structure Thread.Stays (yields : Bool) (t t' : Thread) : Prop where
  outline : t'.stack.map Frame.outline = t.stack.map Frame.outline
  program : t'.program = t.program
  status : yields = false → t'.status = t.status

instance (yields : Bool) : Lasting (Thread.Stays yields) where
  refl _ := ⟨rfl, rfl, fun _ => rfl⟩
  trans h h' :=
    ⟨h'.outline.trans h.outline, h'.program.trans h.program,
      fun hy => (h'.status hy).trans (h.status hy)⟩

namespace Thread

variable {t t' : Thread} {yields : Bool}

theorem Standing.layered (h : t.Standing) : t.Layered :=
  ⟨h.full.toLayers, .inr h.alive, fun _ => h.interpreted⟩

theorem layered_retire (t : Thread) : t.retire.Layered :=
  ⟨layers_nil, .inl rfl, fun h => absurd rfl h⟩

theorem Layered.standing (h : t.Layered) (hblock : t.block?.isSome) : t.Standing := by
  have hne : t.stack ≠ [] := by
    intro hnil
    simp [block?, frame?, hnil] at hblock
  refine ⟨⟨h.layers, fun f hf => ?_⟩, hne, h.interpreted hne⟩
  have hframe : t.frame? = some f := hf
  rw [block?, hframe] at hblock
  exact hblock

theorem Stays.nonempty (h : t.Stays yields t') (ht : t.stack ≠ []) : t'.stack ≠ [] := by
  intro hnil
  have := h.outline
  rw [hnil] at this
  exact ht (map_eq_nil_iff.mp this.symm)

theorem Stays.empty (h : t.Stays yields t') (ht' : t'.stack ≠ []) : t.stack ≠ [] := by
  intro hnil
  have := h.outline
  rw [hnil] at this
  exact ht' (map_eq_nil_iff.mp this)

theorem Stays.standing (h : t.Stays yields t') (ht : t.Standing) : t'.Standing :=
  ⟨ht.full.of_outline h.outline, h.nonempty ht.alive, h.program.trans ht.interpreted⟩

theorem Stays.layered (h : t.Stays false t') (ht : t.Layered) : t'.Layered := by
  refine ⟨ht.layers.of_outline h.outline, ?_,
    fun hne => h.program.trans (ht.interpreted (h.empty hne))⟩
  rcases ht.alive with hdone | hne
  · exact .inl ((h.status rfl).trans hdone)
  · exact .inr (h.nonempty hne)

theorem stays_onFrame (hg : ∀ f, (g f).outline = f.outline) (t : Thread) :
    t.Stays false (t.onFrame g) :=
  ⟨map_modifyHead_outline hg, rfl, fun _ => rfl⟩

theorem stays_onDepth (hg : ∀ f, (g f).outline = f.outline) (t : Thread) (n : Nat) :
    t.Stays false (t.onDepth n g) := by
  unfold onDepth
  split
  · exact ⟨map_modify_outline hg _, rfl, fun _ => rfl⟩
  · exact Lasting.refl t

theorem outline_takeReport (f : Frame) (v : Value) : (f.takeReport v).outline = f.outline := by
  unfold Frame.takeReport
  split <;> rfl

theorem stays_report (t : Thread) (v : Value) : t.Stays false (t.report v) := by
  unfold report
  split
  · rename_i top parent rest hstack
    refine ⟨?_, rfl, fun _ => rfl⟩
    simp [hstack, outline_takeReport]
  · exact ⟨rfl, rfl, fun _ => rfl⟩

/-- Entering a block on top of frames that are all at blocks. -/
theorem Standing.push (h : t.Standing) (block : Option BlockId) : (t.push block).Layered := by
  obtain ⟨f, rest, hstack⟩ := exists_cons_of_ne_nil h.alive
  refine ⟨?_, .inr (by simp [Thread.push, pushFrame]), fun _ => h.interpreted⟩
  have hfull := h.full
  rw [hstack] at hfull
  show Layers (_ :: t.stack)
  rw [hstack]
  refine hfull.cons rfl fun hwarp => ?_
  simp [isWarp, frame?, hstack, hwarp]

theorem Standing.push_standing (h : t.Standing) (block : BlockId) :
    (t.push (some block)).Standing :=
  (h.push (some block)).standing rfl

theorem Layered.pop (h : t.Layered) (hdepth : 2 ≤ t.depth) : t.pop.Standing := by
  obtain ⟨f, rest, hstack⟩ : ∃ f rest, t.stack = f :: rest := by
    cases hs : t.stack with
    | nil => simp [depth, hs] at hdepth
    | cons f rest => exact ⟨f, rest, rfl⟩
  have hlayers := h.layers
  rw [hstack] at hlayers
  have hrest : rest ≠ [] := by
    rintro rfl
    simp [depth, hstack] at hdepth
  have hpop : t.pop.stack = rest := by simp [Thread.pop, hstack]
  exact ⟨hpop ▸ hlayers.full_tail, hpop ▸ hrest, h.interpreted (by simp [hstack])⟩

theorem Layered.goNext (h : t.Layered) : t.goNext.Layered := by
  unfold Thread.goNext onFrame
  cases hstack : t.stack with
  | nil =>
    refine ⟨layers_nil, ?_, fun hne => absurd rfl hne⟩
    exact .inl (h.alive.resolve_right (by simp [hstack]))
  | cons f rest =>
    have hlayers := h.layers
    rw [hstack] at hlayers
    refine ⟨?_, .inr (by simp), fun _ => h.interpreted (by simp [hstack])⟩
    refine ⟨?_, hlayers.blocks, ?_⟩
    · exact forall_mem_cons.mpr ⟨rfl, (forall_mem_cons.mp hlayers.code).2⟩
    · exact pairwise_cons.mpr (pairwise_cons.mp hlayers.warp)

theorem Layered.unwind (h : t.Layered) : t.unwind.2.Layered := by
  unfold Thread.unwind
  split
  · rename_i hstack
    exact ⟨hstack ▸ layers_nil, .inl rfl, fun hne => absurd hstack hne⟩
  · rename_i top rest hstack
    have hlayers := h.layers
    rw [hstack] at hlayers
    refine ⟨hlayers.unwindFrom t.sheet, ?_, fun _ => h.interpreted (by simp [hstack])⟩
    by_cases hfinished : (unwindFrom t.sheet top rest).1 = .finished
    · exact .inl (by simp [hfinished])
    · exact .inr (unwindFrom_ne_nil hfinished)

/-- An interpreted frame has no code to go on with. -/
theorem Layered.cursor? (ht : t.Layered) : t.cursor? = none := by
  cases hstack : t.stack with
  | nil => simp [Thread.cursor?, frame?, hstack]
  | cons f rest =>
    have hcode := ht.layers.code f (by rw [hstack]; exact mem_cons_self)
    simp [Thread.cursor?, frame?, hstack, hcode]

/-! ## Stopping a script -/

/-- Whether the frame is at a call of a procedure. -/
def atCall (t : Thread) (f : Frame) : Bool :=
  f.block.any t.isCall

theorem dropToCall_eq {stack : List Frame} (h : ∀ f ∈ stack, f.block.isSome) :
    t.dropToCall stack = stack.dropWhile fun f => !t.atCall f := by
  induction stack with
  | nil => rfl
  | cons f rest ih =>
    obtain ⟨hf, hrest⟩ := forall_mem_cons.mp h
    obtain ⟨block, hblock⟩ := isSome_iff_exists.mp hf
    rw [dropToCall, hblock]
    by_cases hcall : t.isCall block
    · simp [atCall, hblock, hcall]
    · simp [atCall, hblock, hcall, ih hrest]

theorem isEmpty_dropToCall (stack : List Frame) :
    (stack.dropWhile fun f => !t.atCall f).isEmpty = !stack.any t.atCall := by
  induction stack with
  | nil => rfl
  | cons f rest ih => cases hf : t.atCall f <;> simp [hf, ih]

/-- The frames above the innermost call are dropped, the others stay; without a call the thread
ends. -/
theorem Standing.stopScript_eq (h : t.Standing) :
    t.stopScript =
      { t with
        stack := t.stack.dropWhile fun f => !t.atCall f
        status := if t.stack.any t.atCall then t.status else .done } := by
  simp only [Thread.stopScript, dropToCall_eq h.full.all_blocks, isEmpty_dropToCall]
  cases t.stack.any t.atCall <;> rfl

theorem Standing.stopScript (h : t.Standing) : t.stopScript.Layered := by
  rw [h.stopScript_eq]
  refine ⟨(h.full.suffix (dropWhile_suffix _)).toLayers, ?_, fun _ => h.interpreted⟩
  have hempty := isEmpty_dropToCall (t := t) t.stack
  cases hcall : t.stack.any t.atCall with
  | false => exact .inl rfl
  | true =>
    have hne : (t.stack.dropWhile fun f => !t.atCall f) ≠ [] := by simpa [hcall] using hempty
    exact .inr hne

end Thread

/-! ## What primitives do to the stack -/

/-- Whether the request enters or drops frames. -/
def Request.movesStack : Request σ → Bool
  | .startBranch _ _ | .startProcedure _ | .stopAll | .stopScript | .stopThread => true
  | _ => false

/-- Whether the request makes the thread give way. -/
def Request.yields : Request σ → Bool
  | .yield | .yieldTick => true
  | _ => false

namespace Action

/-- The action moves no frames and does not yield: it just comes to a result. -/
def Plain : Action σ α → Prop
  | .done _ | .fail _ => True
  | .ask r next => r.movesStack = false ∧ r.yields = false ∧ ∀ answer, (next answer).Plain

/-- The action is plain, and its result is not a promise. -/
def Settled : Action σ Reported → Prop
  | .done r => ∀ id, r ≠ .promise id
  | .fail _ => True
  | .ask r next => r.movesStack = false ∧ r.yields = false ∧ ∀ answer, (next answer).Settled

/-- The action moves the stack once at most; after that it neither yields nor reports a promise. -/
def MovesOnce : Action σ Reported → Prop
  | .done _ | .fail _ => True
  | .ask r next =>
    ∀ answer, if r.movesStack then (next answer).Settled else (next answer).MovesOnce

theorem Plain.movesOnce (h : a.Plain) : a.MovesOnce := by
  induction a with
  | done r => trivial
  | fail e => trivial
  | ask r next ih =>
    intro answer
    rw [if_neg (by simp [h.1])]
    exact ih answer (h.2.2 answer)

end Action

namespace Call

open Exec

variable {kit : Kit σ} {predicate : Exec (Turn σ) Unit} {c c' : Call σ}

/-- A request that moves no frames leaves the frames where they are. -/
theorem perform_stays {r : Request σ} (hr : r.movesStack = false) :
    Keeps (fun c c' => c.thread.Stays r.yields c'.thread)
      (perform kit predicate .interpreted r) := by
  have hlasting : Lasting fun c c' : Call σ => c.thread.Stays r.yields c'.thread :=
    ⟨fun c => Lasting.refl c.thread, fun h h' => Lasting.trans h h'⟩
  cases r
  all_goals rw [perform]
  case startBranch | startProcedure | stopAll | stopScript | stopThread => cases hr
  case scratch | isWarp | now | threadId | targetId | param | signature | targetNamed | isClone
    | hasThread | isWaiting | counter | host => exact keeps_read _
  case setScratch => exact keeps_modify fun c => Lasting.refl c.thread
  case yield | yieldTick =>
    exact keeps_onThread fun c => ⟨rfl, rfl, fun h => Bool.noConfusion h⟩
  case stopOthers | requestRedraw | setCounter | advanceClock | setHost | removeTarget =>
    exact keeps_onTurn fun c => Lasting.refl c.thread
  case bindParams =>
    refine keeps_onThread fun c => Thread.stays_onFrame ?_ c.thread
    exact fun _ => rfl
  case startHats | draw | openPromise => exact keeps_onMachine fun c _ _ _ => Lasting.refl c.thread
  case createClone source =>
    refine Keeps.discarded (x := onMachine _) ?_
    exact keeps_onMachine fun c _ _ _ => Lasting.refl c.thread
  case query => exact keeps_service fun c => Lasting.refl c.thread
  case readVariable | setVariable | readList | editList =>
    exact (keeps_read _).andThen fun _ => keeps_service fun c => Lasting.refl c.thread

end Call

namespace Turn

variable {s : Turn σ}

theorem startWarp_stays (s : Turn σ) : s.thread.Stays false s.startWarp.thread := by
  unfold startWarp
  split
  · exact ⟨rfl, rfl, fun _ => rfl⟩
  · exact Lasting.refl s.thread

theorem enterBranch_layered (h : s.thread.Standing) (n : Nat) (isLoop : Bool) :
    (s.enterBranch n isLoop).thread.Layered := by
  unfold enterBranch
  split
  · exact h.layered
  · refine Thread.Standing.push (Thread.Stays.standing (Thread.stays_onFrame ?_ s.thread) h) _
    exact fun _ => rfl

theorem layered_yielding (h : t.Standing) : { t with status := .yield }.Layered :=
  ⟨h.full.toLayers, .inr h.alive, fun _ => h.interpreted⟩

theorem enterWarp_layered (h : t.Standing) : (t.onFrame ({ · with warp := true })).Layered := by
  obtain ⟨f, rest, hstack⟩ := exists_cons_of_ne_nil h.alive
  obtain ⟨hcode, hblocks, hwarp⟩ := h.full.toLayers
  rw [hstack] at hcode hblocks hwarp
  refine ⟨?_, .inr (by simp [Thread.onFrame, hstack]), fun _ => h.interpreted⟩
  rw [Thread.onFrame, hstack]
  refine ⟨?_, hblocks, ?_⟩
  · obtain ⟨hf, hrest⟩ := forall_mem_cons.mp hcode
    exact forall_mem_cons.mpr ⟨hf, hrest⟩
  · exact pairwise_cons.mpr ⟨fun _ _ _ => rfl, (pairwise_cons.mp hwarp).2⟩

theorem enterProcedure_layered (h : s.thread.Standing) (proccode : String) :
    (s.enterProcedure proccode).thread.Layered := by
  unfold enterProcedure
  cases s.thread.sheet.definition? proccode with
  | none => exact h.layered
  | some definition =>
    dsimp only
    have hstanding : (if (s.thread.push (some definition)).isWarp then
        ({ s with thread := s.thread.push (some definition) } : Turn σ).warpExpired
        else (false, { s with thread := s.thread.push (some definition) })).2.thread.Standing := by
      split
      · rw [warpExpired_thread]
        exact h.push_standing definition
      · exact h.push_standing definition
    generalize (if (s.thread.push (some definition)).isWarp then _ else _) = p at hstanding ⊢
    obtain ⟨expired, s₁⟩ := p
    have hrecursive : ∀ isRecursive : Bool, (if isRecursive then
        { s₁ with thread := { s₁.thread with status := .yield } } else s₁).thread.Layered := by
      intro isRecursive
      cases isRecursive with
      | true => exact layered_yielding hstanding
      | false => exact hstanding.layered
    dsimp only
    split
    · exact layered_yielding hstanding
    · split
      · split
        · exact enterWarp_layered hstanding
        · exact hrecursive _
      · exact hrecursive _

end Turn

namespace Call

variable {kit : Kit σ} {predicate : Exec (Turn σ) Unit} {c c' : Call σ}

/-- A request that moves frames leaves layers behind. -/
theorem perform_moves {r : Request σ} (hr : r.movesStack = true)
    {answer : Except BlockError r.Answer} (hc : c.thread.Standing)
    (h : perform kit predicate .interpreted r c = some (answer, c')) : c'.thread.Layered := by
  cases r
  case startBranch n isLoop =>
    obtain ⟨-, rfl⟩ := Exec.modify_some.mp h
    exact Turn.enterBranch_layered hc n isLoop
  case startProcedure proccode =>
    obtain ⟨-, rfl⟩ := Exec.modify_some.mp h
    exact Turn.enterProcedure_layered hc proccode
  case stopAll =>
    obtain ⟨-, rfl⟩ := Exec.modify_some.mp h
    exact c.thread.layered_retire
  case stopScript =>
    obtain ⟨-, rfl⟩ := Exec.modify_some.mp h
    exact hc.stopScript
  case stopThread =>
    obtain ⟨-, rfl⟩ := Exec.modify_some.mp h
    exact c.thread.layered_retire
  all_goals cases hr

theorem run_settled (ha : a.Settled) (hc : c.thread.Layered)
    (h : run kit predicate .interpreted a c = some (.ok r, c')) :
    c'.thread.Layered ∧ ∀ id, r ≠ .promise id := by
  induction a generalizing c with
  | done r' =>
    obtain ⟨hr, rfl⟩ := Exec.pure_some.mp h
    cases hr
    exact ⟨hc, ha⟩
  | fail e =>
    obtain ⟨hr, -⟩ := Exec.throw_some.mp h
    cases hr
  | ask r' next ih =>
    obtain ⟨hmoves, hyields, hnext⟩ := ha
    obtain ⟨answer, c₁, hperform, hrest⟩ := Exec.bind_ok.mp h
    have hstays := perform_stays hmoves c _ c₁ hperform
    rw [hyields] at hstays
    exact ih answer (hnext answer) (hstays.layered hc) hrest

/-- A primitive that moves the stack once leaves layers behind, and a frame that can wait for the
promise that it reports. -/
theorem run_movesOnce (ha : a.MovesOnce) (hc : c.thread.Standing)
    (h : run kit predicate .interpreted a c = some (.ok r, c')) :
    c'.thread.Layered ∧ ∀ id, r = .promise id → c'.thread.stack ≠ [] := by
  induction a generalizing c with
  | done r' =>
    obtain ⟨-, rfl⟩ := Exec.pure_some.mp h
    exact ⟨hc.layered, fun _ _ => hc.alive⟩
  | fail e =>
    obtain ⟨hr, -⟩ := Exec.throw_some.mp h
    cases hr
  | ask r' next ih =>
    obtain ⟨answer, c₁, hperform, hrest⟩ := Exec.bind_ok.mp h
    have hnext := ha answer
    cases hmoves : r'.movesStack with
    | true =>
      rw [if_pos hmoves] at hnext
      obtain ⟨hlayered, hr⟩ := run_settled hnext (perform_moves hmoves hc hperform) hrest
      exact ⟨hlayered, fun id hid => absurd hid (hr id)⟩
    | false =>
      rw [if_neg (by simp [hmoves])] at hnext
      exact ih answer hnext ((perform_stays hmoves c _ c₁ hperform).standing hc) hrest

end Call

/-! ## The core blocks -/

/-- **The core blocks move the stack once at most.** -/
theorem Library.core_movesOnce (h : core.primitive? opcode = some primitive) (args : Args) :
    (primitive args).MovesOnce := by
  have hlight : ∀ {r : Request σ}, r.IsLight → r.movesStack = false := by
    intro r hr
    cases r
    case startBranch | startProcedure | stopAll | stopScript | stopThread => exact hr.elim
    all_goals rfl
  have hsettled : (Action.done .nothing : Action σ Reported).Settled := fun _ h => by cases h
  have hcore := core_requests h args
  generalize primitive args = a at hcore ⊢
  induction hcore with
  | done r => trivial
  | fail e => trivial
  | ask hr _ _ ih =>
    intro answer
    rw [if_neg (by simp [hlight hr])]
    exact ih answer
  | @move r hr _ =>
    intro answer
    split
    · exact hsettled
    · trivial
  | removeTarget _ => exact fun _ _ => hsettled

/-! ## Blocks -/

/-- Every primitive is one of the core blocks, or it just comes to a result. -/
def Catalog.ExtendsCore (catalog : Catalog σ) : Prop :=
  ∀ opcode primitive, catalog.primitive? opcode = some primitive →
    Library.core.primitive? opcode = some primitive ∨ ∀ args, (primitive args).Plain

theorem Catalog.ExtendsCore.movesOnce (h : catalog.ExtendsCore)
    (hp : catalog.primitive? opcode = some primitive) (args : Args) :
    (primitive args).MovesOnce := by
  rcases h opcode primitive hp with hcore | hplain
  · exact Library.core_movesOnce hcore args
  · exact (hplain args).movesOnce

namespace Turn

open Exec

variable {kit : Kit σ} {s s' : Turn σ} {b : Block} {go : Exec (Turn σ) Unit}

/-- Inputs are evaluated in frames of their own. With all inputs evaluated the block's frame is on
top again; without, the stack is the one that some reporter has left. -/
theorem evalInputs_layered {reported : Table Value}
    (hgo : ∀ s s', s.thread.Layered → go s = some (.ok (), s') → s'.thread.Layered)
    (hdepth : 1 ≤ depth) {names : List String} {r : Option Args} (hs : s.thread.Standing)
    (h : evalInputs go b depth reported args names s = some (.ok r, s')) :
    s'.thread.Layered ∧ (r.isSome → s'.thread.Standing) := by
  refine evalInputs_induction (fun _ => Thread.Standing.layered) ?_ ?_ ?_ hs h
  · -- The reporter's frame is entered on the block's, and left to the reporter.
    intro s name input s₁ hs hrun
    refine hgo _ s₁ (Thread.Standing.push
      (Thread.Stays.standing (Thread.stays_onDepth ?_ _ _) hs) _) hrun
    exact fun _ => rfl
  · intro s values hs _
    refine Thread.Stays.layered (Thread.stays_onDepth ?_ _ _) hs
    exact fun _ => rfl
  · intro s name hs hlevel _
    refine Thread.Stays.standing (Thread.stays_onFrame ?_ _) (hs.pop (by omega))
    exact fun _ => rfl

theorem callBlock_layered (ha : (primitive args).MovesOnce) (hs : s.thread.Standing)
    (h : callBlock kit go depth primitive args s = some (.ok r, s')) :
    s'.thread.Layered ∧ ∀ id, r = .promise id → s'.thread.stack ≠ [] := by
  obtain ⟨⟨r', c⟩, hrun, hp⟩ := bind_eq_some_iff.mp h
  cases hp
  obtain ⟨hlayered, hstack⟩ := Call.run_movesOnce ha hs hrun
  have hstays : c.thread.Stays false
      (c.thread.onDepth depth ({ · with scratch := c.scratch })) := by
    refine Thread.stays_onDepth ?_ _ _
    exact fun _ => rfl
  exact ⟨hstays.layered hlayered, fun id hid => hstays.nonempty (hstack id hid)⟩

theorem reportHat_layered (hs : s.thread.Layered) :
    (s.reportHat catalog block opcode v).2.thread.Layered := by
  have hthread : ∀ fires : Bool, (if fires then s.thread else s.thread.retire).Layered := by
    intro fires
    cases fires with
    | true => exact hs
    | false => exact s.thread.layered_retire
  exact hthread _

theorem takeReport_layered (hs : s.thread.Layered)
    (hstack : ∀ id, r = .promise id → s.thread.stack ≠ [])
    (h : takeReport catalog block opcode r s = some (.ok (), s')) : s'.thread.Layered := by
  cases r with
  | nothing =>
    obtain ⟨-, rfl⟩ := pure_some.mp h
    exact hs
  | promise id =>
    obtain ⟨-, rfl⟩ := modify_some.mp h
    exact ⟨hs.layers, .inr (hstack id rfl), hs.interpreted⟩
  | value v =>
    rw [takeReport] at h
    split at h
    · obtain ⟨-, rfl⟩ := modify_some.mp h
      exact reportHat_layered hs
    · obtain ⟨-, rfl⟩ := modify_some.mp h
      exact (Thread.stays_report s.thread v).layered hs

theorem runBlock_layered (hgo : ∀ s s', s.thread.Layered → go s = some (.ok (), s') →
    s'.thread.Layered) (ha : ∀ args, (primitive args).MovesOnce) (hs : s.thread.Standing)
    (h : runBlock kit go b primitive s = some (.ok (), s')) : s'.thread.Layered := by
  rw [runBlock, getThread_andThen, onThread_andThen] at h
  obtain ⟨r, s₁, heval, h⟩ := bind_ok.mp h
  have hdepth : 1 ≤ s.thread.depth := length_pos_iff.mpr hs.alive
  have hstays : s.thread.Stays false
      (s.thread.onFrame ({ · with reported := ∅, waiting := none })) := by
    refine Thread.stays_onFrame ?_ _
    exact fun _ => rfl
  obtain ⟨hlayered, hstanding⟩ := evalInputs_layered hgo hdepth (hstays.standing hs) heval
  cases r with
  | none =>
    obtain ⟨-, rfl⟩ := pure_some.mp h
    exact hlayered
  | some args =>
    obtain ⟨r, s₂, hcall, h⟩ := bind_ok.mp h
    obtain ⟨hlayered₂, hstack⟩ := callBlock_layered (ha args) (hstanding rfl) hcall
    exact takeReport_layered hlayered₂ hstack h

theorem runLiteral_layered (hs : s.thread.Layered)
    (h : runLiteral catalog b s = some (.ok (), s')) :
    s'.thread.Layered := by
  unfold runLiteral at h
  split at h
  · obtain ⟨-, rfl⟩ := pure_some.mp h
    exact hs
  · cases hfield : b.soleField? with
    | some f =>
      rw [hfield] at h
      obtain ⟨-, rfl⟩ := modify_some.mp h
      exact (Thread.stays_report s.thread _).layered hs
    | none =>
      rw [hfield] at h
      obtain ⟨-, rfl⟩ := pure_some.mp h
      exact hs

/-- Running a block, with all that is plugged into it, leaves layers behind. -/
theorem execute_layered (hkit : kit.ExtendsCore) (hs : s.thread.Layered)
    (h : execute kit fuel s = some (.ok (), s')) : s'.thread.Layered := by
  induction fuel generalizing s s' with
  | zero => cases h
  | succ fuel ih =>
    rcases execute_cases
      h with ⟨-, rfl⟩ | ⟨-, ⟨-, rfl⟩ | ⟨id, b, hblock, -, ⟨-, h⟩ | ⟨primitive, hprimitive, h⟩⟩⟩
    · exact s.thread.layered_retire
    · exact hs
    · exact runLiteral_layered hs h
    · exact runBlock_layered (fun s s' hs h => ih hs h) (hkit.movesOnce hprimitive)
        (hs.standing (by rw [hblock]; rfl)) h

/-! ## Turns -/

theorem unwind_layered (hs : s.thread.Layered) : s.unwind.2.thread.Layered := by
  rw [unwind_thread]
  exact hs.unwind

theorem afterBlock_layered (hs : s.thread.Layered) (t : Thread) (current : BlockId) :
    (s.afterBlock t current).2.thread.Layered := by
  unfold afterBlock
  cases hstatus : s.thread.status
  case promiseWait | yieldTick | done => exact hs
  case yield =>
    have hrunning : { s.thread with status := .running }.Layered :=
      ⟨hs.layers, .inr (hs.alive.resolve_left (by simp [hstatus])), hs.interpreted⟩
    dsimp only
    split
    · rw [warpExpired_thread]
      exact hrunning
    · exact hrunning
  case running =>
    refine unwind_layered ?_
    dsimp only
    split
    · exact hs.goNext
    · exact hs

theorem interpret_layered (hkit : kit.ExtendsCore) (hs : s.thread.Layered)
    (h : interpret kit fuel s = some (.ok (), s')) : s'.thread.Layered := by
  induction fuel generalizing s with
  | zero => cases h
  | succ fuel ih =>
    cases hblock : s.thread.block? with
    | none =>
      rw [interpret_nowhere hblock] at h
      cases h
      exact hs
    | some current =>
    cases hexecute : execute kit fuel s.startWarp with
    | none =>
      rw [interpret_outOfFuel hblock hexecute] at h
      cases h
    | some p =>
      obtain ⟨r, s₁⟩ := p
      cases r with
      | error e =>
        rw [interpret_failed hblock hexecute] at h
        cases h
      | ok u =>
        have hs₁ := execute_layered hkit ((startWarp_stays s).layered hs) hexecute
        have hafter := afterBlock_layered hs₁ s.thread current
        rw [interpret_succ hblock hexecute] at h
        split at h
        · exact ih hafter h
        · cases h
          exact hafter

theorem resume_layered (hkit : kit.ExtendsCore) (hs : s.thread.Layered)
    (h : resume kit fuel s = some (.ok (), s')) : s'.thread.Layered := by
  have hplaced : s.placed.2.thread.Layered :=
    placed_induction (P := (·.thread.Layered)) (unwind_layered hs) hs
  rw [resume_interpreted hs.cursor?] at h
  split at h
  · exact interpret_layered hkit hplaced h
  · cases h
    exact hplaced

theorem step_layered (hkit : kit.ExtendsCore) (hs : s.thread.Layered)
    (h : s.step kit fuel = some s') :
    s'.thread.Layered := by
  obtain ⟨⟨r, s₁⟩, hresume, h⟩ := bind_eq_some_iff.mp h
  cases r with
  | ok u =>
    cases h
    exact resume_layered hkit hs hresume
  | error e =>
    cases h
    exact s₁.thread.layered_retire

theorem leaveHat_layered (ht : t.Layered) (hstack : t.stack ≠ []) : t.leaveHat.Layered := by
  rw [Thread.leaveHat, Thread.enterProgram?, ht.interpreted hstack]
  exact ht.goNext

theorem settle_layered (hs : s.thread.Layered) (hstack : s.thread.stack ≠ []) :
    (s.settle catalog v waiter).thread.Layered := by
  cases waiter with
  | code dest =>
    cases dest with
    | none => exact hs
    | some slot =>
      -- Without code in the frame there is no slot to put the value in.
      obtain ⟨f, rest, hcons⟩ := exists_cons_of_ne_nil hstack
      have hcode := hs.layers.code f (by rw [hcons]; exact mem_cons_self)
      have hstays : s.thread.Stays false (s.thread.onCursor (·.setLocal slot v)) := by
        refine ⟨?_, rfl, fun _ => rfl⟩
        simp [Thread.onCursor, Thread.onFrame, hcons, Frame.outline, Frame.withCursor, hcode]
      exact hstays.layered hs
  | block isHat =>
    cases isHat with
    | true =>
      unfold settle
      cases hblock : s.thread.block? with
      | none => exact hs
      | some block =>
        have hreport : (s.reportHat catalog block
            ((s.thread.sheet.opcode? block).getD "") v).2.thread.Layered := reportHat_layered hs
        have hfires : ∀ p : Bool × Turn σ,
            p = s.reportHat catalog block ((s.thread.sheet.opcode? block).getD "") v →
            p.1 = true → p.2.thread.stack ≠ [] := by
          rintro p rfl hfires
          unfold reportHat at hfires ⊢
          dsimp only at hfires ⊢
          rwa [if_pos hfires]
        rcases hp : s.reportHat catalog block ((s.thread.sheet.opcode? block).getD "") v with
          ⟨fires, s₁⟩
        rw [hp] at hreport
        simp only [hp]
        cases fires with
        | true => exact leaveHat_layered hreport (hfires _ hp.symm rfl)
        | false => exact hreport
    | false =>
      have hreport := (Thread.stays_report s.thread v).layered hs
      unfold settle
      dsimp only
      split
      · rename_i hreporter
        -- The frame that waits is left, so it is below another one.
        have hdepth : 2 ≤ (s.thread.report v).depth := by
          have houtline := congrArg length (Thread.stays_report s.thread v).outline
          simp only [length_map] at houtline
          rw [Thread.depth, houtline]
          cases hsnd : s.thread.stack[1]? with
          | none => simp [hsnd] at hreporter
          | some f => exact (List.getElem?_eq_some_iff.mp hsnd).1
        exact (hreport.pop hdepth).layered
      · exact unwind_layered hreport.goNext

theorem forgo_layered (hs : s.thread.Layered) (hstack : s.thread.stack ≠ []) :
    (s.forgo waiter).thread.Layered := by
  cases waiter with
  | code dest => exact hs
  | block isHat =>
    obtain ⟨f, rest, hcons⟩ := exists_cons_of_ne_nil hstack
    have hlayers := hs.layers
    rw [hcons] at hlayers
    have hpop : s.thread.pop.stack = rest := by simp [Thread.pop, hcons]
    have hlayers' : Layers s.thread.pop.stack := hpop ▸ hlayers.full_tail.toLayers
    show (endIfEmpty s.thread.pop).Layered
    unfold endIfEmpty
    split
    · exact ⟨hlayers', .inl rfl, fun _ => hs.interpreted hstack⟩
    · rename_i hempty
      refine ⟨hlayers', .inr fun hnil => ?_, fun _ => hs.interpreted hstack⟩
      simp [hnil] at hempty

theorem await_layered (hkit : kit.ExtendsCore) (hs : s.thread.Layered)
    (hwait : s.thread.status = .promiseWait) (h : s.await kit fuel = some s') :
    s'.thread.Layered := by
  have hstack : s.thread.stack ≠ [] := hs.alive.resolve_left (by simp [hwait])
  have hs₁ : (s.awaken kit).2.thread.Layered := by
    refine awaken_induction (P := (·.thread.Layered)) hs ⟨hs.layers, .inr hstack, hs.interpreted⟩
      (fun _ _ _ => settle_layered ?_ hstack) fun _ _ => forgo_layered ?_ hstack
    all_goals exact ⟨hs.layers, .inr hstack, hs.interpreted⟩
  rw [await_eq] at h
  split at h
  · exact step_layered hkit hs₁ h
  · cases h
    exact hs₁

end Turn

/-! ## Interpreted threads -/

/-- The states of an interpreted thread between its turns: it is at the top of its script or behind
a hat that was asked, has its turns, is woken up, and may be ended. The machine around it may change
in any way between its turns. -/
inductive Thread.Interpreted (kit : Kit σ) : Thread → Prop
  | start (id : ThreadId) (target : TargetId) (top : BlockId) (sheet : Sheet)
      (isClick isMonitor : Bool) :
      Interpreted kit { Thread.start id target top sheet with isClick, isMonitor }
  | asked {t t' : Thread} {m m' : Machine σ} {fuel : Nat} (ht : Interpreted kit t)
      (h : Machine.askPredicate (Turn.execute kit fuel) t m = some (some t', m')) :
      Interpreted kit t'
  | step {t : Thread} {m : Machine σ} {s : Turn σ} {fuel : Nat} (ht : Interpreted kit t)
      (h : Turn.step kit fuel ⟨m, t⟩ = some s) : Interpreted kit s.thread
  | await {t : Thread} {m : Machine σ} {s : Turn σ} {fuel : Nat} (ht : Interpreted kit t)
      (hwait : t.status = .promiseWait) (h : Turn.await kit fuel ⟨m, t⟩ = some s) :
      Interpreted kit s.thread
  | endTurn {t : Thread} (ht : Interpreted kit t) : Interpreted kit { t with warpStart := none }
  | wake {t : Thread} (isFirst : Bool) (ht : Interpreted kit t) :
      Interpreted kit (Machine.wake isFirst t)
  | retire {t : Thread} (ht : Interpreted kit t) : Interpreted kit t.retire

theorem askPredicate_layered (hkit : kit.ExtendsCore) {t' : Thread} {m m' : Machine σ}
    (ht : t.Layered) (h : Machine.askPredicate (Turn.execute kit fuel) t m = some (some t', m')) :
    t'.Layered := by
  obtain ⟨outcome, s, hexecute, ⟨e, -, hr, -⟩ | ⟨rfl, -, hr⟩⟩ := Machine.askPredicate_cases h
  · cases hr
  · have hs := Turn.execute_layered hkit (s := ⟨_, t⟩) ht hexecute
    rcases hr with hr | hr | ⟨hdone, hr⟩ <;> cases hr
    · exact hs
    · exact Turn.leaveHat_layered hs (hs.alive.resolve_left hdone)

theorem Thread.Interpreted.layered (hkit : kit.ExtendsCore) (h : t.Interpreted kit) :
    t.Layered := by
  induction h with
  | start id target top sheet isClick isMonitor =>
    refine ⟨⟨?_, ?_, pairwise_singleton _ _⟩, .inr (by simp [Thread.start]), fun _ => rfl⟩
    · simp [Thread.start]
    · simp [Thread.start]
  | asked _ h ih => exact askPredicate_layered hkit ih h
  | step _ h ih => exact Turn.step_layered hkit ih h
  | await _ hwait h ih => exact Turn.await_layered hkit ih hwait h
  | endTurn _ ih => exact ⟨ih.layers, ih.alive, ih.interpreted⟩
  | wake isFirst _ ih =>
    unfold Machine.wake
    split
    · rename_i hwake
      simp only [Bool.and_eq_true, beq_iff_eq] at hwake
      exact ⟨ih.layers, .inr (ih.alive.resolve_left (by simp [hwake.1])), ih.interpreted⟩
    · exact ih
  | retire => exact Thread.layered_retire _

/-- At no block there is nothing to stop. -/
theorem Thread.Layered.stopScript_nowhere (h : t.Layered) (hblock : t.block? = none) :
    t.stopScript = t := by
  cases hstack : t.stack with
  | nil =>
    have hdone := h.alive.resolve_right (by simp [hstack])
    obtain ⟨_⟩ := t
    simp_all [Thread.stopScript, dropToCall]
  | cons f rest =>
    have hf : f.block = none := by simpa [block?, frame?, hstack] using hblock
    obtain ⟨_⟩ := t
    simp_all [Thread.stopScript, dropToCall]

/-- **The stack of an interpreted thread.** Whatever the blocks are, and however the turns of an
interpreted thread go on, after every turn it is done or has a frame; only the innermost frame can
be at no block; and inside a frame in warp mode all frames are. Stopping the script therefore drops
the frames above the innermost call of a procedure and touches no frame below, or ends the thread
where there is no call, provided that the innermost frame is at a block. At no block it does
nothing. -/
theorem interpreted_stack_is_layered {kit : Kit σ} (hkit : kit.ExtendsCore) {t : Thread}
    (h : t.Interpreted kit) :
    (t.status = .done ∨ t.stack ≠ []) ∧
      (∀ f ∈ t.stack.tail, f.block.isSome) ∧
      (t.stack.Pairwise fun inner outer => outer.warp = true → inner.warp = true) ∧
      (t.block?.isSome →
        t.stopScript =
          { t with
            stack := t.stack.dropWhile fun f => !t.atCall f
            status := if t.stack.any t.atCall then t.status else .done }) ∧
      (t.block? = none → t.stopScript = t) := by
  have ht := h.layered hkit
  refine ⟨ht.alive, ht.layers.blocks, ht.layers.warp, fun hblock => ?_, ht.stopScript_nowhere⟩
  exact (ht.standing hblock).stopScript_eq

/-- A choice whose condition is a wait, which as a condition only yields, and whose second branch is
empty. -/
def Sheet.choosing : Sheet :=
  .ofBlocks [
    { id := "choose", opcode := "control_if_else",
      inputs := Table.of [("CONDITION", { block := some "until" })] },
    { id := "until", opcode := "control_wait_until" }]

/-- After its first turn the thread is in the empty branch. -/
theorem choosing_turn :
    ∃ t : Thread, t.Interpreted ({ Library.core with } : Kit Unit) ∧
      t.stack.map Frame.block = [none, some "choose"] ∧ t.stack.any t.atCall = false ∧
      t.status = .running := by
  have hturn : (Turn.step ({ Library.core with } : Kit Unit) 4
      ⟨{ targets := Std.TreeMap.ofList [(0, Target.stage Sheet.choosing)], host := () },
        Thread.start 0 0 "choose" Sheet.choosing⟩).map (fun s => (s.thread.stack.map Frame.block,
          s.thread.stack.any s.thread.atCall, s.thread.status)) =
      some ([none, some "choose"], false, .running) := by
    decide +kernel
  obtain ⟨s, hs, hthread⟩ := map_eq_some_iff.mp hturn
  simp only [Prod.mk.injEq] at hthread
  exact ⟨s.thread, .step (.start 0 0 "choose" Sheet.choosing false false) hs, hthread⟩

/-- A stop has no effect there, although no frame is at a call. -/
theorem stopScript_in_empty_branch :
    ∃ t : Thread, t.Interpreted ({ Library.core with } : Kit Unit) ∧
      t.stack.any t.atCall = false ∧ t.stopScript.stack.length = 2 ∧
      t.stopScript.status = .running := by
  obtain ⟨t, ht, hblocks, hcalls, hstatus⟩ := choosing_turn
  have hlayered := ht.layered fun _ _ hp => .inl hp
  have hlength : t.stack.length = 2 := by simpa using congrArg length hblocks
  have hstop : t.stopScript = t := by
    refine hlayered.stopScript_nowhere ?_
    cases hstack : t.stack with
    | nil => simp [hstack] at hblocks
    | cons f rest =>
      rw [hstack] at hblocks
      simpa [Thread.block?, Thread.frame?, hstack] using (List.cons.inj hblocks).1
  exact ⟨t, ht, hcalls, by rw [hstop, hlength], by rw [hstop, hstatus]⟩

theorem choosing_stack_is_layered :
    ∃ t : Thread, t.Interpreted ({ Library.core with } : Kit Unit) ∧
      t.stack.length = 2 ∧ (∀ f ∈ t.stack.tail, f.block.isSome) ∧
      (t.block? = none → t.stopScript = t) := by
  obtain ⟨t, ht, hblocks, -⟩ := choosing_turn
  obtain ⟨-, htail, -, -, hstop⟩ := interpreted_stack_is_layered (fun _ _ hp => .inl hp) ht
  exact ⟨t, ht, by simpa using congrArg length hblocks, htail, hstop⟩

end BlockMachine

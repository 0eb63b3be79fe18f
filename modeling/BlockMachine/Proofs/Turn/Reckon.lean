import BlockMachine.Proofs.Machine.Aside
import BlockMachine.Proofs.Turn.Call
import BlockMachine.Proofs.Turn.Inputs

/-!
# Reporters that keep to themselves

A reporter asks for variables, lists, parameters, the time or its host, and reports a value or a
promise. It neither moves its thread nor reaches other threads or targets (`Request.isMild`). The
inputs of a block are trees of such reporters (`Reckons`). Evaluating one changes the machine hardly
at all, and the frames of the thread are the same afterwards, or those of the reporters that wait
for a promise stand on top of them (`Reckons.execute_looks`, `Turn.runBlock_gathers`).
-/

namespace BlockMachine

open List Option

variable {σ α β : Type} {b : Block} {id : BlockId} {sheet : Sheet}
  {p : Request σ → Prop} {kit : Kit σ} {waits : Bool} {go : Exec (Turn σ) Unit}
  {primitive : Primitive σ} {t : Thread} {f : Frame}

/-- The request neither moves the thread nor reaches other threads or targets. -/
def Request.isMild : Request σ → Bool
  | .yield | .yieldTick | .startBranch _ _ | .startProcedure _ | .stopAll | .stopOthers
  | .stopScript
  | .stopThread | .bindParams _ | .startHats _ _ | .createClone _ | .removeTarget => false
  | _ => true

/-- The action does not leave with a promise. -/
def Action.Prompt : Action σ Reported → Prop
  | .done r => ∀ p, r ≠ .promise p
  | .fail _ => True
  | .ask _ next => ∀ answer, (next answer).Prompt

/-- A tree of literals and of reporters with requests of one kind; unless it waits, none of them
reports a promise. -/
inductive Reckons (kit : Kit σ) (p : Request σ → Prop) (waits : Bool) (sheet : Sheet) :
    BlockId → Prop
  | literal {id : BlockId} {b : Block} (hb : sheet.block? id = some b)
      (hprimitive : kit.primitive? b.opcode = none) : Reckons kit p waits sheet id
  | reporter {id : BlockId} {b : Block} {primitive : Primitive σ} (hb : sheet.block? id = some b)
      (hprimitive : kit.primitive? b.opcode = some primitive) (hhat : kit.isHat b.opcode = false)
      (hnext : b.next = none) (honly : ∀ args, (primitive args).Only p)
      (hprompt : waits = false → ∀ args, (primitive args).Prompt)
      (hinputs : ∀ name input, isStackSlot name = false → b.inputBlock? name = some input →
        Reckons kit p waits sheet input) : Reckons kit p waits sheet id

/-- No block follows a reporter. -/
theorem Reckons.next? (h : Reckons kit p waits sheet id) (hb : sheet.block? id = some b)
    (hprimitive : kit.hasPrimitive b.opcode = true) : sheet.next? id = none := by
  cases h with
  | literal hb' hnone =>
    cases hb.symm.trans hb'
    rw [Catalog.hasPrimitive, hnone] at hprimitive
    cases hprimitive
  | reporter hb' _ _ hnext =>
    unfold Sheet.next?
    rw [hb']
    exact hnext

/-- All inputs of a block are such trees. -/
def Block.Reckoned (kit : Kit σ) (p : Request σ → Prop) (waits : Bool) (sheet : Sheet) (b : Block) :
    Prop :=
  ∀ name input, isStackSlot name = false → b.inputBlock? name = some input →
    Reckons kit p waits sheet input

theorem Machine.Apart.contains {m m' : Machine σ} (h : m.Apart m') (id : TargetId) :
    m'.targets.contains id = m.targets.contains id := by
  have hbare := congrArg Option.isSome (h.targets id)
  rw [isSome_map, isSome_map] at hbare
  rw [Std.TreeMap.contains_eq_isSome_getElem?, Std.TreeMap.contains_eq_isSome_getElem?, hbare]

theorem Frame.takeReport_bare (f : Frame) (v : Value) : (f.takeReport v).bare = f.bare := by
  unfold Frame.takeReport
  split <;> rfl

theorem Frame.takeReport_waiting (f : Frame) (v : Value) :
    (f.takeReport v).waiting = f.waiting := by
  unfold Frame.takeReport
  split <;> rfl

/-! ## Calls -/

namespace Call

open Exec

/-- The thread is the same, and the machine hardly another one. -/
structure Looked (M : Machine σ → Machine σ → Prop) (c c' : Call σ) : Prop where
  machine : M c.machine c'.machine
  thread : c'.thread = c.thread

instance {M : Machine σ → Machine σ → Prop} [Lasting M] :
    Lasting (Looked M : Call σ → Call σ → Prop) where
  refl c := ⟨Lasting.refl c.machine, rfl⟩
  trans h h' := ⟨Lasting.trans h.machine h'.machine, h'.thread.trans h.thread⟩

variable {kit : Kit σ} {predicate : Exec (Turn σ) Unit} {mode : Mode}

theorem run_prompt {a : Action σ Reported} (ha : a.Prompt) {c c' : Call σ} {r : Reported}
    (h : run kit predicate mode a c = some (.ok r, c')) : ∀ p, r ≠ .promise p := by
  induction a generalizing c with
  | done r' =>
    obtain ⟨hr, -⟩ := pure_some.mp h
    cases hr
    exact ha
  | fail e =>
    obtain ⟨hr, -⟩ := throw_some.mp h
    cases hr
  | ask q next ih =>
    obtain ⟨answer, c₁, -, hrest⟩ := bind_ok.mp h
    exact ih answer (ha answer) hrest

end Call

/-- What requests of one kind do in the interpreter: they leave the thread alone, and do to the
machine what the relation says. -/
structure Reckoning (kit : Kit σ) (p : Request σ → Prop) (M : Machine σ → Machine σ → Prop) :
    Prop where
  apart : ∀ {m m'}, M m m' → m.Apart m'
  perform : ∀ predicate r, p r →
    Exec.Keeps (Call.Looked M) (Call.perform kit predicate .interpreted r)

namespace Call

open Exec

theorem looked_service {x : Service σ α} (hx : Service.Keeps Machine.Aside x) :
    Keeps (Looked Machine.Apart) (service x) :=
  keeps_service fun c => ⟨(hx c.machine).toApart, rfl⟩

/-- Mild requests leave all threads and targets alone. -/
theorem mild_reckoning (kit : Kit σ) : Reckoning kit (·.isMild) Machine.Apart where
  apart h := h
  perform predicate r h := by
    have hmachine : ∀ {f : Turn σ → Machine σ}, (∀ s : Turn σ, s.machine.Apart (f s)) →
        Keeps (Looked Machine.Apart)
          (onTurn fun s => { s with machine := f s } : Exec (Call σ) Unit) :=
      fun hf => keeps_onTurn fun c => ⟨hf c.toTurn, rfl⟩
    cases r
    case yield | yieldTick | startBranch | startProcedure | stopAll | stopOthers | stopScript
        | stopThread
      | bindParams | startHats | createClone | removeTarget => cases h
    all_goals rw [perform]
    case scratch | isWarp | now | threadId | targetId | param | signature | targetNamed
        | isClone | hasThread
      | isWaiting | counter | host => exact keeps_read _
    case setScratch => exact keeps_modify fun c => ⟨Lasting.refl c.machine, rfl⟩
    case requestRedraw | setCounter | advanceClock | setHost => exact hmachine fun s => .of_rest
    case query => exact looked_service (Machine.query_aside _ _ _ _)
    case readVariable =>
      exact (keeps_read _).andThen fun _ => looked_service (Machine.readVariable_aside _ _)
    case setVariable =>
      exact (keeps_read _).andThen fun _ => looked_service (Machine.setVariable_aside _ _ _ _)
    case readList =>
      exact (keeps_read _).andThen fun _ => looked_service (Machine.readList_aside _ _)
    case editList =>
      exact (keeps_read _).andThen fun _ => looked_service (Machine.editList_aside _ _ _)
    case draw =>
      refine keeps_onMachine fun c a m hdraw => ⟨?_, rfl⟩
      exact Run.keeps_modifyGet (fun m => (Machine.aside_draw m).toApart) c.machine a m hdraw
    case openPromise =>
      refine keeps_onMachine fun c a m hopen => ⟨?_, rfl⟩
      exact Run.keeps_modifyGet (fun m => .of_rest) c.machine a m hopen

end Call

/-! ## Evaluation -/

/-- Frames of reporters that wait, innermost first. All but the innermost one wait for the frame on
top of them. -/
structure Hanging (kit : Kit σ) (p : Request σ → Prop) (waits : Bool) (sheet : Sheet)
    (upper : List Frame) :
    Prop where
  frames : ∀ u ∈ upper, u.code = none ∧ ∃ id b, u.block = some id ∧ sheet.block? id = some b ∧
    kit.hasPrimitive b.opcode = true ∧ Reckons kit p waits sheet id
  waiting : ∀ u ∈ upper.tail, u.waiting.isSome

/-- Frames of reporters that wait on top of others. -/
theorem Hanging.append {upper lower : List Frame} (h : Hanging kit p waits sheet upper)
    (hupper : upper ≠ []) (hlower : Hanging kit p waits sheet lower)
    (hhead : ∀ f ∈ lower.head?, f.waiting.isSome) :
    Hanging kit p waits sheet (upper ++ lower) := by
  refine ⟨fun u hu => ?_, fun u hu => ?_⟩
  · exact (mem_append.mp hu).elim (h.frames u) (hlower.frames u)
  · rw [tail_append_of_ne_nil hupper] at hu
    refine (mem_append.mp hu).elim (h.waiting u) fun hu => ?_
    cases lower with
    | nil => cases hu
    | cons f lower =>
      rcases mem_cons.mp hu with rfl | hu
      · exact hhead u rfl
      · exact hlower.waiting u hu

/-- One frame of a reporter. -/
theorem Hanging.single (hcode : f.code = none) (hblock : f.block = some id)
    (hb : sheet.block? id = some b) (hprimitive : kit.hasPrimitive b.opcode = true)
    (htree : Reckons kit p waits sheet id) :
    Hanging kit p waits sheet [f] := by
  refine ⟨fun u hu => ?_, forall_mem_nil _⟩
  rw [mem_singleton.mp hu]
  exact ⟨hcode, id, b, hblock, hb, hprimitive, htree⟩

/-- The thread waits for a promise, with frames of reporters on top of the others. -/
def Thread.Hung (kit : Kit σ) (p : Request σ → Prop) (waits : Bool) (t : Thread)
    (below : List Frame) (t' : Thread) : Prop :=
  waits = true ∧ ∃ upper q, upper ≠ [] ∧ Hanging kit p waits t.sheet upper ∧ t' = { t with
    stack := upper ++ below, status := .promiseWait, pending := some ⟨q, .block false⟩ }

namespace Turn

open Exec

/-- From this state the computation changes the machine hardly, and if it does not fail, the thread
is as said. -/
def Looks (M : Machine σ → Machine σ → Prop) (x : Exec (Turn σ) α) (s : Turn σ)
    (Q : α → Thread → Prop) :
    Prop :=
  ∀ r s', x s = some (r, s') → M s.machine s'.machine ∧ ∀ a, r = .ok a → Q a s'.thread

variable {M : Machine σ → Machine σ → Prop} [Lasting M] {s s' : Turn σ}

theorem looks_pure {a : α} {Q : α → Thread → Prop} (h : Q a s.thread) : Looks M (pure a) s Q := by
  intro r s' hx
  obtain ⟨rfl, rfl⟩ := pure_some.mp hx
  refine ⟨Lasting.refl _, ?_⟩
  rintro _ ⟨⟩
  exact h

theorem Looks.andThen {x : Exec (Turn σ) α} {f : α → Exec (Turn σ) β} {P : α → Thread → Prop}
    {Q : β → Thread → Prop} (hx : Looks M x s P)
    (hf : ∀ a s', M s.machine s'.machine → P a s'.thread → Looks M (f a) s' Q) :
    Looks M (x >>= f) s Q := by
  intro r s' h
  rcases bind_some.mp h with ⟨e, hxe, rfl⟩ | ⟨a, s₁, hxa, hfr⟩
  · exact ⟨(hx _ _ hxe).1, fun a hr => by cases hr⟩
  · obtain ⟨hmachine, hP⟩ := hx _ _ hxa
    obtain ⟨hmachine', hQ⟩ := hf a s₁ hmachine (hP a rfl) r s' hfr
    exact ⟨Lasting.trans hmachine hmachine', hQ⟩

theorem looks_onThread {f : Thread → Thread} {Q : Unit → Thread → Prop} (h : Q () (f s.thread)) :
    Looks M (onThread f) s Q := by
  intro r s' hx
  obtain ⟨rfl, rfl⟩ := modify_some.mp hx
  refine ⟨Lasting.refl _, ?_⟩
  rintro _ ⟨⟩
  exact h

/-- A thread that is about to go on. -/
structure Ready (s : Turn σ) (sheet : Sheet) : Prop where
  sheet : s.thread.sheet = sheet
  target : s.machine.targets.contains s.thread.target = true
  status : s.thread.status = .running ∨ s.thread.status = .yield

/-- The thread afterwards has the same frames below its two innermost ones. Of these, the outer one
has taken a value at most, and the inner one is where it was. -/
def Delivered (t : Thread) (top g : Frame) (rest : List Frame) (t' : Thread) : Prop :=
  ∃ top' g', t' = { t with stack := top' :: g' :: rest } ∧ g'.bare = g.bare ∧
    g'.waiting = g.waiting ∧
    top'.block = top.block ∧ top'.code = top.code

/-- Evaluating the inputs leaves no trace but in the frame of the block. -/
def Gathered (t : Thread) (f : Frame) (rest : List Frame) (t' : Thread) : Prop :=
  ∃ f', t' = { t with stack := f' :: rest } ∧ f'.bare = f.bare

theorem Ready.of_apart (h : s.Ready sheet) (hapart : s.machine.Apart s'.machine)
    {stack : List Frame} (hthread : s'.thread = { s.thread with stack }) : s'.Ready sheet := by
  refine ⟨by rw [hthread]; exact h.sheet, ?_, by rw [hthread]; exact h.status⟩
  rw [hapart.contains, hthread]
  exact h.target

variable {kit : Kit σ} {p : Request σ → Prop} {waits : Bool}

/-- An input keeps the block waiting: its frame says so, and those of reporters are on top of it. -/
def Suspended (kit : Kit σ) (p : Request σ → Prop) (waits : Bool) (t : Thread) (f : Frame)
    (rest : List Frame) (t' : Thread) : Prop :=
  ∃ f', f'.bare = f.bare ∧ f'.waiting.isSome ∧ t.Hung kit p waits (f' :: rest) t'

/-- A computation that evaluates a reporter in the innermost frame, whatever the state. -/
def Reports (kit : Kit σ) (p : Request σ → Prop) (waits : Bool) (M : Machine σ → Machine σ → Prop)
    (go : Exec (Turn σ) Unit) (sheet : Sheet) (input : BlockId) : Prop :=
  ∀ (s : Turn σ) (top g : Frame) (rest : List Frame), s.Ready sheet →
    s.thread.stack = top :: g :: rest → top.block = some input → top.code = none →
      Looks M go s fun _ t => Delivered s.thread top g rest t ∨
        s.thread.Hung kit p waits (g :: rest) t

section

variable (reckoning : Reckoning kit p M) {g top : Frame} {rest : List Frame}

include reckoning

/-- Inputs with such reporters are evaluated one after the other. -/
theorem evalInputs_looks
    (hgo : ∀ name input, isStackSlot name = false → b.inputBlock? name = some input →
      Reports kit p waits M go sheet input)
    {reported : Table Value} (names : List String) :
    ∀ (args : Args) (s : Turn σ) (f : Frame) (rest : List Frame), s.Ready sheet →
      s.thread.stack = f :: rest →
        Looks M (evalInputs go b (rest.length + 1) reported args names) s fun args' t =>
          args'.isSome ∧ Gathered s.thread f rest t ∨
            args' = none ∧ Suspended kit p waits s.thread f rest t := by
  induction names with
  | nil =>
    intro args s f rest hready hstack
    exact looks_pure (.inl ⟨rfl, f, by rw [← hstack], rfl⟩)
  | cons name names ih =>
    intro args s f rest hready hstack
    cases hslot : isStackSlot name with
    | true =>
      rw [evalInputs_stack hslot]
      exact ih args s f rest hready hstack
    | false =>
    cases hheld : reported[name]? with
    | some v =>
      rw [evalInputs_held hslot hheld]
      exact ih _ s f rest hready hstack
    | none =>
    cases hblock : b.inputBlock? name with
    | none =>
      rw [evalInputs_empty hslot hheld hblock]
      exact ih args s f rest hready hstack
    | some input =>
      rw [evalInputs, if_neg (by simp [hslot]), hheld, hblock]
      -- The reporter has a frame of its own, which is gone when the value is taken.
      have hthread : s.thread = { s.thread with stack := f :: rest } := by rw [← hstack]
      have hpush : (s.thread.onDepth (rest.length + 1) ({ · with waiting := some name })).push
          (some input) = { s.thread with stack :=
            { block := some input, warp := f.warp } :: { f with waiting := some name } ::
              rest } := by
        have hof := @of_push σ name s.machine s.thread f rest input
        unfold of at hof
        rw [← hthread] at hof
        exact hof
      refine (looks_onThread (Q := fun _ t => t = { s.thread with stack :=
        { block := some input, warp := f.warp } :: { f with waiting := some name } :: rest })
          hpush).andThen
        fun _ s₁ hmachine₁ hs₁ => ?_
      have hready₁ := hready.of_apart (reckoning.apart hmachine₁) hs₁
      refine (hgo name input hslot hblock s₁ _ _ _ hready₁ (by rw [hs₁]) rfl rfl).andThen
        fun _ s₂ hmachine₂ hs₂ => ?_
      rcases hs₂ with ⟨top, g, hs₂, hbare, hwaiting, -⟩ | ⟨hwaits, upper, q, hupper, hhanging, hs₂⟩
      · have hready₂ := hready₁.of_apart (reckoning.apart hmachine₂) hs₂
        have hwait : ¬ s₂.thread.status == .promiseWait := by
          rcases hready₂.status with h | h <;> simp [h]
        have hdepth : ¬ (s₂.thread.depth != rest.length + 1 + 1 || s₂.thread.isDone) := by
          have hstatus : s₂.thread.status ≠ .done := by
            rcases hready₂.status with h | h <;> simp [h]
          simp [Thread.depth, Thread.isDone, hs₂, hs₁] at hstatus ⊢
          exact hstatus
        intro r s' h
        rw [getThread_andThen, if_neg hwait, if_neg hdepth, onThread_andThen] at h
        have hpop : s₂.thread.pop.onFrame (fun f =>
            { f with waiting := none, reported := f.reported.erase name }) =
            { s.thread with stack :=
              { g with waiting := none, reported := g.reported.erase name } :: rest } := by
          rw [hs₂, hs₁]
          rfl
        rw [hpop] at h
        have hmachine : M s.machine s₂.machine := Lasting.trans hmachine₁ hmachine₂
        have hready₃ : Ready ⟨s₂.machine, { s.thread with stack :=
            { g with waiting := none, reported := g.reported.erase name } :: rest }⟩ sheet :=
          hready.of_apart (reckoning.apart hmachine) rfl
        obtain ⟨hmachine', hQ⟩ := ih _ _ _ rest hready₃ rfl r s' h
        refine ⟨hmachine', fun args' hargs => ?_⟩
        rcases hQ args' hargs with ⟨hsome, f', hf', hbare'⟩ | ⟨hnone, f', hbare', hrest⟩
        · exact .inl ⟨hsome, f', hf', hbare'.trans hbare⟩
        · exact .inr ⟨hnone, f', hbare'.trans hbare, hrest⟩
      · intro r s' h
        rw [getThread_andThen, if_pos (by rw [hs₂]; rfl), onThread_andThen] at h
        obtain ⟨rfl, rfl⟩ := pure_some.mp h
        refine ⟨Lasting.refl s₂.machine, ?_⟩
        rintro _ ⟨⟩
        refine .inr ⟨rfl,
          { f with waiting := some name, reported := f.reported.insertMany args.values.toList },
          rfl, rfl, hwaits, upper, q, hupper, ?_, ?_⟩
        · rw [hs₁] at hhanging
          exact hhanging
        · have hbelow := Thread.onDepth_below { s.thread with
            status := .promiseWait, pending := some ⟨q, .block false⟩ } upper rest
            { f with waiting := some name } fun f =>
              { f with reported := f.reported.insertMany args.values.toList }
          dsimp only
          rw [hs₂, hs₁]
          exact hbelow

omit reckoning

theorem block?_of_stack (hstack : t.stack = f :: rest) : t.block? = f.block := by
  unfold Thread.block? Thread.frame?
  rw [hstack]
  rfl

theorem delivered_report (hstack : t.stack = top :: g :: rest) (v : Value) :
    Delivered t top g rest (t.report v) := by
  refine ⟨top, g.takeReport v, ?_, g.takeReport_bare v, g.takeReport_waiting v, rfl, rfl⟩
  unfold Thread.report
  rw [hstack]

theorem delivered_same (hstack : t.stack = top :: g :: rest) : Delivered t top g rest t :=
  ⟨top, g, by rw [← hstack], rfl, rfl, rfl, rfl⟩

theorem runLiteral_looks {catalog : Catalog σ} (hstack : s.thread.stack = top :: g :: rest) :
    Looks M (runLiteral catalog b) s fun _ t => Delivered s.thread top g rest t := by
  unfold runLiteral
  split
  · exact looks_pure (delivered_same hstack)
  · split
    · exact looks_onThread (delivered_report hstack _)
    · exact looks_pure (delivered_same hstack)

include reckoning

/-- The primitive of a reporter is called, and its report is taken. -/
theorem callBlock_looks {args : Args} (hb : s.thread.sheet.block? id = some b)
    (hprimitive : kit.primitive? b.opcode = some primitive) (hhat : kit.isHat b.opcode = false)
    (honly : (primitive args).Only p) (hprompt : waits = false → (primitive args).Prompt)
    (htree : Reckons kit p waits s.thread.sheet id) (hstack : s.thread.stack = top :: g :: rest)
    (hblock : top.block = some id) (hcode : top.code = none) :
    Looks M (callBlock kit go (rest.length + 2) primitive args >>=
      takeReport kit.toCatalog b.id b.opcode) s fun _ t =>
        Delivered s.thread top g rest t ∨ s.thread.Hung kit p waits (g :: rest) t := by
  have hcall : Looks M (callBlock kit go (rest.length + 2) primitive args) s fun r t =>
      (waits = false → ∀ q, r ≠ .promise q) ∧ ∃ scratch, t = { s.thread with stack :=
        { top with scratch } :: g :: rest } := by
    intro r s' h
    obtain ⟨⟨r₁, c⟩, hrun, h⟩ := bind_eq_some_iff.mp h
    cases h
    have hlooked : Call.Looked M _ c := Call.run_only (reckoning.perform go) honly _ _ _ hrun
    refine ⟨hlooked.machine, fun a hr => ⟨fun hwaits => ?_, ?_⟩⟩
    · subst hr
      exact Call.run_prompt (hprompt hwaits) hrun
    · have hthread : c.thread = { s.thread with stack := [] ++ top :: g :: rest } := by
        rw [hlooked.thread]
        show s.thread = _
        rw [nil_append, ← hstack]
      refine ⟨c.scratch, ?_⟩
      dsimp only
      rw [hthread]
      exact Thread.onDepth_below s.thread [] (g :: rest) top ({ · with scratch := c.scratch })
  refine hcall.andThen fun r s₁ _ hs₁ => ?_
  obtain ⟨hpromise, scratch, hs₁⟩ := hs₁
  have hstack₁ : s₁.thread.stack = { top with scratch } :: g :: rest := by rw [hs₁]
  have hout : ∀ t, Delivered s₁.thread { top with scratch } g rest t →
      Delivered s.thread top g rest t := by
    rintro t ⟨top'', g', rfl, hplace⟩
    exact ⟨top'', g', by rw [hs₁], hplace⟩
  cases r with
  | nothing => exact looks_pure (.inl (hout _ (delivered_same hstack₁)))
  | promise q =>
    rw [takeReport, hhat]
    have hwaits : waits = true := Bool.not_eq_false _ ▸ fun hwaits => hpromise hwaits q rfl
    have hhas : kit.hasPrimitive b.opcode = true := by
      rw [Catalog.hasPrimitive, hprimitive]
      rfl
    refine looks_onThread (.inr ⟨hwaits, [{ top with scratch }], q, cons_ne_nil _ _, ?_, ?_⟩)
    · exact .single hcode hblock hb hhas htree
    · rw [hs₁]
      rfl
  | value v =>
    rw [takeReport, hhat]
    have hreport := hout _ (delivered_report hstack₁ v)
    exact looks_onThread (s := s₁) (f := (·.report v)) (.inl hreport)

/-- A block whose inputs are such reporters: evaluating them fails or leaves it waiting for a
promise, or the primitive is called with what they come to, and nothing else has changed by then. -/
theorem runBlock_gathers {fuel : Nat}
    (hgo : ∀ name input, isStackSlot name = false → b.inputBlock? name = some input →
      Reports kit p waits M (execute kit fuel) sheet input)
    (hready : s.Ready sheet) (hstack : s.thread.stack = f :: rest) {r : Except BlockError Unit}
    (h : runBlock kit (execute kit fuel) b primitive s = some (r, s')) :
    (∃ e, r = .error e ∧ M s.machine s'.machine) ∨
      (r = .ok () ∧ M s.machine s'.machine ∧ Suspended kit p waits s.thread f rest s'.thread) ∨
      ∃ args s₁ f', M s.machine s₁.machine ∧ s₁.thread = { s.thread with stack := f' :: rest } ∧
        f'.bare = f.bare ∧ (callBlock kit (execute kit fuel) (rest.length + 1) primitive args >>=
          takeReport kit.toCatalog b.id b.opcode) s₁ = some (r, s') := by
  have hthread : s.thread.onFrame ({ · with reported := ∅, waiting := none }) =
      { s.thread with stack := f.bare :: rest } := by
    unfold Thread.onFrame
    rw [hstack]
    rfl
  have hdepth : s.thread.depth = rest.length + 1 := by
    unfold Thread.depth
    rw [hstack]
    rfl
  have hready' : Ready ⟨s.machine, { s.thread with stack := f.bare :: rest }⟩ sheet :=
    hready.of_apart (Lasting.refl _) rfl
  unfold runBlock at h
  rw [getThread_andThen, onThread_andThen, hthread, hdepth] at h
  rcases bind_some.mp h with ⟨e, hinputs, rfl⟩ | ⟨args, s₁, hinputs, h⟩
  · exact .inl ⟨e, rfl,
      (evalInputs_looks reckoning hgo _ _ _ f.bare rest hready' rfl _ _ hinputs).1⟩
  · obtain ⟨hmachine, hQ⟩ :=
      evalInputs_looks reckoning hgo _ _ _ f.bare rest hready' rfl _ _ hinputs
    rcases hQ args rfl with ⟨hsome, f', hs₁, hbare⟩ | ⟨rfl, hsuspended⟩
    · obtain ⟨args, rfl⟩ := isSome_iff_exists.mp hsome
      exact .inr (.inr ⟨args, s₁, f', hmachine, hs₁, hbare, h⟩)
    · obtain ⟨rfl, rfl⟩ := pure_some.mp h
      exact .inr (.inl ⟨rfl, hmachine, hsuspended⟩)

end
end Turn

/-- **A tree of reporters leaves no trace but the frames of those that wait.** -/
theorem Reckons.execute_looks {M : Machine σ → Machine σ → Prop} [Lasting M]
    (reckoning : Reckoning kit p M) {input : BlockId} (h : Reckons kit p waits sheet input)
    (fuel : Nat) :
    Turn.Reports kit p waits M (Turn.execute kit fuel) sheet input := by
  induction h generalizing fuel with
  | @literal id b hb hprimitive =>
    intro s top g rest hready hstack htop hcode
    cases fuel with
    | zero => exact fun r s' h => by cases h
    | succ fuel =>
      have hblock := (Turn.block?_of_stack hstack).trans htop
      intro r s' hx
      rw [Turn.execute_literal hready.target hblock (hready.sheet ▸ hb) hprimitive] at hx
      obtain ⟨hmachine, hQ⟩ := Turn.runLiteral_looks (M := M) hstack r s' hx
      exact ⟨hmachine, fun a hr => .inl (hQ a hr)⟩
  | @reporter id b primitive hb hprimitive hhat hnext honly hprompt hinputs ih =>
    intro s top g rest hready hstack htop hcode
    cases fuel with
    | zero => exact fun r s' h => by cases h
    | succ fuel =>
      have hblock := (Turn.block?_of_stack hstack).trans htop
      have htree := Reckons.reporter hb hprimitive hhat hnext honly hprompt hinputs
      intro r s' hx
      rw [Turn.execute_primitive hready.target hblock (hready.sheet ▸ hb) hprimitive] at hx
      rcases Turn.runBlock_gathers reckoning
        (fun name input hslot hinput => ih name input hslot hinput fuel)
        hready hstack hx with ⟨e, rfl, hmachine⟩ | ⟨rfl, hmachine, hsuspended⟩ |
        ⟨args, s₁, top', hmachine, hs₁, hbare, hx₁⟩
      · exact ⟨hmachine, fun _ hr => by cases hr⟩
      · refine ⟨hmachine, fun _ _ => .inr ?_⟩
        obtain ⟨f', hbare, hwaiting, hwaits, upper, q, hupper, hhanging, hs'⟩ := hsuspended
        refine ⟨hwaits, upper ++ [f'], q, by simp, ?_, ?_⟩
        · have hcode' : f'.code = none := (congrArg Frame.code hbare).trans hcode
          have hblock' : f'.block = some id := (congrArg Frame.block hbare).trans htop
          refine hhanging.append hupper
            (.single hcode' hblock' (hready.sheet ▸ hb) ?_ (hready.sheet ▸ htree)) ?_
          · rw [Catalog.hasPrimitive, hprimitive]
            rfl
          · rintro _ ⟨⟩
            exact hwaiting
        · rw [hs', append_assoc]
          rfl
      · have hsheet : s₁.thread.sheet = sheet := by
          rw [hs₁]
          exact hready.sheet
        have hcode' : top'.code = none := (congrArg Frame.code hbare).trans hcode
        have hblock' : top'.block = some id := (congrArg Frame.block hbare).trans htop
        have hb₁ : s₁.thread.sheet.block? id = some b := hsheet ▸ hb
        obtain ⟨hmachine₂, hQ⟩ := Turn.callBlock_looks reckoning hb₁ hprimitive hhat (honly args)
          (fun hwaits => hprompt hwaits args) (hsheet ▸ htree)
          (show s₁.thread.stack = top' :: g :: rest by rw [hs₁]) hblock' hcode' r s' hx₁
        refine ⟨Lasting.trans hmachine hmachine₂, fun a hr => ?_⟩
        rcases hQ a hr with ⟨top'', g', hs₂, hbare', hwaiting, hblock₂, hcode₂⟩ |
          ⟨hwaits, upper, q, hupper, hhanging, hs₂⟩
        · exact .inl ⟨top'', g', by rw [hs₂, hs₁], hbare', hwaiting,
            hblock₂.trans (hblock'.trans htop.symm), hcode₂.trans (hcode'.trans hcode.symm)⟩
        · rw [hs₁] at hhanging hs₂
          exact .inr ⟨hwaits, upper, q, hupper, hhanging, hs₂⟩

end BlockMachine

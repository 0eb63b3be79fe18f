import BlockMachine.Proofs.Table
import BlockMachine.Proofs.Turn.Interpret

/-!
# The inputs of a block

A block is run by evaluating the reporters in its inputs one after the other, each in a frame of its
own. `Evaluates` and `Gathers` say what such an evaluation amounts to without frames and turns: the
value of a reporter, the arguments of a block, and the calls that were made on the way, where a
promise counts as the value that it delivers. A reporter that waits for a promise leaves frames
behind; `Hangs` says what these know.

The evaluation itself is followed in a `Scene`, which fixes the equipment, the sheet and what the
calls of reporters do to the machine. Running a block whose inputs are partly evaluated comes to the
call of its primitive, or stops at a promise that one of the inputs waits for
(`Scene.execute_outcome`); for a reporter that is all (`Scene.Tree.runs`).
-/

namespace BlockMachine

open List

variable {σ : Type} {v : Value} {catalog : Catalog σ} {m : Machine σ} {p : PromiseId}
  {opcode name : String}

/-- A call of a reporter: what it was called with and what it reported. -/
structure Inquiry where
  block : Block
  args : Args
  reported : Reported

/-- The value that a report stands for, where promises deliver values. -/
inductive Reported.Gives (delivers : PromiseId → Value → Prop) : Reported → Value → Prop
  | value (v : Value) : Gives delivers (.value v) v
  | promise {p : PromiseId} {v : Value} (h : delivers p v) : Gives delivers (.promise p) v

mutual

/-- A reporter has a value after some calls, its own the last one. -/
inductive Evaluates (kit : Kit σ) (sheet : Sheet) (delivers : PromiseId → Value → Prop) :
    BlockId → List Inquiry → Value → Prop
  | literal {id : BlockId} {b : Block} {f : Field} (hb : sheet.block? id = some b)
      (hprimitive : kit.primitive? b.opcode = none) (hfield : b.soleField? = some f) :
      Evaluates kit sheet delivers id [] f.value
  | reporter {id : BlockId} {b : Block} {es : List Inquiry} {args : Args} {r : Reported} {v : Value}
      (hb : sheet.block? id = some b) (hprimitive : kit.hasPrimitive b.opcode = true)
      (hinputs : Gathers kit sheet delivers b b.inputs.keys (.ofFields b.opcode b.mutation b.fields)
        es args)
      (hreport : r.Gives delivers v) :
      Evaluates kit sheet delivers id (es ++ [⟨b, args, r⟩]) v

/-- Some inputs of a block are added to its arguments, in the order of the calls. -/
inductive Gathers (kit : Kit σ) (sheet : Sheet) (delivers : PromiseId → Value → Prop) :
    Block → List String → Args → List Inquiry → Args → Prop
  | nil {b : Block} {args : Args} : Gathers kit sheet delivers b [] args [] args
  | stack {b : Block} {name : String} {names : List String} {args args' : Args} {es : List Inquiry}
      (hslot : isStackSlot name = true) (hrest : Gathers kit sheet delivers b names args es args') :
      Gathers kit sheet delivers b (name :: names) args es args'
  | empty {b : Block} {name : String} {names : List String} {args args' : Args} {es : List Inquiry}
      (hslot : isStackSlot name = false) (hblock : b.inputBlock? name = none)
      (hrest : Gathers kit sheet delivers b names args es args') :
      Gathers kit sheet delivers b (name :: names) args es args'
  | input {b : Block} {name : String} {names : List String} {args args' : Args} {input : BlockId}
      {es es' : List Inquiry} {v : Value}
      (hslot : isStackSlot name = false) (hblock : b.inputBlock? name = some input)
      (hvalue : Evaluates kit sheet delivers input es v)
      (hrest : Gathers kit sheet delivers b names (args.insert name v) es' args') :
      Gathers kit sheet delivers b (name :: names) args (es ++ es') args'

end

/-- A block whose inputs can be told from its fields. -/
def Block.Distinct (b : Block) : Prop :=
  ∀ k ∈ b.inputs.keys, b.fields[k]? = none

/-- A frame without what it keeps of its inputs. -/
def Frame.bare (f : Frame) : Frame :=
  { f with reported := ∅, waiting := none }

/-- The frames that a reporter leaves behind while a promise is pending, innermost first. Either the
reporter itself has reported the promise, or one of its inputs hangs and the frame holds the inputs
before that one. -/
inductive Hangs (kit : Kit σ) (sheet : Sheet) (delivers : PromiseId → Value → Prop) :
    BlockId → List Frame → List Inquiry → PromiseId → Prop
  | asked {id : BlockId} {b : Block} {es : List Inquiry} {args : Args} {p : PromiseId} (f : Frame)
      (hb : sheet.block? id = some b) (hprimitive : kit.hasPrimitive b.opcode = true)
      (hinputs : Gathers kit sheet delivers b b.inputs.keys (.ofFields b.opcode b.mutation b.fields)
        es args) :
      Hangs kit sheet delivers id [f] (es ++ [⟨b, args, .promise p⟩]) p
  | inner {id input : BlockId} {b : Block} {f : Frame} {frames : List Frame} {warp : Bool}
      {before after : List String} {name : String} {es es' : List Inquiry} {args : Args}
      {p : PromiseId} (hb : sheet.block? id = some b)
      (hprimitive : kit.hasPrimitive b.opcode = true)
      (hbare : f.bare = { block := some id, warp }) (hwaiting : f.waiting = some name)
      (hkeys : b.inputs.keys = before ++ name :: after) (hslot : isStackSlot name = false)
      (hblock : b.inputBlock? name = some input)
      (hinputs : Gathers kit sheet delivers b before (.ofFields b.opcode b.mutation b.fields) es
        args)
      (hheld : ∀ k : String, f.reported[k]? = args.values[k]?)
      (hinner : Hangs kit sheet delivers input frames es' p) :
      Hangs kit sheet delivers id (frames ++ [f]) (es ++ es') p

/-! ## Arguments -/

namespace Gathers

variable {kit : Kit σ} {sheet : Sheet} {delivers : PromiseId → Value → Prop} {b : Block}
  {names before after : List String} {args args₁ args₂ : Args} {es es' : List Inquiry}

theorem append (h : Gathers kit sheet delivers b before args es args₁)
    (h' : Gathers kit sheet delivers b after args₁ es' args₂) :
    Gathers kit sheet delivers b (before ++ after) args (es ++ es') args₂ := by
  induction before generalizing args es with
  | nil =>
    cases h
    exact h'
  | cons name before ih =>
    cases h with
    | stack hslot hrest => exact .stack hslot (ih hrest)
    | empty hslot hblock hrest => exact .empty hslot hblock (ih hrest)
    | input hslot hblock hvalue hrest =>
      rw [append_assoc]
      exact .input hslot hblock hvalue (ih hrest)

/-- Only the inputs that are named are added. -/
theorem values_of_notMem (h : Gathers kit sheet delivers b names args es args₁) {k : String}
    (hk : k ∉ names) : args₁.values[k]? = args.values[k]? := by
  induction names generalizing args es with
  | nil =>
    cases h
    rfl
  | cons name names ih =>
    simp only [mem_cons, not_or] at hk
    cases h with
    | stack hslot hrest => exact ih hrest hk.2
    | empty hslot hblock hrest => exact ih hrest hk.2
    | input hslot hblock hvalue hrest =>
      rw [ih hrest hk.2, Args.values_insert, if_neg (Ne.symm hk.1)]

end Gathers

/-! ## Frames and states -/

namespace Turn

/-- A turn whose thread has these frames. -/
def of (m : Machine σ) (t : Thread) (stack : List Frame) : Turn σ :=
  ⟨m, { t with stack }⟩

/-- A turn whose thread has these frames and waits for a promise. -/
def waitingFor (m : Machine σ) (t : Thread) (stack : List Frame) (p : PromiseId) : Turn σ :=
  ⟨m, { t with
    stack, status := .promiseWait, pending := some { promise := p, waiter := .block false } }⟩

end Turn

theorem Thread.onDepth_below (t : Thread) (frames rest : List Frame) (f : Frame)
    (g : Frame → Frame) :
    { t with stack := frames ++ f :: rest }.onDepth (rest.length + 1) g =
      { t with stack := frames ++ g f :: rest } := by
  have hdepth : (frames ++ f :: rest).length - (rest.length + 1) = frames.length := by
    simp only [length_append, length_cons]
    omega
  have hmodify : (frames ++ f :: rest).modify frames.length g = frames ++ g f :: rest := by
    induction frames with
    | nil => rfl
    | cons f' frames ih =>
      rw [cons_append, length_cons, modify_succ_cons, ih (by simp)]
      rfl
  unfold Thread.onDepth Thread.depth
  rw [if_pos (by simp only [length_append, length_cons]; omega), hdepth, hmodify]

namespace Turn

open Exec

variable {go : Exec (Turn σ) Unit} {b : Block} {depth : Nat} {reported : Table Value}
  {args : Args} {name : String} {names : List String}

/-! ## One input -/

theorem evalInputs_stack (hslot : isStackSlot name = true) :
    evalInputs go b depth reported args (name :: names) =
      evalInputs go b depth reported args names := by
  rw [evalInputs, if_pos hslot]

theorem evalInputs_held (hslot : isStackSlot name = false) (hheld : reported[name]? = some v) :
    evalInputs go b depth reported args (name :: names) =
      evalInputs go b depth reported (args.insert name v) names := by
  rw [evalInputs, if_neg (by simp [hslot]), hheld]

theorem evalInputs_empty (hslot : isStackSlot name = false) (hheld : reported[name]? = none)
    (hblock : b.inputBlock? name = none) :
    evalInputs go b depth reported args (name :: names) =
      evalInputs go b depth reported args names := by
  rw [evalInputs, if_neg (by simp [hslot]), hheld, hblock]

variable {m m' : Machine σ} {t : Thread} {f f' : Frame} {rest : List Frame} {input : BlockId}

/-- A reporter is entered in a frame of its own. -/
theorem of_push :
    ((of m t (f :: rest)).thread.onDepth (rest.length + 1) ({ · with waiting := some name })).push
        (some input) =
      (of m t ({ block := some input, warp := f.warp } :: { f with waiting := some name }
        :: rest)).thread := by
  unfold of
  rw [show f :: rest = [] ++ f :: rest from rfl, Thread.onDepth_below]
  rfl

/-- What a call leaves of its thread and machine. -/
theorem callBlock_ran {kit : Kit σ} {primitive : Primitive σ} {r : Reported} {c : Call σ}
    {u : Thread} (frames : List Frame) (hrun : Call.run kit go .interpreted (primitive args)
      { of m t (f :: rest) with scratch := f.scratch } = some (.ok r, c))
    (hthread : c.thread = { u with stack := frames ++ f' :: rest }) :
    callBlock kit go (rest.length + 1) primitive args (of m t (f :: rest)) =
      some (.ok r, of c.machine u (frames ++ { f' with scratch := c.scratch } :: rest)) := by
  have hdepth := Thread.onDepth_below u frames rest f' ({ · with scratch := c.scratch })
  show (Call.run kit go .interpreted (primitive args)
      { of m t (f :: rest) with scratch := f.scratch } >>= _) = _
  rw [hrun]
  simp only [Option.bind_eq_bind, Option.bind_some, hthread]
  exact congrArg (fun t => some (Except.ok r, (⟨c.machine, t⟩ : Turn σ))) hdepth

/-- An input whose reporter comes to an end is added to the arguments. -/
theorem evalInputs_input (hslot : isStackSlot name = false) (hheld : reported[name]? = none)
    (hblock : b.inputBlock? name = some input) (hstatus : t.status = .running)
    (hgo : go (of m t ({ block := some input, warp := f.warp } ::
      { f with waiting := some name } :: rest)) =
      some (.ok (), of m' t
        (f' :: { f with waiting := some name, reported := f.reported.insert name v } ::
      rest)))
    :
    evalInputs go b (rest.length + 1) reported args (name :: names) (of m t (f :: rest)) =
      evalInputs go b (rest.length + 1) reported (args.insert name v) names
        (of m' t ({ f with
          waiting := none, reported := (f.reported.insert name v).erase name } :: rest)) := by
  rw [evalInputs, if_neg (by simp [hslot]), hheld, hblock]
  dsimp only
  rw [onThread_andThen]
  rw [of_push]
  refine (andThen_ok hgo).trans ?_
  rw [getThread_andThen]
  rw [if_neg (by simp [of, hstatus]), if_neg (by simp [of, Thread.depth, Thread.isDone, hstatus])]
  rw [onThread_andThen]
  have hv : ((of m' t (f' :: { f with
      waiting := some name, reported := f.reported.insert name v } :: rest)).thread.pop.frame?.bind
        (·.reported[name]?)).getD default = v := by
    simp [of, Thread.pop, Thread.frame?]
  rw [hv]
  rfl

/-- An input whose reporter waits for a promise stops the evaluation; the frame keeps the arguments
so far. -/
theorem evalInputs_hangs {frames : List Frame} (hslot : isStackSlot name = false)
    (hheld : reported[name]? = none) (hblock : b.inputBlock? name = some input)
    (hgo : go (of m t ({ block := some input, warp := f.warp } ::
      { f with waiting := some name } :: rest)) =
      some (.ok (), waitingFor m' t (frames ++ { f with waiting := some name } :: rest) p))
    :
    evalInputs go b (rest.length + 1) reported args (name :: names) (of m t (f :: rest)) =
      some (.ok none, waitingFor m' t (frames ++ { f with
        waiting := some name, reported := f.reported.insertMany args.values.toList } :: rest)
          p) := by
  rw [evalInputs, if_neg (by simp [hslot]), hheld, hblock]
  dsimp only
  rw [onThread_andThen]
  rw [of_push]
  refine (andThen_ok hgo).trans ?_
  rw [getThread_andThen, if_pos (by simp [waitingFor]), onThread_andThen]
  have hbelow := Thread.onDepth_below { t with
    status := .promiseWait, pending := some { promise := p, waiter := .block false } } frames rest
    { f with waiting := some name } fun f =>
      { f with reported := f.reported.insertMany args.values.toList }
  unfold waitingFor
  rw [hbelow]
  rfl

end Turn

/-! ## Threads -/

/-- The thread with these frames runs the sheet for the target, with those parameters. -/
structure Thread.Reads (sheet : Sheet) (target : TargetId) (param : String → Option Value)
    (t : Thread) (stack : List Frame) : Prop where
  sheet : t.sheet = sheet
  target : t.target = target
  running : t.status = .running
  params : ∀ name, { t with stack }.param? name = param name

namespace Thread.Reads

variable {sheet : Sheet} {target : TargetId} {param : String → Option Value} {t : Thread}
  {f f' : Frame} {rest : List Frame}

theorem replace (h : t.Reads sheet target param (f :: rest)) (hparams : f'.params = f.params) :
    t.Reads sheet target param (f' :: rest) where
  sheet := h.sheet
  target := h.target
  running := h.running
  params name := by simpa [Thread.param?, findSome?_cons, hparams] using h.params name

theorem push (h : t.Reads sheet target param rest) (hf : f.params = none) :
    t.Reads sheet target param (f :: rest) where
  sheet := h.sheet
  target := h.target
  running := h.running
  params name := by simpa [Thread.param?, hf] using h.params name

theorem pop (h : t.Reads sheet target param (f :: rest)) (hf : f.params = none) :
    t.Reads sheet target param rest where
  sheet := h.sheet
  target := h.target
  running := h.running
  params name := by simpa [Thread.param?, hf] using h.params name

end Thread.Reads

/-! ## Scenes -/

/-- What the reporters in the inputs of a block are run in: the equipment, the sheet, the thread
with its target and parameters, the values that promises deliver, and what happens to the
machine. -/
structure Scene (σ : Type) where
  kit : Kit σ
  sheet : Sheet
  thread : ThreadId
  target : TargetId
  params : String → Option Value
  delivers : PromiseId → Value → Prop
  /-- The machines in which the reporters can be called. -/
  safe : Machine σ → Prop
  /-- What the call of a reporter does to the machine. -/
  calls : Inquiry → Machine σ → Machine σ → Prop
  /-- What happens to the machine between the calls. -/
  drifts : Machine σ → Machine σ → Prop
  present : ∀ {m}, safe m → m.targets.contains target = true
  drift_safe : ∀ {m m'}, drifts m m' → safe m → safe m'
  drift_clock : ∀ (m : Machine σ) (clock : Clock), drifts m { m with clock }

namespace Scene

variable (q : Scene σ) {id : BlockId}

abbrev Evaluates : BlockId → List Inquiry → Value → Prop :=
  BlockMachine.Evaluates q.kit q.sheet q.delivers

abbrev Gathers : Block → List String → Args → List Inquiry → Args → Prop :=
  BlockMachine.Gathers q.kit q.sheet q.delivers

abbrev Hangs : BlockId → List Frame → List Inquiry → PromiseId → Prop :=
  BlockMachine.Hangs q.kit q.sheet q.delivers

/-- The calls that led from one machine to another. -/
inductive Traces : Machine σ → List Inquiry → Machine σ → Prop
  | refl (m : Machine σ) : Traces m [] m
  | call {m m₁ m₂ : Machine σ} {es : List Inquiry} {e : Inquiry} (h : Traces m es m₁)
      (hcall : q.calls e m₁ m₂) : Traces m (es ++ [e]) m₂
  | drift {m m₁ m₂ : Machine σ} {es : List Inquiry} (h : Traces m es m₁)
      (hdrift : q.drifts m₁ m₂) : Traces m es m₂

/-- The thread with these frames is the one of the scene, and it runs. -/
structure Fits (t : Thread) (stack : List Frame) : Prop
    extends t.Reads q.sheet q.target q.params stack where
  id : t.id = q.thread

/-- The primitive of a block reports a value or a promise and leaves its thread alone. -/
def Reports (b : Block) (primitive : Primitive σ) : Prop :=
  ∀ (args : Args) (t : Thread) (stack : List Frame) (m : Machine σ) (scratch : Scratch),
    q.Fits t stack → q.safe m →
      ∃ r c fuel₀, r ≠ .nothing ∧ c.thread = { t with stack } ∧ q.safe c.machine ∧
        q.calls ⟨b, args, r⟩ m c.machine ∧
        ∀ fuel, Call.run q.kit (Turn.execute q.kit (fuel + fuel₀)) .interpreted (primitive args)
          { Turn.of m t stack with scratch } = some (.ok r, c)

/-- A reporter with all that is plugged into it: literals, and blocks whose primitives report a
value or a promise. -/
inductive Tree : BlockId → Prop
  | literal {id : BlockId} {b : Block} {f : Field} (hb : q.sheet.block? id = some b)
      (hprimitive : q.kit.primitive? b.opcode = none) (hhat : q.kit.isHat b.opcode = false)
      (hfield : b.soleField? = some f) : Tree id
  | reporter {id : BlockId} {b : Block} {primitive : Primitive σ} (hb : q.sheet.block? id = some b)
      (hprimitive : q.kit.primitive? b.opcode = some primitive)
      (hhat : q.kit.isHat b.opcode = false) (hnext : b.next = none) (hdistinct : b.Distinct)
      (hreports : q.Reports b primitive)
      (hinputs : ∀ name input, isStackSlot name = false → b.inputBlock? name = some input →
        Tree input) : Tree id

/-- What running a reporter leaves behind, in a thread whose next frame `g` waits for the input of
that name. -/
inductive Ran (id : BlockId) (m : Machine σ) (t : Thread) (g : Frame) (rest : List Frame)
    (name : String) : Turn σ → Prop
  | reported {es : List Inquiry} {v : Value} {m' : Machine σ} (f : Frame)
      (hvalue : q.Evaluates id es v) (htrace : q.Traces m es m') (hsafe : q.safe m') :
      Ran id m t g rest name
        (.of m' t (f :: { g with reported := g.reported.insert name v } :: rest))
  | hangs {es : List Inquiry} {p : PromiseId} {frames : List Frame} {m' : Machine σ}
      (hhangs : q.Hangs id frames es p) (htrace : q.Traces m es m') (hsafe : q.safe m') :
      Ran id m t g rest name (.waitingFor m' t (frames ++ g :: rest) p)

/-- A reporter in a fresh frame runs to an end. -/
def Runs (id : BlockId) : Prop :=
  ∀ (m : Machine σ) (t : Thread) (warp : Bool) (g : Frame) (rest : List Frame) (name : String),
    q.safe m → q.Fits t ({ block := some id, warp } :: g :: rest) → g.waiting = some name →
      ∃ fuel₀ s', q.Ran id m t g rest name s' ∧
        ∀ fuel, Turn.execute q.kit (fuel + fuel₀)
          (.of m t ({ block := some id, warp } :: g :: rest)) = some (.ok (), s')

/-- What the evaluation of inputs leaves behind: all arguments, or the frames of an input that
hangs. -/
inductive Gathered (b : Block) (names : List String) (args : Args) (m : Machine σ) (t : Thread)
    (f : Frame) (rest : List Frame) : Option Args → Turn σ → Prop
  | all {es : List Inquiry} {args' : Args} {m' : Machine σ} {f' : Frame}
      (hinputs : q.Gathers b names args es args') (htrace : q.Traces m es m') (hsafe : q.safe m')
      (hbare : f'.bare = f.bare) :
      Gathered b names args m t f rest (some args') (.of m' t (f' :: rest))
  | hangs {before after : List String} {name : String} {input : BlockId} {es es' : List Inquiry}
      {args' : Args} {p : PromiseId} {frames : List Frame} {m' : Machine σ} {f' : Frame}
      (hnames : names = before ++ name :: after) (hslot : isStackSlot name = false)
      (hblock : b.inputBlock? name = some input) (hinputs : q.Gathers b before args es args')
      (hhangs : q.Hangs input frames es' p) (htrace : q.Traces m (es ++ es') m')
      (hsafe : q.safe m') (hbare : f'.bare = f.bare) (hwaiting : f'.waiting = some name)
      (hheld : ∀ k : String, f'.reported[k]? = args'.values[k]?) :
      Gathered b names args m t f rest none (.waitingFor m' t (frames ++ f' :: rest) p)

variable {q}

theorem Traces.trans {m₁ m₂ : Machine σ} {es es' : List Inquiry} (h : q.Traces m es m₁)
    (h' : q.Traces m₁ es' m₂) : q.Traces m (es ++ es') m₂ := by
  induction h' with
  | refl =>
    rw [append_nil]
    exact h
  | call _ hcall ih =>
    rw [← append_assoc]
    exact .call ih hcall
  | drift _ hdrift ih => exact .drift ih hdrift

namespace Fits

variable {t : Thread} {f f' : Frame} {rest : List Frame}

theorem push (h : q.Fits t rest) (hf : f.params = none) : q.Fits t (f :: rest) :=
  ⟨h.toReads.push hf, h.id⟩

theorem pop (h : q.Fits t (f :: rest)) (hf : f.params = none) : q.Fits t rest :=
  ⟨h.toReads.pop hf, h.id⟩

theorem replace (h : q.Fits t (f :: rest)) (hparams : f'.params = f.params) :
    q.Fits t (f' :: rest) :=
  ⟨h.toReads.replace hparams, h.id⟩

/-- The target of the thread is there. -/
theorem present (h : q.Fits t rest) (hsafe : q.safe m) :
    (Turn.of m t rest).machine.targets.contains (Turn.of m t rest).thread.target = true := by
  show m.targets.contains t.target = true
  rw [h.target]
  exact q.present hsafe

/-- The thread runs the sheet of the scene. -/
theorem block (h : q.Fits t rest) {b : Block} (hb : q.sheet.block? id = some b) :
    (Turn.of m t rest).thread.sheet.block? id = some b := by
  show t.sheet.block? id = some b
  rw [h.sheet]
  exact hb

end Fits

variable {b : Block} {m : Machine σ} {t : Thread} {f f' g : Frame} {rest : List Frame} {args : Args}
  {names before after : List String} {reported : Table Value} {primitive : Primitive σ}

/-! ## All inputs -/

/-- Inputs that are held already are passed over. -/
theorem evalInputs_skip {go : Exec (Turn σ) Unit} {depth : Nat} {args' : Args} {es : List Inquiry}
    (h : q.Gathers b before args es args') (hnodup : before.Nodup)
    (hnew : ∀ k ∈ before, args.values[k]? = none) (hheld : ∀ k ∈ before, reported[k]? =
      args'.values[k]?) :
    Turn.evalInputs go b depth reported args (before ++ after) =
      Turn.evalInputs go b depth reported args' after := by
  induction before generalizing args es with
  | nil =>
    cases h
    rfl
  | cons name before ih =>
    rw [nodup_cons] at hnodup
    have hname := hheld name mem_cons_self
    have hrest : ∀ k ∈ before, reported[k]? = args'.values[k]? :=
      fun k hk => hheld k (mem_cons_of_mem _ hk)
    have hnew' : ∀ k ∈ before, args.values[k]? = none :=
      fun k hk => hnew k (mem_cons_of_mem _ hk)
    rw [cons_append]
    cases h with
    | stack hslot h =>
      rw [Turn.evalInputs_stack hslot]
      exact ih h hnodup.2 hnew' hrest
    | empty hslot hblock h =>
      have hnone : reported[name]? = none := by
        rw [hname, h.values_of_notMem hnodup.1]
        exact hnew name mem_cons_self
      rw [Turn.evalInputs_empty hslot hnone hblock]
      exact ih h hnodup.2 hnew' hrest
    | @input _ _ _ _ _ _ _ _ v hslot hblock hvalue h =>
      have hsome : reported[name]? = some v := by
        rw [hname, h.values_of_notMem hnodup.1]
        simp
      rw [Turn.evalInputs_held hslot hsome]
      refine ih h hnodup.2 (fun k hk => ?_) hrest
      have hne : name ≠ k := fun heq => hnodup.1 (heq ▸ hk)
      rw [Args.values_insert, if_neg hne]
      exact hnew' k hk

theorem bare_params (h : f'.bare = f.bare) : f'.params = f.params :=
  (congrArg Frame.params h :)

theorem bare_warp (h : f'.bare = f.bare) : f'.warp = f.warp :=
  (congrArg Frame.warp h :)

/-- Inputs that are not held are run one after the other. -/
theorem evalInputs_outcome (args : Args)
    (hinputs : ∀ name input, isStackSlot name = false → b.inputBlock? name = some input →
      q.Runs input)
    (hnew : ∀ k ∈ names, reported[k]? = none) (hsafe : q.safe m) (hfits : q.Fits t (f :: rest))
    (hfresh : ∀ k : String, f.reported[k]? = none) :
    ∃ fuel₀ r s', q.Gathered b names args m t f rest r s' ∧
      ∀ fuel, Turn.evalInputs (Turn.execute q.kit (fuel + fuel₀)) b (rest.length + 1) reported args
        names (.of m t (f :: rest)) = some (.ok r, s') := by
  induction names generalizing args m f with
  | nil => exact ⟨0, some args, _, .all .nil (.refl m) hsafe rfl, fun fuel => rfl⟩
  | cons name names ih =>
    have hnew' : ∀ k ∈ names, reported[k]? = none := fun k hk => hnew k (mem_cons_of_mem _ hk)
    have hnone := hnew name mem_cons_self
    cases hslot : isStackSlot name with
    | true =>
      obtain ⟨fuel₀, r, s', houtcome, hrun⟩ := ih args hnew' hsafe hfits hfresh
      refine ⟨fuel₀, r, s', ?_, fun fuel => by rw [Turn.evalInputs_stack hslot]; exact hrun fuel⟩
      cases houtcome with
      | all hinputs htrace hsafe hbare => exact .all (.stack hslot hinputs) htrace hsafe hbare
      | hangs hnames hslot' hblock hinputs hhangs htrace hsafe hbare hwaiting hheld =>
        subst hnames
        exact .hangs (cons_append ..).symm hslot' hblock (.stack hslot hinputs) hhangs htrace
          hsafe hbare hwaiting hheld
    | false =>
    cases hblock : b.inputBlock? name with
    | none =>
      obtain ⟨fuel₀, r, s', houtcome, hrun⟩ := ih args hnew' hsafe hfits hfresh
      refine ⟨fuel₀, r, s', ?_,
        fun fuel => by rw [Turn.evalInputs_empty hslot hnone hblock]; exact hrun fuel⟩
      cases houtcome with
      | all hinputs htrace hsafe hbare =>
        exact .all (.empty hslot hblock hinputs) htrace hsafe hbare
      | hangs hnames hslot' hblock' hinputs hhangs htrace hsafe hbare hwaiting hheld =>
        subst hnames
        exact .hangs (cons_append ..).symm hslot' hblock' (.empty hslot hblock hinputs) hhangs
          htrace hsafe hbare hwaiting hheld
    | some input =>
      have hpushed : q.Fits t ({ block := some input, warp := f.warp } ::
          { f with waiting := some name } :: rest) :=
        Fits.push (hfits.replace rfl) rfl
      obtain ⟨fuel₁, s₁, hran, hgo⟩ :=
        hinputs name input hslot hblock m t f.warp _ rest name hsafe hpushed rfl
      cases hran with
      | @hangs es p frames m' hhangs htrace hsafe' =>
        refine ⟨fuel₁, none, _, .hangs (nil_append _).symm hslot hblock .nil hhangs htrace
          hsafe' ?_ rfl ?_, fun fuel => Turn.evalInputs_hangs hslot hnone hblock (hgo fuel)⟩
        · rfl
        · intro k
          rw [Table.getElem?_insertMany_toList, hfresh k]
          simp
      | @reported es v m' f' hvalue htrace hsafe' =>
        obtain ⟨fuel₂, r, s', houtcome, hrun⟩ := ih (args.insert name v) (m := m')
          (f := { f with waiting := none, reported := (f.reported.insert name v).erase name })
          hnew' hsafe' (hfits.replace rfl) (fun k => by
            rw [Table.getElem?_erase, Table.getElem?_insert, hfresh k]
            by_cases hk : name = k <;> simp [hk])
        refine ⟨fuel₂ + fuel₁, r, s', ?_, fun fuel => ?_⟩
        · cases houtcome with
          | all hinputs htrace' hsafe hbare =>
            exact .all (.input hslot hblock hvalue hinputs) (htrace.trans htrace') hsafe hbare
          | hangs hnames hslot' hblock' hinputs hhangs htrace' hsafe hbare hwaiting hheld =>
            subst hnames
            refine .hangs (cons_append ..).symm hslot' hblock'
              (.input hslot hblock hvalue hinputs) hhangs ?_ hsafe hbare hwaiting hheld
            rw [append_assoc]
            exact htrace.trans htrace'
        · rw [← Nat.add_assoc, Turn.evalInputs_input hslot hnone hblock hfits.running (hgo _),
            Nat.add_right_comm]
          exact hrun (fuel + fuel₁)

/-- A block whose inputs are held in part comes to the call of its primitive, or hangs with one of
the other inputs. -/
theorem execute_outcome {args₀ : Args} {es₀ : List Inquiry} (hb : q.sheet.block? id = some b)
    (hprimitive : q.kit.primitive? b.opcode = some primitive) (hblock : f.block = some id)
    (hinputs : ∀ name input, isStackSlot name = false → b.inputBlock? name = some input →
      q.Runs input)
    (hdistinct : b.Distinct) (hkeys : b.inputs.keys = before ++ after)
    (hbefore : q.Gathers b before (.ofFields b.opcode b.mutation b.fields) es₀ args₀)
    (hheld : ∀ k ∈ b.inputs.keys, f.reported[k]? = args₀.values[k]?) (hsafe : q.safe m)
    (hfits : q.Fits t (f :: rest)) :
    ∃ fuel₀ r s', q.Gathered b after args₀ m t f rest r s' ∧
      ∀ fuel, Turn.execute q.kit (fuel + fuel₀ + 1) (.of m t (f :: rest)) =
        match r with
        | none => some (.ok (), s')
        | some args =>
          (Turn.callBlock q.kit (Turn.execute q.kit (fuel + fuel₀)) (rest.length + 1) primitive args
            >>= Turn.takeReport q.kit.toCatalog b.id b.opcode) s' := by
  have hnodup : (before ++ after).Nodup := hkeys ▸ Std.TreeMap.nodup_keys
  obtain ⟨hnodup₁, -, hdisjoint⟩ := nodup_append.mp hnodup
  have hnew : ∀ k ∈ b.inputs.keys,
      (Args.ofFields b.opcode b.mutation b.fields).values[k]? = none := by
    intro k hk
    rw [Args.values_ofFields, hdistinct k hk]
    rfl
  have hafter : ∀ k ∈ after, f.reported[k]? = none := by
    intro k hk
    have hmem : k ∈ b.inputs.keys := hkeys ▸ mem_append_right _ hk
    rw [hheld k hmem, hbefore.values_of_notMem fun hk' => hdisjoint k hk' k hk rfl]
    exact hnew k hmem
  obtain ⟨fuel₀, r, s', houtcome, hrun⟩ :=
    evalInputs_outcome (f := f.bare) args₀ hinputs hafter hsafe (hfits.replace rfl)
      (fun k => Std.TreeMap.getElem?_emptyc)
  refine ⟨fuel₀, r, s', ?_, fun fuel => ?_⟩
  · cases houtcome with
    | all hinputs htrace hsafe hbare => exact .all hinputs htrace hsafe hbare
    | hangs hnames hslot hblock hinputs hhangs htrace hsafe hbare hwaiting hheld =>
      exact .hangs hnames hslot hblock hinputs hhangs htrace hsafe hbare hwaiting hheld
  · have hbelow : ∀ k ∈ before, k ∈ b.inputs.keys := fun k hk => hkeys ▸ mem_append_left _ hk
    have heval : Turn.evalInputs (Turn.execute q.kit (fuel + fuel₀)) b (rest.length + 1) f.reported
        (.ofFields b.opcode b.mutation b.fields) b.inputs.keys (.of m t (f.bare :: rest)) =
        some (.ok r, s') := by
      rw [hkeys, evalInputs_skip hbefore hnodup₁ (fun k hk => hnew k (hbelow k hk))
        fun k hk => hheld k (hbelow k hk)]
      exact hrun fuel
    rw [Turn.execute_primitive (s := .of m t (f :: rest)) (hfits.present hsafe) hblock
      (hfits.block (m := m) hb) hprimitive, Turn.runBlock, Exec.getThread_andThen,
      Exec.onThread_andThen]
    refine (Exec.andThen_ok heval).trans ?_
    cases r with
    | none => rfl
    | some args => rfl

/-! ## Reporters -/

theorem callBlock_reports (hreports : q.Reports b primitive) (args : Args) (hsafe : q.safe m)
    (hfits : q.Fits t (f :: rest)) :
    ∃ r m' scratch fuel₀, r ≠ .nothing ∧ q.safe m' ∧ q.calls ⟨b, args, r⟩ m m' ∧
      ∀ fuel, Turn.callBlock q.kit (Turn.execute q.kit (fuel + fuel₀)) (rest.length + 1) primitive
          args (.of m t (f :: rest)) =
        some (.ok r, .of m' t ({ f with scratch } :: rest)) := by
  obtain ⟨r, c, fuel₀, hr, hthread, hsafe', hcalls, hrun⟩ :=
    hreports args t (f :: rest) m f.scratch hfits hsafe
  refine ⟨r, c.machine, c.scratch, fuel₀, hr, hsafe', hcalls, fun fuel => ?_⟩
  exact Turn.callBlock_ran [] (hrun fuel) hthread

/-- A value goes to the frame that waits for it. -/
theorem report_waiting (v : Value) (hwaiting : g.waiting = some name) :
    Exec.onThread (·.report v) (Turn.of m t (f :: g :: rest)) =
      some (.ok (), .of m t (f :: { g with reported := g.reported.insert name v } :: rest)) := by
  have htake : g.takeReport v = { g with reported := g.reported.insert name v } := by
    rw [Frame.takeReport, hwaiting]
  rw [← htake]
  rfl

theorem takeReport_value (hhat : catalog.isHat opcode = false) (hwaiting : g.waiting = some name) :
    Turn.takeReport catalog id opcode (.value v) (.of m t (f :: g :: rest)) =
      some (.ok (), .of m t (f :: { g with reported := g.reported.insert name v } :: rest)) := by
  rw [Turn.takeReport, if_neg (by simp [hhat])]
  exact report_waiting v hwaiting

theorem takeReport_promise (hhat : catalog.isHat opcode = false) :
    Turn.takeReport catalog id opcode (.promise p) (.of m t rest) =
      some (.ok (), .waitingFor m t rest p) := by
  rw [Turn.takeReport, hhat]
  rfl

/-- A reporter whose inputs run to an end does so too. -/
theorem runs_reporter (hb : q.sheet.block? id = some b)
    (hprimitive : q.kit.primitive? b.opcode = some primitive) (hhat : q.kit.isHat b.opcode = false)
    (hdistinct : b.Distinct) (hreports : q.Reports b primitive)
    (hinputs : ∀ name input, isStackSlot name = false → b.inputBlock? name = some input →
      q.Runs input) :
    q.Runs id := by
  intro m t warp g rest name hsafe hfits hwaiting
  have hsome : q.kit.hasPrimitive b.opcode = true := by rw [Catalog.hasPrimitive, hprimitive]; rfl
  have hfresh : ∀ k ∈ b.inputs.keys, (∅ : Table Value)[k]? =
      (Args.ofFields b.opcode b.mutation b.fields).values[k]? := by
    intro k hk
    rw [Args.values_ofFields, hdistinct k hk]
    exact Std.TreeMap.getElem?_emptyc
  obtain ⟨fuel₁, r, s₁, houtcome, hrun⟩ := execute_outcome hb hprimitive rfl hinputs hdistinct
    (nil_append _).symm .nil hfresh hsafe hfits
  cases houtcome with
  | @hangs _ _ _ _ es es' _ p frames m' f' hnames hslot hinput hinputs hhangs htrace hsafe' hbare
      hwaiting' hheld =>
    have hhangs' : q.Hangs id (frames ++ [f']) (es ++ es') p :=
      .inner hb hsome hbare hwaiting' hnames hslot hinput hinputs hheld hhangs
    refine ⟨fuel₁ + 1, _, .hangs hhangs' htrace hsafe', fun fuel => ?_⟩
    rw [← Nat.add_assoc, hrun, ← append_cons]
  | @all es args m' f' hinputs htrace hsafe' hbare =>
    have hfits' : q.Fits t (f' :: g :: rest) := hfits.replace (bare_params hbare)
    obtain ⟨r, m'', scratch, fuel₂, hr, hsafe'', hcalls, hcall⟩ :=
      callBlock_reports hreports args hsafe' hfits'
    have hexecute' : ∀ fuel, Turn.execute q.kit (fuel + (fuel₂ + fuel₁ + 1))
        (.of m t ({ block := some id, warp } :: g :: rest)) =
        Turn.takeReport q.kit.toCatalog b.id b.opcode r
          (.of m'' t ({ f' with scratch } :: g :: rest)) := by
      intro fuel
      rw [← Nat.add_assoc, ← Nat.add_assoc, hrun, Nat.add_right_comm]
      exact Exec.andThen_ok (hcall (fuel + fuel₁))
    cases r with
    | nothing => exact absurd rfl hr
    | value v =>
      exact ⟨fuel₂ + fuel₁ + 1, _, .reported _ (.reporter hb hsome hinputs (.value v))
        (.call htrace hcalls) hsafe'',
        fun fuel => (hexecute' fuel).trans (takeReport_value hhat hwaiting)⟩
    | promise p =>
      have hhangs : q.Hangs id [{ f' with scratch }] (es ++ [⟨b, args, .promise p⟩]) p :=
        .asked _ hb hsome hinputs
      exact ⟨fuel₂ + fuel₁ + 1, _, .hangs hhangs (.call htrace hcalls) hsafe'',
        fun fuel => (hexecute' fuel).trans (takeReport_promise hhat)⟩

/-- Every tree of reporters runs to an end. -/
theorem Tree.runs (h : q.Tree id) : q.Runs id := by
  induction h with
  | @literal id b f hb hprimitive hhat hfield =>
    intro m t warp g rest name hsafe hfits hwaiting
    refine ⟨1, _, .reported { block := some id, warp } (.literal hb hprimitive hfield) (.refl m)
      hsafe, fun fuel => ?_⟩
    rw [Turn.execute_literal (hfits.present hsafe) rfl (hfits.block hb) hprimitive, Turn.runLiteral,
      if_neg (by simp [hhat]), hfield]
    exact report_waiting f.value hwaiting
  | reporter hb hprimitive hhat _ hdistinct hreports _ ih =>
    exact runs_reporter hb hprimitive hhat hdistinct hreports ih

end Scene
end BlockMachine

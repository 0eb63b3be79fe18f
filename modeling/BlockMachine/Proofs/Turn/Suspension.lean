import BlockMachine.Proofs.Turn.Fuel
import BlockMachine.Proofs.Turn.Inputs

/-!
# Suspended blocks

A block whose input waits for a promise is run again and again, each time a bit further, over as
many turns as there are promises and levels of reporters. The visits of its thread make a
`Scene.History`, in which the machine may change between two turns. Whatever these changes are, as
long as each promise is resolved in the end, a reporter that hangs hands its value to the frame that
waits for it (`Scene.Tree.delivers`), and the block comes to the call of its primitive
(`Scene.History.called`).
-/

namespace BlockMachine

open Exec

variable {σ : Type} {fuel₀ : Nat} {current : BlockId} {s₁ : Turn σ} {p : PromiseId} {v : Value}

/-! ## Turns and where they come to -/

namespace Turn

/-- What a turn leaves behind after the interpreter has stopped. -/
def ended (x : Option (Except BlockError Unit × Turn σ)) : Option (Turn σ) := do
  let (outcome, s) ← x
  match outcome with
  | .ok () => return s
  | .error e => return s.fail e

/-- A turn that starts in `s` comes to `s'`: the rest of it is what the interpreter does there. -/
def Arrives (kit : Kit σ) (s s' : Turn σ) : Prop :=
  ∃ k fuel₀, ∀ fuel ≥ fuel₀, s.visit kit (fuel + k) = ended (interpret kit fuel s')

/-- A turn that starts in `s` comes to run the block `id` and calls its primitive in `s'`, with
these arguments. -/
def Calls (kit : Kit σ) (id : BlockId) (b : Block) (primitive : Primitive σ) (args : Args)
    (s s' : Turn σ) : Prop :=
  ∃ s₁ fuel₀, Arrives kit s s₁ ∧ s₁.thread.block? = some id ∧
    s₁.thread.depth = s'.thread.depth ∧
    ∀ fuel, execute kit (fuel + fuel₀ + 1) s₁.startWarp =
      (callBlock kit (execute kit (fuel + fuel₀)) s'.thread.depth primitive args
        >>= takeReport kit.toCatalog b.id b.opcode) s'

variable {kit : Kit σ} {s s₁ s₂ : Turn σ} {m : Machine σ} {t : Thread} {f : Frame}
  {rest stack : List Frame}

/-- A thread at a block goes on with that block. -/
theorem step_block (hcode : f.code = none) (hblock : f.block.isSome) (fuel : Nat) :
    (of m t (f :: rest)).step kit fuel = ended (interpret kit fuel (of m t (f :: rest))) := by
  have hcursor : (of m t (f :: rest)).thread.cursor? = none := hcode
  have hat : (of m t (f :: rest)).thread.block?.isNone = false := by
    have : (of m t (f :: rest)).thread.block? = f.block := rfl
    rw [this]
    simpa using hblock
  show ended (resume kit fuel _) = _
  rw [resume_interpreted hcursor, placed, hat]
  rfl

theorem Arrives.start (hcode : f.code = none) (hblock : f.block.isSome)
    (hstatus : t.status = .running) : Arrives kit (of m t (f :: rest)) (of m t (f :: rest)) := by
  refine ⟨0, 0, fun fuel _ => ?_⟩
  rw [visit, if_neg (by simp [of, hstatus])]
  exact step_block hcode hblock fuel

/-- While the promise is pending nothing happens. -/
theorem visit_pending (h : ∀ o, m.promises[p]? = some o → o.isSettled = false) (fuel : Nat) :
    (waitingFor m t stack p).visit kit fuel = some (waitingFor m t stack p) := by
  rw [visit, if_pos (by simp [waitingFor])]
  unfold await
  simp only [waitingFor]
  cases hp : m.promises[p]? with
  | none => rfl
  | some o =>
    cases o with
    | pending => rfl
    | resolved v => exact absurd (h _ hp) (by simp [Promise.isSettled])
    | rejected reason => exact absurd (h _ hp) (by simp [Promise.isSettled])

/-- A value that has arrived goes to the frame that waits for it, and the turn goes on there. -/
theorem Arrives.settled {g : Frame} {name : String} (hp : m.promises[p]? = some (.resolved v))
    (hwaiting : g.waiting = some name) (hcode : g.code = none) (hblock : g.block.isSome) :
    Arrives kit (waitingFor m t (f :: g :: rest) p)
      (of m { t with status := .running, pending := none }
        ({ g with reported := g.reported.insert name v } :: rest)) := by
  refine ⟨0, 0, fun fuel _ => ?_⟩
  have htake : g.takeReport v = { g with reported := g.reported.insert name v } := by
    rw [Frame.takeReport, hwaiting]
  rw [visit, if_pos (by simp [waitingFor]), ← htake]
  have hsettle : settle
      (⟨m, { t with stack := f :: g :: rest, status := .running, pending := none }⟩
      : Turn σ) kit.toCatalog v (.block false) =
      of m { t with status := .running, pending := none } (g.takeReport v :: rest) := by
    simp [settle, hwaiting, Thread.report, Thread.pop, of]
  have hgo : ∀ s₁ : Turn σ,
      s₁ = of m { t with status := .running, pending := none } (g.takeReport v :: rest) →
      (if s₁.thread.status == .running && !s₁.thread.isDone then s₁.step kit fuel else some s₁) =
        ended (interpret kit fuel
          (of m { t with status := .running, pending := none } (g.takeReport v :: rest))) := by
    rintro s₁ rfl
    rw [if_pos (by simp [of, Thread.isDone])]
    exact step_block (by rw [htake]; exact hcode) (by rw [htake]; exact hblock) fuel
  unfold await
  simp only [waitingFor, hp]
  exact hgo _ hsettle

/-- Where the block is run and the interpreter goes on, the turn comes further. -/
theorem Arrives.goesOn (h : Arrives kit s s₁) (hblock : s₁.thread.block? = some current)
    (hexecute : ∀ fuel, execute kit (fuel + fuel₀) s₁.startWarp = some (.ok (), s₂))
    (hafter : (afterBlock s₁.thread current s₂).1 = true) :
    Arrives kit s (afterBlock s₁.thread current s₂).2 := by
  obtain ⟨k, fuel₁, hvisit⟩ := h
  refine ⟨k + 1, fuel₀ + fuel₁, fun fuel hfuel => ?_⟩
  have hexecute' := hexecute (fuel - fuel₀)
  rw [Nat.sub_add_cancel (by omega)] at hexecute'
  rw [← Nat.add_assoc, Nat.add_right_comm, hvisit (fuel + 1) (by omega),
    interpret_succ hblock hexecute', if_pos hafter]

/-- Where the block is run and the interpreter stops, the turn ends. -/
theorem Arrives.stops (h : Arrives kit s s₁) (hblock : s₁.thread.block? = some current)
    (hexecute : ∀ fuel, execute kit (fuel + fuel₀) s₁.startWarp = some (.ok (), s₂))
    (hafter : (afterBlock s₁.thread current s₂).1 = false) :
    ∃ fuel, s.visit kit fuel = some (afterBlock s₁.thread current s₂).2 := by
  obtain ⟨k, fuel₁, hvisit⟩ := h
  have hexecute' := hexecute fuel₁
  refine ⟨fuel₁ + fuel₀ + 1 + k, ?_⟩
  rw [hvisit _ (by omega), interpret_succ hblock hexecute', hafter]
  rfl

end Turn

/-! ## Histories -/

namespace Scene

variable (q : Scene σ) (s : Nat → Turn σ) {n : Nat}

/-- The visits of a thread one after the other: each finds the thread as the turn before has left
it, while the machine may have drifted. -/
structure Course : Prop where
  next : ∀ {n fuel s'}, (s n).visit q.kit fuel = some s' →
    (s (n + 1)).thread = { s'.thread with warpStart := none } ∧
      q.drifts s'.machine (s (n + 1)).machine

/-- A course in which each promise that the thread waits for is resolved at some visit. -/
structure History : Prop extends q.Course s where
  delivered : ∀ {n p v}, (s n).machine.promises[p]? = some (.resolved v) → q.delivers p v
  resolves : ∀ {n m t stack p}, s n = .waitingFor m t stack p →
    ∃ k v, (s (n + k)).machine.promises[p]? = some (.resolved v) ∧
      ∀ j < k, ∀ o, (s (n + j)).machine.promises[p]? = some o → o.isSettled = false

/-- Some turn comes to run the innermost of these frames, after these calls. -/
def Reached (m : Machine σ) (es : List Inquiry) (stack : List Frame) : Prop :=
  ∃ n m' t, Turn.Arrives q.kit (s n) (.of m' t stack) ∧ q.Fits t stack ∧ q.safe m' ∧
    q.Traces m es m'

/-- A reporter that hangs hands its value to the frame that waits for it. -/
def Delivers (id : BlockId) : Prop :=
  ∀ {n : Nat} {m : Machine σ} {t : Thread} {es : List Inquiry}
    {frames rest : List Frame} {g : Frame} {name : String} {p : PromiseId},
    s n = .waitingFor m t (frames ++ g :: rest) p → q.Fits t (g :: rest) → q.safe m →
      q.Hangs id frames es p → g.waiting = some name → g.code = none → g.block.isSome →
      ∃ es' v, q.Evaluates id (es ++ es') v ∧
        q.Reached s m es' ({ g with reported := g.reported.insert name v } :: rest)

/-- Some turn calls the primitive of a block, in the frame that is `bare` but for its inputs, after
these calls. -/
def Called (id : BlockId) (b : Block) (primitive : Primitive σ) (m : Machine σ)
    (es : List Inquiry) (bare : Frame) (rest : List Frame) (args : Args) : Prop :=
  ∃ n m' t f, Turn.Calls q.kit id b primitive args (s n) (.of m' t (f :: rest)) ∧ f.bare = bare ∧
    q.Fits t (f :: rest) ∧ q.safe m' ∧ q.Traces m es m'

variable {q s} {m m' : Machine σ} {t : Thread} {f g : Frame} {rest frames stack : List Frame}
  {b : Block} {id : BlockId} {name : String} {es es' : List Inquiry} {p : PromiseId}

theorem Fits.timed (h : q.Fits t stack) (w : Option Float) :
    q.Fits { t with warpStart := w } stack :=
  ⟨⟨h.sheet, h.target, h.running, h.params⟩, h.id⟩

theorem Traces.drifted (h : q.Traces m es m') {m'' : Machine σ} (h' : q.Traces m' [] m'') :
    q.Traces m es m'' := by
  simpa using h.trans h'

/-! ## What a turn does around a block -/

/-- Measuring the time for warp mode only reads the clock. -/
theorem startWarp_of (t : Thread) (stack : List Frame) (hsafe : q.safe m) :
    ∃ m' w, (Turn.of m t stack).startWarp = .of m' { t with warpStart := w } stack ∧ q.safe m' ∧
      q.Traces m [] m' := by
  unfold Turn.startWarp
  split
  · have hdrift := q.drift_clock m (m.clock.read.2.read.2)
    exact ⟨_, some (m.clock.read.2.read.1), rfl, q.drift_safe hdrift hsafe, .drift (.refl m) hdrift⟩
  · exact ⟨m, t.warpStart, rfl, hsafe, .refl m⟩

theorem goesOn_of (t : Thread) (stack : List Frame) (hsafe : q.safe m) :
    ∃ goes m', (Turn.of m t stack).goesOn = (goes, .of m' t stack) ∧ q.safe m' ∧
      q.Traces m [] m' := by
  unfold Turn.goesOn Turn.warpExpired
  split
  · cases hstart : t.warpStart with
    | none =>
      rw [show (Turn.of m t stack).thread.warpStart = none from hstart]
      exact ⟨false, m, rfl, hsafe, .refl m⟩
    | some start =>
      have hdrift := q.drift_clock m m.clock.read.2
      rw [show (Turn.of m t stack).thread.warpStart = some start from hstart]
      exact ⟨_, _, rfl, q.drift_safe hdrift hsafe, .drift (.refl m) hdrift⟩
  · exact ⟨false, m, rfl, hsafe, .refl m⟩

/-- After a reporter, whose value has gone to the frame below, that frame is the innermost one. -/
theorem afterBlock_reported {t₀ : Thread} (hb : t.sheet.block? id = some b) (hnext : b.next = none)
    (hblock : f.block = some id) (hdepth : t₀.depth = rest.length + 2)
    (hstatus : t.status = .running) (hwaiting : g.waiting.isSome) (hsafe : q.safe m) :
    ∃ goes m', Turn.afterBlock t₀ id (.of m t (f :: g :: rest)) = (goes, .of m' t (g :: rest)) ∧
      q.safe m' ∧ q.Traces m [] m' := by
  have hat : (Turn.of m t (f :: g :: rest)).thread.block? = some id := hblock
  have hgone : (Turn.of m t (f :: g :: rest)).thread.goNext =
      { t with stack := { warp := f.warp } :: g :: rest } := by
    rw [Thread.goNext, hat]
    simp [Turn.of, Thread.onFrame, Frame.moveTo, Sheet.next?, hb, hnext]
  rw [Turn.afterBlock_done (s := .of m t (f :: g :: rest)) hstatus hdepth.symm hat, hgone]
  by_cases hloop : g.isLoop = true
  · obtain ⟨goes, m', hgoes, hsafe', htrace⟩ := goesOn_of t (g :: rest) hsafe
    refine ⟨goes, m', ?_, hsafe', htrace⟩
    rw [← hgoes]
    simp [Turn.unwind, Thread.unwind, unwindFrom, hloop, hstatus, Turn.of]
  · refine ⟨false, m, ?_, hsafe, .refl m⟩
    simp [Turn.unwind, Thread.unwind, unwindFrom, hloop, hwaiting, hstatus, Turn.of]

theorem Reached.after (h : q.Traces m es m') (h' : q.Reached s m' es' stack) :
    q.Reached s m (es ++ es') stack := by
  obtain ⟨n, m'', t, harrives, hfits, hsafe, htrace⟩ := h'
  exact ⟨n, m'', t, harrives, hfits, hsafe, h.trans htrace⟩

/-! ## Visits -/

namespace Course

/-- A turn that leaves the thread waiting is followed by a visit that finds it waiting. -/
theorem waits (h : q.Course s) (harrives : Turn.Arrives q.kit (s n) s₁)
    (hblock : s₁.thread.block? = some id)
    (hexecute : ∀ fuel, Turn.execute q.kit (fuel + fuel₀) s₁.startWarp =
      some (.ok (), .waitingFor m t stack p))
    (hsafe : q.safe m) :
    ∃ m', s (n + 1) = .waitingFor m' { t with warpStart := none } stack p ∧ q.safe m' ∧
      q.Traces m [] m' := by
  obtain ⟨fuel, hvisit⟩ := harrives.stops hblock hexecute rfl
  obtain ⟨hthread, hdrift⟩ := h.next hvisit
  refine ⟨(s (n + 1)).machine, ?_, q.drift_safe hdrift hsafe, .drift (.refl m) hdrift⟩
  show Turn.mk (s (n + 1)).machine (s (n + 1)).thread = _
  rw [hthread]
  rfl

/-- A turn that hands the value of a reporter on is followed by one that runs the frame below, or
runs it itself. -/
theorem reported (h : q.Course s) (harrives : Turn.Arrives q.kit (s n) s₁)
    (hat : s₁.thread.block? = some id) (hdepth : s₁.thread.depth = rest.length + 2)
    (hexecute : ∀ fuel, Turn.execute q.kit (fuel + fuel₀) s₁.startWarp =
      some (.ok (), .of m t (f :: g :: rest)))
    (hb : q.sheet.block? id = some b) (hnext : b.next = none) (hblock : f.block = some id)
    (hwaiting : g.waiting.isSome) (hcode : g.code = none) (hgblock : g.block.isSome)
    (hsafe : q.safe m) (hfits : q.Fits t (g :: rest)) : q.Reached s m [] (g :: rest) := by
  obtain ⟨goes, m', hafter, hsafe', htrace⟩ := afterBlock_reported (m := m) (t := t) (f := f)
    (hfits.sheet ▸ hb) hnext hblock hdepth hfits.running hwaiting hsafe
  cases goes with
  | true =>
    have hgoes := harrives.goesOn hat hexecute (by rw [hafter])
    rw [hafter] at hgoes
    exact ⟨n, m', t, hgoes, hfits, hsafe', htrace⟩
  | false =>
    obtain ⟨fuel, hvisit⟩ := harrives.stops hat hexecute (by rw [hafter])
    rw [hafter] at hvisit
    obtain ⟨hthread, hdrift⟩ := h.next hvisit
    have hn : s (n + 1) = .of (s (n + 1)).machine { t with warpStart := none } (g :: rest) := by
      show Turn.mk (s (n + 1)).machine (s (n + 1)).thread = _
      rw [hthread]
      rfl
    refine ⟨n + 1, (s (n + 1)).machine, { t with warpStart := none }, ?_, hfits.timed none,
      q.drift_safe hdrift hsafe', .drift htrace hdrift⟩
    rw [← hn]
    rw [hn]
    exact .start hcode hgblock hfits.running

end Course

/-! ## Waiting for a promise -/

namespace History

/-- A thread that waits for a promise goes on once the promise is resolved. -/
theorem settles (h : q.History s) {k : Nat} (hn : s n = .waitingFor m t (f :: g :: rest) p)
    (hfits : q.Fits t (g :: rest)) (hsafe : q.safe m) (hwaiting : g.waiting = some name)
    (hcode : g.code = none) (hblock : g.block.isSome)
    (hresolved : (s (n + k)).machine.promises[p]? = some (.resolved v))
    (hpending : ∀ j < k, ∀ o, (s (n + j)).machine.promises[p]? = some o → o.isSettled = false) :
    q.Reached s m [] ({ g with reported := g.reported.insert name v } :: rest) := by
  induction k generalizing n m t with
  | zero =>
    have hresolved' : m.promises[p]? = some (.resolved v) := by
      rw [Nat.add_zero, hn] at hresolved
      exact hresolved
    refine ⟨n, m, { t with status := .running, pending := none }, ?_,
      ⟨⟨hfits.sheet, hfits.target, rfl, ?_⟩, hfits.id⟩, hsafe, .refl m⟩
    · rw [hn]
      exact .settled hresolved' hwaiting hcode hblock
    · have hreplaced : q.Fits t ({ g with reported := g.reported.insert name v } :: rest) :=
        hfits.replace rfl
      exact hreplaced.params
  | succ k ih =>
    have hunsettled : ∀ o, m.promises[p]? = some o → o.isSettled = false := by
      have := hpending 0 (by omega)
      rwa [Nat.add_zero, hn] at this
    have hvisit : (s n).visit q.kit 0 = some (.waitingFor m t (f :: g :: rest) p) := by
      rw [hn]
      exact Turn.visit_pending hunsettled 0
    obtain ⟨hthread, hdrift⟩ := h.next hvisit
    have hn' : s (n + 1) = .waitingFor (s (n + 1)).machine { t with warpStart := none }
        (f :: g :: rest) p := by
      show Turn.mk (s (n + 1)).machine (s (n + 1)).thread = _
      rw [hthread]
      rfl
    have hreached := ih hn' (hfits.timed none) (q.drift_safe hdrift hsafe)
      (by rwa [Nat.add_assoc, Nat.add_comm 1]) (fun j hj => by
        rw [Nat.add_assoc, Nat.add_comm 1]
        exact hpending (j + 1) (by omega))
    exact Reached.after (.drift (.refl m) hdrift) hreached

/-- The frame below a reporter that has reported a promise gets the value that it delivers. -/
theorem asked (h : q.History s) (hn : s n = .waitingFor m t (f :: g :: rest) p)
    (hfits : q.Fits t (g :: rest)) (hsafe : q.safe m) (hwaiting : g.waiting = some name)
    (hcode : g.code = none) (hblock : g.block.isSome) :
    ∃ v, q.delivers p v ∧
      q.Reached s m [] ({ g with reported := g.reported.insert name v } :: rest) := by
  obtain ⟨k, v, hresolved, hpending⟩ := h.resolves hn
  exact ⟨v, h.delivered hresolved,
    h.settles hn hfits hsafe hwaiting hcode hblock hresolved hpending⟩

/-! ## Blocks -/

variable {before after : List String} {args₀ : Args} {es₀ : List Inquiry} {primitive : Primitive σ}

/-- A block that some turn comes to run, with its inputs held in part, is called in the end. -/
theorem called (h : q.History s) (hb : q.sheet.block? id = some b)
    (hprimitive : q.kit.primitive? b.opcode = some primitive) (hdistinct : b.Distinct)
    (hruns : ∀ name input, isStackSlot name = false → b.inputBlock? name = some input →
      q.Runs input)
    (hdelivers : ∀ name input, isStackSlot name = false → b.inputBlock? name = some input →
      q.Delivers s input)
    (hkeys : b.inputs.keys = before ++ after)
    (hbefore : q.Gathers b before (.ofFields b.opcode b.mutation b.fields) es₀ args₀)
    (hheld : ∀ k ∈ b.inputs.keys, f.reported[k]? = args₀.values[k]?) (hblock : f.block = some id)
    (hcode : f.code = none) (hreached : q.Reached s m es (f :: rest)) :
    ∃ es' args, q.Gathers b after args₀ es' args ∧
      q.Called s id b primitive m (es ++ es') f.bare rest args := by
  -- By induction on how many inputs are left: each promise takes one off.
  induction hlength :
    after.length using Nat.strongRecOn generalizing before after args₀ es₀ f es with
  | _ len ih =>
  obtain ⟨n, m₁, t₁, harrives, hfits₁, hsafe₁, htrace₁⟩ := hreached
  obtain ⟨m₂, w, hwarp, hsafe₂, htrace₂⟩ := startWarp_of t₁ (f :: rest) hsafe₁
  have hfits₂ := hfits₁.timed w
  obtain ⟨fuel₀, r, s₃, hgathered, hrun⟩ :=
    execute_outcome hb hprimitive hblock hruns hdistinct hkeys hbefore hheld hsafe₂ hfits₂
  cases hgathered with
  | @all es' args m₃ f' hinputs htrace₃ hsafe₃ hbare =>
    refine ⟨es', args, hinputs, n, m₃, _, f', ⟨_, fuel₀, harrives, hblock, rfl, fun fuel => ?_⟩,
      hbare, hfits₂.replace (bare_params hbare), hsafe₃,
      (htrace₁.drifted htrace₂).trans htrace₃⟩
    rw [hwarp, hrun]
    rfl
  | @hangs before' after' name input es₁ es₂ args₁ p frames m₃ f' hnames hslot hinput hinputs hhangs
      htrace₃ hsafe₃ hbare hwaiting hheld' =>
    have hexecute' : ∀ fuel, Turn.execute q.kit (fuel + (fuel₀ + 1))
        (Turn.of m₁ t₁ (f :: rest)).startWarp =
        some (.ok (), .waitingFor m₃ { t₁ with warpStart := w } (frames ++ f' :: rest) p) := by
      intro fuel
      rw [← Nat.add_assoc, hwarp, hrun]
    obtain ⟨m₄, hn, hsafe₄, htrace₄⟩ := h.waits harrives hblock hexecute' hsafe₃
    have hblock' : f'.block = some id := (congrArg Frame.block hbare).trans hblock
    have hcode' : f'.code = none := (congrArg Frame.code hbare).trans hcode
    obtain ⟨es₃, v, hvalue, hreached⟩ := hdelivers name input hslot hinput hn
      ((hfits₂.replace (bare_params hbare)).timed none) hsafe₄ hhangs hwaiting hcode'
      (by rw [hblock']; rfl)
    have hgathers : q.Gathers b (before' ++ [name]) args₀ (es₁ ++ (es₂ ++ es₃ ++ []))
        (args₁.insert name v) := hinputs.append (.input hslot hinput hvalue .nil)
    have hkeys' : b.inputs.keys = before ++ (before' ++ [name]) ++ after' := by
      rw [hkeys, hnames]
      simp
    obtain ⟨es₄, args, hrest, hcalled⟩ := ih after'.length (by rw [← hlength, hnames]; simp; omega)
      (f := { f' with reported := f'.reported.insert name v }) hkeys' (hbefore.append hgathers)
      (fun k _ => by rw [Table.getElem?_insert, Args.values_insert, hheld' k]) hblock' hcode'
      (Reached.after (((htrace₁.drifted htrace₂).trans htrace₃).drifted htrace₄) hreached) rfl
    refine ⟨es₁ ++ (es₂ ++ es₃ ++ []) ++ es₄, args, ?_, ?_⟩
    · rw [hnames, List.append_cons]
      exact hgathers.append hrest
    · rw [show f.bare = Frame.bare { f' with reported := f'.reported.insert name v } from
        hbare.symm]
      simpa using hcalled

end History

/-- Every tree of reporters that hangs hands its value on. -/
theorem Tree.delivers (h : q.History s) (htree : q.Tree id) : q.Delivers s id := by
  induction htree with
  | @literal id b f hb hprimitive hhat hfield =>
    intro n m t es frames rest g name p _ _ _ hhangs
    have hnone : q.kit.hasPrimitive b.opcode = false := by simp [Catalog.hasPrimitive, hprimitive]
    cases hhangs with
    | asked _ hb' hsome =>
      cases hb.symm.trans hb'
      simp [hnone] at hsome
    | inner hb' hsome =>
      cases hb.symm.trans hb'
      simp [hnone] at hsome
  | @reporter id b primitive hb hprimitive hhat hnext hdistinct hreports htrees ih =>
    intro n m t es frames rest g name p hn hfits hsafe hhangs hwaiting hcode hgblock
    cases hhangs with
    | @asked _ b' es args _ f hb' hsome hinputs =>
      cases hb.symm.trans hb'
      obtain ⟨v, hdelivers, hreached⟩ := h.asked hn hfits hsafe hwaiting hcode hgblock
      exact ⟨[], v, by rw [List.append_nil]; exact .reporter hb hsome hinputs (.promise hdelivers),
        hreached⟩
    | @inner _ input b' f frames warp before after name' es₁ es₂ args₁ _ hb' hsome hbare hwaiting'
        hkeys hslot hblock hinputs hheld hinner =>
      cases hb.symm.trans hb'
      have hblock' : f.block = some id := congrArg Frame.block hbare
      have hcode' : f.code = none := congrArg Frame.code hbare
      have hparams : f.params = none := congrArg Frame.params hbare
      rw [List.append_assoc, List.singleton_append] at hn
      obtain ⟨es₃, v, hvalue, hreached⟩ := ih name' input hslot hblock hn (hfits.push hparams) hsafe
        hinner hwaiting' hcode' (by rw [hblock']; rfl)
      have hgathers : q.Gathers b (before ++ [name']) (.ofFields b.opcode b.mutation b.fields)
          (es₁ ++ (es₂ ++ es₃ ++ [])) (args₁.insert name' v) :=
        hinputs.append (.input hslot hblock hvalue .nil)
      have hkeys' : b.inputs.keys = before ++ [name'] ++ after := by
        rw [hkeys]
        simp
      obtain ⟨es₄, args, hrest, n', m', t', f', ⟨s₁, fuel₁, harrives, hat, hdepth, hexecute⟩,
        hbare', hfits', hsafe', htrace'⟩ := h.called
          (f := { f with reported := f.reported.insert name' v }) hb hprimitive hdistinct
          (fun name input hslot hblock => (htrees name input hslot hblock).runs) ih hkeys' hgathers
          (fun k _ => by rw [Table.getElem?_insert, Args.values_insert, hheld k]) hblock' hcode'
          hreached
      obtain ⟨r, m'', scratch, fuel₂, hr, hsafe'', hcalls, hcall⟩ :=
        callBlock_reports hreports args hsafe' hfits'
      have hexecute' : ∀ fuel, Turn.execute q.kit (fuel + (fuel₂ + fuel₁ + 1)) s₁.startWarp =
          Turn.takeReport q.kit.toCatalog b.id b.opcode r
            (.of m'' t' ({ f' with scratch } :: g :: rest)) := by
        intro fuel
        rw [← Nat.add_assoc, ← Nat.add_assoc, hexecute, Nat.add_right_comm]
        exact andThen_ok (hcall (fuel + fuel₁))
      have hvalue' : ∀ v', r.Gives q.delivers v' →
          q.Evaluates id (es₁ ++ es₂ ++ (es₃ ++ es₄ ++ [⟨b, args, r⟩])) v' := by
        intro v' hgives
        have hall := BlockMachine.Evaluates.reporter hb hsome
          (hkeys' ▸ hgathers.append hrest) hgives
        simpa using hall
      have hfits'' : q.Fits t' (g :: rest) :=
        hfits'.pop ((congrArg Frame.params hbare').trans hparams)
      cases r with
      | nothing => exact absurd rfl hr
      | value v' =>
        refine ⟨_, v', hvalue' v' (.value v'), ?_⟩
        have hreached' := h.reported (m := m'') (t := t') (f := { f' with scratch })
          (g := { g with reported := g.reported.insert name v' }) harrives hat hdepth
          (fun fuel => (hexecute' fuel).trans (takeReport_value hhat hwaiting)) hb hnext
          ((congrArg Frame.block hbare').trans hblock') (by simp [hwaiting]) hcode hgblock hsafe''
          (hfits''.replace rfl)
        simpa using Reached.after (.call htrace' hcalls) hreached'
      | promise p' =>
        obtain ⟨m₃, hn', hsafe₃, htrace₃⟩ := h.waits harrives hat
          (fun fuel => (hexecute' fuel).trans (takeReport_promise hhat)) hsafe''
        obtain ⟨v', hdelivers, hreached'⟩ :=
          h.asked hn' (hfits''.timed none) hsafe₃ hwaiting hcode hgblock
        refine ⟨_, v', hvalue' v' (.promise hdelivers), ?_⟩
        simpa using Reached.after (.drifted (.call htrace' hcalls) htrace₃) hreached'

end Scene
end BlockMachine

import BlockMachine.Proofs.Turn.Lax

/-!
# What is run in a turn

A turn runs blocks through their primitives, those in the inputs of a block before the block itself,
or it runs instructions. `Machine.turnRuns` lists them in order. A relation between turns that holds
along whatever a thread does by itself and along each of the things that are run holds along the
turn, whatever else could have been run (`Turn.step_ran`, `Turn.await_ran`). Predicates of hats are
asked by the interpreter, so that all of this goes by induction on its fuel (`Turn.execute_ran`).
-/

namespace BlockMachine

open List

variable {σ : Type} {runs : Turn σ → List Block} {P : Block → Prop} {b : Block}

/-- A block that is run through its primitive, or an instruction that is run. -/
inductive Ran where
  | block (b : Block)
  | instr (i : Instr Script)

namespace Turn

open Exec

/-- The blocks that are run for inputs of a block. `go` runs the block at the top of the stack, and
`runs` lists what is run then. -/
def inputsRun (go : Exec (Turn σ) Unit) (runs : Turn σ → List Block) (b : Block) (depth : Nat)
    (reported : Table Value) : List String → Turn σ → List Block
  | [], _ => []
  | name :: names, s =>
    if isStackSlot name then inputsRun go runs b depth reported names s
    else
      match reported[name]?, b.inputBlock? name with
      | some _, _ => inputsRun go runs b depth reported names s
      | none, none => inputsRun go runs b depth reported names s
      | none, some input =>
        let s := { s with
          thread := (s.thread.onDepth depth ({ · with waiting := some name })).push (some input) }
        runs s ++
          match go s with
          | some (.ok (), s) =>
            if s.thread.status == .promiseWait then []
            else if s.thread.depth != depth + 1 || s.thread.isDone then []
            else inputsRun go runs b depth reported names { s with
              thread := s.thread.pop.onFrame fun f =>
                { f with waiting := none, reported := f.reported.erase name } }
          | _ => []

/-- The blocks that are run for the inputs of a block, and the block itself if they all have
values. -/
def blockRuns (go : Exec (Turn σ) Unit) (runs : Turn σ → List Block) (b : Block) (s : Turn σ) :
    List Block :=
  let depth := s.thread.depth
  let reported := (s.thread.frame?.map Frame.reported).getD ∅
  let s := { s with thread := s.thread.onFrame ({ · with reported := ∅, waiting := none }) }
  inputsRun go runs b depth reported b.inputs.keys s ++
    match evalInputs go b depth reported (.ofFields b.opcode b.mutation b.fields)
      b.inputs.keys s with
    | some (.ok (some _), _) => [b]
    | _ => []

/-- The blocks that are run when the block at the top of the stack is run. -/
def executeRuns (kit : Kit σ) : Nat → Turn σ → List Block
  | 0, _ => []
  | fuel + 1, s =>
    if !s.machine.targets.contains s.thread.target then []
    else
      match s.thread.block? >>= s.thread.sheet.block? with
      | none => []
      | some b =>
        if kit.hasPrimitive b.opcode then blockRuns (execute kit fuel) (executeRuns kit fuel) b s
        else []

/-- What the interpreter runs. -/
def interpretRuns (kit : Kit σ) : Nat → Turn σ → List Ran
  | 0, _ => []
  | fuel + 1, s =>
    match s.thread.block? with
    | none => []
    | some current =>
      (executeRuns kit fuel s.startWarp).map .block ++
        match execute kit fuel s.startWarp with
        | some (.ok (), s₁) =>
          let (goes, s₂) := afterBlock s.thread current s₁
          if goes then interpretRuns kit fuel s₂ else []
        | _ => []

/-- The instructions that are run. -/
def codeRuns (kit : Kit σ) : Nat → Turn σ → List Ran
  | 0, _ => []
  | fuel + 1, s =>
    if s.thread.status != .running then []
    else
      match s.thread.cursor? with
      | none => []
      | some c =>
        (c.instr?.map Ran.instr).toList ++
          match tick kit fuel c s with
          | some (.ok .go, s₁) => codeRuns kit fuel s₁
          | _ => []

/-- What is run in a turn in which no promise is waited for. -/
def stepRuns (kit : Kit σ) (fuel : Nat) (s : Turn σ) : List Ran :=
  if s.thread.cursor?.isSome then codeRuns kit fuel s.resumed
  else
    let (goes, s) := if s.thread.block?.isNone then s.unwind else (true, s)
    if goes then interpretRuns kit fuel s else []

/-- What is run in a turn for which a promise was waited for. -/
def awaitRuns (kit : Kit σ) (fuel : Nat) (s : Turn σ) : List Ran :=
  match s.thread.pending with
  | none => []
  | some pending =>
    let awake := { s with thread := { s.thread with pending := none, status := .running } }
    let go (s : Turn σ) : List Ran :=
      if s.thread.status == .running && !s.thread.isDone then s.stepRuns kit fuel else []
    match s.machine.promises[pending.promise]? with
    | some (.resolved v) => go (awake.settle kit.toCatalog v pending.waiter)
    | some (.rejected _) => go (awake.forgo pending.waiter)
    | _ => []

theorem awaitRuns_eq (kit : Kit σ) (fuel : Nat) (s : Turn σ) :
    s.awaitRuns kit fuel = if (s.awaken kit).1 then (s.awaken kit).2.stepRuns kit fuel else [] := by
  unfold awaitRuns awaken
  cases s.thread.pending with
  | none => rfl
  | some pending =>
    rcases hp : s.machine.promises[pending.promise]? with _ | _ | _ | _ <;> simp only [hp] <;> rfl

end Turn

/-- What is run in the turn of a thread in its place. -/
def Machine.turnRuns (kit : Kit σ) (fuel i : Nat) (t : Thread) (m : Machine σ) : List Ran :=
  let s : Turn σ := { machine := { m with threads := m.threads.set i t.placeholder }, thread := t }
  if t.status == .promiseWait then s.awaitRuns kit fuel else s.stepRuns kit fuel

/-- The relation holds along calls of the primitive of a block with its fields. -/
def Block.Keeps (kit : Kit σ) (Q : Turn σ → Turn σ → Prop) (fuel : Nat) (b : Block) : Prop :=
  ∀ primitive, kit.primitive? b.opcode = some primitive → ∀ args : Args,
    args.fields = (Args.ofFields b.opcode b.mutation b.fields).fields →
      Exec.Keeps (Call.On Q) (Call.run kit (Turn.execute kit fuel) .interpreted (primitive args))

namespace Turn

open Exec

variable {kit : Kit σ} {Q : Turn σ → Turn σ → Prop} [Lasting Q] (lax : Lax Q) {fuel : Nat}
  {s s' : Turn σ}

include lax

/-- Evaluating inputs keeps what the blocks that are run for them keep, and the fields of the
arguments. -/
theorem evalInputs_ran {go : Exec (Turn σ) Unit}
    (hgo : ∀ s r s', go s = some (r, s') → (∀ b ∈ runs s, P b) → Q s s') {depth : Nat}
    {reported : Table Value} {names : List String} {args : Args}
    {r : Except BlockError (Option Args)}
    (h : evalInputs go b depth reported args names s = some (r, s'))
    (hruns : ∀ b' ∈ inputsRun go runs b depth reported names s, P b') :
    Q s s' ∧ ∀ args', r = .ok (some args') → args'.fields = args.fields := by
  induction names generalizing args s with
  | nil =>
    cases h
    exact ⟨Lasting.refl _, fun _ h => by cases h; rfl⟩
  | cons name names ih =>
    rw [evalInputs] at h
    rw [inputsRun] at hruns
    by_cases hslot : isStackSlot name
    · rw [if_pos hslot] at h hruns
      exact ih h hruns
    rw [if_neg hslot] at h hruns
    cases hreported : reported[name]? with
    | some v =>
      simp only [hreported] at h hruns
      obtain ⟨hs', hfields⟩ := ih h hruns
      exact ⟨hs', hfields⟩
    | none =>
    cases hinput : b.inputBlock? name with
    | none =>
      simp only [hreported, hinput] at h hruns
      exact ih h hruns
    | some input =>
      simp only [hreported, hinput] at h hruns
      rw [onThread_andThen] at h
      rw [forall_mem_append] at hruns
      obtain ⟨hinputs, hrest⟩ := hruns
      have hpush : Q s { s with
          thread := (s.thread.onDepth depth ({ · with waiting := some name })).push
            (some input) } := by
        refine lax.thread ?_
        unfold Thread.push Thread.pushFrame Thread.onDepth
        split <;> exact ⟨rfl, rfl, rfl, rfl, rfl⟩
      rcases hrun : go { s with
          thread := (s.thread.onDepth depth ({ · with waiting := some name })).push
            (some input) } with
        _ | ⟨_ | _, s₁⟩
      · rw [andThen_none hrun] at h
        cases h
      · rw [andThen_error hrun] at h
        cases h
        exact ⟨Lasting.trans hpush (hgo _ _ _ hrun hinputs), fun _ h => by cases h⟩
      · have hs₁ := Lasting.trans hpush (hgo _ _ _ hrun hinputs)
        rw [andThen_ok hrun, getThread_andThen] at h
        rw [hrun] at hrest
        dsimp only at hrest
        by_cases hwait : s₁.thread.status == .promiseWait
        · rw [if_pos hwait, onThread_andThen] at h
          cases h
          refine ⟨Lasting.trans hs₁ (lax.thread ?_), fun _ h => by cases h⟩
          unfold Thread.onDepth
          split <;> exact ⟨rfl, rfl, rfl, rfl, rfl⟩
        rw [if_neg hwait] at h hrest
        by_cases hgone : s₁.thread.depth != depth + 1 || s₁.thread.isDone
        · rw [if_pos hgone] at h
          cases h
          exact ⟨hs₁, fun _ h => by cases h⟩
        · rw [if_neg hgone, onThread_andThen] at h
          rw [if_neg hgone] at hrest
          obtain ⟨hs', hfields⟩ := ih h hrest
          refine ⟨Lasting.trans hs₁ (Lasting.trans ?_ hs'), hfields⟩
          exact lax.thread ⟨rfl, rfl, rfl, rfl, rfl⟩

variable (notes : Notes Q)

include notes

theorem runBlock_ran {primitive : Primitive σ} {r : Except BlockError Unit}
    (hgo : ∀ s r s', execute kit fuel s = some (r, s') → (∀ b ∈ runs s, P b) → Q s s')
    (hcalls : ∀ b, P b → b.Keeps kit Q fuel) (hprimitive : kit.primitive? b.opcode = some primitive)
    (h : runBlock kit (execute kit fuel) b primitive s = some (r, s'))
    (hruns : ∀ b' ∈ blockRuns (execute kit fuel) runs b s, P b') : Q s s' := by
  rw [runBlock, getThread_andThen, onThread_andThen] at h
  rw [blockRuns, forall_mem_append] at hruns
  obtain ⟨hinputs, hself⟩ := hruns
  have hstart : Q s { s with thread := s.thread.onFrame ({
      · with reported := ∅, waiting := none }) } :=
    lax.thread ⟨rfl, rfl, rfl, rfl, rfl⟩
  rcases heval : evalInputs (execute kit fuel) b s.thread.depth
    ((s.thread.frame?.map Frame.reported).getD ∅)
      (.ofFields b.opcode b.mutation b.fields) b.inputs.keys
      { s with thread := s.thread.onFrame ({
        · with reported := ∅, waiting := none }) } with _ | ⟨r₁, s₁⟩
  · rw [andThen_none heval] at h
    cases h
  obtain ⟨hs₁, hfields⟩ := evalInputs_ran lax hgo heval hinputs
  rw [heval] at hself
  refine Lasting.trans hstart (Lasting.trans hs₁ ?_)
  rcases r₁ with e | _ | args
  · rw [andThen_error heval] at h
    cases h
    exact Lasting.refl _
  · rw [andThen_ok heval] at h
    cases h
    exact Lasting.refl _
  · rw [andThen_ok heval] at h
    have hcall : Keeps Q (callBlock kit (execute kit fuel) s.thread.depth primitive args) := by
      intro s r s' h
      obtain ⟨⟨r₁, c⟩, hrun, h⟩ := Option.bind_eq_some_iff.mp h
      have hcalled : Q s c.toTurn :=
        hcalls b (hself b (mem_singleton.mpr rfl)) primitive hprimitive args
          (hfields args rfl) _ _ _ hrun
      cases h
      refine Lasting.trans hcalled (lax.thread (s := c.toTurn) ?_)
      unfold Thread.onDepth
      split <;> exact ⟨rfl, rfl, rfl, rfl, rfl⟩
    exact (hcall.andThen fun r => takeReport_lax lax notes _ _ _ r) _ _ _ h

variable {P : Ran → Prop}
  (hblocks : ∀ fuel,
    (∀ s r s', execute kit fuel s = some (r, s') → (∀ b ∈ executeRuns kit fuel s, P (.block b)) →
      Q s s') →
    ∀ b, P (.block b) → b.Keeps kit Q fuel)

include hblocks

theorem execute_ran (fuel : Nat) : ∀ (s : Turn σ) (r : Except BlockError Unit) (s' : Turn σ),
    execute kit fuel s = some (r, s') → (∀ b ∈ executeRuns kit fuel s, P (.block b)) → Q s s' := by
  induction fuel with
  | zero => intro s r s' h; cases h
  | succ fuel ih =>
    intro s r s' h hruns
    have hretire : Q s { s with thread := s.thread.retire } := lax.thread ⟨rfl, rfl, rfl, rfl, rfl⟩
    rcases execute_cases
      h with ⟨-, rfl⟩ | ⟨htarget,
      ⟨-, rfl⟩ | ⟨id, b, hblock, hb, ⟨-, h⟩ | ⟨primitive, hprimitive, h⟩⟩⟩
    · exact hretire
    · exact Lasting.refl _
    · exact runLiteral_lax lax _ b _ _ _ h
    · have hsheet : (s.thread.block? >>= s.thread.sheet.block?) = some b := by rw [hblock]; exact hb
      rw [executeRuns, if_neg (by simp [htarget]), hsheet] at hruns
      dsimp only at hruns
      rw [if_pos (by rw [Catalog.hasPrimitive, hprimitive]; rfl)] at hruns
      exact runBlock_ran lax notes ih (hblocks fuel ih) hprimitive h hruns

theorem interpret_ran (fuel : Nat) : ∀ (s : Turn σ) (r : Except BlockError Unit) (s' : Turn σ),
    interpret kit fuel s = some (r, s') → (∀ x ∈ interpretRuns kit fuel s, P x) → Q s s' := by
  induction fuel with
  | zero => intro s r s' h; cases h
  | succ fuel ih =>
    intro s r s' h hruns
    rw [interpretRuns] at hruns
    cases hblock : s.thread.block? with
    | none =>
      rw [interpret_nowhere hblock] at h
      cases h
      exact Lasting.refl s
    | some current =>
      simp only [hblock, forall_mem_append, forall_mem_map] at hruns
      obtain ⟨hfirst, hrest⟩ := hruns
      have hwarp := along_startWarp lax s
      rcases hexecute : execute kit fuel s.startWarp with _ | ⟨_ | _, s₁⟩
      · rw [interpret_outOfFuel hblock hexecute] at h
        cases h
      · rw [interpret_failed hblock hexecute] at h
        cases h
        exact Lasting.trans hwarp (execute_ran lax notes hblocks fuel _ _ _ hexecute hfirst)
      · rw [interpret_succ hblock hexecute] at h
        rw [hexecute] at hrest
        dsimp only at hrest
        have hs₁ := Lasting.trans hwarp (execute_ran lax notes hblocks fuel _ _ _ hexecute hfirst)
        refine Lasting.trans (Lasting.trans hs₁ (along_afterBlock lax s.thread current s₁)) ?_
        split at h
        · next hgoes =>
          rw [if_pos hgoes] at hrest
          exact ih _ r s' h hrest
        · cases h
          exact Lasting.refl _

variable (hinstrs : ∀ i, P (.instr i) → ∀ fuel pc, Keeps Q (runInstr kit fuel pc i))

include hinstrs

omit notes hblocks in
theorem runCode_ran (fuel : Nat) : ∀ (s : Turn σ) (r : Except BlockError Unit) (s' : Turn σ),
    runCode kit fuel s = some (r, s') → (∀ x ∈ codeRuns kit fuel s, P x) → Q s s' := by
  induction fuel with
  | zero => intro s r s' h; cases h
  | succ fuel ih =>
    intro s r s' h hruns
    rw [codeRuns] at hruns
    rw [runCode_succ, getThread_andThen] at h
    by_cases hrun : s.thread.status = .running
    · rw [if_neg (by simp [hrun])] at h hruns
      cases hcursor : s.thread.cursor? with
      | none =>
        rw [hcursor] at h
        cases h
        exact lax.thread ⟨rfl, rfl, rfl, rfl, rfl⟩
      | some c =>
        simp only [hcursor, forall_mem_append] at h hruns
        obtain ⟨hinstr, hrest⟩ := hruns
        have hkeeps : Keeps Q (tick kit fuel c) := by
          unfold tick
          cases hi : c.instr? with
          | none => exact finishFrame_lax lax
          | some i =>
            rw [hi] at hinstr
            exact hinstrs i (hinstr (.instr i) (mem_singleton.mpr rfl)) fuel c.pc
        rcases htick : tick kit fuel c s with _ | ⟨_ | _ | _, s₁⟩
        · rw [andThen_none htick] at h
          cases h
        · rw [andThen_error htick] at h
          cases h
          exact hkeeps _ _ _ htick
        · rw [andThen_ok htick] at h
          rw [htick] at hrest
          exact Lasting.trans (hkeeps _ _ _ htick) (ih _ _ _ h hrest)
        · rw [andThen_ok htick] at h
          cases h
          exact hkeeps _ _ _ htick
    · rw [if_pos (by simpa using hrun)] at h
      cases h
      exact Lasting.refl s

variable (hfail : ∀ (s : Turn σ) (e : BlockError), Q s (s.fail e))

include hfail

theorem step_ran (h : s.step kit fuel = some s') (hruns : ∀ x ∈ s.stepRuns kit fuel, P x) :
    Q s s' := by
  rw [step_eq] at h
  obtain ⟨⟨r, s₁⟩, hresume, rfl⟩ := Option.map_eq_some_iff.mp h
  have hs₁ : Q s s₁ := by
    rw [stepRuns] at hruns
    cases hcursor : s.thread.cursor? with
    | some c =>
      have hsome : s.thread.cursor?.isSome := by rw [hcursor]; rfl
      rw [if_pos hsome] at hruns
      rw [resume_coded hsome] at hresume
      exact Lasting.trans (along_resumed lax s) (runCode_ran lax hinstrs fuel _ _ _ hresume hruns)
    | none =>
      rw [if_neg (by simp [hcursor])] at hruns
      change ∀ x ∈ if s.placed.1 then interpretRuns kit fuel s.placed.2 else [], P x at hruns
      rw [resume_interpreted hcursor] at hresume
      refine Lasting.trans (along_placed lax s) ?_
      split at hresume
      · rename_i hgoes
        rw [if_pos hgoes] at hruns
        exact interpret_ran lax notes hblocks fuel _ _ _ hresume hruns
      · cases hresume
        exact Lasting.refl _
  cases r with
  | ok u => exact hs₁
  | error e => exact Lasting.trans hs₁ (hfail s₁ e)

theorem await_ran (h : s.await kit fuel = some s') (hruns : ∀ x ∈ s.awaitRuns kit fuel, P x) :
    Q s s' := by
  have hs₁ : Q s (s.awaken kit).2 := along_awaken lax notes kit s
  rw [await_eq] at h
  rw [awaitRuns_eq] at hruns
  split at h
  · rename_i hgoes
    rw [if_pos hgoes] at hruns
    exact Lasting.trans hs₁ (step_ran lax notes hblocks hinstrs hfail h hruns)
  · cases h
    exact hs₁

end Turn
end BlockMachine

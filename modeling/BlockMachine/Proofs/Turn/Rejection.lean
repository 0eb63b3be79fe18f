import BlockMachine.Proofs.Turn.Resumption
import BlockMachine.Proofs.Turn.Running

/-!
# Rejected promises

What becomes of a block that waits for the value of a reporter when the promise is rejected.

Compiled code goes on behind the call of the reporter, whose slot is as it was. That is zero as long
as the call has delivered no value to its frame (`Program.Unanswered.waits`); after that it is the
value that it delivered last, as in a later round of a loop (`rejection_not_missing_value`).

The interpreter drops the frame of the reporter and runs the waiting block again, which keeps the
inputs that it had. So the reporter is run once more, with all that is plugged into it.

The module is about `Turn.await`, `Turn.forgo` and the slots of compiled calls.

## Results

* `Program.Unanswered.waits`: the slot of a call that has delivered nothing.
* `rejected_promise_outcome`: the next turn, interpreted and compiled.
* `rejection_not_missing_value`: the second round of a loop.

Left out are promises that a hat waits for, or a statement of the interpreter.
-/

namespace BlockMachine

open List Exec

variable {σ : Type} {promise p : PromiseId} {reason : String}

/-! ## The frames below -/

namespace Turn

theorem dropProcedure_suffix (f : Frame) (rest : List Frame) :
    dropProcedure (f :: rest) <:+ rest := by
  induction rest generalizing f with
  | nil =>
    unfold dropProcedure
    split <;> exact suffix_refl []
  | cons g rest ih =>
    unfold dropProcedure
    split
    · exact suffix_refl _
    · exact (ih g).trans (suffix_cons g rest)

variable {kit : Kit σ} {s s' : Turn σ} {f : Frame} {c : Cursor} {rest : List Frame}
  {r : Except BlockError Flow}

/-- An instruction leaves its frame and maybe some below, or it moves within its frame. -/
theorem Ticked.stack_cases (h : Ticked kit s f c rest r s') :
    s'.thread.stack <:+ rest ∨ ∃ new f' pc, s'.thread.stack = new ++ f' :: rest ∧
      f.Moved c pc f' := by
  have hstays : Stays f c rest s'.thread.stack → s'.thread.stack <:+ rest ∨
      ∃ new f' pc, s'.thread.stack = new ++ f' :: rest ∧ f.Moved c pc f' := by
    rintro (⟨f', pc, hs, hm, -⟩ | ⟨-, hs, -⟩)
    · exact .inr ⟨[], f', pc, hs, hm⟩
    · exact .inl (hs ▸ suffix_refl rest)
  cases h.shift with
  | ended hs _ => exact .inl (hs ▸ nil_suffix)
  | halted _ hs => exact hstays hs
  | spent hs _ => exact hstays hs
  | @moved _ f' _ pc _ _ hs hm _ => exact .inr ⟨[], f', pc, hs, hm⟩
  | @called _ f' g _ _ _ _ _ _ _ _ hs hm _ _ _ => exact .inr ⟨[g], f', _, hs, hm⟩
  | @branched _ f' g _ _ _ _ _ hs hm _ _ _ => exact .inr ⟨[g], f', _, hs, hm⟩
  | popped _ _ hs _ _ => exact .inl (hs ▸ suffix_refl rest)
  | left hs _ _ => exact .inl (hs ▸ dropProcedure_suffix f rest)

end Turn

/-! ## Compiled code -/

/-- The states of a thread since it entered a frame above `rest` that runs the script, as long as
the call at index `pc` has delivered no value to this frame. The call may have been made, but then
what it reported is a promise, and that was not resolved. -/
inductive Program.Unanswered (kit : Kit σ) (p : Program) (script : Script) (pc : Nat)
    (rest : List Frame) : Thread → Prop
  | enter {t : Thread} {f : Frame} {kind : FrameKind} (ht : p.Reaches kit t)
      (hidle : t.pending = none) (hstack : t.stack = f :: rest)
      (hcode : f.code = some { script, kind }) :
      Unanswered kit p script pc rest t
  | tick {t : Thread} {m : Machine σ} {fuel : Nat} {c : Cursor} {r : Except BlockError Turn.Flow}
      {s' : Turn σ} (ht : Unanswered kit p script pc rest t) (hrun : t.status = .running)
      (hidle : t.pending = none) (hc : t.cursor? = some c)
      (h : Turn.tick kit fuel c ⟨m, t⟩ = some (r, s')) (hstays : rest.length < s'.thread.depth)
      (hcall : t.depth = rest.length + 1 → c.pc = pc → s'.thread.pending.isSome) :
      Unanswered kit p script pc rest s'.thread
  | startWarp {t : Thread} (m : Machine σ) (ht : Unanswered kit p script pc rest t) :
      Unanswered kit p script pc rest (Turn.startWarp ⟨m, t⟩).thread
  | endTurn {t : Thread} (ht : Unanswered kit p script pc rest t) :
      Unanswered kit p script pc rest { t with warpStart := none }
  | wake {t : Thread} (ht : Unanswered kit p script pc rest t) (halive : t.isDone = false) :
      Unanswered kit p script pc rest { t with status := .running }
  | settle {t : Thread} (m : Machine σ) {pending : Pending} (v : Value)
      (ht : Unanswered kit p script pc rest t) (halive : t.isDone = false)
      (hpending : t.pending = some pending)
      (hother : t.depth = rest.length + 1 → t.cursor?.map Cursor.pc ≠ some (pc + 1)) :
      Unanswered kit p script pc rest
        (Turn.settle ⟨m, { t with pending := none, status := .running }⟩ kit.toCatalog v
          pending.waiter).thread
  | forgo {t : Thread} (m : Machine σ) {pending : Pending} (ht : Unanswered kit p script pc rest t)
      (halive : t.isDone = false) (hpending : t.pending = some pending) :
      Unanswered kit p script pc rest
        (Turn.forgo (⟨m, { t with pending := none, status := .running }⟩ : Turn σ)
          pending.waiter).thread

namespace Program

variable {kit : Kit σ} {p : Program} {script : Script} {pc slot : Nat} {rest : List Frame}
  {t : Thread}

theorem Unanswered.reaches (h : p.Unanswered kit script pc rest t) : p.Reaches kit t := by
  induction h with
  | enter ht => exact ht
  | tick _ hrun _ hc h _ _ ih => exact ih.tick hrun hc h
  | startWarp m _ ih => exact ih.startWarp m
  | endTurn _ ih => exact ih.endTurn
  | wake _ halive ih => exact ih.wake halive
  | settle m v _ halive hpending _ ih => exact ih.settle m v halive hpending
  | forgo m _ halive hpending ih => exact ih.forgo m halive hpending

/-- The frame above `rest` runs the script, and its slot holds nothing yet. -/
def Blank (script : Script) (slot : Nat) (rest : List Frame) (t : Thread) : Prop :=
  ∃ above f c, t.stack = above ++ f :: rest ∧ f.code = some c ∧ c.script = script ∧
    c.locals[slot]? = some default

/-- A thread that waits does so right behind the call that has reported the promise. -/
def Behind (t : Thread) : Prop :=
  ∀ promise dest, t.pending = some ⟨promise, .code dest⟩ →
    ∃ c pc call, t.cursor? = some c ∧ c.pc = pc + 1 ∧ c.script.code[pc]? = some (.primitive call) ∧
      call.dest = dest

theorem Unanswered.behind (hp : p.Sound) (h : p.Unanswered kit script pc rest t) : Behind t := by
  induction h with
  | enter _ hidle =>
    intro promise dest hpending
    rw [hidle] at hpending
    cases hpending
  | @tick t m fuel c r s' ht hrun hidle hc h _ _ _ =>
    intro promise dest hpending
    obtain ⟨f, c', rest', hat⟩ := (ht.reaches.coded hp).at_cursor hrun
    rw [hat.cursor?] at hc
    cases hc
    rcases (Turn.tick_shift hat hrun h).pending with hsame | hnone | hasks
    · rw [hsame, hidle] at hpending
      cases hpending
    · rw [hnone] at hpending
      cases hpending
    · obtain ⟨promise', call, f', c', hi, hsome, hat', hscript, hpc, -⟩ := hasks
      rw [hsome] at hpending
      cases hpending
      exact ⟨c', c.pc, call, hat'.cursor?, hpc, hscript ▸ hi, rfl⟩
  | startWarp m _ ih =>
    rw [Turn.startWarp_thread]
    exact ih
  | endTurn _ ih => exact ih
  | wake _ _ ih => exact ih
  | settle m v ht halive hpending _ ih =>
    obtain ⟨dest, hdest⟩ := (ht.reaches.coded hp).pending _ hpending
    rw [hdest]
    intro promise dest' hnone
    cases dest <;> cases hnone
  | forgo m ht halive hpending ih =>
    obtain ⟨dest, hdest⟩ := (ht.reaches.coded hp).pending _ hpending
    rw [hdest]
    intro promise dest' hnone
    cases hnone

section Slot

variable {τ : Type} {sheet : Sheet} {catalog : Catalog τ} {top : BlockId}
  {call : PrimitiveCall Script} (hcompile : sheet.compile catalog top = .ok p)
  (hcall : script.code[pc]? = some (.primitive call)) (hdest : call.dest = some slot)

include hcompile hcall hdest

/-- Only the call itself writes its slot. -/
theorem Contains.retains {c c' : Cursor} (hscript : p.Contains c.script) (hs : c.script = script)
    (hne : c.pc ≠ pc) (h : c.Retains c') : c'.locals[slot]? = c.locals[slot]? := by
  refine h.slots slot fun hwrites => hne ?_
  obtain ⟨i, hi, hi'⟩ := Option.bind_eq_some_iff.mp hwrites
  exact hscript.dest_unique hcompile (hs ▸ hcall) hdest hi hi'

/-- One instruction delivers nothing to the slot, unless it is the call and reports a value. -/
theorem Blank.tick {s s' : Turn σ} {g : Frame} {c : Cursor} {below : List Frame}
    {r : Except BlockError Turn.Flow} (h : Blank script slot rest s.thread)
    (hcoded : s.thread.Coded p) (hat : s.thread.At g c below) (hidle : s.thread.pending = none)
    (hticked : Turn.Ticked kit s g c below r s') (hstays : rest.length < s'.thread.depth)
    (hsilent : s.thread.depth = rest.length + 1 → c.pc = pc → s'.thread.pending.isSome) :
    Blank script slot rest s'.thread := by
  obtain ⟨above, f, c₀, hstack, hcode, hs, hblank⟩ := h
  rw [hat.stack] at hstack
  rcases hticked.stack_cases with ⟨gone, hsuffix⟩ | ⟨new, g', k, hnew, hmoved⟩
  · -- frames are left, but not the one above `rest`
    have hlength := congrArg length hsuffix
    unfold Thread.depth at hstays
    cases above with
    | nil =>
      cases hstack
      rw [length_append] at hlength
      omega
    | cons a above =>
      cases hstack
      rcases append_eq_append_iff.mp hsuffix with ⟨as, -, hs'⟩ | ⟨as, -, hs'⟩
      · exact ⟨as, f, c₀, hs', hcode, hs, hblank⟩
      · cases as with
        | nil => exact ⟨[], f, c₀, hs'.symm, hcode, hs, hblank⟩
        | cons b as =>
          have := congrArg length hs'
          simp only [length_cons, length_append] at this
          omega
  · cases above with
    | cons a above =>
      cases hstack
      exact ⟨new ++ g' :: above, f, c₀, by rw [hnew]; simp, hcode, hs, hblank⟩
    | nil =>
      cases hstack
      cases hat.code.symm.trans hcode
      obtain ⟨-, c', hc', hs', -, hretains, -⟩ := hmoved
      refine ⟨new, g', c', hnew, hc', hs'.trans hs, ?_⟩
      rw [← hblank]
      by_cases hpc : c.pc = pc
      · -- the call has reported a promise
        have hsome := hsilent (by simp [Thread.depth, hat.stack]) hpc
        rcases hticked.pending with hsame | hnone | ⟨_, _, g'', c'', -, -, hat', -, -, hlocals⟩
        · rw [hsame, hidle] at hsome
          cases hsome
        · rw [hnone] at hsome
          cases hsome
        · rw [hat'.stack, ← singleton_append] at hnew
          obtain ⟨rfl, hg⟩ : new = [] ∧ g'' = g' := by
            have hlength := congrArg length hnew
            cases new with
            | nil => simpa using hnew
            | cons a new =>
              simp only [length_append, length_cons, length_nil] at hlength
              omega
          subst hg
          cases hat'.code.symm.trans hc'
          rw [hlocals]
      · exact hcoded.head hat |>.script.retains hcompile hcall hdest hs hpc hretains

/-- A value that another call has waited for goes to another slot. -/
theorem Blank.settle {slot' : Nat} (h : Blank script slot rest t) (hcoded : t.Coded p)
    (hbehind : Behind t) (hpending : t.pending = some ⟨promise, .code (some slot')⟩)
    (hother : t.depth = rest.length + 1 → t.cursor?.map Cursor.pc ≠ some (pc + 1)) (v : Value) :
    Blank script slot rest (t.onCursor (·.setLocal slot' v)) := by
  obtain ⟨above, f, c, hstack, hcode, hs, hblank⟩ := h
  cases above with
  | cons a above =>
    refine ⟨a.withCursor (·.setLocal slot' v) :: above, f, c, ?_, hcode, hs, hblank⟩
    simp [Thread.onCursor, Thread.onFrame, hstack]
  | nil =>
    have hat : t.At f c rest := ⟨hstack, hcode⟩
    have hnext := hat.onCursor (·.setLocal slot' v)
    refine ⟨[], _, _, hnext.stack, hnext.code, hs, ?_⟩
    obtain ⟨c', pc', call', hc', hpc', hcall', hdest'⟩ := hbehind _ _ hpending
    cases hat.cursor?.symm.trans hc'
    have hne : slot' ≠ slot := by
      rintro rfl
      have hsame := (hcoded.head hat).script.dest_unique hcompile (hs ▸ hcall) hdest hcall' hdest'
      refine hother (by simp [Thread.depth, hstack]) ?_
      rw [hat.cursor?, Option.map_some, hpc', hsame]
    rw [← hblank]
    exact Array.getElem?_setIfInBounds_ne hne

/-- **A slot is blank until its call delivers a value.** -/
theorem Unanswered.blank (h : p.Unanswered kit script pc rest t) : Blank script slot rest t := by
  have hp := Sheet.compile_sound hcompile
  induction h with
  | @enter t f kind ht _ hstack hcode =>
    obtain ⟨c, hc⟩ := (ht.coded hp).frames f (by rw [hstack]; exact mem_cons_self)
    cases hc.code.symm.trans hcode
    have hslot : slot < script.locals := by
      refine (hp.wellFormed hc.script).slots _
        (Array.mem_toList_iff.mpr (Array.mem_of_getElem? hcall)) slot ?_
      simp [Instr.slots, hdest]
    exact ⟨[], f, _, hstack, hcode, rfl, by simp [hslot]⟩
  | @tick t m fuel c r s' ht hrun hidle hc h hstays hsilent ih =>
    obtain ⟨g, c', below, hat⟩ := (ht.reaches.coded hp).at_cursor hrun
    rw [hat.cursor?] at hc
    cases hc
    exact Blank.tick (s := ⟨m, t⟩) hcompile hcall hdest ih (ht.reaches.coded hp) hat hidle
      (Turn.tick_shift hat hrun h) hstays hsilent
  | startWarp m _ ih =>
    rw [Turn.startWarp_thread]
    exact ih
  | endTurn _ ih => exact ih
  | wake _ _ ih => exact ih
  | @settle t m pending v ht halive hpending hother ih =>
    obtain ⟨promise, waiter⟩ := pending
    obtain ⟨dest, hwaiter⟩ := (ht.reaches.coded hp).pending _ hpending
    dsimp only at hwaiter
    subst hwaiter
    cases dest with
    | none => exact ih
    | some slot' =>
      exact ih.settle hcompile hcall hdest (ht.reaches.coded hp) (ht.behind hp) hpending hother v
  | forgo m ht _ hpending ih =>
    obtain ⟨dest, hdest⟩ := (ht.reaches.coded hp).pending _ hpending
    rw [hdest]
    exact ih

/-- A thread that waits for the call is right behind it, and the slot is blank. -/
theorem Unanswered.waits (h : p.Unanswered kit script pc rest t)
    (hdepth : t.depth = rest.length + 1)
    (hpending : t.pending = some ⟨promise, .code (some slot)⟩) :
    ∃ c, t.cursor? = some c ∧ c.script = script ∧ c.pc = pc + 1 ∧
      c.locals[slot]? = some default := by
  have hp := Sheet.compile_sound hcompile
  obtain ⟨above, f, c, hstack, hcode, hs, hblank⟩ := h.blank hcompile hcall hdest
  obtain rfl : above = [] := by
    have hlength := congrArg length hstack
    rw [Thread.depth] at hdepth
    rw [hdepth, length_append, length_cons] at hlength
    exact eq_nil_of_length_eq_zero (by omega)
  have hat : t.At f c rest := ⟨hstack, hcode⟩
  obtain ⟨c', pc', call', hc', hpc', hcall', hdest'⟩ := h.behind hp _ _ hpending
  cases hat.cursor?.symm.trans hc'
  have hsame := ((h.reaches.coded hp).head hat).script.dest_unique hcompile (hs ▸ hcall) hdest
    hcall' hdest'
  exact ⟨c, hat.cursor?, hs, hsame ▸ hpc', hblank⟩

end Slot
end Program

namespace Turn

variable {kit : Kit σ} {s : Turn σ}

/-- A thread that has got its answer and goes on. -/
def awake (s : Turn σ) : Turn σ :=
  { s with thread := { s.thread with pending := none, status := .running } }

/-- Compiled code goes on without a value. -/
theorem visit_rejected {dest : Option Nat} (hstack : s.thread.stack ≠ [])
    (hstatus : s.thread.status = .promiseWait)
    (hpending : s.thread.pending = some ⟨promise, .code dest⟩)
    (hrejected : s.machine.promises[promise]? = some (.rejected reason)) (fuel : Nat) :
    s.visit kit fuel = s.awake.step kit fuel := by
  rw [visit, if_pos (by simp [hstatus])]
  unfold await
  rw [hpending]
  dsimp only
  rw [hrejected]
  refine if_pos ?_
  simp [forgo, Thread.isDone, hstack]

/-! ## The interpreter -/

variable {m : Machine σ} {t : Thread} {f g : Frame} {rest : List Frame}

/-- A reporter whose promise is rejected is dropped, and the turn goes on in the frame below. -/
theorem Arrives.rejected (hp : m.promises[p]? = some (.rejected reason)) (hcode : g.code = none)
    (hblock : g.block.isSome) :
    Arrives kit (waitingFor m t (f :: g :: rest) p)
      (of m { t with status := .running, pending := none } (g :: rest)) := by
  refine ⟨0, 0, fun fuel _ => ?_⟩
  rw [visit, if_pos (by simp [waitingFor])]
  unfold await
  simp only [waitingFor, hp]
  exact (if_pos rfl).trans (step_block hcode hblock fuel)

end Turn

/-- The frame holds the inputs of its block before the one of that name, which `after` follow; with
these the arguments are `args₀`. -/
def Frame.Holds (kit : Kit σ) (sheet : Sheet) (delivers : PromiseId → Value → Prop) (b : Block)
    (name : String) (after : List String) (args₀ : Args) (g : Frame) : Prop :=
  ∃ before es₀, b.inputs.keys = before ++ name :: after ∧
    Gathers kit sheet delivers b before (.ofFields b.opcode b.mutation b.fields) es₀ args₀ ∧
    ∀ k ∈ b.inputs.keys, g.reported[k]? = args₀.values[k]?

/-- Calls that begin with a new run of a reporter: it is called again, or one of its inputs hangs
before. -/
inductive Anew (kit : Kit σ) (sheet : Sheet) (delivers : PromiseId → Value → Prop) (b : Block) :
    List Inquiry → Prop
  | called {es : List Inquiry} {args : Args} (r : Reported) (later : List Inquiry)
      (hinputs : Gathers kit sheet delivers b b.inputs.keys (.ofFields b.opcode b.mutation b.fields)
        es args) : Anew kit sheet delivers b (es ++ ⟨b, args, r⟩ :: later)
  | hangs {before after : List String} {name : String} {input : BlockId} {frames : List Frame}
      {es es' : List Inquiry} {args : Args} {p : PromiseId}
      (hkeys : b.inputs.keys = before ++ name :: after) (hblock : b.inputBlock? name = some input)
      (hinputs : Gathers kit sheet delivers b before (.ofFields b.opcode b.mutation b.fields) es
        args)
      (hinner : Hangs kit sheet delivers input frames es' p) : Anew kit sheet delivers b (es ++ es')

section Anew

variable {kit : Kit σ} {sheet : Sheet} {delivers : PromiseId → Value → Prop} {b : Block}
  {input : BlockId} {es : List Inquiry}

theorem Evaluates.anew {v : Value} (h : Evaluates kit sheet delivers input es v)
    (hb : sheet.block? input = some b) (hprimitive : kit.hasPrimitive b.opcode = true)
    (later : List Inquiry) : Anew kit sheet delivers b (es ++ later) := by
  cases h with
  | literal hb' hnone =>
    cases hb.symm.trans hb'
    simp [Catalog.hasPrimitive, hnone] at hprimitive
  | reporter hb' _ hinputs _ =>
    cases hb.symm.trans hb'
    rw [append_assoc]
    exact .called _ later hinputs

theorem Hangs.anew {frames : List Frame} (h : Hangs kit sheet delivers input frames es p)
    (hb : sheet.block? input = some b) : Anew kit sheet delivers b es := by
  cases h with
  | asked f hb' _ hinputs =>
    cases hb.symm.trans hb'
    exact .called _ [] hinputs
  | inner hb' _ _ _ hkeys _ hblock hinputs _ hinner =>
    cases hb.symm.trans hb'
    exact .hangs hkeys hblock hinputs hinner

/-- Where the input of that name is the next one, its reporter is run first. -/
theorem Gathers.anew {outer : Block} {name : String} {names : List String} {args args' : Args}
    (h : Gathers kit sheet delivers outer (name :: names) args es args')
    (hslot : isStackSlot name = false) (hinput : outer.inputBlock? name = some input)
    (hb : sheet.block? input = some b) (hprimitive : kit.hasPrimitive b.opcode = true)
    (later : List Inquiry) : Anew kit sheet delivers b (es ++ later) := by
  cases h with
  | stack hslot' => cases hslot.symm.trans hslot'
  | empty _ hnone => cases hinput.symm.trans hnone
  | input _ hinput' hvalue _ =>
    cases hinput.symm.trans hinput'
    rw [append_assoc]
    exact hvalue.anew hb hprimitive _

end Anew

namespace Scene

variable {q : Scene σ} {s : Turn σ} {m : Machine σ} {t : Thread} {f g : Frame} {rest : List Frame}
  {id input : BlockId} {b inner : Block} {primitive : Primitive σ} {after : List String}
  {name : String} {args₀ : Args} {p : PromiseId} {reason : String}

/-- What a turn comes to in which a block is run again whose input has failed: the block is called,
or it hangs once more. -/
inductive Retried (q : Scene σ) (id : BlockId) (b : Block) (primitive : Primitive σ)
    (names : List String) (args₀ : Args) (s : Turn σ) (bare : Frame) (rest : List Frame)
    (es : List Inquiry) : Prop
  | called {args : Args} {m' : Machine σ} {t' : Thread} {f' : Frame}
      (hcalls : Turn.Calls q.kit id b primitive args s (.of m' t' (f' :: rest)))
      (hbare : f'.bare = bare) (hinputs : q.Gathers b names args₀ es args)
      (htrace : q.Traces s.machine es m')
  | hangs {m' : Machine σ} {t' : Thread} {frames : List Frame} {p' : PromiseId} {fuel : Nat}
      (hvisit : s.visit q.kit fuel = some (.waitingFor m' t' frames p'))
      (htrace : q.Traces s.machine es m')

/-- A block whose input fails runs the reporter in that input anew, keeping the inputs before it. -/
theorem rejected (hp : m.promises[p]? = some (.rejected reason)) (hsafe : q.safe m)
    (hfits : q.Fits { t with status := .running, pending := none } (g :: rest))
    (hblock : g.block = some id) (hcode : g.code = none) (hb : q.sheet.block? id = some b)
    (hprimitive : q.kit.primitive? b.opcode = some primitive) (hdistinct : b.Distinct)
    (htrees : ∀ name input, isStackSlot name = false → b.inputBlock? name = some input →
      q.Tree input)
    (hinput : b.inputBlock? name = some input) (hinner : q.sheet.block? input = some inner)
    (hasks : q.kit.hasPrimitive inner.opcode = true) (hslot : isStackSlot name = false)
    (hheld : g.Holds q.kit q.sheet q.delivers b name after args₀) :
    ∃ es, Anew q.kit q.sheet q.delivers inner es ∧
      q.Retried id b primitive (name :: after) args₀ (.waitingFor m t (f :: g :: rest) p) g.bare
        rest es := by
  obtain ⟨before, es₀, hkeys, hbefore, hheld⟩ := hheld
  have harrives : Turn.Arrives q.kit (.waitingFor m t (f :: g :: rest) p) _ :=
    .rejected hp hcode (by rw [hblock]; rfl)
  generalize ({ t with status := .running, pending := none } : Thread) = t₁ at hfits harrives
  obtain ⟨m₂, w, hwarp, hsafe₂, htrace₂⟩ := startWarp_of t₁ (g :: rest) hsafe
  have hfits₂ := hfits.timed w
  obtain ⟨fuel₀, r, s₃, hgathered, hrun⟩ := execute_outcome hb hprimitive hblock
    (fun name input hslot hinput => (htrees name input hslot hinput).runs) hdistinct hkeys
    hbefore hheld hsafe₂ hfits₂
  cases hgathered with
  | @all es args m₃ f' hinputs htrace₃ hsafe₃ hbare =>
    have hcalls : Turn.Calls q.kit id b primitive args (.waitingFor m t (f :: g :: rest) p)
        (.of m₃ { t₁ with warpStart := w } (f' :: rest)) := by
      refine ⟨_, fuel₀, harrives, hblock, rfl, fun fuel => ?_⟩
      rw [hwarp, hrun]
      rfl
    refine ⟨es, ?_, .called hcalls hbare hinputs (htrace₂.trans htrace₃)⟩
    simpa using hinputs.anew hslot hinput hinner hasks []
  | @hangs before' after' name' input' es₁ es₂ args₁ p' frames m₃ f' hnames hslot' hinput'
      hinputs hhangs htrace₃ hsafe₃ hbare hwaiting hheld' =>
    have hexecute' : ∀ fuel, Turn.execute q.kit (fuel + (fuel₀ + 1))
      (Turn.of m t₁ (g :: rest)).startWarp =
        some (.ok (), .waitingFor m₃ { t₁ with warpStart := w } (frames ++ f' :: rest) p') := by
      intro fuel
      rw [← Nat.add_assoc, hwarp, hrun]
    obtain ⟨fuel, hvisit⟩ := harrives.stops hblock hexecute' rfl
    refine ⟨es₁ ++ es₂, ?_, .hangs hvisit (htrace₂.trans htrace₃)⟩
    -- the input that hangs is this one, or a later one
    cases before' with
    | nil =>
      cases hnames
      cases hinput.symm.trans hinput'
      cases hinputs
      exact hhangs.anew hinner
    | cons name' before' =>
      cases hnames
      exact hinputs.anew hslot hinput hinner hasks es₂

end Scene

/-! ## Both ways of running -/

/-- **What a rejected promise leads to.** An interpreted block is run again with the inputs that it
holds before the one that has failed; the calls of that turn begin with a new run of the reporter,
which is called again unless an input of its own hangs. Compiled code goes on with its frames as
they are. Behind a call that has delivered no value to its frame, the slot of the call is zero
there. -/
theorem rejected_promise_outcome (kit : Kit σ) (j : Journal σ) :
    (∀ {delivers : PromiseId → Value → Prop} {s : Turn σ} {f g : Frame} {rest : List Frame}
        {id input : BlockId} {b inner : Block} {primitive asks : Primitive σ} {after : List String}
        {name : String} {args₀ : Args} {p : PromiseId} {reason : String},
      s.thread.stack = f :: g :: rest → s.thread.status = .promiseWait →
      s.thread.pending = some ⟨p, .block false⟩ → s.machine.promises[p]? = some (.rejected reason) →
      s.machine.targets.contains s.thread.target = true → g.block = some id → g.code = none →
      s.thread.sheet.block? id = some b → kit.primitive? b.opcode = some primitive → b.Distinct →
      (∀ name input, isStackSlot name = false → b.inputBlock? name = some input →
        ReporterTree kit j s.thread.sheet input) →
      b.inputBlock? name = some input → s.thread.sheet.block? input = some inner →
      kit.primitive? inner.opcode = some asks → isStackSlot name = false →
      g.Holds (kit.noting j) s.thread.sheet delivers b name after args₀ →
      ∃ es, Anew (kit.noting j) s.thread.sheet delivers inner es ∧
        ((∃ s' args, Turn.Calls (kit.noting j) id b (j.noting primitive) args s s' ∧
            s'.thread.stack.map Frame.bare = (g :: rest).map Frame.bare ∧
            Gathers (kit.noting j) s.thread.sheet delivers b (name :: after) args₀ es args ∧
            j.calls s.thread.id s'.machine.host =
              j.calls s.thread.id s.machine.host ++ es.map fun e => (e.args, e.reported)) ∨
          ∃ fuel s', s.visit (kit.noting j) fuel = some s' ∧ s'.thread.status = .promiseWait ∧
            j.calls s.thread.id s'.machine.host =
              j.calls s.thread.id s.machine.host ++ es.map fun e => (e.args, e.reported))) ∧
    ∀ {s : Turn σ} {p : PromiseId} {dest : Option Nat} {reason : String},
      s.thread.stack ≠ [] → s.thread.status = .promiseWait →
      s.thread.pending = some ⟨p, .code dest⟩ → s.machine.promises[p]? = some (.rejected reason) →
      (∀ fuel, s.visit kit fuel = s.awake.step kit fuel) ∧
      ∀ {τ : Type} {sheet : Sheet} {catalog : Catalog τ} {top : BlockId} {program : Program}
          {script : Script} {pc slot : Nat} {call : PrimitiveCall Script} {rest : List Frame},
        sheet.compile catalog top = .ok program → script.code[pc]? = some (.primitive call) →
        call.dest = some slot → dest = some slot → s.thread.depth = rest.length + 1 →
        program.Unanswered kit script pc rest s.thread →
        ∃ c, s.awake.thread.cursor? = some c ∧ c.script = script ∧ c.pc = pc + 1 ∧
          c.locals[slot]? = some (.number 0.0) := by
  refine ⟨fun {delivers s f g rest id input b inner primitive asks after name args₀ p reason}
    hstack hstatus hpending hp htarget hblock hcode hb hprimitive hdistinct htrees hinput hinner
    hasks hslot hheld => ?_,
    fun hstack hstatus hpending hp => ⟨Turn.visit_rejected hstack hstatus hpending hp, ?_⟩⟩
  · let t : Thread := { s.thread with stack := g :: rest, status := .running, pending := none }
    have hs : s = .waitingFor s.machine s.thread (f :: g :: rest) p := by
      unfold Turn.waitingFor
      rw [← hstack, ← hstatus, ← hpending]
    have hprimitive' :
        (j.scene kit t delivers).kit.primitive? b.opcode = some (j.noting primitive) :=
      congrArg (Option.map j.noting) hprimitive
    have hasks' : (j.scene kit t delivers).kit.hasPrimitive inner.opcode = true := by
      have : (kit.noting j).primitive? inner.opcode = some (j.noting asks) :=
        congrArg (Option.map j.noting) hasks
      show ((kit.noting j).primitive? inner.opcode).isSome = true
      rw [this]
      rfl
    obtain ⟨es, hanew, hretried⟩ :=
      Scene.rejected (q := j.scene kit t delivers) (t := s.thread) (f := f)
      hp htarget ⟨⟨rfl, rfl, rfl, fun _ => rfl⟩, rfl⟩ hblock hcode hb hprimitive' hdistinct
      (fun name input hslot hinput => (htrees name input hslot hinput).tree (t := t)) hinput hinner
        hasks' hslot hheld
    rw [← hs] at hretried
    refine ⟨es, hanew, ?_⟩
    cases hretried with
    | called hcalls hbare hinputs htrace =>
      refine .inl ⟨_, _, hcalls, ?_, hinputs, traces_notes (t := t) htrace⟩
      show _ :: _ = _ :: _
      rw [hbare]
    | hangs hvisit htrace => exact .inr ⟨_, _, hvisit, rfl, traces_notes (t := t) htrace⟩
  · intro τ sheet catalog top program script pc slot call rest hcompile hcall hdest hslot
      hdepth hunanswered
    subst hslot
    obtain ⟨c, hc, hbehind⟩ := hunanswered.waits hcompile hcall hdest hdepth hpending
    exact ⟨c, hc, hbehind⟩

/-! ## Two rejections -/

/-- Rejects a promise. -/
def Machine.refuse (p : PromiseId) (m : Machine σ) : Machine σ :=
  { m with promises := m.promises.settle p (.rejected "no") }

/-- Asks for ever, and says each answer. -/
def Sheet.inquiring : Sheet :=
  .ofBlocks [
    { id := "hat", opcode := "event_whenflagclicked", next := some "loop", isTopLevel := true },
    { id := "loop", opcode := "control_forever",
      inputs := Table.of [("SUBSTACK", { block := some "say" })] },
    { id := "say", opcode := "say", inputs := Table.of [("ASK", { block := some "ask" })] },
    { id := "ask", opcode := "ask" }]

/-- The code of `Sheet.inquiring`. -/
def Program.inquiring : Program :=
  (Sheet.inquiring.compile (Library.core.union Kit.asking.toCatalog) "hat").toOption.getD default

/-- A turn at the begin of the loop. -/
def Turn.inquiring : Turn (List (Args × Reported)) where
  machine := { targets := .ofList [(0, Target.stage .inquiring)], host := [] }
  thread := Program.inquiring.thread .inquiring

/-- A rejection is not taken for a missing value: an interpreted block asks again, and a compiled
one says in the second round what the first question has brought. -/
theorem rejection_not_missing_value :
    (((Turn.saying .telling).visit (Kit.asking.noting .all) 9).bind fun s =>
      Turn.visit (Kit.asking.noting .all) 9 ⟨s.machine.refuse 0, s.thread⟩).map
        (fun s => s.machine.host.map fun call => call.1.opcode) = some ["ask", "ask"] ∧
    (do
      let s ← Turn.inquiring.visit (Kit.asking.noting .all) 9
      let s ← Turn.visit (Kit.asking.noting .all) 9 ⟨s.machine.answer, s.thread⟩
      let s ← s.visit (Kit.asking.noting .all) 9
      let s ← Turn.visit (Kit.asking.noting .all) 9 ⟨s.machine.refuse 1, s.thread⟩
      return s.machine.host.map fun call => (call.1.opcode, call.1.text "ASK")) =
      some [("ask", ""), ("say", "answer"), ("ask", ""), ("say", "answer")] := by
  decide +kernel

/-- A turn at a block whose question has been refused. -/
def Turn.refused : Turn (List (Args × Reported)) where
  machine := { (Turn.saying .telling).machine with promises := [.rejected "no"] }
  thread :=
    { Thread.start 0 0 "say" .telling with
      status := .promiseWait, pending := some ⟨0, .block false⟩
      stack := [{ block := some "ask" }, { block := some "say", waiting := some "ASK" }] }

theorem inquiring_compiles :
    Sheet.inquiring.compile (Library.core.union Kit.asking.toCatalog) "hat" = .ok .inquiring := by
  have hsome : (Sheet.inquiring.compile (Library.core.union Kit.asking.toCatalog)
      "hat").toOption.isSome := by
    decide +kernel
  unfold Program.inquiring
  cases h : Sheet.inquiring.compile (Library.core.union Kit.asking.toCatalog) "hat" with
  | error e => simp [h, Except.toOption] at hsome
  | ok p => rfl

/-- The loop begins with the question, whose answer has a slot. -/
theorem inquiring_asks :
    ∃ call, Program.inquiring.script.code[0]? = some (.primitive call) ∧ call.dest = some 0 := by
  have hdest : (Program.inquiring.script.code[0]?.filter Instr.isPrimitive).bind Instr.dest? =
      some 0 := by
    decide +kernel
  obtain ⟨i, hi, hslot⟩ := Option.bind_eq_some_iff.mp hdest
  obtain ⟨hi, hprimitive⟩ := Option.filter_eq_some_iff.mp hi
  cases i with
  | primitive call => exact ⟨call, hi, hslot⟩
  | _ => cases hprimitive

/-- After its first instruction the loop waits for the answer. -/
theorem inquiring_waits :
    ∃ t : Thread,
      Program.inquiring.Unanswered (Kit.asking.noting .all) Program.inquiring.script 0 [] t ∧
      t.depth = 1 ∧ t.status = .promiseWait ∧ t.pending = some ⟨0, .code (some 0)⟩ := by
  have hfirst : (Turn.inquiring.thread.cursor?.bind fun c =>
      (Turn.tick (Kit.asking.noting .all) 9 c Turn.inquiring).map fun r =>
        (r.2.thread.depth, r.2.thread.status, r.2.thread.pending)) =
      some (1, .promiseWait, some ⟨0, .code (some 0)⟩) := by
    decide +kernel
  obtain ⟨c, hc, htick⟩ := Option.bind_eq_some_iff.mp hfirst
  obtain ⟨⟨r, s'⟩, htick, hs'⟩ := Option.map_eq_some_iff.mp htick
  obtain ⟨hdepth, hstatus, hpending⟩ : s'.thread.depth = 1 ∧ s'.thread.status = .promiseWait ∧
      s'.thread.pending = some ⟨0, .code (some 0)⟩ := by simpa using hs'
  refine ⟨s'.thread, ?_, hdepth, hstatus, hpending⟩
  refine .tick (m := Turn.inquiring.machine) (.enter (p := Program.inquiring) ?_ rfl rfl rfl) rfl
    rfl hc htick ?_ fun _ _ => ?_
  · exact Program.inquiring.reaches_thread _ .inquiring
  · simp [hdepth]
  · simp [hpending]

/-- The interpreted block asks once more, and compiled code goes on with zero. -/
theorem refused_question_outcome :
    (∃ es, Anew (Kit.asking.noting .all) .telling
      (fun _ _ => False) { id := "ask", opcode := "ask" } es ∧
      ∃ s' : Turn (List (Args × Reported)), s'.machine.host = es.map fun e =>
        (e.args, e.reported)) ∧
    ∃ s : Turn (List (Args × Reported)), s.thread.pending = some ⟨0, .code (some 0)⟩ ∧
      s.machine.promises = [.rejected "no"] ∧
      s.visit (Kit.asking.noting .all) 9 = s.awake.step (Kit.asking.noting .all) 9 ∧
      ∃ c, s.awake.thread.cursor? = some c ∧ c.pc = 1 ∧ c.locals[0]? = some (.number 0.0) := by
  constructor
  · have hheld : Frame.Holds (Kit.asking.noting .all) .telling (fun _ _ => False) .telling
      "ASK" ["MESSAGE"]
        (.ofFields "say" none ∅) { block := some "say", waiting := some "ASK" } :=
      ⟨[], [], rfl, .nil, fun k _ => rfl⟩
    obtain ⟨hinterpreted, -⟩ := rejected_promise_outcome Kit.asking .all
    obtain ⟨es, hanew, houtcome⟩ :=
      hinterpreted (s := Turn.refused) rfl rfl rfl rfl rfl rfl rfl telling_blocks.1 rfl
      (fun k _ => Std.TreeMap.getElem?_emptyc) (fun _ _ _ h => telling_trees h) rfl
        telling_blocks.2.1 rfl rfl
      hheld
    refine ⟨es, hanew, ?_⟩
    rcases houtcome with ⟨s', args, -, -, -, hnotes⟩ | ⟨fuel, s', -, -, hnotes⟩
    · exact ⟨s', hnotes⟩
    · exact ⟨s', hnotes⟩
  · obtain ⟨t, hunanswered, hdepth, hstatus, hpending⟩ := inquiring_waits
    obtain ⟨call, hcall, hdest⟩ := inquiring_asks
    have hstack : t.stack ≠ [] := by
      intro hnil
      simp [Thread.depth, hnil] at hdepth
    obtain ⟨-, hcompiled⟩ := rejected_promise_outcome (Kit.asking.noting .all) .all
    obtain ⟨hvisit, hslot⟩ := hcompiled (s := ⟨Turn.refused.machine, t⟩) hstack hstatus hpending rfl
    obtain ⟨c, hc, -, hpc, hzero⟩ :=
      hslot inquiring_compiles hcall hdest rfl (by exact hdepth) hunanswered
    exact ⟨⟨Turn.refused.machine, t⟩, hpending, rfl, hvisit 9, c, hc, hpc, hzero⟩

end BlockMachine

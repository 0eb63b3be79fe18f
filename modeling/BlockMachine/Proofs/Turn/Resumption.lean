import BlockMachine.Proofs.Turn.Call
import BlockMachine.Proofs.Turn.Suspension

/-!
# Suspended blocks resume exactly

The host can be made to note every call of a block with what it was called with and what it reported
(`Kit.noting`). In these notes one can see that a block with reporters in its inputs is called with
the values of the reporters, a promise standing for the value it was resolved with, and that each
reporter is called once, however long the promises are pending and whatever happens meanwhile
(`suspended_block_resumes`). Only a field must not share its name with an input: when the block is
suspended its fields are kept like inputs, and later taken for them (`field_taken_for_input`).

The module is about `Turn.evalInputs`, `Turn.await` and `Turn.settle`.

## Results

* `suspended_block_resumes`: a block with any trees of reporters, over any turns.
* `field_taken_for_input`: a field with the name of an input.

Left out are promises that are rejected, blocks in the inputs that are no reporters, and compiled
code, which keeps its values in slots.
-/

namespace BlockMachine

open List Exec

variable {σ : Type} {n : Nat}

/-- How a host keeps notes of calls. -/
structure Journal (σ : Type) where
  /-- The calls that were made in the turns of a thread. -/
  calls : ThreadId → σ → List (Args × Reported)
  note : ThreadId → Args → Reported → σ → σ
  calls_note : ∀ id args r host, calls id (note id args r host) = calls id host ++ [(args, r)]

/-- A primitive that notes its calls. -/
def Journal.noting (j : Journal σ) (primitive : Primitive σ) : Primitive σ := fun args => do
  let r ← primitive args
  let id ← Action.threadId
  let host ← Action.getHost
  Action.setHost (j.note id args r host)
  return r

/-- Equipment whose blocks all note their calls. -/
def Kit.noting (kit : Kit σ) (j : Journal σ) : Kit σ :=
  { kit with primitive? := fun opcode => (kit.primitive? opcode).map j.noting }

/-- On a thread with a target, the primitive reports a value or a promise; it leaves the thread and
its notes alone. -/
def Primitive.Answers (kit : Kit σ) (j : Journal σ) (primitive : Primitive σ) : Prop :=
  ∀ (args : Args) (c : Call σ), c.machine.targets.contains c.thread.target = true →
    ∃ r c' fuel₀, r ≠ .nothing ∧ c'.thread = c.thread ∧
      c'.machine.targets.contains c.thread.target = true ∧
      j.calls c.thread.id c'.machine.host = j.calls c.thread.id c.machine.host ∧
      ∀ fuel, Call.run kit (Turn.execute kit (fuel + fuel₀)) .interpreted (primitive args) c =
        some (.ok r, c')

/-- A finite tree of reporters that report values or promises. -/
inductive ReporterTree (kit : Kit σ) (j : Journal σ) (sheet : Sheet) : BlockId → Prop
  | literal {id : BlockId} {b : Block} {f : Field} (hb : sheet.block? id = some b)
      (hprimitive : kit.primitive? b.opcode = none) (hhat : kit.isHat b.opcode = false)
      (hfield : b.soleField? = some f) : ReporterTree kit j sheet id
  | reporter {id : BlockId} {b : Block} {primitive : Primitive σ} (hb : sheet.block? id = some b)
      (hprimitive : kit.primitive? b.opcode = some primitive)
      (hhat : kit.isHat b.opcode = false) (hnext : b.next = none) (hdistinct : b.Distinct)
      (hanswers : primitive.Answers (kit.noting j) j)
      (hinputs : ∀ name input, isStackSlot name = false → b.inputBlock? name = some input →
        ReporterTree kit j sheet input) : ReporterTree kit j sheet id

/-- The visits of a thread, one after the other. Each finds the thread as the turn before has left
it. Meanwhile the machine may change in any way that leaves the target and the notes of the thread
in place. A promise that is settled stays as it is, and one that the thread waits for is resolved at
some time. -/
structure Timing (kit : Kit σ) (j : Journal σ) (id : ThreadId) (target : TargetId)
    (s : Nat → Turn σ) : Prop where
  thread : ∀ {n fuel s'}, (s n).visit kit fuel = some s' →
    (s (n + 1)).thread = { s'.thread with warpStart := none }
  notes : ∀ {n fuel s'}, (s n).visit kit fuel = some s' →
    j.calls id (s (n + 1)).machine.host = j.calls id s'.machine.host
  target : ∀ {n fuel s'}, (s n).visit kit fuel = some s' →
    s'.machine.targets.contains target = true → (s (n + 1)).machine.targets.contains target = true
  settled : ∀ {n} {p : PromiseId} {o : Promise}, (s n).machine.promises[p]? = some o →
    o.isSettled = true →
    (s (n + 1)).machine.promises[p]? = some o
  resolved : ∀ {n pending}, (s n).thread.status = .promiseWait →
    (s n).thread.pending = some pending →
    ∃ k v, (s (n + k)).machine.promises[pending.promise]? = some (.resolved v)

/-- The values that promises are resolved with in the course of time. -/
def Delivered (s : Nat → Turn σ) (p : PromiseId) (v : Value) : Prop :=
  ∃ n, (s n).machine.promises[p]? = some (.resolved v)

/-! ## The scene of a block -/

/-- A thread whose calls are noted. -/
def Journal.scene (j : Journal σ) (kit : Kit σ) (t : Thread)
    (delivers : PromiseId → Value → Prop) : Scene σ where
  kit := kit.noting j
  sheet := t.sheet
  thread := t.id
  target := t.target
  params := t.param?
  delivers := delivers
  safe m := m.targets.contains t.target = true
  calls e m m' := j.calls t.id m'.host = j.calls t.id m.host ++ [(e.args, e.reported)]
  drifts m m' := j.calls t.id m'.host = j.calls t.id m.host ∧
    (m.targets.contains t.target = true → m'.targets.contains t.target = true)
  present h := h
  drift_safe h := h.2
  drift_clock _ _ := ⟨rfl, id⟩

variable {j : Journal σ} {kit : Kit σ} {t : Thread} {delivers : PromiseId → Value → Prop}
  {primitive : Primitive σ} {b : Block} {id input : BlockId} {p : PromiseId} {name : String}

theorem run_noting {go : Exec (Turn σ) Unit} {mode : Mode} {args : Args} {c c' : Call σ}
    {r : Reported} (h : Call.run kit go mode (primitive args) c = some (.ok r, c')) :
    Call.run kit go mode (j.noting primitive args) c =
      some (.ok r, { c' with machine := { c'.machine with
        host := j.note c'.thread.id args r c'.machine.host } }) := by
  unfold Journal.noting
  rw [Call.run_bind]
  refine (andThen_ok h).trans ?_
  rfl

theorem Primitive.Answers.reports (h : primitive.Answers (kit.noting j) j) :
    (j.scene kit t delivers).Reports b (j.noting primitive) := by
  intro args t' stack m scratch hfits hsafe
  have htarget : m.targets.contains t'.target = true := by
    rw [hfits.target]
    exact hsafe
  have hid : t'.id = t.id := hfits.id
  obtain ⟨r, c, fuel₀, hr, hthread, hpresent, hnotes, hrun⟩ :=
    h args { Turn.of m t' stack with scratch } htarget
  refine ⟨r, { c with machine := { c.machine with
    host := j.note c.thread.id args r c.machine.host } }, fuel₀, hr, hthread, ?_, ?_,
    fun fuel => run_noting (hrun fuel)⟩
  · show c.machine.targets.contains t.target = true
    rw [show t.target = t'.target from hfits.target.symm]
    exact hpresent
  · have hcid : c.thread.id = t.id := by rw [hthread]; exact hid
    show j.calls t.id (j.note c.thread.id args r c.machine.host) = _
    rw [hcid, j.calls_note, ← hid]
    exact congrArg (· ++ [(args, r)]) hnotes

theorem ReporterTree.tree (h : ReporterTree kit j t.sheet id) :
    (j.scene kit t delivers).Tree id := by
  have hprimitive? : ∀ opcode, (kit.noting j).primitive? opcode =
      (kit.primitive? opcode).map j.noting := fun _ => rfl
  induction h with
  | literal hb hprimitive hhat hfield =>
    refine .literal hb ?_ hhat hfield
    show (kit.noting j).primitive? _ = none
    rw [hprimitive?, hprimitive]
    rfl
  | reporter hb hprimitive hhat hnext hdistinct hanswers _ ih =>
    refine .reporter hb ?_ hhat hnext hdistinct hanswers.reports ih
    show (kit.noting j).primitive? _ = _
    rw [hprimitive?, hprimitive]
    rfl

theorem traces_notes {m m' : Machine σ} {es : List Inquiry}
    (h : (j.scene kit t delivers).Traces m es m') :
    j.calls t.id m'.host = j.calls t.id m.host ++ es.map fun e => (e.args, e.reported) := by
  induction h with
  | refl => simp
  | call _ hcall ih =>
    have hnote : j.calls t.id _ = j.calls t.id _ ++ _ := hcall
    rw [hnote, ih]
    simp
  | drift _ hdrift ih => exact hdrift.1.trans ih

/-! ## Time -/

namespace Timing

variable {s : Nat → Turn σ} {thread : ThreadId} {target : TargetId}

theorem stays (h : Timing kit j thread target s) {o : Promise}
    (hp : (s n).machine.promises[p]? = some o) (ho : o.isSettled = true) (k : Nat) :
    (s (n + k)).machine.promises[p]? = some o := by
  induction k with
  | zero => exact hp
  | succ k ih => exact h.settled ih ho

/-- A promise that is resolved at some time was pending until it was. -/
theorem first (h : Timing kit j thread target s) {k : Nat} {v : Value}
    (hp : (s (n + k)).machine.promises[p]? = some (.resolved v)) :
    ∃ k', (s (n + k')).machine.promises[p]? = some (.resolved v) ∧
      ∀ i < k', ∀ o, (s (n + i)).machine.promises[p]? = some o → o.isSettled = false := by
  induction k with
  | zero => exact ⟨0, hp, fun i hi => absurd hi (Nat.not_lt_zero i)⟩
  | succ k ih =>
    by_cases hk : (s (n + k)).machine.promises[p]? = some (.resolved v)
    · exact ih hk
    · refine ⟨k + 1, hp, fun i hi o ho => ?_⟩
      -- Had it been settled before, it would have been so with the same value.
      cases hsettled : o.isSettled with
      | false => rfl
      | true =>
        have hlast := h.stays ho hsettled (k + 1 - i)
        rw [show n + i + (k + 1 - i) = n + (k + 1) by omega, hp] at hlast
        have hbefore := h.stays ho hsettled (k - i)
        rw [show n + i + (k - i) = n + k by omega, ← hlast] at hbefore
        exact absurd hbefore hk

theorem history (h : Timing (kit.noting j) j t.id t.target s) :
    (j.scene kit t (Delivered s)).History s where
  next hvisit := ⟨h.thread hvisit, h.notes hvisit, h.target hvisit⟩
  delivered {n _ _} hp := ⟨n, hp⟩
  resolves {n _ _ _ _} hn := by
    obtain ⟨k, v, hp⟩ := h.resolved (n := n) (by rw [hn]; rfl) (by rw [hn]; rfl)
    obtain ⟨k', hp', hpending⟩ := h.first hp
    exact ⟨k', v, hp', hpending⟩

end Timing

/-! ## Resuming -/

/-- **A suspended block resumes exactly.** A block is run whose inputs are trees of reporters, each
of which reports a value or a promise. Whenever and with whatever values the promises are resolved,
there is a turn in which the primitive of the block is called, in the frame that the block had from
the start. It is called with the fields and the values of the trees, where each promise stands for
the value it was resolved with; and the calls that were noted until then are those of the reporters
in the trees, each of them once. -/
theorem suspended_block_resumes (j : Journal σ) (kit : Kit σ) {s : Nat → Turn σ} {f : Frame}
    {rest : List Frame} (hstack : (s 0).thread.stack = f :: rest)
    (hstatus : (s 0).thread.status = .running)
    (htarget : (s 0).machine.targets.contains (s 0).thread.target = true)
    (hblock : f.block = some id)
    (hcode : f.code = none) (hfresh : ∀ k : String, f.reported[k]? = none)
    (hb : (s 0).thread.sheet.block? id = some b)
    (hprimitive : kit.primitive? b.opcode = some primitive) (hdistinct : b.Distinct)
    (htrees : ∀ name input, isStackSlot name = false → b.inputBlock? name = some input →
      ReporterTree kit j (s 0).thread.sheet input)
    (htiming : Timing (kit.noting j) j (s 0).thread.id (s 0).thread.target s) :
    ∃ n s' es args,
      Turn.Calls (kit.noting j) id b (j.noting primitive) args (s n) s' ∧
      s'.thread.stack.map Frame.bare = (s 0).thread.stack.map Frame.bare ∧
      Gathers (kit.noting j) (s 0).thread.sheet (Delivered s) b b.inputs.keys
        (.ofFields b.opcode b.mutation b.fields) es args ∧
      j.calls (s 0).thread.id s'.machine.host =
        j.calls (s 0).thread.id (s 0).machine.host ++ es.map fun e => (e.args, e.reported) := by
  obtain ⟨q, hq⟩ : ∃ q, q = j.scene kit (s 0).thread (Delivered s) := ⟨_, rfl⟩
  have hhistory : q.History s := hq ▸ htiming.history
  have htrees' : ∀ name input, isStackSlot name = false → b.inputBlock? name = some input →
      q.Tree input := fun name input hslot hinput => hq ▸ (htrees name input hslot hinput).tree
  have hstart : s 0 = .of (s 0).machine (s 0).thread (f :: rest) := by
    rw [← hstack]
    rfl
  have hreached : q.Reached s (s 0).machine [] (f :: rest) := by
    refine ⟨0, (s 0).machine, (s 0).thread, ?_, ⟨⟨by rw [hq]; rfl, by rw [hq]; rfl, hstatus,
      fun name => ?_⟩, by rw [hq]; rfl⟩, by rw [hq]; exact htarget, .refl _⟩
    · have harrives : Turn.Arrives q.kit (.of (s 0).machine (s 0).thread (f :: rest))
          (.of (s 0).machine (s 0).thread (f :: rest)) :=
        .start hcode (by rw [hblock]; rfl) hstatus
      rwa [← hstart] at harrives ⊢
    · rw [hq, ← hstack]
      rfl
  have hnone : ∀ k ∈ b.inputs.keys, f.reported[k]? =
      (Args.ofFields b.opcode b.mutation b.fields).values[k]? := by
    intro k hk
    rw [hfresh, Args.values_ofFields, hdistinct k hk]
    rfl
  have hprimitive' : q.kit.primitive? b.opcode = some (j.noting primitive) := by
    rw [hq]
    exact congrArg (Option.map j.noting) hprimitive
  obtain ⟨es, args, hinputs, n, m', t', f', hcalls, hbare, -, -, htrace⟩ := hhistory.called
    (by rw [hq]; exact hb) hprimitive' hdistinct
    (fun name input hslot hinput => (htrees' name input hslot hinput).runs)
    (fun name input hslot hinput => (htrees' name input hslot hinput).delivers hhistory)
    (nil_append _).symm .nil hnone hblock hcode hreached
  subst hq
  refine ⟨n, _, es, args, hcalls, ?_, hinputs, traces_notes htrace⟩
  rw [hstack]
  show f'.bare :: rest.map Frame.bare = f.bare :: rest.map Frame.bare
  rw [hbare]

/-! ## A question and its answer -/

/-- Notes of all calls. -/
def Journal.all : Journal (List (Args × Reported)) where
  calls _ host := host
  note _ args r host := host ++ [(args, r)]
  calls_note _ _ _ _ := rfl

/-- A block that reports a promise, one that reports its field, and one that says something. -/
def Kit.asking : Kit (List (Args × Reported)) where
  primitive?
    | "ask" => some fun _ => do return .promise (← Action.openPromise .pending)
    | "word" => some fun args => return .value (args.get "WORD")
    | "say" => some fun _ => return .nothing
    | _ => none

/-- A turn at the block `say` of a sheet. -/
def Turn.saying (sheet : Sheet) : Turn (List (Args × Reported)) where
  machine := { targets := .ofList [(0, Target.stage sheet)], host := [] }
  thread := .start 0 0 "say" sheet

/-- Resolves the first promise. -/
def Machine.answer (m : Machine σ) : Machine σ :=
  { m with promises := m.promises.settle 0 (.resolved (.text "answer")) }

/-- Says a word after a question; a field has the name of the input with the word. -/
def Sheet.hiding : Sheet :=
  .ofBlocks [
    { id := "say", opcode := "say"
      inputs := Table.of [("ASK", { block := some "ask" }), ("MESSAGE", { block := some "word" })]
      fields := Table.of [("MESSAGE", { value := .text "field" })] },
    { id := "ask", opcode := "ask" },
    { id := "word", opcode := "word", fields := Table.of [("WORD", { value := .text "input" })] }]

/-- A field that has the name of an input is taken for the input when the block is resumed: the
block is called with the text of the field, and the reporter in the input is not called at all. -/
theorem field_taken_for_input :
    (((Turn.saying .hiding).visit (Kit.asking.noting .all) 9).bind fun s =>
      Turn.visit (Kit.asking.noting .all) 9 ⟨s.machine.answer, s.thread⟩).map
        (fun s => s.machine.host.map fun call => (call.1.opcode, call.1.text "MESSAGE")) =
      some [("ask", ""), ("say", "field")] := by
  decide +kernel

/-- Says a word and the answer to a question. -/
def Sheet.telling : Sheet :=
  .ofBlocks [
    { id := "say", opcode := "say"
      inputs := Table.of [("ASK", { block := some "ask" }),
        ("MESSAGE", { block := some "word" })] },
    { id := "ask", opcode := "ask" },
    { id := "word", opcode := "word", fields := Table.of [("WORD", { value := .text "input" })] }]

/-- The visits of a thread that is answered after a while. -/
def Turn.telling : Nat → Turn (List (Args × Reported))
  | 0 => .saying .telling
  | n + 1 =>
    match (telling n).visit (Kit.asking.noting .all) 9 with
    | none => telling n
    | some s =>
      ⟨if n = 0 then s.machine else s.machine.answer, { s.thread with warpStart := none }⟩

namespace Turn

/-- A thread that is done stays as it is. -/
theorem visit_done {s : Turn σ} (hstack : s.thread.stack = []) (hstatus : s.thread.status = .done)
    (fuel : Nat) :
    s.visit kit fuel = some s := by
  have hcursor : s.thread.cursor? = none := by simp [Thread.cursor?, Thread.frame?, hstack]
  have hblock : s.thread.block? = none := by simp [Thread.block?, Thread.frame?, hstack]
  have hunwind : s.unwind = (false, s) := by
    have hthread : { s.thread with status := .done } = s.thread := by rw [← hstatus]
    have hfinished : s.thread.unwind = (.finished, s.thread) := by
      unfold Thread.unwind
      split
      · rw [hthread]
      · simp_all
    simp [Turn.unwind, hfinished]
  rw [visit, if_neg (by simp [hstatus])]
  show ended (resume kit fuel s) = _
  rw [resume_interpreted hcursor, placed, hblock]
  simp [hunwind, ended]

theorem telling_begins : ∀ n < 3, ((telling n).visit (Kit.asking.noting .all) 9).isSome := by
  decide +kernel

theorem telling_ends (n : Nat) :
    (telling (n + 3)).thread.stack = [] ∧ (telling (n + 3)).thread.status = .done ∧
      (telling (n + 4)).machine = (telling (n + 3)).machine.answer := by
  have hnext : ∀ n, (telling (n + 3)).thread.stack = [] → (telling (n + 3)).thread.status = .done →
      telling (n + 4) = ⟨(telling (n + 3)).machine.answer,
        { (telling (n + 3)).thread with warpStart := none }⟩ := by
    intro n hstack hstatus
    rw [telling, visit_done hstack hstatus]
    rfl
  have hdone : (telling (n + 3)).thread.stack = [] ∧ (telling (n + 3)).thread.status = .done := by
    induction n with
    | zero =>
      have hover : (telling 3).thread.stack.isEmpty = true ∧ (telling 3).thread.status = .done := by
        decide +kernel
      exact ⟨List.isEmpty_iff.mp hover.1, hover.2⟩
    | succ n ih =>
      rw [hnext n ih.1 ih.2]
      exact ih
  exact ⟨hdone.1, hdone.2, by rw [hnext n hdone.1 hdone.2]⟩

theorem telling_visit (n : Nat) : ((telling n).visit (Kit.asking.noting .all) 9).isSome := by
  by_cases hn : n < 3
  · exact telling_begins n hn
  · obtain ⟨n, rfl⟩ := Nat.exists_eq_add_of_le' (Nat.le_of_not_lt hn)
    obtain ⟨hstack, hstatus, -⟩ := telling_ends n
    rw [visit_done hstack hstatus]
    rfl

/-- What a visit finds is what the turn before has left, but for the promise. -/
theorem telling_succ {fuel : Nat} {s : Turn (List (Args × Reported))}
    (h : (telling n).visit (Kit.asking.noting .all) fuel = some s) :
    telling (n + 1) =
      ⟨if n = 0 then s.machine else s.machine.answer, { s.thread with warpStart := none }⟩ := by
  obtain ⟨s', hs'⟩ := Option.isSome_iff_exists.mp (telling_visit n)
  cases visit_unique h hs'
  rw [telling, hs']

/-- The text of an answer. -/
def answer? : Promise → Option String
  | .resolved (.text s) => some s
  | _ => none

theorem eq_of_answer? {promises : Promises} (h : promises.map answer? = [some "answer"]) :
    promises = [.resolved (.text "answer")] := by
  obtain ⟨o, rest, rfl, ho, hrest⟩ := map_eq_cons_iff.mp h
  obtain rfl := map_eq_nil_iff.mp hrest
  unfold answer? at ho
  split at ho
  · cases ho
    rfl
  · cases ho

/-- The promise is made in the first turn, and the answer is there at the third visit. -/
theorem telling_promises :
    (telling 0).machine.promises.length = 0 ∧
      (telling 1).machine.promises.map Promise.isSettled = [false] ∧
      (telling 2).machine.promises.map answer? = [some "answer"] ∧
      (telling 3).machine.promises.map answer? = [some "answer"] := by
  decide +kernel

theorem telling_waits :
    (telling 0).thread.status = .running ∧
      (telling 1).thread.pending.map Pending.promise = some 0 ∧
      (telling 2).thread.pending.map Pending.promise = some 0 := by
  decide +kernel

theorem telling_answered (n : Nat) :
    (telling (n + 2)).machine.promises = [.resolved (.text "answer")] := by
  obtain ⟨-, -, htwo, hthree⟩ := telling_promises
  match n with
  | 0 => exact eq_of_answer? htwo
  | n + 1 =>
    induction n with
    | zero => exact eq_of_answer? hthree
    | succ n ih =>
      rw [(telling_ends n).2.2, Machine.answer, ih]
      rfl

theorem telling_timing : Timing (Kit.asking.noting .all) .all 0 0 telling where
  thread hvisit := by rw [telling_succ hvisit]
  notes {n _ _} hvisit := by
    rw [telling_succ hvisit]
    cases n <;> rfl
  target {n _ _} hvisit htarget := by
    rw [telling_succ hvisit]
    cases n <;> exact htarget
  settled {n p o} hp ho := by
    obtain ⟨hzero, hone, -, -⟩ := telling_promises
    match n with
    | 0 => simp [length_eq_zero_iff.mp hzero] at hp
    | 1 =>
      have hmap := congrArg (Option.map Promise.isSettled) hp
      rw [← getElem?_map, hone] at hmap
      cases p <;> simp [ho] at hmap
    | n + 2 =>
      rw [telling_answered] at hp
      rw [show n + 2 + 1 = n + 1 + 2 by omega, telling_answered]
      exact hp
  resolved {n pending} hstatus hpending := by
    obtain ⟨hzero, hone, htwo⟩ := telling_waits
    match n with
    | 0 => simp [hzero] at hstatus
    | 1 =>
      have hfirst : pending.promise = 0 := by simpa [hpending] using hone
      exact ⟨1, .text "answer", by rw [telling_answered 0, hfirst]; rfl⟩
    | 2 =>
      have hfirst : pending.promise = 0 := by simpa [hpending] using htwo
      exact ⟨0, .text "answer", by rw [telling_answered 0, hfirst]; rfl⟩
    | n + 3 => simp [(telling_ends n).2.1] at hstatus

end Turn

/-- The block that says something. -/
def Block.telling : Block where
  id := "say"
  opcode := "say"
  inputs := Table.of [("ASK", { block := some "ask" }), ("MESSAGE", { block := some "word" })]

theorem telling_inputs (h : Block.telling.inputBlock? name = some input) :
    input = "ask" ∨ input = "word" := by
  unfold Block.inputBlock? Block.telling at h
  rw [Table.getElem?_of _ _ (by decide), lookup_cons, lookup_cons] at h
  by_cases hask : name = "ASK"
  · simp_all [Slot.filled?]
  · by_cases hmessage : name = "MESSAGE"
    · simp_all [Slot.filled?]
    · rw [beq_eq_false_iff_ne.mpr hask, beq_eq_false_iff_ne.mpr hmessage] at h
      cases h

theorem telling_blocks :
    Sheet.telling.block? "say" = some .telling ∧
      Sheet.telling.block? "ask" = some { id := "ask", opcode := "ask" } ∧
      Sheet.telling.block? "word" = some
        { id := "word", opcode := "word"
          fields := Table.of [("WORD", { value := .text "input" })] } := by
  simp [Sheet.telling, Sheet.ofBlocks, Sheet.block?_insert, Block.telling]

theorem ask_answers : Primitive.Answers (Kit.asking.noting .all) .all
    (fun _ => do return .promise (← Action.openPromise .pending)) := by
  intro args c htarget
  exact ⟨.promise c.machine.promises.length, { c with machine := { c.machine with
    promises := c.machine.promises ++ [.pending] } }, 0, nofun, rfl, htarget, rfl, fun fuel => rfl⟩

theorem word_answers : Primitive.Answers (Kit.asking.noting .all) .all
    (fun args => return .value (args.get "WORD")) := by
  intro args c htarget
  exact ⟨.value (args.get "WORD"), c, 0, nofun, rfl, htarget, rfl, fun fuel => rfl⟩

theorem telling_trees (h : Block.telling.inputBlock? name = some input) :
    ReporterTree Kit.asking .all Sheet.telling input := by
  obtain ⟨-, hask, hword⟩ := telling_blocks
  have hnone : ∀ k : String, (∅ : Table Slot)[k]? = none := fun k => Std.TreeMap.getElem?_emptyc
  have hleaf : ∀ (k : String) (id : BlockId) {b : Block}, b.inputs = ∅ → b.inputBlock? k = some id →
      False := by
    intro k id b hb hid
    simp [Block.inputBlock?, hb] at hid
  rcases telling_inputs h with rfl | rfl
  · refine .reporter hask rfl rfl rfl (fun k hk => ?_) ask_answers fun k id _ hid => ?_
    · rfl
    · exact (hleaf k id rfl hid).elim
  · refine .reporter hword rfl rfl rfl (fun k hk => ?_) word_answers fun k id _ hid => ?_
    · simp at hk
    · exact (hleaf k id rfl hid).elim

/-- The word and the answer are said, each reporter being called once. -/
theorem telling_block_resumes :
    ∃ n s' es args,
      Turn.Calls (Kit.asking.noting .all) "say" .telling
        (Journal.all.noting fun _ => return .nothing)
        args (Turn.telling n) s' ∧
      Gathers (Kit.asking.noting .all) .telling (Delivered Turn.telling) .telling ["ASK", "MESSAGE"]
        (.ofFields "say" none ∅) es args ∧
      s'.machine.host = es.map fun e => (e.args, e.reported) := by
  obtain ⟨n, s', es, args, hcalls, -, hinputs, hnotes⟩ := suspended_block_resumes .all Kit.asking
    (s := Turn.telling) rfl rfl rfl rfl rfl (fun k => Std.TreeMap.getElem?_emptyc) telling_blocks.1
    rfl (fun k _ => Std.TreeMap.getElem?_emptyc) (fun _ _ _ h => telling_trees h)
    Turn.telling_timing
  exact ⟨n, s', es, args, hcalls, hinputs, hnotes⟩

end BlockMachine

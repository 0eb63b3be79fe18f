import BlockMachine.Library.Core
import BlockMachine.Proofs.Code.Monad
import BlockMachine.Proofs.Table
import BlockMachine.Proofs.Turn.Call
import BlockMachine.Proofs.Turn.Fuel
import BlockMachine.Proofs.Turn.Time
import Mathlib.Data.List.Nodup
import Mathlib.Data.List.Perm.Subperm
import Mathlib.Data.List.ReduceOption
import Std.Data.String.ToNat

/-!
# Branches of blocks that are called through their primitive

The interpreter looks a branch up when a block asks for it; compiled code carries the branches of
the block, compiled beforehand. The two agree on the `n`th branch if the slots before it are all
there and its own slot is not left to a shadow (`Block.Carries`); otherwise compiled code has no
such branch.

The module is about `Context.primitiveCall` and `Turn.callOnce`.

## Results

* `Context.primitiveCall_last`: what a call carries.
* `primitive_call_runs_branch`: the branch that a visit of the call enters.
* `branch_behind_gap_left_out`: a second branch without a first one.

Left out are blocks with a lowering, whose branches are jumped to.
-/

namespace BlockMachine

open List

variable {σ : Type} {b : Block} {d d' : Draft} {n i : Nat}

/-! ## The slots of the branches -/

theorem branchSlot_injective {m : Nat} (hm : 1 ≤ m) (hn : 1 ≤ n) (h : branchSlot m = branchSlot n) :
    m = n := by
  have hrepr (k : Nat) : "SUBSTACK" ≠ "SUBSTACK" ++ Nat.repr k := fun heq => by
    have hlength := congrArg String.length heq
    rw [String.length_append, Nat.left_eq_add] at hlength
    exact Nat.repr_ne_empty (String.length_eq_zero_iff.mp hlength)
  unfold branchSlot at h
  split at h <;> split at h
  · omega
  · exact absurd h (hrepr n)
  · exact absurd h.symm (hrepr m)
  · exact Nat.repr_injective (String.append_right_inj "SUBSTACK" |>.mp h)

/-- What is left of a list of options up to the first gap. -/
theorem getElem?_reduce_takeWhile {α : Type} {l : List (Option α)} {a : α} :
    (l.takeWhile Option.isSome).reduceOption[i]? = some a ↔
      (∀ j < i, ∃ x, l[j]? = some (some x)) ∧ l[i]? = some (some a) := by
  induction l generalizing i with
  | nil => simp [reduceOption_nil]
  | cons o l ih =>
    cases o with
    | none =>
      rw [takeWhile_cons_of_neg (by simp), reduceOption_nil]
      refine ⟨nofun, fun ⟨hbefore, hi⟩ => ?_⟩
      cases i with
      | zero => cases hi
      | succ i =>
        obtain ⟨x, hx⟩ := hbefore 0 (Nat.succ_pos i)
        cases hx
    | some x =>
      rw [takeWhile_cons_of_pos rfl, reduceOption_cons_of_some]
      cases i with
      | zero => simp
      | succ i =>
        rw [getElem?_cons_succ, getElem?_cons_succ, ih]
        refine and_congr_left fun _ => ⟨fun h j hj => ?_, fun h j hj => ?_⟩
        · cases j with
          | zero => exact ⟨x, rfl⟩
          | succ j => exact h j (Nat.lt_of_succ_lt_succ hj)
        · exact h (j + 1) (Nat.succ_lt_succ hj)

namespace Block

/-- A block has at least as many inputs as branches that are numbered without a gap. -/
theorem le_size_inputs (h : ∀ j < n, (b.inputs[branchSlot (j + 1)]?).isSome) :
    n ≤ b.inputs.size := by
  have hnodup : ((range n).map fun j => branchSlot (j + 1)).Nodup := by
    refine List.Nodup.map_on (fun i _ j _ hij => ?_) nodup_range
    exact Nat.succ.inj (branchSlot_injective (Nat.succ_pos i) (Nat.succ_pos j) hij)
  have hsubset : ((range n).map fun j => branchSlot (j + 1)) ⊆ b.inputs.keys := by
    intro name hname
    obtain ⟨j, hj, rfl⟩ := mem_map.mp hname
    rw [Std.TreeMap.mem_keys, Std.TreeMap.mem_iff_isSome_getElem?]
    exact h j (mem_range.mp hj)
  have hle := (subperm_of_subset hnodup hsubset).length_le
  rwa [length_map, length_range, Std.TreeMap.length_keys] at hle

/-- The branches that are compiled are those before the first slot that is missing. -/
theorem getElem?_branches {slot : Slot} :
    b.branches[i]? = some slot ↔
      (∀ j < i, (b.inputs[branchSlot (j + 1)]?).isSome) ∧
        b.inputs[branchSlot (i + 1)]? = some slot := by
  have hentry (j : Nat) (x : Slot) :
      ((range b.inputs.size).map fun i => b.inputs[branchSlot (i + 1)]?)[j]? = some (some x) ↔
        j < b.inputs.size ∧ b.inputs[branchSlot (j + 1)]? = some x := by
    rw [getElem?_map, Option.map_eq_some_iff]
    constructor
    · rintro ⟨k, hk, hx⟩
      obtain ⟨hj, rfl⟩ := List.getElem?_eq_some_iff.mp hk
      rw [getElem_range] at hx
      exact ⟨by rwa [length_range] at hj, hx⟩
    · rintro ⟨hj, hx⟩
      exact ⟨j, getElem?_range hj, hx⟩
  unfold Block.branches
  rw [getElem?_reduce_takeWhile]
  simp only [hentry]
  constructor
  · rintro ⟨hbefore, -, hi⟩
    refine ⟨fun j hj => ?_, hi⟩
    obtain ⟨x, -, hx⟩ := hbefore j hj
    rw [hx]
    rfl
  · rintro ⟨hbefore, hi⟩
    have hsize : i + 1 ≤ b.inputs.size := by
      refine le_size_inputs fun j hj => ?_
      rcases Nat.lt_succ_iff_lt_or_eq.mp hj with hlt | rfl
      · exact hbefore j hlt
      · rw [hi]
        rfl
    refine ⟨fun j hj => ?_, hsize, hi⟩
    obtain ⟨x, hx⟩ := Option.isSome_iff_exists.mp (hbefore j hj)
    exact ⟨x, by omega, hx⟩

/-- The slots before the `n`th branch are all there, and the slot of the branch is not left to a
shadow. -/
def Carries (b : Block) (n : Nat) : Prop :=
  (∀ m, 1 ≤ m → m < n → (b.inputs[branchSlot m]?).isSome) ∧
    ∀ slot, b.inputs[branchSlot n]? = some slot → slot.block = none → slot.shadow = none

end Block

/-! ## Compiled branches -/

/-- A script is what a stack was compiled to, at some point of the compilation. -/
def Context.Compiles (ctx : Context σ) (D : Descent σ) (name : String) (first : BlockId)
    (s : Script) : Prop :=
  ∃ d d' : Draft, ctx.script D name (some first) d = .ok (s, d')

/-- The branch that is entered when the `n`th is asked for. -/
def PrimitiveCall.fragment? (c : PrimitiveCall Script) (n : Nat) : Option Script :=
  if n == 0 then none else (c.branches[n - 1]?).join

namespace Context

open Compile

variable {ctx : Context σ} {D : Descent σ}

/-- What is compiled for a slot: its stack, or nothing where no stack is plugged in. -/
def Fragment (ctx : Context σ) (D : Descent σ) (name : String) (slot : Slot) : Option Script → Prop
  | some s => ∃ first, slot.block = some first ∧ ctx.Compiles D name first s
  | none => slot.block = none

theorem getElem?_fragments {opcode : String} {slots : List Slot} {bs : List (Option Script)}
    (h : ctx.fragments D opcode n slots d = .ok (bs, d')) :
    bs.length = slots.length ∧ ∀ i slot, slots[i]? = some slot →
      ∃ o, bs[i]? = some o ∧ ctx.Fragment D (opcode ++ " branch " ++ Nat.repr (n + i)) slot o := by
  induction slots generalizing n d d' bs with
  | nil =>
    simp only [fragments, pure_ok] at h
    obtain ⟨rfl, rfl⟩ := h
    exact ⟨rfl, nofun⟩
  | cons slot slots ih =>
    have hcons : ∃ o rest d₁, ctx.Fragment D (opcode ++ " branch " ++ Nat.repr n) slot o ∧
        ctx.fragments D opcode (n + 1) slots d₁ = .ok (rest, d') ∧ bs = o :: rest := by
      unfold fragments at h
      cases hs : slot.block with
      | none =>
        simp only [hs, bind_ok, pure_ok] at h
        obtain ⟨_, d₁, ⟨rfl, rfl⟩, rest, _, hrest, rfl, rfl⟩ := h
        exact ⟨none, rest, _, hs, hrest, rfl⟩
      | some first =>
        simp only [hs, bind_ok, pure_ok] at h
        obtain ⟨s, d₁, hscript, _, _, ⟨rfl, rfl⟩, rest, _, hrest, rfl, rfl⟩ := h
        exact ⟨some s, rest, d₁, ⟨first, hs, d, d₁, hscript⟩, hrest, rfl⟩
    obtain ⟨o, rest, d₁, hfirst, hrest, rfl⟩ := hcons
    obtain ⟨hlength, hrest⟩ := ih hrest
    refine ⟨congrArg (· + 1) hlength, fun i slot' hslot => ?_⟩
    cases i with
    | zero =>
      cases hslot
      exact ⟨o, rfl, hfirst⟩
    | succ i =>
      obtain ⟨o', ho', hfragment⟩ := hrest i slot' hslot
      exact ⟨o', ho', by rwa [Nat.add_right_comm, Nat.add_assoc] at hfragment⟩

/-- The call of a block's primitive comes last in the code of the block. -/
theorem primitiveCall_last {dest : Option Nat} {code : Code}
    (h : ctx.primitiveCall D b dest d = .ok (code, d')) :
    ∃ (pre : Code) (call : PrimitiveCall Script) (d₁ : Draft), code = pre ++ [.primitive call] ∧
      call.opcode = b.opcode ∧ call.block = b.id ∧
      ctx.fragments D b.opcode 1 b.branches d₁ = .ok (call.branches, d') := by
  simp only [primitiveCall, bind_ok, pure_ok] at h
  obtain ⟨⟨pre, args⟩, d₁, hargs, bs, d₂, hbs, rfl, rfl⟩ := h
  exact ⟨pre, _, d₁, rfl, rfl, rfl, hbs⟩

/-- **Which branches compiled code carries.** A branch whose slot and the slots before are there is
compiled if a stack is plugged into it; no other is. -/
theorem fragment?_of_fragments {call : PrimitiveCall Script}
    (h : ctx.fragments D b.opcode 1 b.branches d = .ok (call.branches, d')) (hn : 1 ≤ n) :
    (b.Carries n → ∀ first, b.inputBlock? (branchSlot n) = some first →
      ∃ s, call.fragment? n = some s ∧
        ctx.Compiles D (b.opcode ++ " branch " ++ Nat.repr n) first s) ∧
    (¬ b.Carries n ∨ b.inputBlock? (branchSlot n) = none → call.fragment? n = none) := by
  obtain ⟨i, rfl⟩ : ∃ i, n = i + 1 := ⟨n - 1, by omega⟩
  obtain ⟨hlength, hfragments⟩ := getElem?_fragments h
  have hfragment : call.fragment? (i + 1) = (call.branches[i]?).join := rfl
  constructor
  · rintro ⟨hbefore, hshadow⟩ first hfirst
    obtain ⟨slot, hslot, hfilled⟩ := Option.bind_eq_some_iff.mp hfirst
    have hbranch : b.branches[i]? = some slot :=
      Block.getElem?_branches.mpr ⟨fun j hj => hbefore (j + 1) (by omega) (by omega), hslot⟩
    obtain ⟨o, ho, hcompiled⟩ := hfragments i slot hbranch
    rw [Nat.add_comm 1 i] at hcompiled
    cases hblock : slot.block with
    | none =>
      rw [Slot.filled?, hblock, hshadow slot hslot hblock] at hfilled
      cases hfilled
    | some id =>
      rw [Slot.filled?, hblock] at hfilled
      cases hfilled
      cases o with
      | none => cases hcompiled.symm.trans hblock
      | some s =>
        obtain ⟨id', hid, hs⟩ := hcompiled
        cases hid.symm.trans hblock
        exact ⟨s, by rw [hfragment, ho]; rfl, hs⟩
  · intro hnot
    rw [hfragment]
    cases hbranch : b.branches[i]? with
    | none =>
      have : call.branches[i]? = none := by
        rw [List.getElem?_eq_none_iff] at hbranch ⊢
        omega
      rw [this]
      rfl
    | some slot =>
      obtain ⟨o, ho, hcompiled⟩ := hfragments i slot hbranch
      obtain ⟨hbefore, hslot⟩ := Block.getElem?_branches.mp hbranch
      rw [ho]
      cases o with
      | none => rfl
      | some s =>
        obtain ⟨first, hfirst, -⟩ := hcompiled
        rcases hnot with hnot | hnone
        · refine absurd ⟨fun m hm hlt => ?_, fun slot' hslot' hblock => ?_⟩ hnot
          · obtain ⟨j, rfl⟩ : ∃ j, m = j + 1 := ⟨m - 1, by omega⟩
            exact hbefore j (by omega)
          · cases hslot.symm.trans hslot'
            cases hfirst.symm.trans hblock
        · rw [Block.inputBlock?, hslot] at hnone
          change slot.filled? = none at hnone
          rw [Slot.filled?, hfirst] at hnone
          cases hnone

end Context

/-! ## Entering a branch -/

/-- The thread goes on in a branch, on top of the frames it had. -/
structure Turn.EntersFragment (script : Script) (isLoop : Bool) (s s' : Turn σ) : Prop where
  cursor : s'.thread.cursor? = some { script, kind := .branch isLoop }
  depth : s'.thread.depth = s.thread.depth + 1

namespace Turn

open Exec

variable {kit : Kit σ} {go : Exec (Turn σ) Unit} {primitive : Primitive σ} {args : Args}
  {scratch : Scratch} {n : Nat} {isLoop : Bool}

theorem yieldPoint_thread (s : Turn σ) :
    ∃ f s', yieldPoint s = some (.ok f, s') ∧ s'.thread = s.thread :=
  ⟨if s.goesOn.1 then .go else .pause, s.goesOn.2, rfl, goesOn_thread s⟩

/-- A branch that is there is entered; otherwise no frame is put on the stack. -/
theorem enterFragment_enters (call : PrimitiveCall Script) (pc : Nat) (scratch : Scratch) (n : Nat)
    (isLoop : Bool) (s : Turn σ) :
    ∃ f s', enterFragment call pc scratch n isLoop s = some (.ok f, s') ∧
      (∀ script, call.fragment? n = some script → EntersFragment script isLoop s s') ∧
      (call.fragment? n = none → s'.thread.depth = s.thread.depth) := by
  let s₁ : Turn σ := { s with thread := s.thread.onCursor fun c =>
    if isLoop then { c with scratches := c.scratches.insert pc scratch } else c.advance }
  have hdepth : s₁.thread.depth = s.thread.depth := length_modifyHead
  have hstep : enterFragment call pc scratch n isLoop s =
      (match call.fragment? n with
        | some body =>
          (do onThread (·.enter body (.branch isLoop)); return .go : Exec (Turn σ) Flow)
        | none => if isLoop then yieldPoint else return .go) s₁ := by
    cases isLoop <;> rfl
  rw [hstep]
  cases hfragment : call.fragment? n with
  | some body =>
    refine ⟨.go, _, rfl, fun script hscript => ?_, nofun⟩
    cases hscript
    exact ⟨rfl, congrArg (· + 1) hdepth⟩
  | none =>
    cases isLoop with
    | false => exact ⟨.go, s₁, rfl, nofun, fun _ => hdepth⟩
    | true =>
      obtain ⟨f, s', hpoint, hthread⟩ := yieldPoint_thread s₁
      exact ⟨f, s', hpoint, nofun, fun _ => by rw [hthread, hdepth]⟩

/-- What a primitive that asks for a branch leads to, if it does nothing else that ends the
visit. -/
theorem callOnce_branch (call : PrimitiveCall Script) (pc : Nat) {s : Turn σ} {c : Call σ}
    {reported : Reported}
    (hrun : Call.run kit go (.compiled s.thread.isWarp) (primitive args) { s with scratch } =
      some (.ok reported, c))
    (hbranch : c.branch = some (n, isLoop)) (hstatus : c.thread.status = .running)
    (hleaves : c.leaves = false) (hvalue : ∀ promise, reported ≠ .promise promise) :
    c.thread.depth = s.thread.depth ∧
      callOnce kit go call pc primitive args s.thread.depth scratch s =
        (After.flow <$> enterFragment call pc c.scratch n isLoop) c.toTurn := by
  have hdepth : c.thread.depth = s.thread.depth := by
    have hcalled := Call.run_called kit go s.thread.isWarp (primitive args) _ _ _ hrun
    rcases hcalled.outcome with ⟨-, hended, -⟩ | ⟨⟨g, -, hstack⟩, -⟩
    · exact absurd hstatus hended
    · exact (congrArg length hstack).trans length_modifyHead
  refine ⟨hdepth, ?_⟩
  unfold callOnce
  rw [getThread_andThen]
  refine (@andThen_ok _ _ _ _ c.toTurn (reported, c) _ _ ?_).trans ?_
  · show (Call.run kit go (.compiled s.thread.isWarp) (primitive args) { s with scratch } >>= _) = _
    rw [hrun]
    rfl
  dsimp only
  rw [getThread_andThen, if_neg (by simp [hstatus, hdepth]), if_neg (by simp [hleaves])]
  cases reported with
  | promise promise => exact absurd rfl (hvalue promise)
  | nothing | value v =>
    rw [if_neg (by simp [hstatus]), if_neg (by simp [hstatus])]
    simp only [hbranch]

end Turn

/-- **A block that is called through its primitive runs the branch that it asks for.** Take a block
with a primitive and no instructions of its own, compiled as a statement or as a reporter, and a
visit of its call that asks for the `n`th branch and neither ends the thread, nor leaves the script,
nor gives way, nor waits. If the slots before that branch are there and its own is not left to a
shadow, the thread goes on in the compiled form of the branch that the interpreter would enter, and
in no other frame if the interpreter would find none. Otherwise it enters no branch at all. -/
theorem primitive_call_runs_branch {ctx : Context σ} {depth pc : Nat} {code : Code}
    (hb : ctx.sheet.block? b.id = some b) (hprimitive : ctx.catalog.hasPrimitive b.opcode = true)
    (hplain : ctx.catalog.lowering? b.opcode = none)
    (hcode : ctx.statementWith (.ofDepth depth) pc b d = .ok (code, d') ∨
      ∃ o, Context.literal? b = none ∧
      ctx.reporterWith (.ofDepth depth) b d = .ok ((code, o), d')) :
    ∃ (pre : Code) (call : PrimitiveCall Script), code = pre ++ [.primitive call] ∧
      call.opcode = b.opcode ∧ call.block = b.id ∧
      ∀ (kit : Kit σ) (go : Exec (Turn σ) Unit) (index : Nat) (primitive : Primitive σ)
        (args : Args) (scratch : Scratch) (s : Turn σ) {c : Call σ} {reported : Reported} {n : Nat}
        {isLoop : Bool},
        Call.run kit go (.compiled s.thread.isWarp) (primitive args) { s with scratch } =
          some (.ok reported, c) →
        c.branch = some (n, isLoop) → 1 ≤ n → c.thread.status = .running → c.leaves = false →
        (∀ promise, reported ≠ .promise promise) →
        ∃ f s', Turn.callOnce kit go call index primitive args s.thread.depth scratch s =
            some (.ok (.flow f), s') ∧
          (b.Carries n → match ctx.sheet.branch? b.id n with
            | some first => ∃ script, ctx.Compiles (.ofDepth depth)
                (b.opcode ++ " branch " ++ Nat.repr n) first script ∧
                  Turn.EntersFragment script isLoop s s'
            | none => s'.thread.depth = s.thread.depth) ∧
          (¬ b.Carries n → s'.thread.depth = s.thread.depth) := by
  have hcall : ∃ dest d₀, ctx.primitiveCall (.ofDepth depth) b dest d₀ = .ok (code, d') := by
    rcases hcode with hcode | ⟨o, hliteral, hcode⟩
    · unfold Context.statementWith at hcode
      rw [hplain] at hcode
      dsimp only at hcode
      rw [if_pos hprimitive] at hcode
      exact ⟨none, d, hcode⟩
    · unfold Context.reporterWith at hcode
      rw [hliteral, hplain] at hcode
      dsimp only at hcode
      rw [if_pos hprimitive] at hcode
      simp only [Compile.bind_ok, Compile.pure_ok, Prod.mk.injEq] at hcode
      obtain ⟨slot, d₁, -, code', d₂, hcode, ⟨rfl, -⟩, rfl⟩ := hcode
      exact ⟨some slot, d₁, hcode⟩
  obtain ⟨dest, d₀, hcall⟩ := hcall
  obtain ⟨pre, call, d₁, rfl, hopcode, hid, hfragments⟩ := Context.primitiveCall_last hcall
  refine ⟨pre, call, rfl, hopcode, hid, ?_⟩
  intro kit go index primitive args scratch s c reported n isLoop hrun hbranch hn hstatus
    hleaves hvalue
  obtain ⟨hfound, hmissing⟩ := Context.fragment?_of_fragments hfragments hn
  obtain ⟨hdepth, honce⟩ := Turn.callOnce_branch call index hrun hbranch hstatus hleaves hvalue
  obtain ⟨f, s', henter, henters, hnone⟩ := Turn.enterFragment_enters call index c.scratch n isLoop
    c.toTurn
  have hlookup : ctx.sheet.branch? b.id n = b.inputBlock? (branchSlot n) := by
    rw [Sheet.branch?, hb]
    rfl
  refine ⟨f, s', ?_, fun hcarries => ?_, fun hnot => (hnone (hmissing (.inl hnot))).trans hdepth⟩
  · rw [honce]
    exact Exec.andThen_ok henter
  · rw [hlookup]
    cases hinput : b.inputBlock? (branchSlot n) with
    | none => exact (hnone (hmissing (.inr hinput))).trans hdepth
    | some first =>
      obtain ⟨script, hscript, hcompiles⟩ := hfound hcarries first hinput
      obtain ⟨hcursor, hframes⟩ := henters script hscript
      exact ⟨script, hcompiles, hcursor, hframes.trans (congrArg (· + 1) hdepth)⟩

/-! ## A block that asks for its second branch -/

/-- A block with a branch in each of these slots. -/
def Block.picking (slots : List String) : Block where
  id := "pick"
  opcode := "pick"
  inputs := Table.of (slots.map fun name => (name, { block := some "mark" }))

/-- The branch sets a variable. -/
def Sheet.picking (slots : List String) : Sheet :=
  .ofBlocks [
    .picking slots,
    { id := "mark", opcode := "data_setvariableto",
      fields := Table.of [("VARIABLE", { value := .text "marked" })],
      inputs := Table.of [("VALUE", { block := some "yes" })] },
    { id := "yes", opcode := "operator_not" }]

/-- Enters the second branch. -/
def Primitive.second : Primitive Unit := fun _ => do
  Action.startBranch 2 false
  return .nothing

/-- A kit in which `pick` enters the second branch. -/
def Kit.picking : Kit Unit :=
  { Library.core.union
    { primitive? := fun opcode => if opcode == "pick" then some .second else none } with }

/-- A machine with a variable for the mark. -/
def Machine.picking (sheet : Sheet) : Machine Unit where
  targets := .ofList [(0, { Target.stage sheet with
    vars := Table.of [("marked",
      { id := "marked", name := "marked", content := .scalar .empty })] })]
  stage := some 0
  host := ()

/-- The variable after a turn of the script, run by the interpreter or as compiled code. -/
def Sheet.marks (sheet : Sheet) (program : Option Program) : Option String := do
  let t := { Thread.start 0 0 "pick" sheet with program }
  let s ← Turn.visit .picking 9 ⟨.picking sheet, t.enterProgram?.getD t⟩
  let stage ← s.machine.targets[0]?
  let v ← stage.vars["marked"]?
  return v.get.toText

/-- Where the slot of the first branch is missing, the second is found by the interpreter and left
out of compiled code. -/
theorem branch_behind_gap_left_out :
    (Sheet.picking ["SUBSTACK2"]).branch? "pick" 2 = some "mark" ∧
    (Sheet.picking ["SUBSTACK2"]).marks none = some "true" ∧
    (Sheet.picking ["SUBSTACK2"]).marks
      ((Sheet.picking ["SUBSTACK2"]).compile Kit.picking.toCatalog "pick").toOption = some "" := by
  decide +kernel

theorem picking_carries : (Block.picking ["SUBSTACK", "SUBSTACK2"]).Carries 2 := by
  have hslots : (Block.picking ["SUBSTACK", "SUBSTACK2"]).inputs[branchSlot 1]?.isSome ∧
      (Block.picking ["SUBSTACK", "SUBSTACK2"]).inputs[branchSlot 2]? =
        some { block := some "mark" } := by
    decide +kernel
  refine ⟨fun m hm hlt => ?_, fun slot hslot hblock => ?_⟩
  · obtain rfl : m = 1 := by omega
    exact hslots.1
  · cases hslots.2.symm.trans hslot
    cases hblock

/-- A thread at the block, with both of its branches. -/
def Turn.picking : Turn Unit :=
  ⟨.picking (.picking ["SUBSTACK", "SUBSTACK2"]),
    .start 0 0 "pick" (.picking ["SUBSTACK", "SUBSTACK2"])⟩

/-- With both slots compiled code enters the second branch. -/
theorem second_branch_entered :
    ∃ (call : PrimitiveCall Script) (f : Turn.Flow) (s' : Turn Unit) (script : Script),
      Turn.callOnce .picking (Turn.execute .picking 0) call 0 .second (.ofFields "pick" none ∅) 1 {}
        .picking = some (.ok (.flow f), s') ∧
      Context.Compiles
        { catalog := Kit.picking.toCatalog, sheet := .picking ["SUBSTACK", "SUBSTACK2"] }
        (.ofDepth 3) "pick branch 2" "mark" script ∧
      Turn.EntersFragment script false .picking s' := by
  let slots := ["SUBSTACK", "SUBSTACK2"]
  let ctx : Context Unit := { catalog := Kit.picking.toCatalog, sheet := .picking slots }
  have hb : ctx.sheet.block? "pick" = some (.picking slots) := by
    simp [ctx, Sheet.picking, Sheet.ofBlocks, Sheet.block?_insert, Block.picking]
  have hbranch : ctx.sheet.branch? "pick" 2 = some "mark" := by decide +kernel
  obtain ⟨⟨code, d'⟩, hcode⟩ :
      ∃ r, ctx.statementWith (.ofDepth 3) 0 (.picking slots) {} = .ok r := by
    have hok : (ctx.statementWith (.ofDepth 3) 0 (.picking slots) {}).toOption.isSome := by
      decide +kernel
    cases h : ctx.statementWith (.ofDepth 3) 0 (.picking slots) {} with
    | error e => simp [h, Except.toOption] at hok
    | ok r => exact ⟨r, rfl⟩
  obtain ⟨pre, call, -, -, -, hruns⟩ := primitive_call_runs_branch hb rfl rfl (.inl hcode)
  obtain ⟨f, s', honce, hentered, -⟩ := hruns .picking (Turn.execute .picking 0) 0 .second
    (.ofFields "pick" none ∅) {} .picking rfl rfl (by decide) rfl rfl nofun
  have hmatch := hentered picking_carries
  rw [show (Block.picking slots).id = "pick" from rfl, hbranch] at hmatch
  obtain ⟨script, hcompiles, henters⟩ := hmatch
  exact ⟨call, f, s', script, honce, hcompiles, henters⟩

end BlockMachine

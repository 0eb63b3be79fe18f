import BlockMachine.Library.Core
import BlockMachine.Proofs.Code.Calls
import Mathlib.Logic.Relation

/-!
# Compilation comes to an end and takes up each body once

Blocks lead to the next block and to the blocks in their slots. If they never lead in a circle, a
compilation goes down only so far: along a chain of blocks every block is met once, and a chain goes
on in the body of a procedure only if that was not met before. So the depth that is allowed suffices
(`Descent.deep`), whatever the calls between the procedures are.

The module is about `Sheet.compile` and the descent `Descent.ofDepth`.

## Results

* `Descent.deep`: the depth suffices for the blocks that follow and the procedures to come.
* `procedures_compiled_once`: no compilation is cut off, and no body is taken up twice.

Left out are sheets whose blocks lead in a circle, where compilation gives up.
-/

namespace BlockMachine

open List

variable {σ : Type} {ctx : Context σ} {D : Descent σ} {b : Block} {n pc : Nat} {p : Program}
  {first : Option BlockId} {id : BlockId} {s : Sheet} {key : ProcedureKey} {d : Draft}

/-- The computation collects what is reached by the calls of its result. -/
def Adds {α : Type} (s : Sheet) (n : Nat) (calls : α → ProcedureKey → Prop) (x : Compile α) :
    Prop :=
  ∀ before, Collects s n before (fun a k => before k ∨ calls a k) x

theorem Adds.alone {α : Type} {calls : α → ProcedureKey → Prop} {x : Compile α}
    (h : Adds s n calls x) (hfit : d.Fit s n) : HasCollected s n d calls (x d) := by
  have hdone := h (fun _ => False) d d hfit (.refl _ _)
  cases hx : x d with
  | error f =>
    rw [hx] at hdone
    exact hdone
  | ok r =>
    rw [hx] at hdone
    exact ⟨hdone.1, hdone.2.mono fun k hk => hk.resolve_left id⟩

/-- The calls of code that stands in front of an operand or of arguments. -/
def CallsBefore {α : Type} (r : Code × α) : ProcedureKey → Prop := CallsIn r.1

/-- The block leads to this stack. -/
def Block.LeadsTo (b : Block) (first : Option BlockId) : Prop :=
  first = b.next ∨ ∃ name, first = b.inputBlock? name

/-- A descent that is good for the parts of a block, with `n` procedures to come. -/
structure Descent.Serves (D : Descent σ) (s : Sheet) (n : Nat) (b : Block) : Prop where
  stack : ∀ (ctx : Context σ) (pc : Nat) (first : Option BlockId), ctx.sheet = s →
    b.LeadsTo first → Adds s n CallsIn (D.stack ctx pc first)
  reporter : ∀ (ctx : Context σ) (name : String) (id : BlockId) (c : Block), ctx.sheet = s →
    b.inputBlock? name = some id → s.block? id = some c → Adds s n CallsBefore (D.reporter ctx c)
  body : ∀ m, m < n → ∀ (ctx : Context σ) (first : Option BlockId), ctx.sheet = s →
    Adds s m CallsIn (D.stack ctx 0 first)

open Collects

/-- A signature that cannot be read is an error of its own. -/
theorem Sheet.signature?_error {proccode : String} {e : CompileError}
    (h : s.signature? proccode = .error e) :
    e ≠ .endless := by
  unfold signature? at h
  split at h
  · cases h
  · split at h
    · cases h
    · cases h
      simp

section Lowering

variable (hD : D.Serves ctx.sheet n b)

include hD

namespace Context

omit hD in
theorem script_adds (name : String) (h : Adds s n CallsIn (D.stack ctx 0 first)) :
    Adds s n Script.Calls (ctx.script D name first) := by
  intro before
  refine andThen reads fun d => andThen (setLocals 0) fun _ => andThen (h before) fun code =>
    andThen reads fun d' => andThen (setLocals _) fun _ => returns fun k hk => ?_
  rwa [Script.calls_iff, toList_toArray]

theorem input_adds (name : String) : Adds ctx.sheet n CallsBefore (ctx.input D b name) := by
  intro before
  unfold input
  cases hid : b.inputBlock? name with
  | none => exact returns fun k => .inl
  | some id => exact finds fun c hc => hD.reporter ctx name id c rfl hid hc before

theorem substack_adds (pc : Nat) (name : String) :
    Adds ctx.sheet n CallsIn (ctx.substack D pc b name) :=
  hD.stack ctx pc _ rfl (.inr ⟨name, rfl⟩)

theorem arguments_adds (names : List String) :
    Adds ctx.sheet n CallsBefore (ctx.arguments D b names) := by
  induction names with
  | nil => exact fun before => returns fun k => .inl
  | cons name names ih =>
    intro before
    unfold arguments
    split
    · exact ih before
    · refine andThen (input_adds hD name before) fun r => andThen (ih _) fun r' =>
        returns fun k hk => ?_
      simpa [CallsBefore, or_assoc] using hk

omit hD in
theorem branch_leads {slot : Slot} (hslot : slot ∈ b.branches) (hid : slot.block = some id) :
    b.LeadsTo (some id) := by
  obtain ⟨i, hi⟩ : ∃ i, b.inputs[branchSlot i]? = some slot := by
    have hmem := (List.takeWhile_prefix _).subset (reduceOption_mem_iff.mp hslot)
    obtain ⟨i, -, hi⟩ := mem_map.mp hmem
    exact ⟨_, hi⟩
  refine .inr ⟨branchSlot i, ?_⟩
  simp [Block.inputBlock?, hi, Slot.filled?, hid]

theorem fragments_adds (opcode : String) (slots : List Slot)
    (hslots : ∀ slot ∈ slots, slot ∈ b.branches) :
    ∀ i, Adds ctx.sheet n (fun bs k => ∃ s, some s ∈ bs ∧ s.Calls k)
      (ctx.fragments D opcode i slots) := by
  induction slots with
  | nil => exact fun i before => returns fun k => .inl
  | cons slot slots ih =>
    intro i before
    obtain ⟨hslot, hrest⟩ := forall_mem_cons.mp hslots
    unfold fragments
    cases hid : slot.block with
    | none =>
      simp only [pure_bind]
      refine andThen (ih hrest _ _) fun rest => returns fun k hk => ?_
      rcases hk with hk | ⟨s, hs, hc⟩
      · exact .inl hk
      · exact .inr ⟨s, mem_cons_of_mem _ hs, hc⟩
    | some id =>
      have hscript := script_adds (opcode ++ " branch " ++ Nat.repr i)
        (hD.stack ctx 0 _ rfl (branch_leads hslot hid))
      refine andThen (hscript before) fun s => ?_
      rw [pure_bind]
      refine andThen (ih hrest _ _) fun rest => returns fun k hk => ?_
      rcases hk with (hk | hc) | ⟨s', hs', hc⟩
      · exact .inl hk
      · exact .inr ⟨s, mem_cons_self, hc⟩
      · exact .inr ⟨s', mem_cons_of_mem _ hs', hc⟩

/-- The calls of a primitive are those of its inputs and branches. -/
theorem primitiveCall_adds (dest : Option Nat) :
    Adds ctx.sheet n CallsIn (ctx.primitiveCall D b dest) := by
  intro before
  refine andThen (arguments_adds hD _ before) fun r =>
    andThen (fragments_adds hD _ _ (fun _ h => h) _ _) fun branches => returns fun k hk => ?_
  simpa [CallsBefore, Instr.Calls, Instr.callee?, Instr.branches, reduceOption_mem_iff,
    or_assoc] using hk

/-- A procedure is in the table once it was asked for; its body is compiled with less to come. -/
theorem procedure_adds (proccode : String) (signature : Signature) :
    Adds ctx.sheet n (fun r k => r = some k) (ctx.procedure D proccode signature) := by
  intro before
  unfold procedure
  cases hdef : ctx.sheet.definition? proccode with
  | none => exact returns fun k => .inl
  | some definition =>
    intro d₀ d hfit hgrows
    let key : ProcedureKey := ⟨proccode, ctx.warp || signature.warp⟩
    show HasCollected _ _ _ _ ((if (d.body? key).isNone then _ else _ : Compile _) d)
    split
    · next hnew =>
      rw [Option.isNone_iff_eq_none] at hnew
      obtain ⟨m, hm, hfit'⟩ := hfit.takeUp hnew (Sheet.mem_keys hdef _)
      let inner : Context σ := { ctx with warp := key.warp, params := signature.names }
      unfold Context.block
      cases hb : ctx.sheet.block? definition with
      | none => exact ⟨by simp, hfit'.once⟩
      | some c =>
        have hbody := (script_adds ("procedure " ++ Text.quote proccode)
          (hD.body m hm inner c.next rfl)).alone hfit'
        show HasCollected _ _ _ _ ((inner.script D _ c.next >>= fun body =>
          modify (·.setBody key (some body)) >>= fun _ => pure (some key)) (d.setBody key none))
        refine hbody.andThen fun body d' hfit'' hgrown => ?_
        have hopen : d'.Open key := hgrown.kept key none (by rw [Draft.body?_setBody, if_pos rfl])
        exact ⟨(hfit''.finish hopen body).mono hm.le, (hgrows.trans (hgrown.procedure hnew)).mono
          fun k hk => hk.imp_right fun (h : k = key) => congrArg some h.symm⟩
    · exact ⟨hfit, hgrows.mono fun _ => .inl⟩

end Context

namespace Reporter

theorem unary_adds (name : String) (f : Operand → Operand) :
    Adds ctx.sheet n CallsBefore (unary ctx D b name f) :=
  fun before => andThen (Context.input_adds hD name before) fun _ => returns fun _ hk => hk

theorem binary_adds (first second : String) (f : Operand → Operand → Operand) :
    Adds ctx.sheet n CallsBefore (binary ctx D b first second f) := by
  intro before
  refine andThen (Context.input_adds hD first before) fun x =>
    andThen (Context.input_adds hD second _) fun y => returns fun k hk => ?_
  simpa [CallsBefore, or_assoc] using hk

theorem lower_adds (r : Reporter) : Adds ctx.sheet n CallsBefore (r.lower ctx D b) := by
  cases r
  all_goals rw [lower]
  case var | listText | listLength | timer | argument => exact fun before => returns fun k => .inl
  case listItem | listPosition | listContains | not | length | round | math =>
    exact unary_adds hD _ _
  case random | arithmetic | compare | and | or | join | includes | letter =>
    exact binary_adds hD _ _ _

end Reporter

namespace Statement

theorem simple_adds (name : String) (f : Operand → Instr Script) :
    Adds ctx.sheet n CallsIn (simple ctx D b name f) := by
  intro before
  refine andThen (Context.input_adds hD name before) fun r => returns fun k hk => ?_
  rw [callsIn_append]
  exact hk.imp_right .inl

theorem placing_adds (f : VarRef → Expr → Expr → Instr Script) :
    Adds ctx.sheet n CallsIn (placing ctx D b f) := by
  intro before
  refine andThen (Context.input_adds hD _ before) fun x =>
    andThen (Context.input_adds hD _ _) fun y =>
    returns fun k hk => ?_
  simp only [CallsBefore, callsIn_append] at hk ⊢
  tauto

theorem loop_adds (before : ProcedureKey → Prop) (pre : Code) (back : Nat)
    (exit : Nat → Instr Script) :
    Collects ctx.sheet n (fun k => before k ∨ CallsIn pre k)
      (fun code k => before k ∨ CallsIn code k) (loop ctx D b pc pre back exit) := by
  refine andThen (Context.substack_adds hD _ _ _) fun body => returns fun k hk => ?_
  simp only [callsIn_append, callsIn_cons] at hk ⊢
  tauto

theorem bindings_adds (ps : List ((String × String) × Option Value)) :
    Adds ctx.sheet n CallsBefore (bindings ctx D b ps) := by
  induction ps with
  | nil => exact fun before => returns fun k => .inl
  | cons p ps ih =>
    intro before
    obtain ⟨⟨id, name⟩, default?⟩ := p
    unfold bindings
    cases b.inputBlock? id with
    | none =>
      simp only [pure_bind]
      exact andThen (ih before) fun r => returns fun k hk => hk
    | some _ =>
      simp only [pure_bind]
      refine andThen (Context.input_adds hD id before) fun r => andThen (ih _) fun r' =>
        returns fun k hk => ?_
      simpa [CallsBefore, or_assoc] using hk

theorem calling_adds : Adds ctx.sheet n CallsIn (calling ctx D b) := by
  intro before
  unfold calling
  cases b.proccode? with
  | none => exact returns fun k => .inl
  | some proccode =>
    cases hsig : ctx.sheet.signature? proccode with
    | error e =>
      simp only [hsig]
      exact fails (Sheet.signature?_error hsig)
    | ok s =>
      simp only [hsig, pure_bind]
      refine andThen (Context.procedure_adds hD _ _ before) fun r => ?_
      cases r with
      | none => exact returns fun k hk => hk.imp_right fun h => by cases h
      | some key =>
        refine andThen (bindings_adds hD _ _) fun r => andThen reads fun d => returns fun k hk => ?_
        simp only [CallsBefore, callsIn_append, callsIn_cons, Instr.Calls, Instr.callee?] at hk ⊢
        tauto

theorem lower_adds (s : Statement) : Adds ctx.sheet n CallsIn (s.lower ctx D pc b) := by
  cases s
  all_goals rw [lower]
  case setVariable | addToList | deleteOfList | changeVariable | wait => exact simple_adds hD _ _
  case insertAtList | replaceInList => exact placing_adds hD _
  case clearList => exact fun before => returns fun k => .inl
  case stop =>
    intro before
    split
    · exact returns fun k => .inl
    · exact returns fun k => .inl
  case allAtOnce => exact Context.substack_adds hD pc _
  case call => exact calling_adds hD
  case forever =>
    intro before
    refine andThen (Context.substack_adds hD _ _ before) fun body => returns fun k hk => ?_
    rw [callsIn_append]
    exact hk.imp_right .inl
  case ifThen =>
    intro before
    refine andThen (Context.input_adds hD _ before) fun r => ?_
    cases hconst : r.2.expr.const? with
    | some v =>
      simp only [hconst]
      split
      · refine andThen (Context.substack_adds hD _ _ _) fun body => returns fun k hk => ?_
        simpa [CallsBefore, or_assoc] using hk
      · exact returns fun k hk => hk
    | none =>
      simp only [hconst]
      refine andThen (Context.substack_adds hD _ _ _) fun body => returns fun k hk => ?_
      simp only [CallsBefore, callsIn_append, callsIn_cons] at hk ⊢
      tauto
  case ifElse =>
    intro before
    refine andThen (Context.input_adds hD _ before) fun r =>
      andThen (Context.substack_adds hD _ _ _) fun body =>
      andThen (Context.substack_adds hD _ _ _) fun body' => returns fun k hk => ?_
    simp only [CallsBefore, callsIn_append, callsIn_cons] at hk ⊢
    tauto
  case repeatTimes =>
    intro before
    refine andThen (Context.input_adds hD _ before) fun r => andThen newSlot fun slot =>
      weaken (fun k hk => ?_) (loop_adds hD before _ _ _)
    rw [callsIn_append]
    exact hk.imp_right .inl
  case repeatUntil | repeatWhile =>
    intro before
    exact andThen (Context.input_adds hD _ before) fun r => loop_adds hD _ _ _ _
  case waitUntil =>
    intro before
    refine andThen (Context.input_adds hD _ before) fun r => returns fun k hk => ?_
    rw [callsIn_append]
    exact hk.imp_right .inl

end Statement

namespace Context

theorem reporterWith_adds : Adds ctx.sheet n CallsBefore (ctx.reporterWith D b) := by
  intro before
  unfold reporterWith
  split
  · exact returns fun k => .inl
  · split
    · exact Reporter.lower_adds hD _ before
    · exact fails (by simp)
    · split
      · exact andThen newSlot fun slot => andThen (primitiveCall_adds hD _ before) fun code =>
          returns fun k hk => hk
      · split
        · exact returns fun k => .inl
        · exact fails (by simp)

theorem statementWith_adds : Adds ctx.sheet n CallsIn (ctx.statementWith D pc b) := by
  intro before
  unfold statementWith
  split
  · exact Statement.lower_adds hD _ before
  · exact andThen (Reporter.lower_adds hD _ before) fun r => returns fun k hk => hk
  · split
    · exact primitiveCall_adds hD none before
    · split
      · exact returns fun k => .inl
      · exact fails (by simp)

omit hD in
theorem stackWith_adds (hD : ∀ id b, first = some id → ctx.sheet.block? id = some b →
    D.Serves ctx.sheet n b) :
    Adds ctx.sheet n CallsIn (ctx.stackWith D pc first) := by
  intro before
  cases first with
  | none => exact returns fun k => .inl
  | some id =>
    refine finds fun b hb => ?_
    have hserves := hD id b rfl hb
    refine andThen (statementWith_adds hserves before) fun code =>
      andThen (hserves.stack ctx _ _ rfl (.inl rfl) _) fun rest => returns fun k hk => ?_
    rwa [callsIn_append, ← or_assoc]

end Context
end Lowering

/-! ## Blocks that lead nowhere twice -/

/-- The blocks that a block leads to. -/
def Block.links (b : Block) : List BlockId :=
  b.next.toList ++ b.inputs.values.filterMap Slot.filled?

theorem Block.LeadsTo.mem_links (h : b.LeadsTo (some id)) : id ∈ b.links := by
  rcases h with hnext | ⟨name, hinput⟩
  · exact mem_append_left _ (by simp [← hnext])
  · obtain ⟨slot, hslot, hid⟩ := Option.bind_eq_some_iff.mp hinput.symm
    refine mem_append_right _ (mem_filterMap.mpr ⟨slot, ?_, hid⟩)
    rw [Table.values_eq]
    exact mem_map.mpr ⟨_, Std.TreeMap.mem_toList_iff_getElem?_eq_some.mpr hslot, rfl⟩

namespace Sheet

variable {s : Sheet} {id id' : BlockId}

/-- The first block is on the sheet and leads to the second one. -/
def Leads (s : Sheet) (id id' : BlockId) : Prop :=
  ∃ b, s.block? id = some b ∧ b.LeadsTo (some id')

/-- No block leads back to itself, through whatever others. -/
def Acyclic (s : Sheet) : Prop :=
  ∀ id, ¬ Relation.TransGen s.Leads id id

/-- The blocks of the sheet that a block leads to, with itself. -/
noncomputable def below (s : Sheet) (id : BlockId) : Finset BlockId :=
  open Classical in s.blocks.keys.toFinset.filter fun id' => Relation.ReflTransGen s.Leads id id'

theorem mem_below : id' ∈ s.below id ↔
    (s.block? id').isSome ∧ Relation.ReflTransGen s.Leads id id' := by
  unfold below block?
  simp

/-- How many blocks follow from a stack on. -/
noncomputable def height (s : Sheet) : Option BlockId → Nat
  | none => 0
  | some id => (s.below id).card

theorem height_le (first : Option BlockId) : s.height first ≤ s.blocks.size := by
  cases first with
  | none => exact Nat.zero_le _
  | some id =>
    have hsubset : s.below id ⊆ s.blocks.keys.toFinset := by
      classical exact Finset.filter_subset _ _
    calc (s.below id).card ≤ s.blocks.keys.toFinset.card := Finset.card_le_card hsubset
      _ ≤ s.blocks.keys.length := toFinset_card_le _
      _ = s.blocks.size := Std.TreeMap.length_keys

theorem height_lt (hs : s.Acyclic) (hb : s.block? id = some b) (hleads : b.LeadsTo first) :
    s.height first < s.height (some id) := by
  have hself : id ∈ s.below id := mem_below.mpr ⟨by simp [hb], .refl⟩
  cases first with
  | none => exact Finset.card_pos.mpr ⟨id, hself⟩
  | some id' =>
    have hstep : s.Leads id id' := ⟨b, hb, hleads⟩
    refine Finset.card_lt_card ((Finset.ssubset_iff_of_subset fun k hk => ?_).mpr ⟨id, hself, ?_⟩)
    · obtain ⟨hk, hpath⟩ := mem_below.mp hk
      exact mem_below.mpr ⟨hk, .head hstep hpath⟩
    · intro hback
      exact hs id (.head' hstep (mem_below.mp hback).2)

/-- Blocks that only lead to lower ranks do not lead in a circle. -/
theorem acyclic_of_rank (rank : BlockId → Nat)
    (h : ∀ p ∈ s.blocks.toList, ∀ id ∈ p.2.links, rank id < rank p.1) : s.Acyclic := by
  have hlt : ∀ {id id' : BlockId}, Relation.TransGen s.Leads id id' → rank id' < rank id := by
    intro id id' hpath
    have hstep : ∀ {a c : BlockId}, s.Leads a c → rank c < rank a := by
      intro a c hac
      obtain ⟨b, hb, hleads⟩ := hac
      exact h (_, b) (Std.TreeMap.mem_toList_iff_getElem?_eq_some.mpr hb) _ hleads.mem_links
    induction hpath with
    | single hleads => exact hstep hleads
    | tail _ hleads ih => exact (hstep hleads).trans ih
  exact fun id hcircle => Nat.lt_irrefl _ (hlt hcircle)

/-- There are blocks enough in the count to get past the hats. -/
theorem skipHats_not_endless (hs : s.Acyclic) (catalog : Catalog σ) :
    ∀ fuel first, s.height first < fuel → s.skipHats catalog fuel first ≠ .error .endless := by
  intro fuel
  induction fuel with
  | zero => exact fun first h => absurd h (Nat.not_lt_zero _)
  | succ fuel ih =>
    intro first h
    cases first with
    | none => simp [skipHats]
    | some id =>
      unfold skipHats
      cases hb : s.block? id with
      | none => simp
      | some b =>
        have hnext := height_lt hs hb (.inl rfl)
        dsimp only
        split
        · exact ih b.next (by omega)
        · simp

end Sheet

/-! ## The depth suffices -/

namespace Descent

variable {s : Sheet} {depth : Nat}

/-- The depth suffices for stacks and reporters from which on few blocks follow: as many as there
are on the sheet for each procedure to come. -/
structure Deep (σ : Type) (s : Sheet) (depth : Nat) : Prop where
  stack : ∀ (ctx : Context σ) (n pc : Nat) (first : Option BlockId), ctx.sheet = s →
    n * (s.blocks.size + 1) + s.height first < depth →
      Adds s n CallsIn (compileStack depth ctx pc first)
  reporter : ∀ (ctx : Context σ) (n : Nat) (id : BlockId) (b : Block), ctx.sheet = s →
    s.block? id = some b → n * (s.blocks.size + 1) + s.height (some id) < depth →
      Adds s n CallsBefore (compileReporter depth ctx b)

/-- One block further down there are fewer blocks to follow, and in a body fewer procedures to
come. -/
theorem Deep.serves (h : Deep σ s depth) (hs : s.Acyclic) (hb : s.block? id = some b)
    (hdepth : n * (s.blocks.size + 1) + s.height (some id) ≤ depth) :
    (⟨compileStack depth, compileReporter depth⟩ : Descent σ).Serves s n b where
  stack ctx pc first hctx hleads := by
    have hlt := Sheet.height_lt hs hb hleads
    exact h.stack ctx n pc first hctx (by omega)
  reporter ctx name id' c hctx hinput hc := by
    have hlt := Sheet.height_lt hs hb (.inr ⟨name, hinput.symm⟩)
    exact h.reporter ctx n id' c hctx hc (by omega)
  body m hm ctx first hctx := by
    have hle := Sheet.height_le (s := s) first
    have hmul : (m + 1) * (s.blocks.size + 1) ≤ n * (s.blocks.size + 1) := Nat.mul_le_mul_right _ hm
    rw [Nat.succ_mul] at hmul
    exact h.stack ctx m 0 first hctx (by omega)

theorem deep (hs : s.Acyclic) (depth : Nat) : Deep σ s depth := by
  induction depth with
  | zero => exact ⟨fun _ _ _ _ _ h => absurd h (Nat.not_lt_zero _),
      fun _ _ _ _ _ _ h => absurd h (Nat.not_lt_zero _)⟩
  | succ depth ih =>
    refine ⟨fun ctx n pc first hctx hlt => ?_, fun ctx n id b hctx hb hlt => ?_⟩
    · subst hctx
      rw [compileStack]
      refine Context.stackWith_adds fun id b hfirst hb => ih.serves hs hb ?_
      subst hfirst
      omega
    · subst hctx
      rw [compileReporter]
      exact Context.reporterWith_adds (ih.serves hs hb (by omega))

end Descent

namespace Sheet

variable {s : Sheet} {catalog : Catalog σ} {top : BlockId}

/-- The procedures whose bodies a compilation takes up, the latest first, whether it gives up or
not. -/
def bodiesBegun (s : Sheet) (catalog : Catalog σ) (top : BlockId) : List ProcedureKey :=
  match s.compileDraft catalog top with
  | .error f => f.begun
  | .ok (_, d) => d.begun

theorem fit_empty : Draft.Fit s (2 * s.blocks.size) {} where
  room := by
    calc _ ≤ s.keys.toFinset.card := Finset.card_le_card (Finset.filter_subset ..)
      _ ≤ s.keys.length := toFinset_card_le _
      _ ≤ 2 * s.blocks.size := s.length_keys
  once := nodup_nil
  logged key := by simp [Draft.Knows, Draft.body?]

theorem compileDraft_collects (hs : s.Acyclic) :
    HasCollected s (2 * s.blocks.size) {} Script.Calls (s.compileDraft catalog top) := by
  unfold compileDraft
  cases hfirst : s.skipHats catalog (s.blocks.size + 1) (some top) with
  | error e =>
    refine ⟨fun he => ?_, nodup_nil⟩
    have hlt := Nat.lt_succ_of_le (height_le (s := s) (some top))
    exact skipHats_not_endless hs catalog _ _ hlt (hfirst.trans (congrArg _ he))
  | ok first =>
    let ctx : Context σ := { catalog, sheet := s }
    have hle := height_le (s := s) first
    have hdepth : 2 * s.blocks.size * (s.blocks.size + 1) + s.height first < s.compileDepth := by
      unfold compileDepth
      rw [Nat.add_mul, Nat.mul_succ (2 * s.blocks.size) (s.blocks.size + 1)]
      omega
    have hstack := (Descent.deep hs s.compileDepth).stack ctx _ 0 first rfl hdepth
    exact (Context.script_adds (D := .ofDepth s.compileDepth) _ hstack).alone fit_empty

end Sheet

theorem Draft.Sound.nodup_bodies (h : d.Sound) : (d.bodies.map Prod.fst).Nodup := by
  have hpairs := pairwise_map.mp h.nodup
  refine pairwise_map.mpr (hpairs.filterMap _ fun q q' hne r hr r' hr' => ?_)
  obtain ⟨s, -, rfl⟩ := Option.map_eq_some_iff.mp hr
  obtain ⟨s', -, rfl⟩ := Option.map_eq_some_iff.mp hr'
  exact hne

/-- What is called in a script of a sound program has a body. -/
theorem Program.Sound.knows_called (h : p.Sound) {s : Script} (hs : p.Contains s)
    (hc : s.Calls key) :
    p.Knows key := by
  induction hc with
  | here hi hc => exact Option.isSome_iff_exists.mpr ((h.wellFormed hs).calls _ hi _ hc)
  | branch hi hb _ ih => exact ih (.branch hs hi hb)

theorem Program.Sound.knows_needed (h : p.Sound) (hkey : p.Needs key) : p.Knows key := by
  cases hkey with
  | called hc => exact h.knows_called .script hc
  | body _ hs hc => exact h.knows_called (.body hs) hc

/-- **Compilation comes to an end and takes up each body once.** Where blocks do not lead in a
circle, a script compiles, or there is an error in the blocks: it is never that compilation goes too
deep. No body of a procedure is taken up twice, whether compilation gives up or not. The table of a
compiled program has no key twice. It has the procedures that calls lead to from the script, through
branches and bodies, and these are the ones whose bodies were taken up. -/
theorem procedures_compiled_once (s : Sheet) (catalog : Catalog σ) (top : BlockId)
    (hs : s.Acyclic) :
    ((∃ p, s.compile catalog top = .ok p) ∨
      ∃ e, e ≠ .endless ∧ s.compile catalog top = .error e) ∧
    (s.bodiesBegun catalog top).Nodup ∧
    ∀ p, s.compile catalog top = .ok p → (p.procedures.map Prod.fst).Nodup ∧
      ∀ key, (p.Knows key ↔ p.Needs key) ∧ (p.Knows key ↔ key ∈ s.bodiesBegun catalog top) := by
  have hcollected : HasCollected s _ _ _ (s.compileDraft catalog top) :=
    Sheet.compileDraft_collects hs
  refine ⟨?_, ?_, fun p hp => ?_⟩
  · unfold Sheet.compile
    cases hdraft : s.compileDraft catalog top with
    | error f =>
      rw [hdraft] at hcollected
      exact .inr ⟨_, hcollected.1, rfl⟩
    | ok r => exact .inl ⟨_, rfl⟩
  · unfold Sheet.bodiesBegun
    cases hdraft : s.compileDraft catalog top with
    | error f =>
      rw [hdraft] at hcollected
      exact hcollected.2
    | ok r =>
      rw [hdraft] at hcollected
      exact hcollected.1.once
  · obtain ⟨d, hdraft, -, hsound, hopen, hbodies⟩ := Sheet.compile_ok hp
    rw [hdraft] at hcollected
    obtain ⟨hfit, hgrown⟩ := hcollected
    have hlookup : ∀ key, p.procedures.lookup key = d.finished? key :=
      fun key => hbodies ▸ hsound.lookup_bodies hopen key
    have hknows : ∀ key, p.Knows key ↔ d.Knows key := by
      intro key
      rw [Program.Knows, hlookup, Draft.knows_iff, or_iff_right (hopen key), Draft.finished?,
        Option.isSome_iff_exists]
      simp only [Option.join_eq_some_iff]
      rfl
    refine ⟨hbodies ▸ hsound.nodup_bodies, fun key => ⟨⟨fun hkey => ?_, ?_⟩, ?_⟩⟩
    · have hreached := (hgrown.gained key ((hknows key).mp hkey)).resolve_left
        (by simp [Draft.Knows, Draft.body?])
      exact hreached.mono (fun k b hb => (hlookup k).trans hb) fun k => .called
    · exact (Sheet.compile_sound hp).knows_needed
    · rw [hknows, ← hfit.logged, Sheet.bodiesBegun, hdraft]

/-- Two procedures that call each other. -/
def Sheet.rallying : Sheet :=
  .ofBlocks [
    { id := "hat", opcode := "event_whenflagclicked", next := some "serve", isTopLevel := true },
    { id := "serve", opcode := "procedures_call", mutation := some { proccode := some "ping" } },
    { id := "ping", opcode := "procedures_definition", next := some "forth",
      inputs := Table.of [("custom_block", { block := some "ping prototype" })],
      isTopLevel := true },
    { id := "ping prototype", opcode := "procedures_prototype",
      mutation := some { proccode := some "ping" } },
    { id := "forth", opcode := "procedures_call", mutation := some { proccode := some "pong" } },
    { id := "pong", opcode := "procedures_definition", next := some "back",
      inputs := Table.of [("custom_block", { block := some "pong prototype" })],
      isTopLevel := true },
    { id := "pong prototype", opcode := "procedures_prototype",
      mutation := some { proccode := some "pong" } },
    { id := "back", opcode := "procedures_call", mutation := some { proccode := some "ping" } }]

theorem rallying_compiled_once :
    Sheet.rallying.Acyclic ∧
      ∃ p, Sheet.rallying.compile (Library.core : Catalog Unit) "hat" = .ok p ∧
        (Sheet.rallying.bodiesBegun (Library.core : Catalog Unit) "hat") =
          [⟨"pong", false⟩, ⟨"ping", false⟩] ∧
        ∀ key, p.Needs key ↔ key = ⟨"pong", false⟩ ∨ key = ⟨"ping", false⟩ := by
  have hacyclic : Sheet.rallying.Acyclic :=
    Sheet.acyclic_of_rank (fun id => if id ∈ ["hat", "ping", "pong"] then 1 else 0)
      (by decide +kernel)
  have hbegun : Sheet.rallying.bodiesBegun (Library.core : Catalog Unit) "hat" =
      [⟨"pong", false⟩, ⟨"ping", false⟩] := by decide +kernel
  obtain ⟨hends, -, hprograms⟩ :=
    procedures_compiled_once _ (Library.core : Catalog Unit) "hat" hacyclic
  refine ⟨hacyclic, ?_⟩
  rcases hends with ⟨p, hp⟩ | ⟨e, -, he⟩
  · refine ⟨p, hp, hbegun, fun key => ?_⟩
    obtain ⟨hneeds, hknown⟩ := (hprograms p hp).2 key
    rw [← hneeds, hknown, hbegun]
    simp
  · have hok : (Sheet.rallying.compile (Library.core : Catalog Unit) "hat").isOk = true := by
      decide +kernel
    rw [he] at hok
    cases hok

end BlockMachine

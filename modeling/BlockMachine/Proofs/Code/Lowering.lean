import BlockMachine.Proofs.Code.Bodies
import BlockMachine.Proofs.Code.Monad
import Mathlib.Data.List.ReduceOption

/-!
# Lowered code is well placed

The code of every statement and reporter is well placed where it is laid out, whatever blocks it is
made of and whatever the catalog says of their opcodes. The lowering of a block is given a descent
for the parts of the block; it keeps what the descent keeps (`Statement.lower_lays`,
`Reporter.lower_reads`), and so the descent of any depth is sound (`Descent.ofDepth_sound`).
-/

namespace BlockMachine

open List

variable {warp : Bool} {P : Script → Prop} {code : Code} {s : Script}

theorem Script.Fits.mono {d d' : Draft} (h : s.Fits d warp) (hd : d.Extends d') : s.Fits d' warp :=
  ⟨h.mode, h.good.mono fun _ => hd.knows, fun key hk => hd.finished key (h.atOnce key hk), h.owned⟩

namespace Instr

/-- The instruction neither calls, yields nor enters a branch, and jumps to that index, if at
all. -/
structure Plain (target : Option Nat) (i : Instr Script) : Prop where
  target : i.target? = target
  callee : i.callee? = none
  settles : i.isYield = false
  branches : i.branches = []

theorem Plain.all {i : Instr Script} {t : Option Nat} (h : i.Plain t) : ∀ b ∈ i.branches, P b := by
  rw [h.branches]
  exact forall_mem_nil _

/-- A yield does nothing else. -/
theorem of_isYield {y : Instr Script} (hy : y.isYield = true) :
    y.slots = [] ∧ y.target? = none ∧ y.callee? = none ∧ y.branches = [] ∧ y.dest? = none := by
  cases y <;> simp_all [isYield, slots, target?, callee?, branches, dest?]

end Instr

/-- A piece of code that is well placed from index `pc` on, with the branches of its blocks. -/
structure Laid (d : Draft) (warp : Bool) (pc : Nat) (code : Code) : Prop where
  settled : Settled code
  placed : Along (Placed (Landing pc code) d.locals d.Knows d.Finished warp) none pc code
  branches : ∀ i ∈ code, ∀ b ∈ i.branches, b.Fits d warp

namespace Laid

variable {d d' : Draft} {warp : Bool} {pc : Nat} {a b code : Code} {i : Instr Script}
  {prev : Option (Instr Script)}

theorem nil : Laid d warp pc [] := ⟨settled_nil, trivial, by simp⟩

theorem mono (h : Laid d warp pc code) (hd : d.Extends d') : Laid d' warp pc code where
  settled := h.settled
  placed := along_mono (fun _ _ _ hp => hp.mono (fun _ => id) hd.locals (fun _ => hd.knows)
    hd.finished) h.placed
  branches i hi b hb := (h.branches i hi b hb).mono hd

/-- A piece of the code, seen from the whole. -/
theorem within {start : Nat} (h : Laid d warp start code) (hstart : start = pc + a.length)
    (ha : Settled a) (b : Code) :
    Along (Placed (Landing pc (a ++ code ++ b)) d.locals d.Knows d.Finished warp) prev start
      code := by
  subst hstart
  exact along_prev (fun _ _ h => h.behind) (along_mono (fun _ _ _ h => h.mono
    (fun _ hl => (hl.right ha).left b) (Nat.le_refl _) (fun _ => id) fun _ => id) h.placed)

theorem append (ha : Laid d warp pc a) (hb : Laid d warp (pc + a.length) b) :
    Laid d warp pc (a ++ b) where
  settled := settled_append ha.settled hb.settled
  placed := by
    refine along_append.mpr ⟨ha.within (a := []) rfl settled_nil b, ?_⟩
    simpa using hb.within rfl ha.settled []
  branches := forall_mem_append.mpr ⟨ha.branches, hb.branches⟩

/-- A single instruction that neither jumps, yields nor calls. -/
theorem one (ht : i.target? = none) (hc : i.callee? = none) (hy : i.isYield = false)
    (hs : ∀ n ∈ i.slots, n < d.locals) (hb : ∀ b ∈ i.branches, b.Fits d warp) :
    Laid d warp pc [i] where
  settled := settled_concat (a := []) hy
  placed := ⟨.plain ht hc hs, trivial⟩
  branches := forall_mem_singleton.mpr hb

section Jumps

variable {pre body body' : Code} {y : Instr Script} {back other : Nat}

/-- A test that leaves out a body. -/
theorem guard (hbody : Laid d warp (pc + 1) body) (hi : i.Plain (some (pc + 1 + body.length)))
    (hs : ∀ n ∈ i.slots, n < d.locals) : Laid d warp pc (i :: body) := by
  have hfirst : Settled [i] := settled_concat (a := []) hi.settles
  have hset : Settled (i :: body) := settled_append hfirst hbody.settled
  refine ⟨hset, ⟨.forward hi.target hi.callee hs ?_ (by omega), ?_⟩,
    forall_mem_cons.mpr ⟨hi.all, hbody.branches⟩⟩
  · refine ⟨_, [], (append_nil _).symm, ?_, hset⟩
    rw [length_cons, Nat.add_comm body.length, ← Nat.add_assoc]
  · simpa using hbody.within (a := [i]) rfl hfirst []

/-- A test with a body for either answer; the first one ends with a jump over the second. -/
theorem either (hbody : Laid d warp (pc + 1) body) (ho : other = pc + 1 + body.length + 1)
    (hbody' : Laid d warp other body') (hi : i.Plain (some other))
    (hs : ∀ n ∈ i.slots, n < d.locals) :
    Laid d warp pc (i :: body ++ Instr.jump (other + body'.length) :: body') := by
  have hskip : Settled (i :: body ++ [Instr.jump (other + body'.length)]) := settled_concat rfl
  have hsplit : i :: body ++ Instr.jump (other + body'.length) :: body' =
      i :: body ++ [Instr.jump (other + body'.length)] ++ body' := by simp
  have hset : Settled (i :: body ++ Instr.jump (other + body'.length) :: body') := by
    rw [hsplit]
    exact settled_append hskip hbody'.settled
  have hstart : other = pc + (i :: body ++ [Instr.jump (other + body'.length)]).length := by
    simp only [length_append, length_cons, length_nil]
    omega
  have hjump : (Instr.jump (other + body'.length) : Instr Script).Plain
      (some (other + body'.length)) :=
    ⟨rfl, rfl, rfl, rfl⟩
  refine ⟨hset, along_append.mpr ⟨⟨.forward hi.target hi.callee hs ⟨_, _, hsplit, hstart, hskip⟩
    (by omega), ?_⟩, .forward rfl rfl (fun n hn => by cases hn) ?_ ?_, ?_⟩,
    forall_mem_append.mpr ⟨forall_mem_cons.mpr ⟨hi.all, hbody.branches⟩,
      forall_mem_cons.mpr ⟨hjump.all, hbody'.branches⟩⟩⟩
  · simpa using hbody.within (a := [i]) rfl (settled_concat (a := []) hi.settles)
      (Instr.jump (other + body'.length) :: body')
  · refine ⟨_, [], (append_nil _).symm, ?_, hset⟩
    rw [hsplit, length_append, ← Nat.add_assoc, ← hstart]
  · simp only [length_cons]
    omega
  · have hpc : pc + (i :: body).length + 1 = other := by
      simp only [length_cons]
      omega
    rw [hpc, hsplit]
    simpa using hbody'.within hstart hskip []

/-- The end of a round: a yield and a jump back to a place in front of it. -/
theorem round {rest : Code}
    (hy : y.isYield = true) (hback : Landing pc (rest ++ [y, .jump back]) back) (n : Nat) :
    Along (Placed (Landing pc (rest ++ [y, .jump back])) d.locals d.Knows d.Finished warp) prev n
      [y, .jump back] := by
  obtain ⟨hslots, ht, hc, -⟩ := Instr.of_isYield hy
  exact ⟨.plain ht hc (by simp [hslots]), .backward hy hback, trivial⟩

theorem round_branches (hy : y.isYield = true) :
    ∀ i ∈ [y, Instr.jump back], ∀ b ∈ i.branches, P b := by
  refine forall_mem_cons.mpr ⟨?_, forall_mem_singleton.mpr fun b hb => by cases hb⟩
  rw [(Instr.of_isYield hy).2.2.2.1]
  exact forall_mem_nil _

/-- A test, a body and a jump back. -/
theorem loop (hpre : Laid d warp pc pre) (hbody : Laid d warp (pc + pre.length + 1) body)
    (hback : Landing pc pre back) (hi : i.Plain (some (pc + pre.length + body.length + 3)))
    (hs : ∀ n ∈ i.slots, n < d.locals) (hy : y.isYield = true) :
    Laid d warp pc (pre ++ i :: body ++ [y, .jump back]) := by
  have hset : Settled (pre ++ i :: body ++ [y, .jump back]) := by
    rw [show pre ++ i :: body ++ [y, Instr.jump back] =
      pre ++ i :: body ++ [y] ++ [Instr.jump back] by simp]
    exact settled_concat rfl
  have hback' : Landing pc (pre ++ i :: body ++ [y, .jump back]) back :=
    (hback.left (i :: body)).left _
  refine ⟨hset, along_append.mpr
    ⟨along_append.mpr ⟨?_, .forward hi.target hi.callee hs ?_ (by omega), ?_⟩, round hy hback' _⟩,
    forall_mem_append.mpr ⟨forall_mem_append.mpr
      ⟨hpre.branches, forall_mem_cons.mpr ⟨hi.all, hbody.branches⟩⟩, round_branches hy⟩⟩
  · simpa using hpre.within (a := []) rfl settled_nil (i :: body ++ [y, .jump back])
  · refine ⟨_, [], (append_nil _).symm, ?_, hset⟩
    simp only [length_append, length_cons, length_nil]
    omega
  · have hlen : pc + pre.length + 1 = pc + (pre ++ [i]).length := by
      simp only [length_append, length_cons, length_nil]
      omega
    simpa using hbody.within hlen (settled_concat hi.settles) [y, .jump back]

/-- A body and a jump back to its beginning. -/
theorem endless (hbody : Laid d warp pc body) (hy : y.isYield = true) :
    Laid d warp pc (body ++ [y, .jump pc]) := by
  refine ⟨?_, along_append.mpr ⟨?_, round hy landing_start _⟩,
    forall_mem_append.mpr ⟨hbody.branches, round_branches hy⟩⟩
  · rw [show body ++ [y, Instr.jump pc] = body ++ [y] ++ [Instr.jump pc] by simp]
    exact settled_concat rfl
  · simpa using hbody.within (a := []) rfl settled_nil [y, .jump pc]

end Jumps

/-- A call of a known procedure, with a yield right before unless the body is finished. -/
theorem call {pause : Code} {key : ProcedureKey} {args : List (String × Expr)}
    (hknown : d.Knows key) (hmode : warp = true → key.warp = true)
    (hslots : ∀ n ∈ args.flatMap (·.2.slots), n < d.locals) (hpause : pause = [.yield] ∨
      pause = [.yieldIfNeeded] ∨ pause = [] ∧ d.Finished key) :
    Laid d warp pc (pause ++ [.call key args]) where
  settled := settled_concat rfl
  placed := by
    have hplaced : ∀ (L : Nat → Prop) prev n, (prev.any Instr.isYield = false → d.Finished key) →
        Placed L d.locals d.Knows d.Finished warp prev n (.call key args) := by
      intro L prev n hdone
      refine ⟨by simp [Instr.target?], by simp [Instr.target?], hslots, ?_, ?_, ?_⟩
      all_goals rintro _ ⟨⟩
      · exact hknown
      · exact hmode
      · exact hdone
    rcases hpause with rfl | rfl | ⟨rfl, hf⟩
    · exact ⟨.plain rfl rfl (by simp [Instr.slots]), hplaced _ _ _ (by simp [Instr.isYield]),
        trivial⟩
    · exact ⟨.plain rfl rfl (by simp [Instr.slots]), hplaced _ _ _ (by simp [Instr.isYield]),
        trivial⟩
    · exact ⟨hplaced _ _ _ fun _ => hf, trivial⟩
  branches i hi b hb := by
    have hi' : i = .yield ∨ i = .yieldIfNeeded ∨ i = .call key args := by
      rcases hpause with rfl | rfl | ⟨rfl, -⟩ <;> grind
    rcases hi' with rfl | rfl | rfl <;> cases hb

end Laid

/-- A piece of code that is compiled from one draft to the next. It is well placed from index `pc`
on, and writes the slots that were taken for it. -/
structure Lies (warp : Bool) (pc : Nat) (d : Draft) (code : Code) (d' : Draft) : Prop where
  ext : d.Extends d'
  laid : Laid d' warp pc code
  owned : Owned d.locals d'.locals code

namespace Lies

variable {d d₁ d' : Draft} {warp : Bool} {pc : Nat} {a b body code : Code} {i y : Instr Script}

theorem nil : Lies warp pc d [] d := ⟨.refl d, .nil, .nil⟩

theorem append (ha : Lies warp pc d a d₁) (hb : Lies warp (pc + a.length) d₁ b d') :
    Lies warp pc d (a ++ b) d' where
  ext := ha.ext.trans hb.ext
  laid := (ha.laid.mono hb.ext).append hb.laid
  owned := ha.owned.append hb.owned ha.ext.locals hb.ext.locals

/-- Slots that were taken before the code, and slots that are taken with it. -/
theorem slots {xs ys : List Nat} (h : Lies warp pc d code d') (hx : ∀ n ∈ xs, n < d.locals)
    (hy : ∀ n ∈ ys, n < d'.locals) : ∀ n ∈ xs ++ ys, n < d'.locals :=
  forall_mem_append.mpr ⟨fun n hn => Nat.lt_of_lt_of_le (hx n hn) h.ext.locals, hy⟩

theorem one (hi : i.Plain none) (hdest : i.dest? = none) (hs : ∀ n ∈ i.slots, n < d.locals) :
    Lies warp pc d [i] d :=
  ⟨.refl d, .one hi.target hi.callee hi.settles hs hi.all, .cons hdest .nil⟩

theorem guard (hbody : Lies warp (pc + 1) d body d') (hi : i.Plain (some (pc + 1 + body.length)))
    (hdest : i.dest? = none) (hs : ∀ n ∈ i.slots, n < d.locals) : Lies warp pc d (i :: body) d' :=
  ⟨hbody.ext, hbody.laid.guard hi fun n hn => Nat.lt_of_lt_of_le (hs n hn) hbody.ext.locals,
    .cons hdest hbody.owned⟩

theorem round_owned {lo hi : Nat} (back : Nat) (hy : y.isYield = true) :
    Owned lo hi [y, .jump back] :=
  .cons (Instr.of_isYield hy).2.2.2.2 (.cons rfl .nil)

theorem loop {pre : Code} {back : Nat} (hpre : Lies warp pc d pre d₁) (hback : Landing pc pre back)
    (hbody : Lies warp (pc + pre.length + 1) d₁ body d')
    (hi : i.Plain (some (pc + pre.length + body.length + 3)))
    (hown : Owned d.locals d₁.locals (pre ++ [i])) (hs : ∀ n ∈ i.slots, n < d₁.locals)
    (hy : y.isYield = true) :
    Lies warp pc d (pre ++ i :: body ++ [y, .jump back]) d' := by
  refine ⟨hpre.ext.trans hbody.ext, (hpre.laid.mono hbody.ext).loop hbody.laid hback hi
    (fun n hn => Nat.lt_of_lt_of_le (hs n hn) hbody.ext.locals) hy, ?_⟩
  have hrest := hbody.owned.append (round_owned back hy) hbody.ext.locals (Nat.le_refl _)
  simpa using hown.append hrest hpre.ext.locals hbody.ext.locals

/-- The script of a piece of code that is laid out from the beginning. -/
theorem script_fits (h : Lies warp 0 d code d') (name : String) :
    Script.Fits d' warp { name, code := code.toArray, locals := d'.locals, warp } where
  mode := rfl
  good := .intro (along_mono (fun _ _ _ hp => hp.mono (fun _ => id) (Nat.le_refl _) (fun _ => id)
    fun _ _ => trivial) h.laid.placed) (fun i hi b hb => (h.laid.branches i hi b hb).mode)
    fun i hi b hb => (h.laid.branches i hi b hb).good
  atOnce key hk := by
    cases hk with
    | here hi hc hp =>
      have := along_get h.laid.placed hi
      rw [Option.or_none] at this
      exact this.done key hc hp
    | branch hi hb hk => exact (h.laid.branches _ hi _ hb).atOnce key hk
  owned := .intro h.owned.alone fun i hi b hb => (h.laid.branches i hi b hb).owned

end Lies

/-! ## The slots of operands -/

namespace Operand

variable {o : Operand} {n : Nat}

theorem mem_slots_folded {e : Expr} {kind : Kind} (h : n ∈ (folded e kind).expr.slots) :
    n ∈ e.slots := by
  unfold folded at h
  split at h
  · split at h
    · exact absurd h (by simp [const, Expr.slots])
    · exact h
  · exact h

theorem mem_slots_castBy {now : Value → Value} {later : Kind → Expr → Expr}
    (hl : ∀ k e, (later k e).slots = e.slots) (h : n ∈ (o.castBy now later).slots) :
    n ∈ o.expr.slots := by
  unfold castBy at h
  split at h
  · exact absurd h (by simp [Expr.slots])
  · rwa [hl] at h

theorem mem_slots_asNumber (h : n ∈ o.asNumber.slots) : n ∈ o.expr.slots :=
  mem_slots_castBy (fun k e => by cases k <;> rfl) h

theorem mem_slots_asRawNumber (h : n ∈ o.asRawNumber.slots) : n ∈ o.expr.slots :=
  mem_slots_castBy (fun k e => by cases k <;> rfl) h

theorem mem_slots_asText (h : n ∈ o.asText.slots) : n ∈ o.expr.slots :=
  mem_slots_castBy (fun k e => by cases k <;> rfl) h

theorem mem_slots_asBool (h : n ∈ o.asBool.slots) : n ∈ o.expr.slots :=
  mem_slots_castBy (fun k e => by cases k <;> rfl) h

end Operand

/-! ## What the parts of a compilation keep -/

/-- The computation gives code that lies well from index `pc` on. -/
def Lays (warp : Bool) (pc : Nat) (x : Compile Code) : Prop :=
  ∀ d code d', x d = .ok (code, d') → Lies warp pc d code d'

/-- The computation gives code that lies well anywhere, and something over the slots taken. -/
def Reads {α : Type} (slots : α → List Nat) (warp : Bool) (x : Compile (Code × α)) : Prop :=
  ∀ d code a d', x d = .ok ((code, a), d') →
    (∀ pc, Lies warp pc d code d') ∧ ∀ n ∈ slots a, n < d'.locals

/-- The slots that an operand reads. -/
abbrev Operand.slots (o : Operand) : List Nat := o.expr.slots

/-- The slots that arguments read. -/
abbrev argumentSlots (args : List (String × Expr)) : List Nat := args.flatMap (·.2.slots)

/-- A descent that keeps code well placed. -/
structure Descent.Sound {σ : Type} (D : Descent σ) : Prop where
  stack : ∀ ctx pc first, Lays ctx.warp pc (D.stack ctx pc first)
  reporter : ∀ ctx b, Reads Operand.slots ctx.warp (D.reporter ctx b)

open Compile

theorem lays_pure {pc : Nat} (h : ∀ d, Lies warp pc d code d) : Lays warp pc (pure code) := by
  intro d code' d' hpure
  obtain ⟨rfl, rfl⟩ := pure_ok.mp hpure
  exact h d

theorem reads_pure {α : Type} {slots : α → List Nat} {a : α} (ha : slots a = []) :
    Reads slots warp (pure ([], a)) := by
  intro d code a' d' h
  simp only [pure_ok, Prod.mk.injEq] at h
  obtain ⟨⟨rfl, rfl⟩, rfl⟩ := h
  exact ⟨fun _ => .nil, by simp [ha]⟩

namespace Context

variable {σ : Type} {ctx : Context σ} {D : Descent σ} (hD : D.Sound)

include hD

theorem script_fits {name : String} {first : Option BlockId} {d d' : Draft}
    (h : ctx.script D name first d = .ok (s, d')) : d.Extends d' ∧ s.Fits d' ctx.warp := by
  simp only [script, bind_ok, get_ok, modify_ok, pure_ok] at h
  obtain ⟨_, _, ⟨rfl, rfl⟩, _, _, rfl, code, d₂, hcode, _, _, ⟨rfl, rfl⟩, _, _, rfl, rfl, rfl⟩ := h
  have hlies := hD.stack ctx 0 first _ _ _ hcode
  obtain ⟨hmode, hgood, hcalls, howned⟩ := hlies.script_fits name
  exact ⟨hlies.ext.inner, hmode, hgood, hcalls, howned⟩

theorem input_reads (b : Block) (name : String) :
    Reads Operand.slots ctx.warp (ctx.input D b name) := by
  intro d code o d' h
  unfold input at h
  cases hb : b.inputBlock? name with
  | some id =>
    simp only [hb, bind_ok, block_ok] at h
    obtain ⟨c, _, ⟨-, rfl⟩, h⟩ := h
    exact hD.reporter ctx c _ _ _ _ h
  | none =>
    simp only [hb] at h
    exact reads_pure rfl _ _ _ _ h

theorem arguments_reads (b : Block) (names : List String) :
    Reads argumentSlots ctx.warp (ctx.arguments D b names) := by
  induction names with
  | nil => exact reads_pure rfl
  | cons name names ih =>
    intro d code args d' h
    unfold arguments at h
    split at h
    · exact ih d code args d' h
    · simp only [bind_ok, pure_ok, Prod.mk.injEq] at h
      obtain ⟨⟨pre, o⟩, d₁, ho, ⟨code', args'⟩, d₂, hargs, ⟨rfl, rfl⟩, rfl⟩ := h
      obtain ⟨hpre, hslots⟩ := input_reads hD b name _ _ _ _ ho
      obtain ⟨hcode, hslots'⟩ := ih _ _ _ _ hargs
      exact ⟨fun pc => (hpre pc).append (hcode _), (hcode 0).slots hslots hslots'⟩

theorem fragments_fit (opcode : String) (slots : List Slot) :
    ∀ (n : Nat) (d d' : Draft) (bs : List (Option Script)),
      ctx.fragments D opcode n slots d = .ok (bs, d') →
      d.Extends d' ∧ ∀ b ∈ bs.reduceOption, b.Fits d' ctx.warp := by
  induction slots with
  | nil =>
    intro n d d' bs h
    simp only [fragments, pure_ok] at h
    obtain ⟨rfl, rfl⟩ := h
    exact ⟨.refl _, by simp [reduceOption_nil]⟩
  | cons slot slots ih =>
    intro n d d' bs h
    unfold fragments at h
    cases hs : slot.block with
    | none =>
      simp only [hs, bind_ok, pure_ok] at h
      obtain ⟨_, _, ⟨rfl, rfl⟩, rest, _, hrest, rfl, rfl⟩ := h
      exact ih (n + 1) _ _ rest hrest
    | some id =>
      simp only [hs, bind_ok, pure_ok] at h
      obtain ⟨s, _, hscript, _, _, ⟨rfl, rfl⟩, rest, _, hrest, rfl, rfl⟩ := h
      obtain ⟨hext', hrest⟩ := ih _ _ _ _ hrest
      obtain ⟨hext, hfirst⟩ := script_fits hD hscript
      exact ⟨hext.trans hext', forall_mem_cons.mpr ⟨hfirst.mono hext', hrest⟩⟩

/-- The slot of a primitive was taken before, if it has one; its inputs write other slots. -/
theorem primitiveCall_lies (b : Block) (dest : Option Nat) {d₀ d d' : Draft}
    (h : ctx.primitiveCall D b dest d = .ok (code, d')) (hd : d₀.Extends d)
    (hdest : ∀ n ∈ dest, d₀.locals ≤ n ∧ n < d.locals) :
    (∀ pc, Lies ctx.warp pc d₀ code d') ∧ ∀ n ∈ dest, n < d'.locals := by
  simp only [primitiveCall, bind_ok, pure_ok] at h
  obtain ⟨⟨pre, args⟩, d₁, hargs, bs, d₂, hbs, rfl, rfl⟩ := h
  obtain ⟨hpre, hslots⟩ := arguments_reads hD b b.inputs.keys _ _ _ _ hargs
  obtain ⟨hext, hfits⟩ := fragments_fit hD b.opcode b.branches _ _ _ _ hbs
  have hle := Nat.le_trans (hpre 0).ext.locals hext.locals
  have hrange : ∀ n, dest = some n → d₀.locals ≤ n ∧ n < d₂.locals := fun n hn => by
    have := hdest n hn
    omega
  refine ⟨fun pc => ?_, fun n hn => (hrange n hn).2⟩
  refine ⟨hd.trans ((hpre pc).ext.trans hext), ((hpre pc).laid.mono hext).append
    (.one rfl rfl rfl ?_ hfits), ((hpre pc).owned.widen hd.locals hext.locals).join
      (.one hrange) ?_⟩
  · refine forall_mem_append.mpr
      ⟨fun n hn => ?_, fun n hn => Nat.lt_of_lt_of_le (hslots n hn) hext.locals⟩
    exact (hrange n (Option.mem_toList.mp hn)).2
  · intro i hi j hj n hn hn'
    rw [mem_singleton.mp hj] at hn'
    have := (hpre pc).owned.range i hi n hn
    have := hdest n hn'
    omega

/-- A procedure that is called is known from then on, under a key in the caller's mode. -/
theorem procedure_knows {proccode : String} {signature : Signature} {d d' : Draft}
    {r : Option ProcedureKey} (h : ctx.procedure D proccode signature d = .ok (r, d')) :
    d.Extends d' ∧ ∀ key ∈ r, d'.Knows key ∧ (ctx.warp = true → key.warp = true) := by
  unfold procedure at h
  cases hdef : ctx.sheet.definition? proccode with
  | none =>
    simp only [hdef, pure_ok] at h
    obtain ⟨rfl, rfl⟩ := h
    exact ⟨.refl _, by simp⟩
  | some definition =>
    simp only [hdef, bind_ok, get_ok] at h
    obtain ⟨_, _, ⟨rfl, rfl⟩, h⟩ := h
    split at h
    · rename_i hnew
      simp only [bind_ok, modify_ok, block_ok, pure_ok] at h
      obtain ⟨_, _, rfl, b, _, ⟨-, rfl⟩, body, d₂, hbody, _, _, rfl, rfl, rfl⟩ := h
      obtain ⟨hext, hfits⟩ := script_fits hD hbody
      refine ⟨.procedure (by simpa using hnew) hext hfits, ?_⟩
      rintro _ ⟨⟩
      exact ⟨by simp [Draft.Knows, Draft.body?_setBody], fun hctx => by simp [hctx]⟩
    · rename_i hold
      simp only [pure_ok] at h
      obtain ⟨rfl, rfl⟩ := h
      refine ⟨.refl _, ?_⟩
      rintro _ ⟨⟩
      exact ⟨by simpa [Draft.Knows, Option.isSome_iff_ne_none] using hold,
        fun hctx => by simp [hctx]⟩

end Context
end BlockMachine

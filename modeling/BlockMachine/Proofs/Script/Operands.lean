import BlockMachine.Proofs.Code.Values
import BlockMachine.Proofs.Code.Lowering

/-!
# The operands of reporters

A reporter is compiled to an operand that is made of the operands of its inputs
(`Reporter.operand`). Reporters that are not called through a primitive need no code for that, so a
tree of them stands for one expression, the same wherever it is compiled (`Lowers`).
-/

namespace BlockMachine

open List

variable {σ : Type} {name second first : String} {r : Reporter}

/-- The inputs of a block, compiled one after the other. -/
inductive Context.Takes (ctx : Context σ) (d : Descent σ) (b : Block) (os : String → Operand) :
    List String → Draft → Code → Draft → Prop
  | nil {st : Draft} : Takes ctx d b os [] st [] st
  | cons {name : String} {names : List String} {st st₁ st₂ : Draft} {code code' : Code}
      (hinput : ctx.input d b name st = .ok ((code, os name), st₁))
      (hrest : Takes ctx d b os names st₁ code' st₂) :
      Takes ctx d b os (name :: names) st (code ++ code') st₂

namespace Reporter

open Compile

variable {ctx : Context σ} {d : Descent σ} {b : Block} {st st' : Draft} {code : Code}
  {o x : Operand}

theorem takes_one (h : ctx.input d b name st = .ok ((code, x), st')) :
    ctx.Takes d b (fun _ => x) [name] st code st' := by
  have htakes : ctx.Takes d b (fun _ => x) [name] st (code ++ []) st' := .cons h .nil
  rwa [append_nil] at htakes

theorem takes_two (hne : second ≠ first) {st₁ : Draft} {code' : Code} {y : Operand}
    (hx : ctx.input d b first st = .ok ((code, x), st₁))
    (hy : ctx.input d b second st₁ = .ok ((code', y), st')) :
    ∃ os : String → Operand, os first = x ∧ os second = y ∧
      ctx.Takes d b os [first, second] st (code ++ code') st' := by
  obtain ⟨os, hos⟩ : ∃ os : String → Operand, os = fun name => if name = first then x else y :=
    ⟨_, rfl⟩
  have hfirst : os first = x := by simp [hos]
  have hsecond : os second = y := by simp [hos, hne]
  refine ⟨os, hfirst, hsecond, ?_⟩
  rw [← hfirst] at hx
  rw [← hsecond] at hy
  have htakes : ctx.Takes d b os [first, second] st (code ++ (code' ++ [])) st' :=
    .cons hx (.cons hy .nil)
  rwa [append_nil] at htakes

theorem unary_ok {f : Operand → Operand} (h : unary ctx d b name f st = .ok ((code, o), st')) :
    ∃ os, ctx.Takes d b os [name] st code st' ∧ o = f (os name) := by
  obtain ⟨⟨c, x⟩, st₁, hx, hpure⟩ := bind_ok.mp h
  obtain ⟨heq, rfl⟩ := pure_ok.mp hpure
  cases heq
  exact ⟨fun _ => x, takes_one hx, rfl⟩

theorem binary_ok (hne : second ≠ first) {f : Operand → Operand → Operand}
    (h : binary ctx d b first second f st = .ok ((code, o), st')) :
    ∃ os, ctx.Takes d b os [first, second] st code st' ∧ o = f (os first) (os second) := by
  obtain ⟨⟨c, x⟩, st₁, hx, h⟩ := bind_ok.mp h
  obtain ⟨⟨c', y⟩, st₂, hy, hpure⟩ := bind_ok.mp h
  obtain ⟨heq, rfl⟩ := pure_ok.mp hpure
  cases heq
  obtain ⟨os, rfl, rfl, htakes⟩ := takes_two hne hx hy
  exact ⟨os, htakes, rfl⟩

/-- The operand of a reporter is made of those of its inputs, whose code stands in front. -/
theorem lower_ok (h : r.lower ctx d b st = .ok ((code, o), st')) :
    ∃ os, ctx.Takes d b os r.inputs st code st' ∧ o = r.operand ctx.params b os := by
  cases r with
  | var | listText | listLength | timer | argument default =>
    obtain ⟨heq, rfl⟩ := pure_ok.mp h
    cases heq
    exact ⟨fun _ => .const .empty, .nil, rfl⟩
  | listItem | listPosition | listContains | not | length | round | math =>
    unfold lower at h
    exact unary_ok h
  | arithmetic op | compare op | and | or | random | join | letter | includes =>
    unfold lower at h
    exact binary_ok (by decide) h

end Reporter

/-! ## Sheets that differ in the mode of their procedures -/

/-- The signature but for the mode of the procedure. -/
def Signature.withoutMode (s : Signature) : Signature := { s with warp := false }

/-- The second sheet is like the first one, but for mutations, and there only the mode of the
procedures counts. -/
structure Sheet.Alike (s s' : Sheet) : Prop where
  block : ∀ {id b'}, s'.block? id = some b' → ∃ b mutation, s.block? id = some b ∧
    b' = { b with mutation } ∧ (mutation >>= Mutation.proccode) = b.proccode?
  definition : ∀ proccode, s'.definition? proccode = s.definition? proccode
  signature : ∀ {proccode sig'}, s'.signature? proccode = .ok sig' →
    ∃ sig, s.signature? proccode = .ok sig ∧
      sig'.map Signature.withoutMode = sig.map Signature.withoutMode

theorem Sheet.Alike.refl (s : Sheet) : s.Alike s where
  block {_ b'} h := ⟨b', b'.mutation, h, rfl, rfl⟩
  definition _ := rfl
  signature {_ sig} h := ⟨sig, h, rfl⟩

/-! ## Trees of reporters -/

/-- A tree of reporters that have expressions of their own, the timer apart. -/
inductive CoreReporter (catalog : Catalog σ) (sheet : Sheet) : BlockId → Prop
  | literal {id : BlockId} {b : Block} {v : Value} (hb : sheet.block? id = some b)
      (hliteral : Context.literal? b = some v) : CoreReporter catalog sheet id
  | field {id : BlockId} {b : Block} {f : Field} (hb : sheet.block? id = some b)
      (hlowering : catalog.lowering? b.opcode = none)
      (hprimitive : catalog.hasPrimitive b.opcode = false) (hfield : b.soleField? = some f) :
      CoreReporter catalog sheet id
  | reporter {id : BlockId} {b : Block} {r : Reporter} (hb : sheet.block? id = some b)
      (hlowering : catalog.lowering? b.opcode = some (.reporter r)) (hr : r ≠ .timer)
      (hinputs : ∀ name input, b.inputBlock? name = some input → CoreReporter catalog sheet input) :
      CoreReporter catalog sheet id

/-- The operand of a tree of reporters, in a procedure with parameters of those names. -/
inductive Lowers (catalog : Catalog σ) (sheet : Sheet) (names : List String) :
    BlockId → Operand → Prop
  | literal {id : BlockId} {b : Block} {v : Value} (hb : sheet.block? id = some b)
      (hliteral : Context.literal? b = some v) : Lowers catalog sheet names id (.const v)
  | field {id : BlockId} {b : Block} {f : Field} (hb : sheet.block? id = some b)
      (hliteral : Context.literal? b = none) (hlowering : catalog.lowering? b.opcode = none)
      (hprimitive : catalog.hasPrimitive b.opcode = false) (hfield : b.soleField? = some f) :
      Lowers catalog sheet names id (.const f.value)
  | reporter {id : BlockId} {b : Block} {r : Reporter} {os : String → Operand}
      (hb : sheet.block? id = some b) (hliteral : Context.literal? b = none)
      (hlowering : catalog.lowering? b.opcode = some (.reporter r)) (hr : r ≠ .timer)
      (hempty : ∀ name ∈ r.inputs, b.inputBlock? name = none → os name = .const .empty)
      (hfilled : ∀ name ∈ r.inputs, ∀ input, b.inputBlock? name = some input →
        Lowers catalog sheet names input (os name)) :
      Lowers catalog sheet names id (r.operand names b os)

/-- The operand of an input; an empty one reads as the empty text. -/
def LowersInput (catalog : Catalog σ) (sheet : Sheet) (names : List String) (b : Block)
    (name : String) (o : Operand) : Prop :=
  (b.inputBlock? name = none → o = .const .empty) ∧
    ∀ input, b.inputBlock? name = some input → Lowers catalog sheet names input o

variable {catalog : Catalog σ} {sheet : Sheet} {names : List String}

/-! ## Compiling reporters -/

open Compile

variable {ctx : Context σ} {st st' : Draft} {code : Code} {o : Operand} {depth : Nat} {id : BlockId}

/-- The reporter is compiled to an operand that needs no code. -/
def CompilesBare (ctx : Context σ) (sheet : Sheet) (depth : Nat) (id : BlockId) : Prop :=
  ∀ {b' st code o st'}, ctx.sheet.block? id = some b' →
    Descent.compileReporter depth ctx b' st = .ok ((code, o), st') →
    code = [] ∧ st' = st ∧ Lowers ctx.catalog sheet ctx.params id o

/-- An input needs no code when its reporter needs none. -/
theorem input_lowers {b b' : Block} (hb : b'.inputs = b.inputs)
    (hreporter : ∀ input, b.inputBlock? name = some input → CompilesBare ctx sheet depth input)
    (h : ctx.input (Descent.ofDepth depth) b' name st = .ok ((code, o), st')) :
    code = [] ∧ st' = st ∧ LowersInput ctx.catalog sheet ctx.params b name o := by
  have hslot : b'.inputBlock? name = b.inputBlock? name := by
    unfold Block.inputBlock?
    rw [hb]
  unfold Context.input at h
  rw [hslot] at h
  cases hinput : b.inputBlock? name with
  | none =>
    rw [hinput] at h
    obtain ⟨heq, rfl⟩ := pure_ok.mp h
    cases heq
    exact ⟨rfl, rfl, fun _ => rfl, fun input hsome => by rw [hinput] at hsome; cases hsome⟩
  | some input =>
    rw [hinput] at h
    obtain ⟨c, st₁, hc, h⟩ := bind_ok.mp h
    obtain ⟨hblock, rfl⟩ := block_ok.mp hc
    obtain ⟨hcode, hst, hlowers⟩ := hreporter input hinput hblock h
    refine ⟨hcode, hst, fun hnone => ?_, fun input' hsome => ?_⟩
    · rw [hinput] at hnone
      cases hnone
    · rw [hinput] at hsome
      cases hsome
      exact hlowers

theorem takes_lowers {b b' : Block} {os : String → Operand} {inputs : List String}
    (hb : b'.inputs = b.inputs) (hreporter : ∀ name ∈ inputs, ∀ input, b.inputBlock? name =
      some input → CompilesBare ctx sheet depth input)
    (h : ctx.Takes (Descent.ofDepth depth) b' os inputs st code st') :
    code = [] ∧ st' = st ∧
      ∀ name ∈ inputs, LowersInput ctx.catalog sheet ctx.params b name (os name) := by
  induction h with
  | nil => exact ⟨rfl, rfl, fun _ h => absurd h not_mem_nil⟩
  | cons hinput _ ih =>
    obtain ⟨hfirst, hrest⟩ := forall_mem_cons.mp hreporter
    obtain ⟨rfl, rfl, hlowers⟩ := input_lowers hb hfirst hinput
    obtain ⟨rfl, rfl, hothers⟩ := ih hrest
    exact ⟨rfl, rfl, forall_mem_cons.mpr ⟨hlowers, hothers⟩⟩

/-- A literal needs no code, and other blocks are looked at. -/
theorem bare_of_block {b : Block} (halike : sheet.Alike ctx.sheet) (hb : sheet.block? id = some b)
    (hblock : ∀ {depth mutation st code o st'}, Context.literal? b = none →
      Context.literal? { b with mutation } = none →
      Descent.compileReporter (depth + 1) ctx { b with mutation } st = .ok ((code, o), st') →
        code = [] ∧ st' = st ∧ Lowers ctx.catalog sheet ctx.params id o)
    (depth : Nat) : CompilesBare ctx sheet depth id := by
  intro b' st code o st' hb' h
  obtain ⟨_, mutation, hsome, rfl, -⟩ := halike.block hb'
  rw [hb] at hsome
  cases hsome
  cases depth with
  | zero => exact (fail_ok.mp h).elim
  | succ depth =>
    have hsame : Context.literal? { b with mutation } = Context.literal? b := rfl
    cases hliteral : Context.literal? b with
    | some v =>
      simp only [Descent.compileReporter, Context.reporterWith, hsame, hliteral] at h
      obtain ⟨heq, rfl⟩ := pure_ok.mp h
      cases heq
      exact ⟨rfl, rfl, .literal hb hliteral⟩
    | none => exact hblock hliteral (hsame.trans hliteral) h

/-- A reporter with an operand of its own needs no code when its inputs need none. -/
theorem bare_reporter {b : Block} (halike : sheet.Alike ctx.sheet) (hb : sheet.block? id = some b)
    (hlowering : ctx.catalog.lowering? b.opcode = some (.reporter r)) (hr : r ≠ .timer)
    (hinputs : ∀ depth, ∀ name ∈ r.inputs, ∀ input, b.inputBlock? name = some input →
      CompilesBare ctx sheet depth input)
    (depth : Nat) : CompilesBare ctx sheet depth id := by
  refine bare_of_block halike hb (fun {depth mutation st code o st'} hliteral hliteral' h => ?_)
    depth
  simp only [Descent.compileReporter, Context.reporterWith, hliteral', hlowering] at h
  obtain ⟨os, htakes, rfl⟩ := Reporter.lower_ok h
  have hsame : ({ b with mutation } : Block).inputs = b.inputs := rfl
  obtain ⟨rfl, rfl, hlowers⟩ := takes_lowers hsame (hinputs depth) htakes
  have hoperand : Lowers ctx.catalog sheet ctx.params id (r.operand ctx.params b os) :=
    .reporter hb hliteral hlowering hr (fun name hname => (hlowers name hname).1)
      fun name hname => (hlowers name hname).2
  exact ⟨rfl, rfl, hoperand⟩

/-- A tree of core reporters is compiled to its operand, without code. -/
theorem CoreReporter.bare (halike : sheet.Alike ctx.sheet) (h : CoreReporter ctx.catalog sheet id)
    (depth : Nat) : CompilesBare ctx sheet depth id := by
  induction h generalizing depth with
  | @literal id b v hb hliteral =>
    refine bare_of_block halike hb (fun hnone => ?_) depth
    rw [hliteral] at hnone
    cases hnone
  | @field id b f hb hlowering hprimitive hfield =>
    refine bare_of_block halike hb (fun {_ mutation _ _ _ _} hliteral hliteral' h => ?_) depth
    have hfield' : Block.soleField? { b with mutation } = some f := hfield
    simp only [Descent.compileReporter, Context.reporterWith, hliteral', hlowering, hprimitive,
      hfield'] at h
    obtain ⟨heq, rfl⟩ := pure_ok.mp h
    cases heq
    exact ⟨rfl, rfl, .field hb hliteral hlowering hprimitive hfield⟩
  | reporter hb hlowering hr _ ih =>
    exact bare_reporter halike hb hlowering hr
      (fun depth name _ input hinput => ih name input hinput depth) depth

end BlockMachine

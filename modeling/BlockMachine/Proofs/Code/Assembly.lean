import BlockMachine.Code.Assemble
import BlockMachine.Proofs.Table

/-!
# Assembled code is the code laid out

Assembling a script puts instructions down one by one, with jumps that lead nowhere until they are
patched, and looks procedures up in a book that remembers the answers. `Sheet.compile` lays the same
code out at once, with all targets in place, and asks the sheet itself.

An emitter *follows* a descent (`Emitter.Follows`) when, from a book that is right about its sheet
(`Book.Agrees`), it puts down the code that the descent lays out from that index on, gives the same
operands, takes the same slots and bodies, and fails with the same error. Each construct of the
compiler keeps this, and it is carried down by induction on the depth (`Follows.ofDepth`).

Results:

* `Book.Agrees.assemble`: what is assembled is `Sheet.compile`, no patch missed its jump, and the
  book stays right, after a failure too.

Which index a patch that misses its jump is made at is recorded, but not what is there instead.
-/

namespace BlockMachine

open List

variable {σ τ α β γ δ : Type}

/-! ## Tables of remembered answers -/

/-- Every answer in the table is the one that `f` gives. -/
def Table.Recalls {α : Type} (t : Table α) (f : String → α) : Prop :=
  ∀ key a, t[key]? = some a → a = f key

theorem Table.Recalls.empty (f : String → α) : Table.Recalls (∅ : Table α) f := by
  intro key a h
  simp at h

theorem Table.Recalls.note {t : Table α} {f : String → α} (h : t.Recalls f) (key : String) :
    Table.Recalls (t.insert key (f key)) f := by
  intro key' a ha
  rw [getElem?_insert] at ha
  split at ha
  · next heq =>
    cases ha
    rw [heq]
  · exact h key' a ha

namespace Book

/-- What the book remembers is what the sheet says. -/
structure Agrees (catalog : Catalog σ) (k : Book) : Prop where
  definitions : k.memo.definitions.Recalls k.sheet.definition?
  signatures : k.memo.signatures.Recalls k.sheet.signature?
  programs : k.memo.programs.Recalls (k.sheet.compile catalog)

variable {catalog : Catalog σ} {k : Book}

/-- A book without answers. -/
theorem Agrees.new (s : Sheet) : Agrees catalog { sheet := s } :=
  ⟨.empty _, .empty _, .empty _⟩

section

variable (h : k.Agrees catalog)

include h

theorem Agrees.definition? (proccode : String) :
    (k.definition? proccode).1 = k.sheet.definition? proccode ∧
      (k.definition? proccode).2.sheet = k.sheet ∧ (k.definition? proccode).2.Agrees catalog := by
  unfold Book.definition?
  split
  · next answer hanswer => exact ⟨h.definitions _ _ hanswer, rfl, h⟩
  · exact ⟨rfl, rfl, h.definitions.note proccode, h.signatures, h.programs⟩

theorem Agrees.signature? (proccode : String) :
    (k.signature? proccode).1 = k.sheet.signature? proccode ∧
      (k.signature? proccode).2.sheet = k.sheet ∧ (k.signature? proccode).2.Agrees catalog := by
  unfold Book.signature?
  split
  · next answer hanswer => exact ⟨h.signatures _ _ hanswer, rfl, h⟩
  · exact ⟨rfl, rfl, h.definitions, h.signatures.note proccode, h.programs⟩

end

end Book

/-! ## Single steps -/

namespace Compile

variable {d : Draft}

theorem get_bind {k : Draft → Compile β} : (get >>= k) d = k d d := rfl

theorem modify_bind {f : Draft → Draft} {k : Unit → Compile β} :
    (modify f >>= k) d = k () (f d) := rfl

theorem newSlot_bind {k : Nat → Compile β} :
    (Draft.newSlot >>= k) d = k d.locals { d with locals := d.locals + 1 } := rfl

end Compile

namespace Assemble

variable {a : Assembly} {i j : Instr Script}

theorem get_bind {k : Assembly → Assemble β} : (get >>= k) a = k a a := rfl

theorem set_bind {a' : Assembly} {k : Unit → Assemble β} : (set a' >>= k) a = k () a' := rfl

theorem bind_ok {x : Assemble α} {k : α → Assemble β} {v : α} {a' : Assembly}
    (h : x a = (.ok v, a')) : (x >>= k) a = k v a' := by
  show ExceptT.bindCont k (x a).1 (x a).2 = _
  rw [h]
  rfl

theorem emit_bind {k : Nat → Assemble β} :
    (emit i >>= k) a = k a.code.size { a with code := a.code.push i } := rfl

theorem put_bind {k : Unit → Assemble β} :
    (put i >>= k) a = k () { a with code := a.code.push i } := rfl

theorem here_bind {k : Nat → Assemble β} : (here >>= k) a = k a.code.size a := rfl

theorem newSlot_bind {k : Nat → Assemble β} :
    (newSlot >>= k) a = k a.locals { a with locals := a.locals + 1 } := rfl

theorem ask_bind {question : Book → α × Book} {k : α → Assemble β} :
    (ask question >>= k) a =
      k (question a.book).1 { a with book := (question a.book).2 } := rfl

theorem setBody_bind {key : ProcedureKey} {body : Option Script} {k : Unit → Assemble β} :
    (setBody key body >>= k) a = k () { a with toDraft := a.setBody key body } := rfl

theorem modify_run {f : Assembly → Assembly} : (modify f : Assemble Unit) a = (.ok (), f a) := rfl

theorem patch_run {before after : Code} {target : Nat}
    (hcode : a.code.toList = before ++ i :: after) (haim : i.aim? target = some j) :
    patch before.length target a =
      (.ok (), { a with code := (before ++ j :: after).toArray }) := by
  obtain hcode : a.code = (before ++ i :: after).toArray := by
    rw [← hcode, Array.toArray_toList]
  have hget : a.code[before.length]? = some i := by
    rw [hcode]
    simp
  have hset : a.code.setIfInBounds before.length j = (before ++ j :: after).toArray := by
    rw [hcode]
    simp
  have hfound : (a.code[before.length]? >>= Instr.aim? target) = some j := by
    rw [hget]
    exact haim
  unfold patch
  rw [modify_run, hfound, ← hset]

end Assemble

/-! ## Assemblies that follow a draft -/

namespace Assembly

/-- Nothing was patched in vain, and the book is right about the same sheet. -/
structure Keeps (catalog : Catalog τ) (a a' : Assembly) : Prop where
  strays : a'.strays = a.strays
  sheet : a'.book.sheet = a.book.sheet
  agrees : a'.book.Agrees catalog

/-- Some code was put down. -/
structure Grows (catalog : Catalog τ) (a : Assembly) (code : Code) (a' : Assembly) : Prop
    extends Keeps catalog a a' where
  code : a'.code.toList = a.code.toList ++ code

/-- The outcomes of drafting and of assembling are alike: where the draft has code and a value, as
`p` tells, the code was put down and the value is given. -/
inductive Matches (catalog : Catalog τ) (p : β → Code × α) (a : Assembly) :
    Except Failure (β × Draft) → Except CompileError α × Assembly → Prop
  | ok {b : β} {d : Draft} {a' : Assembly} (hdraft : a'.toDraft = d)
      (hcode : a.Grows catalog (p b).1 a') : Matches catalog p a (.ok (b, d)) (.ok (p b).2, a')
  | error {failure : Failure} {a' : Assembly} (h : a.Keeps catalog a') :
      Matches catalog p a (.error failure) (.error failure.error, a')

variable {catalog : Catalog τ} {a a₁ a₂ : Assembly} {code code' : Code}

theorem Keeps.trans (h : a.Keeps catalog a₁) (h' : a₁.Keeps catalog a₂) : a.Keeps catalog a₂ :=
  ⟨h'.strays.trans h.strays, h'.sheet.trans h.sheet, h'.agrees⟩

theorem Grows.refl (h : a.book.Agrees catalog) : a.Grows catalog [] a :=
  ⟨⟨rfl, rfl, h⟩, (append_nil _).symm⟩

theorem Grows.trans (h : a.Grows catalog code a₁) (h' : a₁.Grows catalog code' a₂) :
    a.Grows catalog (code ++ code') a₂ :=
  ⟨h.toKeeps.trans h'.toKeeps, by rw [h'.code, h.code, append_assoc]⟩

theorem Grows.size (h : a.Grows catalog code a₁) : a₁.code.size = a.code.size + code.length := by
  rw [← Array.length_toList, h.code, length_append, Array.length_toList]

theorem Grows.push (h : a.Grows catalog code a₁) (i : Instr Script) :
    a.Grows catalog (code ++ [i]) { a₁ with code := a₁.code.push i } :=
  ⟨⟨h.strays, h.sheet, h.agrees⟩, by rw [Array.toList_push, h.code, append_assoc]⟩

/-- Patching a jump that was put down. -/
theorem Grows.patch {before after : Code} (jump : Nat → Instr Script) {index : Nat}
    (haim : ∀ t, (jump 0).aim? t = some (jump t))
    (h : a.Grows catalog (before ++ jump 0 :: after) a₁)
    (hindex : index = a.code.size + before.length) (target : Nat) :
    ∃ a₂, Assemble.patch index target a₁ = (.ok (), a₂) ∧ a₂.toDraft = a₁.toDraft ∧
      a.Grows catalog (before ++ jump target :: after) a₂ := by
  have hcode : a₁.code.toList = (a.code.toList ++ before) ++ jump 0 :: after := by
    rw [h.code, append_assoc]
  have hlength : index = (a.code.toList ++ before).length := by
    simp [hindex]
  have hpatch := Assemble.patch_run hcode (haim target)
  rw [← hlength] at hpatch
  exact ⟨_, hpatch, rfl, ⟨h.strays, h.sheet, h.agrees⟩, append_assoc _ _ _⟩

/-- A step after another one, on both sides. -/
theorem Matches.bind {p : β → Code × α} {q : δ → Code × γ} {y : Compile β} {g : β → Compile δ}
    {x : Assemble α} {f : α → Assemble γ} {d : Draft} (hbase : a.Keeps catalog a₁)
    (hx : Matches catalog p a₁ (y d) (x a₂))
    (hnext : ∀ b a', a₁.Grows catalog (p b).1 a' →
      Matches catalog q a (g b a'.toDraft) (f (p b).2 a')) :
    Matches catalog q a ((y >>= g) d) ((x >>= f) a₂) := by
  show Matches catalog q a (Except.bind (y d) fun r => g r.1 r.2)
    (ExceptT.bindCont f (x a₂).1 (x a₂).2)
  generalize y d = r, x a₂ = out at hx
  cases hx with
  | ok hdraft h =>
    subst hdraft
    exact hnext _ _ h
  | error h => exact .error (hbase.trans h)

/-- The last step, behind some code. -/
theorem Matches.last {p : β → Code × α} {q : δ → Code × α} {y : Compile β} {k : β → δ}
    {out : Except CompileError α × Assembly} {d : Draft} (hpre : a.Grows catalog code a₁)
    (hx : Matches catalog p a₁ (y d) out) (hk : ∀ b, q (k b) = (code ++ (p b).1, (p b).2)) :
    Matches catalog q a ((y >>= fun b => pure (k b)) d) out := by
  show Matches catalog q a (Except.bind (y d) fun r => .ok (k r.1, r.2)) out
  generalize y d = r at hx
  cases hx with
  | error h => exact .error (hpre.toKeeps.trans h)
  | @ok b d a' hdraft h =>
    have hvalue : (p b).2 = (q (k b)).2 := by rw [hk]
    have hcode : a.Grows catalog (q (k b)).1 a' := by
      rw [hk]
      exact hpre.trans h
    rw [hvalue]
    exact .ok hdraft hcode

/-- A jump that was put down first is patched in the end, to lead right behind the code. -/
theorem Matches.patched {before after : Code} (jump : Nat → Instr Script) {index target : Nat}
    (haim : ∀ t, (jump 0).aim? t = some (jump t))
    (h : a.Grows catalog (before ++ jump 0 :: after) a₁)
    (hindex : index = a.code.size + before.length) (htarget : target = index + 1 + after.length) :
    Matches catalog (·, ()) a (.ok (before ++ jump target :: after, a₁.toDraft))
      (Assemble.patch index a₁.code.size a₁) := by
  obtain ⟨a₂, hpatch, hdraft, hcode⟩ := h.patch jump haim hindex a₁.code.size
  have hsize : a₁.code.size = target := by
    rw [h.size, htarget, hindex, length_append, length_cons]
    omega
  rw [hpatch]
  rw [hsize] at hcode
  exact .ok hdraft hcode

/-- The book is right about the sheet that is compiled. -/
def Ready (catalog : Catalog τ) (ctx : Context σ) (a : Assembly) : Prop :=
  a.book.Agrees catalog ∧ a.book.sheet = ctx.sheet

variable {ctx : Context σ}

theorem Ready.grows (h : a.Ready catalog ctx) : a.Grows catalog [] a := .refl h.1

theorem Ready.keeps (h : a.Ready catalog ctx) : a.Keeps catalog a := h.grows.toKeeps

theorem Keeps.ready (h : a.Keeps catalog a₁) (ha : a.Ready catalog ctx) : a₁.Ready catalog ctx :=
  ⟨h.agrees, h.sheet.trans ha.2⟩

end Assembly

open Assembly

/-- The emitter assembles what the descent lays out. -/
structure Emitter.Follows (catalog : Catalog τ) (e : Emitter σ) (d : Descent σ) : Prop where
  stack : ∀ {ctx : Context σ} {a : Assembly} {pc : Nat} (first : Option BlockId),
    a.Ready catalog ctx → pc = a.code.size →
      Matches catalog (·, ()) a (d.stack ctx pc first a.toDraft) (e.stack ctx first a)
  reporter : ∀ {ctx : Context σ} {a : Assembly} (b : Block), a.Ready catalog ctx →
    Matches catalog (fun r => r) a (d.reporter ctx b a.toDraft) (e.reporter ctx b a)

namespace Emitter.Follows

variable {catalog : Catalog τ} {e : Emitter σ} {d : Descent σ} {ctx : Context σ} {a : Assembly}
  {b : Block}

theorem fetch_bind {p : δ → Code × γ} {a₁ : Assembly} {id : BlockId} {g : Block → Compile δ}
    {f : Block → Assemble γ} (hbase : a.Keeps catalog a₁)
    (hnext : ∀ b, ctx.sheet.block? id = some b →
      Matches catalog p a (g b a₁.toDraft) (f b a₁)) :
    Matches catalog p a ((ctx.block id >>= g) a₁.toDraft) ((ctx.fetch id >>= f) a₁) := by
  unfold Context.block Context.fetch
  cases hblock : ctx.sheet.block? id with
  | none => exact .error hbase
  | some b => exact hnext b hblock

section

variable (h : e.Follows catalog d) (ha : a.Ready catalog ctx)

include h ha

theorem input (b : Block) (name : String) :
    Matches catalog (fun r => r) a (ctx.input d b name a.toDraft) (ctx.emitInput e b name a) := by
  unfold Context.input Context.emitInput
  cases b.inputBlock? name with
  | none => exact .ok rfl ha.grows
  | some id => exact fetch_bind ha.keeps fun b _ => h.reporter b ha

theorem script (name : String) (first : Option BlockId) :
    Matches catalog (([], ·)) a (ctx.script d name first a.toDraft)
      (ctx.emitScript e name first a) := by
  have hready : Ready catalog ctx { a with code := #[], locals := 0 } := ha
  have hkeeps : a.Keeps catalog { a with code := #[], locals := 0 } := ⟨rfl, rfl, ha.1⟩
  unfold Context.script Context.emitScript
  rw [Compile.get_bind, Compile.modify_bind, Assemble.get_bind, Assemble.set_bind]
  refine .bind hkeeps (h.stack first hready rfl) fun code a₁ h₁ => ?_
  have hlist : a₁.code.toList = code := h₁.code.trans (nil_append _)
  have hcode : a₁.code = code.toArray := by rw [← hlist, Array.toArray_toList]
  rw [Compile.get_bind, Compile.modify_bind, Assemble.get_bind, Assemble.set_bind, hcode]
  exact .ok rfl ⟨⟨h₁.strays, h₁.sheet, h₁.agrees⟩, (append_nil _).symm⟩

theorem arguments (b : Block) (names : List String) :
    Matches catalog (fun r => r) a (ctx.arguments d b names a.toDraft)
      (ctx.emitArguments e b names a) := by
  induction names generalizing a with
  | nil => exact .ok rfl ha.grows
  | cons name names ih =>
    unfold Context.arguments Context.emitArguments
    by_cases hstack : isStackSlot name = true
    · rw [if_pos hstack, if_pos hstack]
      exact ih ha
    rw [if_neg hstack, if_neg hstack]
    refine .bind ha.keeps (h.input ha b name) fun r a₁ h₁ => ?_
    obtain ⟨pre, o⟩ := r
    refine .bind h₁.toKeeps (ih (h₁.ready ha)) fun r a₂ h₂ => ?_
    obtain ⟨code, args⟩ := r
    exact .ok rfl (h₁.trans h₂)

theorem fragments (opcode : String) (n : Nat) (slots : List Slot) :
    Matches catalog (([], ·)) a (ctx.fragments d opcode n slots a.toDraft)
      (ctx.emitFragments e opcode n slots a) := by
  induction slots generalizing a n with
  | nil => exact .ok rfl ha.grows
  | cons slot slots ih =>
    unfold Context.fragments Context.emitFragments
    cases slot.block with
    | none =>
      simp only [pure_bind]
      refine .bind ha.keeps (ih ha (n + 1)) fun rest a₁ h₁ => ?_
      exact .ok rfl h₁
    | some id =>
      simp only [pure_bind]
      refine .bind ha.keeps (h.script ha _ (some id)) fun first a₁ h₁ => ?_
      refine .bind h₁.toKeeps (ih (h₁.ready ha) (n + 1)) fun rest a₂ h₂ => ?_
      exact .ok rfl (h₁.trans h₂)

theorem primitiveCall (b : Block) (dest : Option Nat) :
    Matches catalog (·, ()) a (ctx.primitiveCall d b dest a.toDraft)
      (ctx.emitPrimitive e b dest a) := by
  refine .bind ha.keeps (h.arguments ha b _) fun r a₁ h₁ => ?_
  obtain ⟨code, args⟩ := r
  refine .bind h₁.toKeeps (h.fragments (h₁.ready ha) _ _ _) fun branches a₂ h₂ => ?_
  have hcode := (h₁.trans h₂).push (.primitive
    { opcode := b.opcode, block := b.id, args, fields := b.fields, mutation := b.mutation,
      branches, dest })
  rw [append_nil] at hcode
  exact .ok rfl hcode

theorem procedure (proccode : String) (signature : Signature) :
    Matches catalog (([], ·)) a (ctx.procedure d proccode signature a.toDraft)
      (ctx.emitProcedure e proccode signature a) := by
  unfold Context.procedure Context.emitProcedure
  obtain ⟨hanswer, hsheet, hagrees⟩ := ha.1.definition? proccode
  rw [Assemble.ask_bind, hanswer, ha.2]
  have hasked : a.Keeps catalog { a with book := (a.book.definition? proccode).2 } :=
    ⟨rfl, hsheet, hagrees⟩
  cases ctx.sheet.definition? proccode with
  | none => exact .ok rfl ⟨hasked, (append_nil _).symm⟩
  | some definition =>
    dsimp only
    rw [Compile.get_bind, Assemble.get_bind]
    by_cases hnew : (a.body? { proccode, warp := ctx.warp || signature.warp }).isNone = true
    · rw [if_pos hnew, if_pos hnew, Compile.modify_bind, Assemble.setBody_bind]
      have hbegun : a.Keeps catalog
          { toDraft := a.setBody { proccode, warp := ctx.warp || signature.warp } none
            book := (a.book.definition? proccode).2, code := a.code, strays := a.strays } :=
        ⟨rfl, hsheet, hagrees⟩
      refine fetch_bind hbegun fun b _ => ?_
      refine .bind hbegun (h.script ?ready _ b.next) fun body a₁ h₁ => ?_
      case ready => exact hbegun.ready ha
      exact .ok rfl ⟨hbegun.trans ⟨h₁.strays, h₁.sheet, h₁.agrees⟩, h₁.code⟩
    · rw [if_neg hnew, if_neg hnew]
      exact .ok rfl ⟨hasked, (append_nil _).symm⟩

/-! ## Reporters -/

theorem unary {r : Reporter} {name : String} {f : Operand → Operand} (hinputs : r.inputs = [name])
    (hf : ∀ o, r.operand ctx.params b
      (fun n => ([(name, o)].lookup n).getD (.const Value.empty)) = f o) :
    Matches catalog (fun r => r) a (Reporter.unary ctx d b name f a.toDraft)
      (r.emit ctx e b a) := by
  unfold Reporter.unary Reporter.emit
  rw [hinputs]
  simp only [Context.emitInputs, bind_assoc, pure_bind, hf]
  refine .bind ha.keeps (h.input ha b name) fun r a₁ h₁ => ?_
  obtain ⟨code, o⟩ := r
  exact .ok rfl h₁

theorem binary {r : Reporter} {first second : String} {f : Operand → Operand → Operand}
    (hinputs : r.inputs = [first, second])
    (hf : ∀ x y, r.operand ctx.params b
      (fun n => ([(first, x), (second, y)].lookup n).getD (.const Value.empty)) = f x y) :
    Matches catalog (fun r => r) a (Reporter.binary ctx d b first second f a.toDraft)
      (r.emit ctx e b a) := by
  unfold Reporter.binary Reporter.emit
  rw [hinputs]
  simp only [Context.emitInputs, bind_assoc, pure_bind, hf]
  refine .bind ha.keeps (h.input ha b first) fun r a₁ h₁ => ?_
  obtain ⟨code, x⟩ := r
  refine .bind h₁.toKeeps (h.input (h₁.ready ha) b second) fun r a₂ h₂ => ?_
  obtain ⟨code', y⟩ := r
  exact .ok rfl (h₁.trans h₂)

theorem lower_reporter (r : Reporter) :
    Matches catalog (fun r => r) a (r.lower ctx d b a.toDraft) (r.emit ctx e b a) := by
  cases r with
  | var | listText | listLength | timer | argument default => exact .ok rfl ha.grows
  | listItem | listPosition | listContains | not | length | round | math =>
    unfold Reporter.lower
    refine h.unary ha ?_ fun o => ?_
    · rfl
    · simp [Reporter.operand]
  | arithmetic op | compare op | and | or | random | join | letter | includes =>
    unfold Reporter.lower
    refine h.binary ha ?_ fun x y => ?_
    · rfl
    · simp [Reporter.operand, lookup_cons]

/-! ## Statements -/

theorem simple (name : String) (f : Operand → Instr Script) :
    Matches catalog (·, ()) a (Statement.simple ctx d b name f a.toDraft)
      (Statement.emitSimple ctx e b name f a) := by
  refine .bind ha.keeps (h.input ha b name) fun r a₁ h₁ => ?_
  obtain ⟨code, o⟩ := r
  exact .ok rfl (h₁.push (f o))

theorem placing (f : VarRef → Expr → Expr → Instr Script) :
    Matches catalog (·, ()) a (Statement.placing ctx d b f a.toDraft)
      (Statement.emitPlacing ctx e b f a) := by
  refine .bind ha.keeps (h.input ha b _) fun r a₁ h₁ => ?_
  obtain ⟨code, index⟩ := r
  refine .bind h₁.toKeeps (h.input (h₁.ready ha) b _) fun r a₂ h₂ => ?_
  obtain ⟨code', item⟩ := r
  exact .ok rfl ((h₁.trans h₂).push _)

theorem bindings (parameters : List ((String × String) × Option Value)) :
    Matches catalog (fun r => r) a (Statement.bindings ctx d b parameters a.toDraft)
      (Statement.emitBindings ctx e b parameters a) := by
  induction parameters generalizing a with
  | nil => exact .ok rfl ha.grows
  | cons parameter rest ih =>
    obtain ⟨⟨id, name⟩, default?⟩ := parameter
    unfold Statement.bindings Statement.emitBindings
    cases b.inputBlock? id with
    | none =>
      simp only [pure_bind]
      refine .bind ha.keeps (ih ha) fun r a₁ h₁ => ?_
      obtain ⟨code, args⟩ := r
      exact .ok rfl h₁
    | some _ =>
      simp only [pure_bind]
      refine .bind ha.keeps (h.input ha b id) fun r a₁ h₁ => ?_
      obtain ⟨pre, o⟩ := r
      refine .bind h₁.toKeeps (ih (h₁.ready ha)) fun r a₂ h₂ => ?_
      obtain ⟨code, args⟩ := r
      exact .ok rfl (h₁.trans h₂)

theorem calling : Matches catalog (·, ()) a (Statement.calling ctx d b a.toDraft)
    (Statement.emitCall ctx e b a) := by
  unfold Statement.calling Statement.emitCall
  cases b.proccode? with
  | none => exact .ok rfl (ha.grows.push _)
  | some proccode =>
    obtain ⟨hanswer, hsheet, hagrees⟩ := ha.1.signature? proccode
    dsimp only
    rw [Assemble.ask_bind, hanswer, ha.2]
    have hasked : a.Grows catalog [] { a with book := (a.book.signature? proccode).2 } :=
      ⟨⟨rfl, hsheet, hagrees⟩, (append_nil _).symm⟩
    cases ctx.sheet.signature? proccode with
    | error err => exact .error hasked.toKeeps
    | ok signature? =>
      simp only [pure_bind]
      refine .bind hasked.toKeeps (h.procedure (hasked.ready ha) proccode _) fun key? a₁ h₁ => ?_
      have hkey : a.Grows catalog [] a₁ := hasked.trans h₁
      cases key? with
      | none => exact .ok rfl (hkey.push _)
      | some key =>
        refine .bind hkey.toKeeps (h.bindings (hkey.ready ha) _) fun r a₂ h₂ => ?_
        obtain ⟨code, args⟩ := r
        have hcode : a.Grows catalog code a₂ := hkey.trans h₂
        dsimp only
        rw [Compile.get_bind, Assemble.get_bind]
        by_cases hwarp : ctx.warp = true
        · rw [if_pos hwarp, if_pos hwarp]
          exact .ok rfl ((hcode.push _).push _)
        rw [if_neg hwarp, if_neg hwarp]
        rcases a₂.body? key with _ | (_ | body)
        · rw [if_neg Bool.false_ne_true, if_neg Bool.false_ne_true, append_nil]
          exact .ok rfl (hcode.push _)
        · exact .ok rfl ((hcode.push _).push _)
        · rw [if_neg Bool.false_ne_true, if_neg Bool.false_ne_true, append_nil]
          exact .ok rfl (hcode.push _)

theorem rounds {pre : Code} {a₁ : Assembly} (exit : Nat → Instr Script) {back : Nat}
    (haim : ∀ t, (exit 0).aim? t = some (exit t)) (h₁ : a.Grows catalog pre a₁) :
    Matches catalog (·, ()) a (Statement.loop ctx d b a.code.size pre back exit a₁.toDraft)
      (Statement.emitRounds ctx e b a₁.code.size back
        { a₁ with code := a₁.code.push (exit 0) }) := by
  have h₂ := h₁.push (exit 0)
  have hsize : a.code.size + pre.length + 1 = (a₁.code.push (exit 0)).size := by
    rw [Array.size_push, h₁.size]
  refine .bind h₂.toKeeps (h.stack _ (h₂.ready ha) hsize) fun body a₃ h₃ => ?_
  have hcode := ((h₂.trans h₃).push ctx.loopYield).push (.jump back)
  rw [Assemble.put_bind, Assemble.put_bind, Assemble.here_bind]
  simp only [append_assoc, cons_append, nil_append] at hcode ⊢
  refine .patched exit haim hcode h₁.size ?_
  rw [h₁.size, length_append]
  simp only [length_cons, length_nil]
  omega

theorem loop (exit : Expr → Nat → Instr Script)
    (haim : ∀ condition t, (exit condition 0).aim? t = some (exit condition t)) :
    Matches catalog (·, ()) a
      ((do
        let (pre, condition) ← ctx.input d b "CONDITION"
        Statement.loop ctx d b a.code.size pre a.code.size (exit condition.asBool)) a.toDraft)
      (Statement.emitLoop ctx e b exit a) := by
  unfold Statement.emitLoop
  rw [Assemble.here_bind]
  refine .bind ha.keeps (h.input ha b _) fun r a₁ h₁ => ?_
  obtain ⟨pre, condition⟩ := r
  exact h.rounds ha (exit condition.asBool) (haim condition.asBool) h₁

theorem repeatTimes :
    Matches catalog (·, ()) a (Statement.lower ctx d a.code.size b .repeatTimes a.toDraft)
      (Statement.emit ctx e b .repeatTimes a) := by
  unfold Statement.lower Statement.emit
  refine .bind ha.keeps (h.input ha b _) fun r a₁ h₁ => ?_
  obtain ⟨pre, times⟩ := r
  have hslot : a.Grows catalog pre { a₁ with locals := a₁.locals + 1 } :=
    ⟨⟨h₁.strays, h₁.sheet, h₁.agrees⟩, h₁.code⟩
  have h₂ := hslot.push (.repeatInit a₁.locals times.asNumber)
  have hback : a.code.size + pre.length + 1 =
      (a₁.code.push (.repeatInit a₁.locals times.asNumber)).size := by
    rw [Array.size_push, h₁.size]
  dsimp only
  rw [Compile.newSlot_bind, Assemble.newSlot_bind, Assemble.put_bind, Assemble.emit_bind, hback]
  exact h.rounds ha (.repeatTest a₁.locals) (fun _ => rfl) h₂

theorem forever :
    Matches catalog (·, ()) a (Statement.lower ctx d a.code.size b .forever a.toDraft)
      (Statement.emit ctx e b .forever a) := by
  unfold Statement.lower Statement.emit
  dsimp only
  rw [Assemble.here_bind]
  refine .bind ha.keeps (h.stack _ ha rfl) fun body a₁ h₁ => ?_
  have hcode := (h₁.push ctx.loopYield).push (.jump a.code.size)
  rw [append_assoc] at hcode
  exact .ok rfl hcode

theorem waitUntil :
    Matches catalog (·, ()) a (Statement.lower ctx d a.code.size b .waitUntil a.toDraft)
      (Statement.emit ctx e b .waitUntil a) := by
  unfold Statement.lower Statement.emit
  dsimp only
  rw [Assemble.here_bind]
  refine .bind ha.keeps (h.input ha b _) fun r a₁ h₁ => ?_
  obtain ⟨pre, condition⟩ := r
  have hcode := ((h₁.push (.jumpIf condition.asBool 0)).push ctx.loopYield).push
    (.jump a.code.size)
  simp only [append_assoc, cons_append, nil_append] at hcode
  rw [Assemble.emit_bind, Assemble.put_bind, Assemble.put_bind, Assemble.here_bind]
  exact .patched (.jumpIf condition.asBool) (fun _ => rfl) hcode h₁.size (by rw [h₁.size]; rfl)

theorem ifThen : Matches catalog (·, ()) a (Statement.lower ctx d a.code.size b .ifThen a.toDraft)
    (Statement.emit ctx e b .ifThen a) := by
  unfold Statement.lower Statement.emit
  refine .bind ha.keeps (h.input ha b _) fun r a₁ h₁ => ?_
  obtain ⟨pre, condition⟩ := r
  dsimp only at h₁ ⊢
  have hready := h₁.ready ha
  cases condition.expr.const? with
  | some v =>
    dsimp only
    by_cases hv : v.toBool = true
    · rw [if_pos hv, if_pos hv]
      exact .last h₁ (h.stack _ hready h₁.size.symm) fun _ => rfl
    · rw [if_neg hv, if_neg hv]
      exact .ok rfl h₁
  | none =>
    dsimp only
    have h₂ := h₁.push (.jumpUnless condition.asBool 0)
    rw [Assemble.emit_bind]
    refine .bind h₂.toKeeps (h.stack _ (h₂.ready ha) ?size) fun body a₃ h₃ => ?_
    case size =>
      rw [h₂.size, length_append]
      rfl
    have hcode := h₂.trans h₃
    simp only [append_assoc, cons_append, nil_append] at hcode
    exact .patched (.jumpUnless condition.asBool) (fun _ => rfl) hcode h₁.size (by rw [h₁.size])

theorem ifElse : Matches catalog (·, ()) a (Statement.lower ctx d a.code.size b .ifElse a.toDraft)
    (Statement.emit ctx e b .ifElse a) := by
  unfold Statement.lower Statement.emit
  refine .bind ha.keeps (h.input ha b _) fun r a₁ h₁ => ?_
  obtain ⟨pre, condition⟩ := r
  dsimp only at h₁ ⊢
  have h₂ := h₁.push (.jumpUnless condition.asBool 0)
  rw [Assemble.emit_bind]
  refine .bind h₂.toKeeps (h.stack _ (h₂.ready ha) ?size) fun body a₃ h₃ => ?_
  case size =>
    rw [h₂.size, length_append]
    rfl
  dsimp only at h₃
  have h₄ := (h₂.trans h₃).push (.jump 0)
  simp only [append_assoc, cons_append, nil_append] at h₄
  rw [Assemble.emit_bind, Assemble.here_bind]
  obtain ⟨a₅, hpatch, hdraft, h₅⟩ := h₄.patch (.jumpUnless condition.asBool) (fun _ => rfl) h₁.size
    (a₃.code.push (.jump 0)).size
  have hother : (a₃.code.push (.jump 0)).size = a.code.size + pre.length + 1 + body.length + 1 := by
    rw [Array.size_push, h₃.size, Array.size_push, h₁.size]
  have hsame : a₃.toDraft = a₅.toDraft := hdraft.symm
  rw [Assemble.bind_ok hpatch, hsame]
  rw [hother] at h₅
  refine .bind h₅.toKeeps (h.stack _ (h₅.ready ha) ?size) fun body' a₆ h₆ => ?_
  case size =>
    rw [h₅.size]
    simp only [length_append, length_cons, length_nil]
    omega
  have hcode := h₅.trans h₆
  simp only [append_assoc, cons_append, nil_append] at hcode
  rw [Assemble.here_bind]
  refine .patched .jump (fun _ => rfl) (by simpa using hcode) ?_ ?_
  · rw [h₃.size, Array.size_push, h₁.size, length_append, length_cons]
    omega
  · rw [h₃.size, Array.size_push, h₁.size]

theorem lower_statement (s : Statement) :
    Matches catalog (·, ()) a (s.lower ctx d a.code.size b a.toDraft) (s.emit ctx e b a) := by
  cases s with
  | ifThen => exact h.ifThen ha
  | ifElse => exact h.ifElse ha
  | repeatTimes => exact h.repeatTimes ha
  | repeatUntil => exact h.loop ha .jumpIf fun _ _ => rfl
  | repeatWhile => exact h.loop ha .jumpUnless fun _ _ => rfl
  | forever => exact h.forever ha
  | waitUntil => exact h.waitUntil ha
  | stop =>
    unfold Statement.lower Statement.emit
    dsimp only
    cases Library.Flow.stopOption? (b.fieldText "STOP_OPTION") with
    | none | some option => exact .ok rfl (ha.grows.push _)
  | clearList => exact .ok rfl (ha.grows.push _)
  | allAtOnce => exact h.stack _ ha rfl
  | wait | setVariable | changeVariable | addToList | deleteOfList =>
    unfold Statement.lower Statement.emit
    exact h.simple ha _ _
  | insertAtList | replaceInList =>
    unfold Statement.lower Statement.emit
    exact h.placing ha _
  | call => exact h.calling ha

/-! ## Stacks and whole scripts -/

theorem reporterWith (b : Block) :
    Matches catalog (fun r => r) a (ctx.reporterWith d b a.toDraft) (ctx.emitReporter e b a) := by
  unfold Context.reporterWith Context.emitReporter
  cases Context.literal? b with
  | some v => exact .ok rfl ha.grows
  | none =>
    dsimp only
    cases ctx.catalog.lowering? b.opcode with
    | some lowering =>
      cases lowering with
      | reporter r => exact h.lower_reporter ha r
      | statement s => exact .error ha.keeps
    | none =>
      dsimp only
      split
      · rw [Compile.newSlot_bind, Assemble.newSlot_bind]
        have hslot : a.Grows catalog [] { a with locals := a.locals + 1 } :=
          ⟨⟨rfl, rfl, ha.1⟩, (append_nil _).symm⟩
        refine .bind hslot.toKeeps (h.primitiveCall (hslot.ready ha) b _) fun code a₁ h₁ => ?_
        exact .ok rfl (hslot.trans h₁)
      · cases b.soleField? with
        | none => exact .error ha.keeps
        | some f => exact .ok rfl ha.grows

theorem statementWith (b : Block) :
    Matches catalog (·, ()) a (ctx.statementWith d a.code.size b a.toDraft)
      (ctx.emitStatement e b a) := by
  unfold Context.statementWith Context.emitStatement
  cases ctx.catalog.lowering? b.opcode with
  | some lowering =>
    cases lowering with
    | statement s => exact h.lower_statement ha s
    | reporter r =>
      refine .bind ha.keeps (h.lower_reporter ha r) fun r a₁ h₁ => ?_
      exact .ok rfl h₁
  | none =>
    dsimp only
    split
    · exact h.primitiveCall ha b none
    split
    · exact .ok rfl ha.grows
    · exact .error ha.keeps

theorem stackWith (first : Option BlockId) :
    Matches catalog (·, ()) a (ctx.stackWith d a.code.size first a.toDraft)
      (ctx.emitStack e first a) := by
  cases first with
  | none => exact .ok rfl ha.grows
  | some id =>
    refine fetch_bind ha.keeps fun b _ => ?_
    refine .bind ha.keeps (h.statementWith ha b) fun code a₁ h₁ => ?_
    exact .last h₁ (h.stack b.next (h₁.ready ha) h₁.size.symm) fun _ => rfl

end

/-- An emitter of some depth follows the descent of that depth. -/
theorem ofDepth (depth : Nat) :
    (Emitter.ofDepth depth : Emitter σ).Follows catalog (Descent.ofDepth depth) := by
  induction depth with
  | zero => exact ⟨fun _ ha _ => .error ha.keeps, fun _ ha => .error ha.keeps⟩
  | succ depth ih =>
    constructor
    · rintro ctx a pc first ha rfl
      exact ih.stackWith ha first
    · intro ctx a b ha
      exact ih.reporterWith ha b

end Emitter.Follows

namespace Book

variable {catalog : Catalog σ} {k : Book}

/-- What is assembled is what the sheet's code is laid out as, every patch met a jump, and what the
book has learned on the way is right. -/
theorem Agrees.assemble (h : k.Agrees catalog) (top : BlockId) :
    (k.assemble catalog top).1 = k.sheet.compile catalog top ∧
      (k.assemble catalog top).2.strays = [] ∧
      (k.assemble catalog top).2.book.sheet = k.sheet ∧
      (k.assemble catalog top).2.book.Agrees catalog := by
  unfold Book.assemble Sheet.compile Sheet.compileDraft
  cases k.sheet.skipHats catalog (k.sheet.blocks.size + 1) (some top) with
  | error err => exact ⟨rfl, rfl, rfl, h⟩
  | ok first =>
    have hready : Assembly.Ready catalog ({ catalog, sheet := k.sheet } : Context σ)
        { book := k } :=
      ⟨h, rfl⟩
    have hmatch := (Emitter.Follows.ofDepth k.sheet.compileDepth).script hready
      ("script " ++ Text.quote top) first
    dsimp only [StateT.run] at hmatch ⊢
    revert hmatch
    generalize Context.script _ _ _ _ _ = laid, Context.emitScript _ _ _ _ _ = made
    intro hmatch
    cases hmatch with
    | error hkeeps => exact ⟨rfl, hkeeps.strays, hkeeps.sheet, hkeeps.agrees⟩
    | ok hdraft hcode =>
      subst hdraft
      exact ⟨rfl, hcode.strays, hcode.sheet, hcode.agrees⟩

end Book

end BlockMachine

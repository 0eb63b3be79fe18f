import BlockMachine.Proofs.Script.Meaning
import BlockMachine.Proofs.Turn.GivingWay
import BlockMachine.Proofs.Turn.Running
import BlockMachine.Proofs.Turn.Suspension

/-!
# The arguments of recursive calls

A call of a procedure takes its arguments and gives way to other threads, where the procedure is
recursive. The interpreter takes them first (`Turn.execute_call`); compiled code gives way first and
takes them in the next turn (`Turn.visit_callInstr`). Both bind the parameters in one and the
same manner (`Signature.bound`), so they differ only where an argument changes its value in between.

The module is about `Turn.enterProcedure`, `Statement.calling` and the instruction `Instr.call`.

## Results

* `Turn.execute_call`, `Turn.visit_callInstr`: one call, interpreted and compiled.
* `recursive_call_parameters`: both, and what their parameters have in common.
* `recursive_call_parameters_differ`: an argument that changes in between.

Left out are calls in warp mode and arguments other than fields and reporters of the core blocks.
-/

namespace BlockMachine

open List

variable {σ : Type} {ps : List ((String × String) × Option Value)} {args : List (String × Expr)}
  {name : String} {input : BlockId}

/-! ## Pieces of code -/

/-- The piece stands in the code from an index on. -/
def Sits (code : Code) (pc : Nat) (piece : Code) : Prop :=
  ∃ before after, code = before ++ piece ++ after ∧ before.length = pc

namespace Sits

variable {code a b : Code} {pc : Nat} {i : Instr Script}

theorem right (h : Sits code pc (a ++ b)) : Sits code (pc + a.length) b := by
  obtain ⟨before, after, rfl, rfl⟩ := h
  exact ⟨before ++ a, after, by simp, by simp⟩

theorem head (h : Sits code pc (i :: a)) : code[pc]? = some i := by
  obtain ⟨before, after, rfl, rfl⟩ := h
  simp

theorem tail (h : Sits code pc (i :: a)) : Sits code (pc + 1) a :=
  right (a := [i]) h

theorem whole (code : Code) : Sits code 0 code := ⟨[], [], by simp, rfl⟩

end Sits

/-! ## Expressions for parameters -/

/-- The expressions that a call binds to parameters. -/
inductive Binds (catalog : Catalog σ) (sheet : Sheet) (names : List String) (b : Block) :
    List ((String × String) × Option Value) → List (String × Expr) → Prop
  | nil : Binds catalog sheet names b [] []
  | filled {id name input : String} {default? : Option Value} {o : Operand}
      {rest : List ((String × String) × Option Value)} {args : List (String × Expr)}
      (hinput : b.inputBlock? id = some input) (ho : Lowers catalog sheet names input o)
      (hrest : Binds catalog sheet names b rest args) :
      Binds catalog sheet names b (((id, name), default?) :: rest) ((name, o.expr) :: args)
  | empty {id name : String} {default? : Option Value}
      {rest : List ((String × String) × Option Value)} {args : List (String × Expr)}
      (hinput : b.inputBlock? id = none) (hrest : Binds catalog sheet names b rest args) :
      Binds catalog sheet names b (((id, name), default?) :: rest)
        ((name, .const (default?.getD .empty)) :: args)

section

open Compile

variable {sheet : Sheet} {ctx : Context σ} {b : Block} {depth : Nat} {code : Code} {d d' : Draft}

theorem bindings_binds {mutation : Option Mutation} (halike : sheet.Alike ctx.sheet)
    (hinputs : ∀ name input, b.inputBlock? name = some input → CoreReporter ctx.catalog sheet input)
    (h : Statement.bindings ctx (Descent.ofDepth depth) { b with mutation } ps d =
      .ok ((code, args), d')) :
    code = [] ∧ d' = d ∧ Binds ctx.catalog sheet ctx.params b ps args := by
  induction ps generalizing d code args with
  | nil =>
    obtain ⟨heq, rfl⟩ := pure_ok.mp h
    cases heq
    exact ⟨rfl, rfl, .nil⟩
  | cons p ps ih =>
    obtain ⟨⟨id, name⟩, default?⟩ := p
    have hslot : Block.inputBlock? { b with mutation } id = b.inputBlock? id := rfl
    unfold Statement.bindings at h
    cases hid : b.inputBlock? id with
    | none =>
      simp only [hslot, hid, bind_ok, pure_ok, Prod.mk.injEq] at h
      obtain ⟨_, _, ⟨rfl, rfl⟩, ⟨code', args'⟩, d₂, hrest, ⟨rfl, rfl⟩, rfl⟩ := h
      obtain ⟨rfl, rfl, hbinds⟩ := ih hrest
      exact ⟨rfl, rfl, .empty hid hbinds⟩
    | some input =>
      simp only [hslot, hid, bind_ok, pure_ok, Prod.mk.injEq] at h
      obtain ⟨⟨pre, o⟩, d₁, ho, _, _, ⟨rfl, rfl⟩, ⟨code', args'⟩, d₂, hrest, ⟨rfl, rfl⟩, rfl⟩ := h
      obtain ⟨rfl, rfl, hlowers⟩ := input_lowers rfl
        (fun input hinput => (hinputs id input hinput).bare halike depth) ho
      obtain ⟨rfl, rfl, hbinds⟩ := ih hrest
      exact ⟨rfl, rfl, .filled hid (hlowers.2 input hid) hbinds⟩

end

/-! ## Parameters -/

/-- What a call binds to a parameter, if its inputs have those values. -/
def Block.argument (b : Block) (vs : String → Value) (param : (String × String) × Option Value) :
    String × Value :=
  (param.1.2, ((b.inputBlock? param.1.1).map fun _ => vs param.1.1).getD (param.2.getD .empty))

/-- The parameters of a procedure that is called from a block whose inputs have those values. -/
def Signature.bound (signature : Signature) (b : Block) (vs : String → Value) : Table Value :=
  ((Statement.parameters signature).map (b.argument vs)).foldl
    (fun ps (name, v) => ps.insert name v) ∅

namespace Signature

variable {signature : Signature} {b : Block} {vs ws : String → Value}

theorem id_mem {id : String} {i : Nat}
    (h : ((id, name), i) ∈ (signature.ids.zip signature.names).zipIdx) :
    id ∈ signature.ids := by
  have hzip : (id, name) ∈ signature.ids.zip signature.names := by
    have := mem_map_of_mem (f := Prod.fst) h
    rwa [zipIdx_map_fst] at this
  exact (of_mem_zip hzip).1

theorem mem_parameters {param : (String × String) × Option Value}
    (h : param ∈ Statement.parameters signature) : param.1.1 ∈ signature.ids := by
  obtain ⟨⟨⟨id, name⟩, i⟩, hmem, rfl⟩ := mem_map.mp h
  exact id_mem hmem

theorem foldl_alike {α : Type} {f g : α → String × Value} {ps : List α} {table table' : Table Value}
    (h : ∀ p ∈ ps, (f p).1 = (g p).1 ∧ (f p).2.Alike (g p).2)
    (htables : ∀ name : String, Option.Rel Value.Alike table[name]? table'[name]?) (name : String) :
    Option.Rel Value.Alike (ps.foldl (fun t p => t.insert (f p).1 (f p).2) table)[name]?
      (ps.foldl (fun t p => t.insert (g p).1 (g p).2) table')[name]? := by
  induction ps generalizing table table' with
  | nil => exact htables name
  | cons p ps ih =>
    obtain ⟨⟨hname, hlike⟩, hrest⟩ := forall_mem_cons.mp h
    refine ih hrest fun other => ?_
    dsimp only
    rw [hname, Table.getElem?_insert, Table.getElem?_insert]
    split
    · exact .some hlike
    · exact htables other

/-- Only the inputs that are filled count. -/
theorem bound_congr (h : ∀ name ∈ signature.ids, (b.inputBlock? name).isSome → vs name = ws name) :
    signature.bound b vs = signature.bound b ws := by
  unfold bound
  congr 1
  refine map_congr_left fun param hparam => ?_
  unfold Block.argument
  cases hinput : b.inputBlock? param.1.1 with
  | none => rfl
  | some input =>
    have := h _ (mem_parameters hparam) (by rw [hinput]; rfl)
    rw [Option.map_some, Option.map_some, this]

/-- Values that are alike make parameters that are alike. -/
theorem bound_alike (h : ∀ name ∈ signature.ids, (b.inputBlock? name).isSome →
    (vs name).Alike (ws name))
    (name : String) : Option.Rel Value.Alike (signature.bound b vs)[name]?
    (signature.bound b ws)[name]? := by
  have harguments : ∀ p ∈ Statement.parameters signature, (b.argument vs p).1 =
    (b.argument ws p).1 ∧
      (b.argument vs p).2.Alike (b.argument ws p).2 := by
    intro p hp
    refine ⟨rfl, ?_⟩
    unfold Block.argument
    cases hinput : b.inputBlock? p.1.1 with
    | none => exact .refl _
    | some input => exact h _ (mem_parameters hp) (by rw [hinput]; rfl)
  unfold bound
  rw [foldl_map, foldl_map]
  refine foldl_alike harguments (fun name => ?_) name
  rw [Std.TreeMap.getElem?_emptyc]
  exact .none

/-- The primitive of a call binds its arguments like this. -/
theorem bindings_arguments (h : b.Declares signature.ids) :
    Library.Custom.bindings signature (b.arguments vs).get? =
      (Statement.parameters signature).map (b.argument vs) := by
  unfold Library.Custom.bindings Statement.parameters
  rw [map_map]
  refine map_congr_left fun p hp => ?_
  obtain ⟨⟨id, name⟩, i⟩ := p
  dsimp only
  rw [Block.arguments_input h (id_mem hp)]
  rfl

end Signature

/-- A call of a procedure in normal mode, with no inputs but the arguments. -/
structure CallSite (sheet : Sheet) (b : Block) (proccode : String) (signature : Signature)
    (definition : BlockId) : Prop where
  named : b.proccode? = some proccode
  signed : sheet.signature? proccode = .ok (some signature)
  defined : sheet.definition? proccode = some definition
  normal : signature.warp = false
  declares : b.Declares signature.ids

/-- The inputs of a block have those values on a machine, if literals are read like that. -/
def Block.Given (reading : Reading) (catalog : Catalog σ) (sheet : Sheet) (m : Machine σ)
    (target : TargetId) (param : String → Option Value) (b : Block) (vs : String → Value) : Prop :=
  ∀ name ∈ b.inputs.keys, isStackSlot name = false → ∀ input, b.inputBlock? name = some input →
    Means reading catalog sheet m target param input (vs name)

theorem Block.Given.mono {reading reading' : Reading} {catalog : Catalog σ} {sheet : Sheet}
    {m : Machine σ} {target : TargetId} {param : String → Option Value} {b : Block}
    {vs : String → Value} (h : b.Given reading catalog sheet m target param vs)
    (hread : ∀ b f v, reading b f v → reading' b f v) :
    b.Given reading' catalog sheet m target param vs :=
  fun name hname hslot input hinput => (h name hname hslot input hinput).mono hread

/-- The values of inputs whose literals are written as they were typed are like those in compiled
code. -/
theorem Block.Given.alike {catalog : Catalog σ} {sheet : Sheet} {m : Machine σ} {target : TargetId}
    {param : String → Option Value} {b : Block} {vs : String → Value}
    (h : b.Given .written catalog sheet m target param vs) :
    ∃ ws, b.Given .compiled catalog sheet m target param ws ∧
      ∀ name ∈ b.inputs.keys, isStackSlot name = false → ∀ input, b.inputBlock? name = some input →
        (vs name).Alike (ws name) ∧
          ∀ b', sheet.block? input = some b' → b'.soleField? = none → vs name = ws name := by
  have hvalue : ∀ name, ∃ w, name ∈ b.inputs.keys → isStackSlot name = false →
      ∀ input, b.inputBlock? name = some input →
        Means .compiled catalog sheet m target param input w ∧
        (vs name).Alike w ∧ ∀ b', sheet.block? input = some b' → b'.soleField? = none →
          vs name = w := by
    intro name
    by_cases hfilled : name ∈ b.inputs.keys ∧ isStackSlot name = false ∧
      (b.inputBlock? name).isSome = true
    · obtain ⟨hname, hslot, hinput⟩ := hfilled
      obtain ⟨input, hinput⟩ := Option.isSome_iff_exists.mp hinput
      obtain ⟨w, hw⟩ := (h name hname hslot input hinput).alike
      refine ⟨w, fun _ _ input' hinput' => ?_⟩
      cases hinput.symm.trans hinput'
      exact hw
    · exact ⟨.empty, fun hname hslot input hinput => absurd ⟨hname, hslot, by rw [hinput]; rfl⟩
        hfilled⟩
  choose ws hws using hvalue
  exact ⟨ws, fun name hname hslot input hinput => (hws name hname hslot input hinput).1,
    fun name hname hslot input hinput => (hws name hname hslot input hinput).2⟩

/-! ## The interpreter -/

section Interpreter

open Exec

variable {kit : Kit σ} {sheet : Sheet} {m : Machine σ} {target : TargetId}
  {param : String → Option Value} {t : Thread} {rest : List Frame}
  {id definition : BlockId} {b : Block} {vs : String → Value} {proccode : String}
  {signature : Signature}

/-- A call binds the parameters and enters the definition. -/
theorem Call.run_call {go : Exec (Turn σ) Unit} {args : Args} {c : Call σ}
    (hexecuted : c.scratch.executed = false)
    (hproccode : (args.mutation >>= Mutation.proccode) = some proccode)
    (hsignature : c.thread.sheet.signature? proccode = .ok (some signature)) :
    Call.run kit go .interpreted (Library.Custom.call args) c =
      some (.ok .nothing, { c with
        scratch := { c.scratch with executed := true }
        toTurn := ({ c.toTurn with thread := c.thread.onFrame fun f => { f with
            params := some ((Library.Custom.bindings signature args.get?).foldl
              (fun ps (name, v) => ps.insert name v) ∅) } } : Turn σ).enterProcedure
                proccode }) := by
  show Call.run kit go .interpreted (if c.scratch.executed then _ else _) c = _
  rw [if_neg (by simp [hexecuted]), hproccode]
  have hperform : perform kit go .interpreted (.signature proccode) c =
      some (.ok (.ok (some signature)), c) := by
    show some (Except.ok (c.thread.sheet.signature? proccode), c) = _
    rw [hsignature]
    rfl
  exact andThen_ok hperform

/-- Whether the interpreter takes a call in front of these frames for a recursive one. -/
def Thread.repeats (t : Thread) (proccode : String) (rest : List Frame) : Bool :=
  (rest.take Thread.recursionScan).any (t.calls proccode)

theorem Turn.enterProcedure_normal {f : Frame} (hsheet : t.sheet = sheet)
    (hsite : CallSite sheet b proccode signature definition) (hwarp : f.warp = false) :
    (Turn.of m t (f :: rest)).enterProcedure proccode =
      .of m { t with status := if t.repeats proccode rest then .yield else t.status }
        ({ block := some definition } :: f :: rest) := by
  have hdefined : (of m t (f :: rest)).thread.sheet.definition? proccode = some definition := by
    show t.sheet.definition? proccode = _
    rw [hsheet, hsite.defined]
  have hplain : ∀ signature', (of m t (f :: rest)).thread.sheet.signature? proccode =
    .ok (some signature') →
      signature'.warp = false := by
    intro signature' hsigned
    change t.sheet.signature? proccode = _ at hsigned
    rw [hsheet, hsite.signed] at hsigned
    cases hsigned
    exact hsite.normal
  refine (enterProcedure_plain hdefined hwarp hplain).trans ?_
  show of m { t with status := _ } ({ block := some definition, warp := f.warp } :: f :: rest) = _
  rw [hwarp]
  rfl

/-- A block is called with the values that its inputs have. -/
theorem Turn.execute_given {primitive : Primitive σ} {warp : Bool} (hkit : kit.Reporting)
    (hprimitive : kit.primitive? b.opcode = some primitive)
    (hpresent : m.targets.contains target = true) (hb : sheet.block? id = some b)
    (hreads : t.Reads sheet target param ({ block := some id, warp } :: rest))
    (hgiven : b.Given .typed kit.toCatalog sheet m target param vs) :
    ∃ fuel₀ f, f.bare = Frame.bare { block := some id, warp } ∧ ∀ fuel,
      Turn.execute kit (fuel + fuel₀ + 1) (.of m t ({ block := some id, warp } :: rest)) =
        (Turn.callBlock kit (Turn.execute kit (fuel + fuel₀)) (rest.length + 1) primitive
          (b.arguments vs) >>= Turn.takeReport kit.toCatalog b.id b.opcode) (.of m t (f :: rest)) :=
  execute_handed hreads (by rw [hreads.target, hpresent]) rfl (by rw [hreads.sheet, hb]) hprimitive
    fun name hname => Block.ready_of_fresh Std.TreeMap.getElem?_emptyc fun hslot input hinput =>
      (hgiven name hname hslot input hinput).handsOver hkit hpresent

section

variable (hkit : kit.Reporting) (hprimitive : kit.primitive? b.opcode = some Library.Custom.call)
  (hpresent : m.targets.contains target = true) (hb : sheet.block? id = some b)
  (hsite : CallSite sheet b proccode signature definition)
  (hreads : t.Reads sheet target param ({ block := some id } :: rest))
  (hgiven : b.Given .typed kit.toCatalog sheet m target param vs)

include hkit hprimitive hpresent hb hsite hreads hgiven

/-- The interpreter evaluates the arguments of a call at once and binds them. -/
theorem Turn.execute_call :
    ∃ fuel₀ g, g.params = some (signature.bound b vs) ∧ ∀ fuel,
      Turn.execute kit (fuel + fuel₀) (.of m t ({ block := some id } :: rest)) =
        some (.ok (), .of m
          { t with status := if t.repeats proccode rest then .yield else .running }
          ({ block := some definition } :: g :: rest)) := by
  obtain ⟨fuel₀, f, hbare, hrun⟩ := execute_given hkit hprimitive hpresent hb hreads hgiven
  have hscratch : f.scratch = {} := (congrArg Frame.scratch hbare :)
  have hwarp : f.warp = false := Scene.bare_warp hbare
  have hcall : ∀ fuel, Call.run kit (execute kit fuel) .interpreted
    (Library.Custom.call (b.arguments vs))
      { of m t (f :: rest) with scratch := f.scratch } = some (.ok .nothing, _) := fun fuel =>
    Call.run_call (by rw [hscratch]) (by rw [Block.arguments_mutation]; exact hsite.named)
      (by show t.sheet.signature? proccode = _; rw [hreads.sheet, hsite.signed])
  rw [Signature.bindings_arguments hsite.declares] at hcall
  let g : Frame := { f with
    params := some (signature.bound b vs)
    scratch := { f.scratch with executed := true } }
  refine ⟨fuel₀ + 1, g, rfl, fun fuel => ?_⟩
  rw [← Nat.add_assoc, hrun fuel]
  let s := (of m t ({ f with params := some (signature.bound b vs) } :: rest)).enterProcedure
    proccode
  have henter : s = _ := enterProcedure_normal hreads.sheet hsite hwarp
  rw [hreads.running] at henter
  refine (andThen_ok (callBlock_ran [{ block := some definition }] (hcall _)
    (congrArg Turn.thread henter))).trans ?_
  exact congrArg (fun m => some (Except.ok (), of m _ _)) (congrArg Turn.machine henter)

/-- The interpreter goes from a call into the definition, with those parameters. It ends the turn
there if it takes the call for a recursive one. -/
structure Turn.EntersDefinition (kit : Kit σ) (definition : BlockId) (params : Table Value)
    (isRecursive : Bool) (s s' : Turn σ) : Prop where
  machine : s'.machine = s.machine
  block : s'.thread.block? = some definition
  params : ∀ name, s'.thread.param? name = params[name]?
  ends : isRecursive = true → ∃ fuel, s.visit kit fuel = some s'
  goes : isRecursive = false → Arrives kit s s'

/-- **The interpreter enters a procedure with the arguments of the turn in which it comes to the
call.** -/
theorem Turn.visit_call :
    ∃ s', EntersDefinition kit definition (signature.bound b vs) (t.repeats proccode rest)
      (of m t ({ block := some id } :: rest)) s' := by
  obtain ⟨fuel₀, g, hparams, hexecute⟩ :=
    Turn.execute_call hkit hprimitive hpresent hb hsite hreads hgiven
  have harrives : Arrives kit (of m t ({ block := some id } :: rest))
      (of m t ({ block := some id } :: rest)) :=
    .start rfl rfl hreads.running
  have hstatus : ∀ stack, of m { t with status := .running } stack = of m t stack := by
    intro stack
    unfold of
    rw [hreads.running]
  refine ⟨of m t ({ block := some definition } :: g :: rest), rfl, rfl, fun name => ?_,
    fun hrepeats => ?_, fun hrepeats => ?_⟩
  · show (findSome? Frame.params ({ block := some definition } :: g :: rest) >>= (·[name]?)) = _
    rw [findSome?_cons, findSome?_cons, hparams]
    rfl
  · rw [hrepeats, if_pos rfl] at hexecute
    obtain ⟨fuel, hvisit⟩ := harrives.stops rfl hexecute rfl
    exact ⟨fuel, hvisit.trans (congrArg some (hstatus _))⟩
  · rw [hrepeats, if_neg Bool.false_ne_true, hstatus] at hexecute
    have hafter : afterBlock (of m t ({ block := some id } :: rest)).thread id
        (of m t ({ block := some definition } :: g :: rest)) =
          (true, of m t ({ block := some definition } :: g :: rest)) := by
      have hdeeper : ((rest.length + 1 + 1) == (rest.length + 1)) = false := by simp
      unfold afterBlock
      dsimp only [of, Thread.depth, length_cons]
      rw [hreads.running, hdeeper, Bool.false_and]
      rfl
    have hgoes := harrives.goesOn rfl hexecute (by rw [hafter])
    rwa [hafter] at hgoes

end
end Interpreter

/-! ## Compiled code -/

section Code

open Exec

variable {kit : Kit σ} {sheet : Sheet} {m : Machine σ} {target : TargetId}
  {param : String → Option Value} {t : Thread} {f : Frame} {c : Cursor} {rest : List Frame}
  {definition : BlockId} {b : Block} {vs : String → Value} {proccode : String}
  {signature : Signature} {names : List String} {key : ProcedureKey} {args : List (String × Expr)}
  {body : Script}

/-- The arguments of a call have the values of the inputs that they were made from. -/
theorem Binds.evalArgs (h : Binds kit.toCatalog sheet names b ps args)
    (hbound : ∀ name v, param name = some v → name ∈ names)
    (hgiven : ∀ p ∈ ps, ∀ input, b.inputBlock? p.1.1 = some input →
      Means .compiled kit.toCatalog sheet m target param input (vs p.1.1))
    (hreads : t.Reads sheet target param rest) :
    Turn.evalArgs args (.of m t rest) = some (.ok (ps.map (b.argument vs)), .of m t rest) := by
  have heval : ∀ {o : Operand} {v : Value}, (∀ locals, o.Has locals m target param v) →
      Turn.eval o.expr (.of m t rest) = some (.ok v, .of m t rest) :=
    fun hv => Turn.eval_of hreads (hv _).value
  induction h with
  | nil => rfl
  | filled hinput ho _ ih =>
    obtain ⟨hfirst, hrest⟩ := forall_mem_cons.mp hgiven
    refine (andThen_ok (heval fun _ => (hfirst _ hinput).operand ho hbound)).trans
      ((andThen_ok (ih hrest)).trans ?_)
    rw [map_cons, Block.argument, hinput]
    rfl
  | empty hinput _ ih =>
    obtain ⟨-, hrest⟩ := forall_mem_cons.mp hgiven
    refine (andThen_ok (heval fun _ => Operand.has_const _)).trans
      ((andThen_ok (ih hrest)).trans ?_)
    rw [map_cons, Block.argument, hinput]
    rfl

theorem Turn.step_code (hcode : f.code = some c) (hrunning : t.status = .running) (fuel : Nat) :
    (of m t (f :: rest)).step kit fuel =
      ended (runCode kit fuel (of m t (f :: rest)).startWarp) := by
  have hcursor : (of m t (f :: rest)).thread.cursor?.isSome = true := by
    show f.code.isSome = true
    rw [hcode]
    rfl
  have hstatus : (of m t (f :: rest)).startWarp.thread.status = .running := by
    unfold startWarp
    split <;> exact hrunning
  show ended (resume kit fuel (of m t (f :: rest))) = _
  rw [resume_coded hcursor, resumed, hstatus]
  rfl

/-- A turn of compiled code. -/
theorem Turn.visit_step (hrunning : t.status = .running) (fuel : Nat) :
    (of m t rest).visit kit fuel = (of m t rest).step kit fuel := by
  have hstatus : (of m t rest).thread.status = .running := hrunning
  rw [visit, hstatus]
  rfl

/-- A turn of compiled code in normal mode. -/
theorem Turn.visit_code (hcode : f.code = some c)
    (hwarp : f.warp = false) (hrunning : t.status = .running) (fuel : Nat) :
    (of m t (f :: rest)).visit kit fuel = ended (runCode kit fuel (of m t (f :: rest))) := by
  have hstart : (of m t (f :: rest)).startWarp = of m t (f :: rest) := by
    have hmode : (of m t (f :: rest)).thread.isWarp = false := hwarp
    rw [startWarp, hmode]
    rfl
  rw [visit_step hrunning, step_code hcode hrunning, hstart]

theorem Turn.onCursor_of (hcode : f.code = some c) (g : Cursor → Cursor) :
    (of m t (f :: rest)).thread.onCursor g =
      { t with stack := { f with code := some (g c) } :: rest } := by
  show { t with stack := f.withCursor g :: rest } = _
  rw [Frame.withCursor, hcode]
  rfl

/-- Compiled code goes from a call into the body, with those parameters. -/
structure Turn.EntersBody (kit : Kit σ) (body : Script) (params : Table Value) (s s' : Turn σ) :
    Prop where
  machine : s'.machine = s.machine
  cursor : s'.thread.cursor? = some { script := body, kind := .procedure }
  params : ∀ name, s'.thread.param? name = params[name]?
  goes : ∀ fuel, s.visit kit (fuel + 1) = ended (runCode kit fuel s')

/-- **Compiled code enters a procedure with the arguments of the turn in which it comes to the
call.** -/
theorem Turn.visit_callInstr (hcode : f.code = some c) (hwarp : f.warp = false)
    (hreads : t.Reads sheet target param (f :: rest)) (hbound : ∀ name v, param name = some v →
      name ∈ names)
    (hinstr : c.script.code.toList[c.pc]? = some (.call key args)) (hkey : key.warp = false)
    (hbody : t.program.bind (·.procedures.lookup key) = some body)
    (hsite : CallSite sheet b proccode signature definition)
    (hbinds : Binds kit.toCatalog sheet names b (Statement.parameters signature) args)
    (hgiven : b.Given .compiled kit.toCatalog sheet m target param vs) :
    ∃ s', EntersBody kit body (signature.bound b vs) (of m t (f :: rest)) s' := by
  have hgiven' : ∀ p ∈ Statement.parameters signature, ∀ input, b.inputBlock? p.1.1 = some input →
      Means .compiled kit.toCatalog sheet m target param input (vs p.1.1) :=
        fun p hp input hinput =>
    hgiven _ (Block.mem_keys hinput) (hsite.declares.slots _ (Signature.mem_parameters hp))
      input hinput
  have heval := hbinds.evalArgs hbound hgiven' hreads
  let callee : Frame := {
    params := some (signature.bound b vs)
    code := some { script := body, kind := .procedure } }
  let s' : Turn σ := of m t (callee :: { f with code := some c.advance } :: rest)
  have hcall : ∀ fuel, tick kit fuel c (of m t (f :: rest)) = some (.ok .go, s') := by
    intro fuel
    rw [tick, Cursor.instr?, ← Array.getElem?_toList, hinstr]
    refine (andThen_ok heval).trans ?_
    rw [advance_andThen, getThread_andThen]
    have hprogram : ((of m t (f :: rest)).thread.onCursor Cursor.advance).program.bind
        (·.procedures.lookup key) = some body := hbody
    dsimp only
    rw [hprogram]
    dsimp only
    rw [onThread_andThen, modify_andThen, pure_run, onCursor_of hcode]
    have henter : (({ t with stack := { f with code := some c.advance } :: rest }.enter body
      .procedure).onFrame
        fun g => { g with warp := g.warp || key.warp, params := some (signature.bound b vs) }) =
        { t with stack := callee :: { f with code := some c.advance } :: rest } := by
      show { t with stack := { callee with warp := f.warp || key.warp } ::
        { f with code := some c.advance } :: rest } = _
      rw [hwarp, hkey]
      rfl
    refine congrArg (fun thread => some (Except.ok Flow.go, startWarp ⟨m, thread⟩)) henter
  refine ⟨s', rfl, rfl, fun name => rfl, fun fuel => ?_⟩
  rw [visit_code hcode hwarp hreads.running, runCode_go ⟨rfl, hcode⟩ hreads.running (hcall fuel)]

/-- Compiled code gives way in front of a call that stands behind a yield. -/
theorem Turn.visit_yieldInstr (hcode : f.code = some c) (hwarp : f.warp = false)
    (hrunning : t.status = .running) (hinstr : c.script.code.toList[c.pc]? = some .yield)
    (fuel : Nat) :
    (of m t (f :: rest)).visit kit (fuel + 1) =
      some (of m t ({ f with code := some c.advance } :: rest)) := by
  have hpause : tick kit fuel c (of m t (f :: rest)) =
      some (.ok .pause, of m t ({ f with code := some c.advance } :: rest)) := by
    rw [tick, Cursor.instr?, ← Array.getElem?_toList, hinstr]
    refine (advance_andThen (k := fun _ => pure Flow.pause)).trans ?_
    rw [onCursor_of hcode]
    rfl
  rw [visit_code hcode hwarp hrunning, runCode_pause ⟨rfl, hcode⟩ hrunning hpause]
  rfl

end Code

/-! ## Calls that give way -/

section Pausing

open Compile

variable {ctx : Context σ} {depth : Nat} {d d' : Draft} {code : Code} {b : Block}
  {proccode : String} {signature : Signature} {definition : BlockId}

theorem Context.procedure_key {r : Option ProcedureKey} {D : Descent σ}
    (hdefined : ctx.sheet.definition? proccode = some definition)
    (h : ctx.procedure D proccode signature d = .ok (r, d')) :
    r = some ⟨proccode, ctx.warp || signature.warp⟩ := by
  unfold Context.procedure at h
  simp only [hdefined, bind_ok, get_ok] at h
  obtain ⟨_, _, ⟨rfl, rfl⟩, h⟩ := h
  split at h
  · simp only [bind_ok, pure_ok] at h
    obtain ⟨_, _, -, _, _, -, _, _, -, _, _, -, rfl, -⟩ := h
    rfl
  · exact (pure_ok.mp h).1.symm

/-- A call in a procedure in normal mode yields exactly where the procedure that it calls is still
being compiled. -/
theorem Statement.calling_ok (hmode : ctx.warp = false)
    (hsite : CallSite ctx.sheet b proccode signature definition)
    (h : calling ctx (Descent.ofDepth depth) b d = .ok (code, d')) :
    ∃ d₁ d₂ pre args,
      bindings ctx (Descent.ofDepth depth) b (parameters signature) d₁ = .ok ((pre, args), d₂) ∧
      (d.Open ⟨proccode, false⟩ → code = pre ++ [.yield, .call ⟨proccode, false⟩ args]) ∧
      (¬ d.Open ⟨proccode, false⟩ → code = pre ++ [.call ⟨proccode, false⟩ args]) := by
  unfold calling at h
  simp only [hsite.named, hsite.signed, bind_ok, pure_ok] at h
  obtain ⟨_, _, ⟨rfl, rfl⟩, r, d₁, hproc, h⟩ := h
  obtain ⟨hext, -⟩ := Context.procedure_knows (Descent.ofDepth_sound depth) hproc
  have hr : r = some ⟨proccode, false⟩ := by
    have := Context.procedure_key hsite.defined hproc
    rwa [hmode, Option.getD_some, hsite.normal] at this
  subst hr
  simp only [bind_ok, get_ok, pure_ok] at h
  obtain ⟨⟨pre, args⟩, d₂, hargs, _, _, ⟨rfl, rfl⟩, rfl, rfl⟩ := h
  obtain ⟨hlies, -⟩ := bindings_reads (Descent.ofDepth_sound depth) _ _ _ _ _ hargs
  have hopened := (hext.trans (hlies 0).ext).opened ⟨proccode, false⟩
  refine ⟨d₁, d₂, pre, args, hargs, fun hopen => ?_, fun hopen => ?_⟩
  · have hnow : d₂.body? ⟨proccode, false⟩ = some none := hopened.mpr hopen
    simp [hmode, hnow]
  · cases hnow : d₂.body? ⟨proccode, false⟩ with
    | none => simp [hmode]
    | some body =>
      cases body with
      | none => exact absurd (hopened.mp hnow) hopen
      | some body => simp [hmode]

/-- Such a call does nothing else before, if its arguments are core reporters. -/
theorem Statement.calling_pauses (hmode : ctx.warp = false)
    (hsite : CallSite ctx.sheet b proccode signature definition)
    (hinputs : ∀ name input, b.inputBlock? name = some input →
      CoreReporter ctx.catalog ctx.sheet input)
    (h : calling ctx (Descent.ofDepth depth) b d = .ok (code, d')) :
    ∃ args, Binds ctx.catalog ctx.sheet ctx.params b (parameters signature) args ∧
      (d.Open ⟨proccode, false⟩ → code = [.yield, .call ⟨proccode, false⟩ args]) ∧
      (¬ d.Open ⟨proccode, false⟩ → code = [.call ⟨proccode, false⟩ args]) := by
  obtain ⟨d₁, d₂, pre, args, hargs, hopen, hclosed⟩ := calling_ok hmode hsite h
  obtain ⟨rfl, rfl, hbinds⟩ := bindings_binds (.refl ctx.sheet) hinputs hargs
  exact ⟨args, hbinds, hopen, hclosed⟩

end Pausing

/-- In a compiled program a procedure that calls itself yields first. -/
theorem Program.Sound.behindYield {p : Program} (h : p.Sound) {key : ProcedureKey}
    {body : Script} {j : Nat} (hbody : p.procedures.lookup key = some body)
    (hj : body.code.toList[j]? = some (.call key args)) :
    body.BehindYield j := by
  by_contra hbehind
  have hatOnce : body.CallsAtOnce key := .here hj rfl (by simpa [Script.BehindYield] using hbehind)
  exact h.no_circle key (.single ⟨body, hbody, hatOnce⟩)

/-- **Both executors take the arguments of a call when they come to it**: the interpreter before it
gives way, compiled code, for a procedure that is still being compiled where the call stands, after
it has given way. Both bind the values that the arguments have then, as they read literals. Where
numbers were typed as they are written, and no argument has changed its value in the meantime, the
parameters are alike, and they are the same but for a number that was typed right into an
argument. -/
theorem recursive_call_parameters {kit : Kit σ} {sheet : Sheet}
    {id definition : BlockId} {b : Block} {proccode : String} {signature : Signature}
    {target : TargetId} {param : String → Option Value} (hkit : kit.Reporting)
    (hprimitive : kit.primitive? b.opcode = some Library.Custom.call)
    (hb : sheet.block? id = some b) (hsite : CallSite sheet b proccode signature definition) :
    (∀ {m : Machine σ} {vs : String → Value} {t : Thread} {rest : List Frame},
      m.targets.contains target = true → b.Given .typed kit.toCatalog sheet m target param vs →
      t.Reads sheet target param ({ block := some id } :: rest) →
      ∃ s', Turn.EntersDefinition kit definition (signature.bound b vs) (t.repeats proccode rest)
        (.of m t ({ block := some id } :: rest)) s') ∧
    (∀ {ctx : Context σ} {depth : Nat} {d d' : Draft} {code : Code} {t : Thread} {f : Frame}
        {c : Cursor} {rest : List Frame} {body : Script},
      ctx.catalog = kit.toCatalog → ctx.sheet = sheet → ctx.warp = false →
      (∀ name v, param name = some v → name ∈ ctx.params) →
      (∀ name input, b.inputBlock? name = some input → CoreReporter kit.toCatalog sheet input) →
      Statement.calling ctx (Descent.ofDepth depth) b d = .ok (code, d') →
      t.Reads sheet target param (f :: rest) → f.code = some c → f.warp = false →
      Sits c.script.code.toList c.pc code →
      t.program.bind (·.procedures.lookup ⟨proccode, false⟩) = some body →
      (¬ d.Open ⟨proccode, false⟩ →
        ∀ {m : Machine σ} {ws : String → Value}, b.Given .compiled kit.toCatalog sheet m
          target param ws →
          ∃ s', Turn.EntersBody kit body (signature.bound b ws) (.of m t (f :: rest)) s') ∧
      (d.Open ⟨proccode, false⟩ →
        (∀ (m : Machine σ) (fuel : Nat), (Turn.of m t (f :: rest)).visit kit (fuel + 1) =
          some (.of m t ({ f with code := some c.advance } :: rest))) ∧
        ∀ {m : Machine σ} {ws : String → Value}, b.Given .compiled kit.toCatalog sheet m
          target param ws →
          ∃ s', Turn.EntersBody kit body (signature.bound b ws)
            (.of m t ({ f with code := some c.advance } :: rest)) s')) ∧
    (∀ {m : Machine σ} {vs : String → Value}, b.Given .written kit.toCatalog sheet m
      target param vs →
      b.Given .typed kit.toCatalog sheet m target param vs ∧
      ∃ ws, b.Given .compiled kit.toCatalog sheet m target param ws ∧
        (∀ name : String, Option.Rel Value.Alike (signature.bound b vs)[name]?
          (signature.bound b ws)[name]?) ∧
        ((∀ name ∈ signature.ids, ∀ input, b.inputBlock? name = some input → ∀ b',
          sheet.block? input = some b' → b'.soleField? = none) →
            signature.bound b vs = signature.bound b ws)) ∧
    ∀ {top : BlockId} {p : Program} {body : Script} {j : Nat} {args : List (String × Expr)},
      sheet.compile kit.toCatalog top = .ok p → p.procedures.lookup ⟨proccode, false⟩ = some body →
      body.code.toList[j]? = some (.call ⟨proccode, false⟩ args) → body.BehindYield j := by
  refine ⟨fun hpresent hgiven hreads => Turn.visit_call hkit hprimitive hpresent hb hsite
    hreads hgiven, ?_, fun hgiven => ⟨hgiven.mono fun _ _ _ => And.left, ?_⟩,
    fun hcompile hbody hj => (Sheet.compile_sound hcompile).behindYield hbody hj⟩
  · intro ctx depth d d' code t f c rest body hcatalog hsheet hmode hbound hcore hcode hreads
      hf hwarp hsits hbody
    rw [← hcatalog, ← hsheet] at hcore
    obtain ⟨args, hbinds, hpaused, hatOnce⟩ :=
      Statement.calling_pauses hmode (by rw [hsheet]; exact hsite) hcore hcode
    rw [hcatalog, hsheet] at hbinds
    constructor
    · intro hopen m ws hgiven
      rw [hatOnce hopen] at hsits
      exact Turn.visit_callInstr hf hwarp hreads hbound hsits.head rfl hbody hsite hbinds hgiven
    · intro hopen
      rw [hpaused hopen] at hsits
      refine ⟨fun m => Turn.visit_yieldInstr hf hwarp hreads.running hsits.head, fun hgiven => ?_⟩
      exact Turn.visit_callInstr (f := { f with code := some c.advance }) rfl hwarp
        (hreads.replace rfl) hbound hsits.tail.head rfl hbody hsite hbinds hgiven
  · obtain ⟨ws, hws, halike⟩ := hgiven.alike
    refine ⟨ws, hws, Signature.bound_alike fun name hname hfilled => ?_, fun hplain =>
      Signature.bound_congr fun name hname hfilled => ?_⟩
    all_goals
      obtain ⟨input, hinput⟩ := Option.isSome_iff_exists.mp hfilled
      obtain ⟨hlike, hsame⟩ :=
        halike name (Block.mem_keys hinput) (hsite.declares.slots name hname) input hinput
    · exact hlike
    · obtain ⟨b', hb'⟩ := (hws name (Block.mem_keys hinput) (hsite.declares.slots name hname) input
        hinput).block
      exact hsame b' hb' (hplain name hname input hinput b' hb')

/-! ## A changing argument -/

/-- Calls a procedure with what a variable holds. -/
def Block.passing : Block where
  id := "again"
  opcode := "procedures_call"
  mutation := some { proccode := some "pass" }
  inputs := Table.of [("a", { block := some "word" })]

/-- A procedure that calls itself. -/
def Sheet.passing : Sheet :=
  .ofBlocks [
    { id := "hat", opcode := "event_whenflagclicked", next := some "call", isTopLevel := true },
    { Block.passing with id := "call" },
    { id := "definition", opcode := "procedures_definition", next := some "again",
      inputs := Table.of [("custom_block", { block := some "prototype" })], isTopLevel := true },
    { id := "prototype", opcode := "procedures_prototype",
      mutation := some
        { proccode := some "pass", argumentIds := some "[\"a\"]",
          argumentNames := some "[\"n\"]" } },
    .passing,
    { id := "word", opcode := "data_variable",
      fields := Table.of [("VARIABLE", { value := .text "word" })] }]

/-- The code of `Sheet.passing`. -/
def Program.passing : Program :=
  (Sheet.passing.compile (Library.core : Catalog Unit) "hat").toOption.getD default

/-- A machine on which the variable holds the word. -/
def Machine.holding (word : String) : Machine Unit where
  targets := .ofList [(0, { Target.stage .passing with
    vars := Table.of [("word",
      { id := "word", name := "word", content := .scalar (.text word) })] })]
  stage := some 0
  host := ()

/-- The parameters of the calls that a thread is in, the first call first. -/
def Thread.words (t : Thread) : List String :=
  t.stack.reverse.filterMap fun f => f.params.bind fun ps => ps["n"]?.map Value.toText

/-- The second call has another parameter in compiled code than in the interpreter, if the variable
is changed after the first turn. -/
theorem recursive_call_parameters_differ :
    (do
      let s ← Turn.visit ({ Library.core with } : Kit Unit) 9
        ⟨.holding "old", .start 0 0 "hat" .passing⟩
      let s ← Turn.visit ({ Library.core with } : Kit Unit) 9 ⟨.holding "new", s.thread⟩
      return s.thread.words) = some ["old", "old", "new"] ∧
    (do
      let s ← Turn.visit ({ Library.core with } : Kit Unit) 9
        ⟨.holding "old", Program.passing.thread .passing⟩
      let s ← Turn.visit ({ Library.core with } : Kit Unit) 9 ⟨.holding "new", s.thread⟩
      return s.thread.words) = some ["old", "new"] := by
  decide +kernel

theorem passing_blocks :
    Sheet.passing.block? "again" = some .passing ∧
      Sheet.passing.block? "word" = some
        { id := "word", opcode := "data_variable"
          fields := Table.of [("VARIABLE", { value := .text "word" })] } := by
  simp [Sheet.passing, Sheet.ofBlocks, Sheet.block?_insert, Block.passing]

theorem passing_inputs (h : Block.passing.inputBlock? name = some input) :
    name = "a" ∧ input = "word" := by
  have hname : name ∈ Block.passing.inputs.keys := Block.mem_keys h
  have hkeys : Block.passing.inputs.keys = ["a"] := by decide +kernel
  rw [hkeys, mem_singleton] at hname
  subst hname
  have hinput : Block.passing.inputBlock? "a" = some "word" := by decide +kernel
  exact ⟨rfl, Option.some.inj (h.symm.trans hinput)⟩

theorem passing_site :
    ∃ signature, CallSite .passing .passing "pass" signature "definition" ∧
      signature.ids = ["a"] := by
  have hread : ((Sheet.passing.signature? "pass").toOption.bind id).map (fun s => (s.ids, s.warp)) =
      some (["a"], false) := by decide +kernel
  obtain ⟨signature, hsignature, hs⟩ := Option.map_eq_some_iff.mp hread
  obtain ⟨hids, hwarp⟩ := Prod.mk.inj hs
  have hsigned : Sheet.passing.signature? "pass" = .ok (some signature) := by
    cases h : Sheet.passing.signature? "pass" with
    | error e =>
      rw [h] at hsignature
      cases hsignature
    | ok s =>
      rw [h] at hsignature
      exact congrArg Except.ok hsignature
  have hdeclares : Block.passing.Declares ["a"] :=
    ⟨by decide +kernel, by simp [Block.passing], by decide +kernel⟩
  exact ⟨signature, ⟨rfl, hsigned, by decide +kernel, hwarp, by rwa [hids]⟩, hids⟩

/-- What the variable holds is given to the call. -/
theorem passing_given (word : String) (param : String → Option Value)
    (hword : ((Machine.holding word).found? 0 ⟨"word", "word"⟩ false).map (·.get.toText) =
      some word) :
    ∃ v : Value, v.toText = word ∧
      ∀ reading, Block.passing.Given reading (Library.core : Catalog Unit) .passing
        (.holding word) 0 param fun _ => v := by
  obtain ⟨w, hw, htext⟩ := Option.map_eq_some_iff.mp hword
  refine ⟨w.get, htext, fun reading name _ _ input hinput => ?_⟩
  obtain ⟨-, rfl⟩ := passing_inputs hinput
  have hreport : Reporter.var.report (.holding word) 0 param
      { id := "word", opcode := "data_variable",
        fields := Table.of [("VARIABLE", { value := .text "word" })] }
      (fun _ => .empty) = some w.get := Option.map_eq_some_iff.mpr ⟨w, hw, rfl⟩
  exact .reporter passing_blocks.2 (by decide +kernel) rfl (by decide +kernel)
    ⟨by simp, nofun, nofun⟩ nofun nofun hreport

theorem passing_core (h : Block.passing.inputBlock? name = some input) :
    CoreReporter (Library.core : Catalog Unit) .passing input := by
  obtain ⟨-, rfl⟩ := passing_inputs h
  exact .reporter passing_blocks.2 rfl nofun (by simp [Block.inputBlock?])

/-- The interpreter enters the procedure with the old word, and compiled code after it has given way
with the new one. -/
theorem passing_call_parameters :
    ∃ (old new : Value) (signature : Signature) (script : Script),
      old.toText = "old" ∧ new.toText = "new" ∧ signature.ids = ["a"] ∧
      (∃ s' : Turn Unit, Turn.EntersDefinition { Library.core with } "definition"
        (signature.bound .passing fun _ => old) true
        (.of (.holding "old") (.start 0 0 "again" .passing)
          [{ block := some "again" }, { block := some "call" }]) s') ∧
      ∃ s' : Turn Unit, Turn.EntersBody { Library.core with } script
        (signature.bound .passing fun _ => new)
        (.of (.holding "new")
          { Thread.start 0 0 "again"
            .passing with program := some ⟨script, [(⟨"pass", false⟩, script)]⟩ }
          [{ code := some { script, kind := .procedure, pc := 1 } }]) s' := by
  obtain ⟨signature, hsite, hids⟩ := passing_site
  obtain ⟨old, hold, hbefore⟩ := passing_given "old" (fun _ => none) (by decide +kernel)
  obtain ⟨new, hnew, hafter⟩ := passing_given "new" (fun _ => none) (by decide +kernel)
  let kit : Kit Unit := { Library.core with }
  let ctx : Context Unit := { catalog := Library.core, sheet := .passing }
  let d : Draft := Draft.setBody {} ⟨"pass", false⟩ none
  obtain ⟨⟨code, d'⟩, hcode⟩ :
      ∃ r, Statement.calling ctx (Descent.ofDepth 1) .passing d = .ok r := by
    have hok : (Statement.calling ctx (Descent.ofDepth 1) .passing d).toOption.isSome := by
      decide +kernel
    cases h : Statement.calling ctx (Descent.ofDepth 1) .passing d with
    | error e => simp [h, Except.toOption] at hok
    | ok r => exact ⟨r, rfl⟩
  let script : Script := { name := "pass", code := code.toArray, locals := 0, warp := false }
  have hreporting : kit.Reporting := Library.core_reporting
  obtain ⟨hinterpreted, hcompiled, -⟩ :=
    recursive_call_parameters hreporting rfl passing_blocks.1 hsite
  have hreads : ∀ (program : Option Program) {stack : List Frame},
      stack.findSome? Frame.params = none →
      ({ Thread.start 0 0 "again" .passing with program } : Thread).Reads .passing 0
        (fun _ => none) stack :=
    fun _ _ hstack => ⟨rfl, rfl, rfl, fun name => by rw [Thread.param?, hstack]; rfl⟩
  have hrepeats : (Thread.start 0 0 "again" .passing).repeats "pass" [{ block := some "call" }] =
      true := by
    decide +kernel
  have hbound : ∀ name v, (none : Option Value) = some v → name ∈ ctx.params := by simp
  refine ⟨old, new, signature, script, hold, hnew, hids, ?_, ?_⟩
  · rw [← hrepeats]
    exact hinterpreted (by decide +kernel) (hbefore _) (hreads none rfl)
  · have hcode' : Thread.Reads .passing 0 (fun _ => none)
        { Thread.start 0 0 "again"
          .passing with program := some ⟨script, [(⟨"pass", false⟩, script)]⟩ }
        [{ code := some { script, kind := .procedure } }] := hreads _ rfl
    obtain ⟨-, hpaused⟩ :=
      hcompiled rfl rfl rfl hbound (fun _ _ => passing_core) hcode hcode' rfl rfl (.whole _) rfl
    obtain ⟨-, henters⟩ := hpaused rfl
    exact henters (hafter _)

end BlockMachine

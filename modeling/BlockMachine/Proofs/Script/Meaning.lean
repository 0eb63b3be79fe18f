import BlockMachine.Proofs.Script.Folding
import BlockMachine.Proofs.Script.Literals
import BlockMachine.Proofs.Turn.Inputs
import BlockMachine.Proofs.Value.Compare

/-!
# What reporters mean

The value of a tree of core reporters on a machine, said without frames and without code (`Means`).
There is one where every reference finds its variable and nothing is drawn. Compiled code reads this
value (`Means.operand`) and so does the interpreter (`Means.handsOver`); neither changes the
machine.
-/

namespace BlockMachine

open List Option

variable {σ : Type} {go : Exec (Turn σ) Unit} {ref : VarRef} {w : Variable}
  {r : Reporter} {v : Value}

/-! ## Numerals that are written as they were typed -/

/-- Both zeros are written alike. -/
theorem Layout.write_zero {x : Float} (h : (x == 0.0) = true) : Layout.display.write x = "0" := by
  obtain ⟨k, hx, hzero⟩ := (Number.beq_iff x 0.0).mp h
  have hplace : Number.rank? 0.0 = some 0 := by decide +kernel
  cases hzero.symm.trans hplace
  have hbits : x.toBits.toNat % 2 ^ 63 = 0 := by
    unfold Number.rank? at hx
    dsimp only at hx
    split at hx
    · cases hx
    · split at hx <;> injection hx <;> omega
  have hbinary : Binary.ofFloat? x = some ⟨x.toBits.toNat / 2 ^ 63 == 1, 0, -1074⟩ := by
    have hbiased : x.toBits.toNat / 2 ^ 52 % 2048 = 0 := by omega
    have hfraction : x.toBits.toNat % 2 ^ 52 = 0 := by omega
    unfold Binary.ofFloat?
    dsimp only
    rw [hbiased, hfraction]
    rfl
  rw [Layout.write, hbinary]
  show (if _ && false then "-0" else "0") ++ "" = "0"
  rw [Bool.and_false]
  rfl

/-- Nothing but their kinds tells the values apart: they are the same, or a numeral and the number
that is written like it. -/
inductive Value.Alike : Value → Value → Prop
  | refl (v : Value) : Alike v v
  | numeral {t : String} (h : IsNumeral t) (hwritten : Layout.display.write (Numeral.read t) = t) :
      Alike (.text t) (.number (Numeral.read t))

namespace Value.Alike

variable {v w v' w' : Value}

theorem toNumber (h : v.Alike w) : v.toNumber = w.toNumber := by
  cases h <;> rfl

theorem toText (h : v.Alike w) : v.toText = w.toText := by
  cases h with
  | refl => rfl
  | numeral _ hwritten => exact hwritten.symm

theorem toBool (h : v.Alike w) : v.toBool = w.toBool := by
  cases h with
  | refl => rfl
  | @numeral t h hwritten =>
    refine (h.toBool_iff.mpr fun hzero => ?_).symm
    rw [← hwritten, Layout.write_zero hzero]

theorem comparesAs (h : v.Alike w) : v.ComparesAs w := by
  cases h with
  | refl => exact fun _ => ⟨rfl, rfl⟩
  | numeral h hwritten =>
    have hsame := h.comparesAs_iff.mpr (by rw [hwritten])
    exact fun u => ⟨(hsame u).1.symm, (hsame u).2.symm⟩

theorem compare? (h : v.Alike w) (h' : v'.Alike w') : v.compare? v' = w.compare? w' :=
  ((h.comparesAs v').1).trans (h'.comparesAs w).2

theorem equals (h : v.Alike w) (u : Value) : u.equals v = u.equals w := by
  rw [Value.equals, (h.comparesAs u).2]
  rfl

/-- A numeral is none of the words that name positions. -/
theorem resolve (h : v.Alike w) : Position.asksDraw v = Position.asksDraw w ∧
    ∀ length d all, Position.resolve v length d all = Position.resolve w length d all := by
  cases h with
  | refl => exact ⟨rfl, fun _ _ _ => rfl⟩
  | @numeral t h _ =>
    have hword : ∀ word, (Numeral.read word).isNaN = true → t ≠ word := by
      rintro word hword rfl
      cases hword.symm.trans h.number
    have hall := hword "all" (by decide +kernel)
    have hlast := hword "last" (by decide +kernel)
    have hrandom := hword "random" (by decide +kernel)
    have hany := hword "any" (by decide +kernel)
    exact ⟨by simp [Position.asksDraw, hrandom, hany], fun length d all => by
      simp [Position.resolve, hall, hlast, hrandom, hany, Value.toNumber, Value.rawNumber]⟩

theorem itemAt (h : v.Alike w) (items : List Value) (d : Draw) :
    BlockMachine.itemAt items v d = BlockMachine.itemAt items w d := by
  unfold BlockMachine.itemAt
  rw [h.resolve.2]

theorem positionOf (h : v.Alike w) (items : List Value) :
    BlockMachine.positionOf items v = BlockMachine.positionOf items w := by
  unfold BlockMachine.positionOf
  simp only [h.equals]

theorem containsItem (h : v.Alike w) (items : List Value) :
    BlockMachine.containsItem items v = BlockMachine.containsItem items w := by
  simp only [Value.containsItem_eq, h.equals]

theorem apply (h : v.Alike w) (h' : v'.Alike w') (op : Comparison) :
    op.apply v v' = op.apply w w' := by
  cases op <;> simp only [Comparison.apply, less, greater, Value.equals, h.compare? h']

end Value.Alike

/-! ## Operands -/

/-- Read on the machine, the operand has the value and changes nothing, and what is known of it is
true. -/
structure Operand.Has (locals : Nat → Value) (m : Machine σ) (target : TargetId)
    (param : String → Option Value) (o : Operand) (v : Value) : Prop where
  value : Machine.value locals target param o.expr m = (.ok v, m)
  kind : o.kind.Admits v

namespace Operand

variable {locals : Nat → Value} {m : Machine σ} {target : TargetId} {param : String → Option Value}
  {o : Operand} {v : Value} {e : Expr} {kind : Kind}

theorem has_const (v : Value) : (const v).Has locals m target param v :=
  ⟨rfl, kindOf_admits v⟩

theorem ends_value : Ends fun (x : Service σ Value) v => x m = (.ok v, m) where
  map _ h := Service.bind_ok h
  pure_eq h := by
    cases h
    rfl

theorem has_folded (h : Machine.value locals target param e m = (.ok v, m))
    (hkind : kind.Admits v) :
    (folded e kind).Has locals m target param v :=
  ⟨(congrFun (eval_folded e kind _) m).trans h, ends_value.folded_admits h hkind⟩

namespace Has

section

variable (h : o.Has locals m target param v)

include h

theorem asNumber : Machine.value locals target param o.asNumber m = (.ok (.number v.toNumber), m) :=
  ends_value.asNumber h.value h.kind

theorem asRawNumber :
    Machine.value locals target param o.asRawNumber m = (.ok (.number v.rawNumber), m) :=
  ends_value.asRawNumber h.value h.kind

theorem asText : Machine.value locals target param o.asText m = (.ok (.text v.toText), m) :=
  ends_value.asText h.value h.kind

theorem asBool : Machine.value locals target param o.asBool m = (.ok (.bool v.toBool), m) :=
  ends_value.asBool h.value h.kind

end

end Has
end Operand

/-! ## Reports -/

section Values

variable {locals : Nat → Value} {m : Machine σ} {target : TargetId} {param : String → Option Value}
  {e e₁ e₂ : Expr} {v v₁ v₂ : Value}

theorem value_map {f : Value → Value}
    (heval : ∀ env : Env (Service σ), e.eval env = (e₁.eval env >>= fun v => pure (f v)))
    (h : Machine.value locals target param e₁ m = (.ok v, m)) :
    Machine.value locals target param e m = (.ok (f v), m) :=
  (congrFun (heval _) m).trans (Service.bind_ok h)

theorem value_map₂ {f : Value → Value → Value}
    (heval : ∀ env : Env (Service σ), e.eval env =
      (e₁.eval env >>= fun v => e₂.eval env >>= fun w => pure (f v
      w)))
    (h₁ : Machine.value locals target param e₁ m = (.ok v₁, m))
    (h₂ : Machine.value locals target param e₂ m = (.ok v₂, m)) :
    Machine.value locals target param e m = (.ok (f v₁ v₂), m) :=
  (congrFun (heval _) m).trans ((Service.bind_ok h₁).trans (Service.bind_ok h₂))

end Values

/-- A turn reads the value that an expression has on its machine. -/
theorem Turn.eval_of {sheet : Sheet} {target : TargetId} {param : String → Option Value}
    {m : Machine σ} {t : Thread} {stack : List Frame} {e : Expr}
    (hreads : t.Reads sheet target param stack)
    (h : Machine.value (slots { t with stack }) target param e m = (.ok v, m)) :
    eval e (of m t stack) = some (.ok v, of m t stack) := by
  have hparam : (of m t stack).thread.param? = param := funext hreads.params
  rw [eval_eq, hparam]
  show Exec.service (Machine.value _ t.target param e) (of m t stack) = _
  rw [hreads.target]
  exact service_ok h

namespace Machine

/-- The variable or list that a reference finds. -/
def found? (m : Machine σ) (target : TargetId) (ref : VarRef) (isList : Bool) : Option Variable :=
  m.place? target ref isList >>= m.variableAt?

variable {m : Machine σ} {target : TargetId} {ref : VarRef} {isList : Bool} {v : Variable}

theorem lookUp_of_found (h : m.found? target ref isList = some v) :
    ∃ p, lookUp target ref isList m = (.ok (p, v), m) := by
  obtain ⟨p, hp, hv⟩ := bind_eq_some_iff.mp h
  have hresolve : resolve target ref isList m = (.ok p, m) := by rw [resolve_eq, hp]
  exact ⟨p, lookUp_eq hresolve hv⟩

theorem readVariable_found (h : m.found? target ref false = some v) :
    readVariable target ref m = (.ok v.get, m) := by
  obtain ⟨p, hp⟩ := lookUp_of_found h
  exact Service.bind_ok hp

theorem readList_found (h : m.found? target ref true = some v) :
    readList target ref m = (.ok v.items, m) := by
  obtain ⟨p, hp⟩ := lookUp_of_found h
  exact Service.bind_ok hp

end Machine

/-- What a reporter reports, from the values of its inputs. Nothing is said where it would create a
variable, take a draw or look at the time. -/
def Reporter.report (m : Machine σ) (target : TargetId) (param : String → Option Value) (b : Block)
    (vs : String → Value) : Reporter → Option Value
  | .var => (m.found? target (b.ref "VARIABLE") false).map Variable.get
  | .listText => items.map fun xs => .text (BlockMachine.listText xs)
  | .listItem =>
    if Position.asksDraw (vs "INDEX") then none else items.map fun xs => itemAt xs (vs "INDEX") 0
  | .listPosition => items.map fun xs => .number (Float.ofNat (positionOf xs (vs "ITEM")))
  | .listLength => items.map fun xs => .number (Float.ofNat xs.length)
  | .listContains => items.map fun xs => .bool (containsItem xs (vs "ITEM"))
  | .arithmetic op => some (.number (op.apply (vs "NUM1").toNumber (vs "NUM2").toNumber))
  | .compare op => some (.bool (op.apply (vs "OPERAND1") (vs "OPERAND2")))
  | .and => some (.bool ((vs "OPERAND1").toBool && (vs "OPERAND2").toBool))
  | .or => some (.bool ((vs "OPERAND1").toBool || (vs "OPERAND2").toBool))
  | .not => some (.bool (!(vs "OPERAND").toBool))
  | .join => some (.text ((vs "STRING1").toText ++ (vs "STRING2").toText))
  | .letter => some (.text (Text.letterAt (vs "LETTER").toNumber (vs "STRING").toText))
  | .length => some (.number (Float.ofNat (vs "STRING").textLength))
  | .includes => some (.bool (Text.includes (vs "STRING1").toText (vs "STRING2").toText))
  | .round => some (.number (Number.roundHalfUp (vs "NUM").toNumber))
  | .math =>
    some (.number (((MathFunction.ofName? (b.fieldText "OPERATOR")).map
      (·.apply (vs "NUM").toNumber)).getD 0.0))
  | .argument default => some ((param (b.fieldText "VALUE")).getD default)
  | .random | .timer => none
where
  items : Option (List Value) := (m.found? target (b.ref "LIST") true).map Variable.items

namespace Reporter

open Operand

variable {locals : Nat → Value} {m : Machine σ} {target : TargetId} {param : String → Option Value}
  {b : Block} {v : Value} {vs : String → Value} {os : String → Operand} {names : List String}
  {r : Reporter}

/-- Numbers that are known as such are compared as numbers, with the same answer. -/
theorem compared_has {op : Comparison} {o o' : Operand} {w : Value}
    (h : o.Has locals m target param v) (h' : o'.Has locals m target param w) :
    (compared op o o').Has locals m target param (.bool (op.apply v w))
      := by
  unfold compared
  by_cases hkinds : (o.isAlwaysNumber && o'.isAlwaysNumber) = true
  · rw [if_pos hkinds]
    obtain ⟨hkind, hkind'⟩ := Bool.and_eq_true_iff.mp hkinds
    obtain ⟨x, rfl, hx⟩ := (beq_iff_eq.mp hkind : o.kind = Kind.alwaysNumber) ▸ h.kind
    obtain ⟨y, rfl, hy⟩ := (beq_iff_eq.mp hkind' : o'.kind = Kind.alwaysNumber) ▸ h'.kind
    rw [← op.applyNumbers_eq hx hy]
    have hvalue := value_map₂ (e := .compareNumbers op _ _) (fun _ => rfl) h.asRawNumber
      h'.asRawNumber
    exact has_folded hvalue ⟨_, rfl⟩
  · rw [if_neg hkinds]
    have hvalue := value_map₂ (e := .compare op _ _) (fun _ => rfl) h.value h'.value
    exact has_folded hvalue ⟨_, rfl⟩

/-- A reporter cannot tell values that are alike apart. -/
theorem report_alike (r : Reporter) {ws : String → Value}
    (h : ∀ name ∈ r.inputs, (vs name).Alike (ws name)) :
    r.report m target param b vs = r.report m target param b ws := by
  cases r with
  | var | listText | listLength | random | timer | argument => rfl
  | listItem =>
    have hindex := h "INDEX" mem_cons_self
    simp only [report, hindex.resolve.1, hindex.itemAt]
  | listPosition => simp only [report, (h "ITEM" mem_cons_self).positionOf]
  | listContains => simp only [report, (h "ITEM" mem_cons_self).containsItem]
  | arithmetic | compare | and | or | join | letter | includes =>
    obtain ⟨h₁, h₂, -⟩ := by simpa only [inputs, forall_mem_cons] using h
    simp only [report, h₁.toNumber, h₂.toNumber, h₁.apply h₂, h₁.toBool, h₂.toBool,
      h₁.toText, h₂.toText]
  | not => simp only [report, (h "OPERAND" mem_cons_self).toBool]
  | length => simp only [report, Value.textLength, (h "STRING" mem_cons_self).toText]
  | round | math => simp only [report, (h "NUM" mem_cons_self).toNumber]

/-- The operand of a reporter has the value that it reports, if those of its inputs have theirs. -/
theorem operand_has (hos : ∀ name ∈ r.inputs, (os name).Has locals m target param (vs name))
    (hbound : ∀ name v, param name = some v → name ∈ names)
    (hreport : r.report m target param b vs = some v)
    : (r.operand names b os).Has locals m target param v := by
  have hcount : ∀ n : Nat, Kind.alwaysNumber.Admits (.number (Float.ofNat n)) :=
    fun n => ⟨_, rfl, Number.isCount_isNaN (Number.isCount_ofNat n)⟩
  have hlist : ∀ {f : List Value → Value}, (report.items m target b).map f = some v →
      ∃ w : Variable, m.found? target (b.ref "LIST") true = some w ∧ f w.items = v := by
    intro f h
    obtain ⟨xs, hxs, hv⟩ := map_eq_some_iff.mp h
    obtain ⟨w, hw, rfl⟩ := map_eq_some_iff.mp hxs
    exact ⟨w, hw, hv⟩
  cases r with
  | random | timer => cases hreport
  | var =>
    obtain ⟨w, hw, rfl⟩ := map_eq_some_iff.mp hreport
    exact ⟨Machine.readVariable_found hw, trivial⟩
  | listText =>
    obtain ⟨w, hw, rfl⟩ := hlist hreport
    exact ⟨Service.bind_ok (Machine.readList_found hw), _, rfl⟩
  | listLength =>
    obtain ⟨w, hw, rfl⟩ := hlist hreport
    exact ⟨Service.bind_ok (Machine.readList_found hw), hcount _⟩
  | listPosition =>
    obtain ⟨w, hw, rfl⟩ := hlist hreport
    have hitem := (hos "ITEM" mem_cons_self).value
    exact ⟨(Service.bind_ok hitem).trans (Service.bind_ok (Machine.readList_found hw)), hcount _⟩
  | listContains =>
    obtain ⟨w, hw, rfl⟩ := hlist hreport
    have hitem := (hos "ITEM" mem_cons_self).value
    exact ⟨(Service.bind_ok hitem).trans (Service.bind_ok (Machine.readList_found hw)), _, rfl⟩
  | listItem =>
    simp only [report] at hreport
    split at hreport
    · cases hreport
    next hdraw =>
      obtain ⟨w, hw, rfl⟩ := hlist hreport
      have hindex := (hos "INDEX" mem_cons_self).value
      refine ⟨(Service.bind_ok hindex).trans
        ((Service.bind_ok (Machine.readList_found hw)).trans ?_), trivial⟩
      rw [if_neg hdraw]
      rfl
  | argument default =>
    cases hreport
    simp only [operand]
    split
    · exact ⟨rfl, trivial⟩
    next hname =>
      have hnone : param (b.fieldText "VALUE") = none := by
        cases hparam : param (b.fieldText "VALUE") with
        | none => rfl
        | some v => exact absurd (hbound _ v hparam) (by simpa using hname)
      rw [hnone]
      exact has_const default
  | arithmetic op =>
    cases hreport
    have h := value_map₂ (e := .arithmetic op _ _) (fun _ => rfl)
      (hos "NUM1" (by simp [inputs])).asNumber (hos "NUM2" (by simp [inputs])).asNumber
    exact has_folded h ⟨_, rfl⟩
  | compare op =>
    cases hreport
    exact compared_has (hos "OPERAND1" (by simp [inputs])) (hos "OPERAND2" (by simp [inputs]))
  | and =>
    cases hreport
    have h₁ := (hos "OPERAND1" (by simp [inputs])).asBool
    have h₂ := (hos "OPERAND2" (by simp [inputs])).asBool
    refine has_folded ((Service.bind_ok h₁).trans ?_) ⟨_, rfl⟩
    cases hv : (vs "OPERAND1").toBool with
    | false => rfl
    | true => exact (Service.bind_ok h₂).trans rfl
  | or =>
    cases hreport
    have h₁ := (hos "OPERAND1" (by simp [inputs])).asBool
    have h₂ := (hos "OPERAND2" (by simp [inputs])).asBool
    refine has_folded ((Service.bind_ok h₁).trans ?_) ⟨_, rfl⟩
    cases hv : (vs "OPERAND1").toBool with
    | true => rfl
    | false => exact (Service.bind_ok h₂).trans rfl
  | not =>
    cases hreport
    have h := value_map (e := .not _) (fun _ => rfl) (hos "OPERAND" mem_cons_self).asBool
    exact has_folded h ⟨_, rfl⟩
  | join =>
    cases hreport
    have h := value_map₂ (e := .join _ _) (fun _ => rfl)
      (hos "STRING1" (by simp [inputs])).asText (hos "STRING2" (by simp [inputs])).asText
    exact has_folded h ⟨_, rfl⟩
  | includes =>
    cases hreport
    have h := value_map₂ (e := .includes _ _) (fun _ => rfl)
      (hos "STRING1" (by simp [inputs])).asText (hos "STRING2" (by simp [inputs])).asText
    exact has_folded h ⟨_, rfl⟩
  | letter =>
    cases hreport
    have h := value_map₂ (e := .letter _ _) (fun _ => rfl)
      (hos "LETTER" (by simp [inputs])).asNumber (hos "STRING" (by simp [inputs])).asText
    exact has_folded h ⟨_, rfl⟩
  | length =>
    cases hreport
    have h := value_map (e := .length _) (fun _ => rfl) (hos "STRING" mem_cons_self).asText
    exact has_folded h (hcount _)
  | round =>
    cases hreport
    have h := value_map (e := .round _) (fun _ => rfl) (hos "NUM" mem_cons_self).asNumber
    exact has_folded h
      ⟨_, rfl, Number.isCount_isNaN (Number.isCount_roundHalfUp (Number.isNaN_zeroNaN _))⟩
  | math =>
    cases hreport
    simp only [operand]
    cases MathFunction.ofName? (b.fieldText "OPERATOR") with
    | none => exact has_const _
    | some f =>
      have h := value_map (e := .math f _) (fun _ => rfl) (hos "NUM" mem_cons_self).asNumber
      exact has_folded h ⟨_, rfl⟩

end Reporter

/-! ## Trees -/

/-- The block has no inputs but these, stacks apart, and no fields of their names. -/
structure Block.Declares (b : Block) (names : List String) : Prop where
  inputs : ∀ name ∈ b.inputs.keys, isStackSlot name = true ∨ name ∈ names
  fields : ∀ name ∈ names, b.fields[name]? = none
  slots : ∀ name ∈ names, isStackSlot name = false

theorem Block.Declares.mem {b : Block} {names : List String} {k : String} (h : b.Declares names)
    (hk : k ∈ b.inputs.keys) (hslot : isStackSlot k = false) : k ∈ names :=
  (h.inputs k hk).resolve_left (by simp [hslot])

/-- What a literal counts as. -/
abbrev Reading := Block → Field → Value → Prop

namespace Reading

/-- The value that compiled code has for a literal. -/
def constant (b : Block) (f : Field) : Value := (Context.literal? b).getD f.value

/-- The interpreter reports what was typed. -/
def typed : Reading := fun _ f v => v = f.value

/-- Compiled code has a constant for it. -/
def compiled : Reading := fun b f v => v = constant b f

/-- What was typed, where the constant is like it. -/
def written : Reading := fun b f v => v = f.value ∧ f.value.Alike (constant b f)

end Reading

/-- The value of a tree of reporters on a machine, if literals are read like that. -/
inductive Means (reading : Reading) (catalog : Catalog σ) (sheet : Sheet) (m : Machine σ)
    (target : TargetId) (param : String → Option Value) : BlockId → Value → Prop
  | field {id : BlockId} {b : Block} {f : Field} {v : Value} (hb : sheet.block? id = some b)
      (hlowering : catalog.lowering? b.opcode = none)
      (hprimitive : catalog.primitive? b.opcode = none) (hhat : catalog.isHat b.opcode = false)
      (hfield : b.soleField? = some f) (hread : reading b f v) :
      Means reading catalog sheet m target param id v
  | reporter {id : BlockId} {b : Block} {r : Reporter} {vs : String → Value} {v : Value}
      (hb : sheet.block? id = some b) (hliteral : Context.literal? b = none)
      (hlowering : catalog.lowering? b.opcode = some (.reporter r))
      (hhat : catalog.isHat b.opcode = false) (hdeclares : b.Declares r.inputs)
      (hempty : ∀ name ∈ r.inputs, b.inputBlock? name = none → vs name = .empty)
      (hfilled : ∀ name ∈ r.inputs, ∀ input, b.inputBlock? name = some input →
        Means reading catalog sheet m target param input (vs name))
      (hreport : r.report m target param b vs = some v) :
      Means reading catalog sheet m target param id v

section Trees

variable {reading reading' : Reading} {catalog : Catalog σ} {sheet : Sheet} {locals : Nat → Value}
  {m : Machine σ} {target : TargetId} {param : String → Option Value} {id : BlockId} {v : Value}
  {names : List String} {o : Operand}

theorem Means.mono (h : Means reading catalog sheet m target param id v)
    (hread : ∀ b f v, reading b f v → reading' b f v) :
    Means reading' catalog sheet m target param id v := by
  induction h with
  | field hb hlowering hprimitive hhat hfield hv =>
    exact .field hb hlowering hprimitive hhat hfield (hread _ _ _ hv)
  | reporter hb hliteral hlowering hhat hdeclares hempty _ hreport ih =>
    exact .reporter hb hliteral hlowering hhat hdeclares hempty ih hreport

theorem Means.block (h : Means reading catalog sheet m target param id v) :
    ∃ b, sheet.block? id = some b := by
  cases h with
  | field hb => exact ⟨_, hb⟩
  | reporter hb => exact ⟨_, hb⟩

/-- **Literals that are written as they were typed make no difference.** Compiled code has a value
like the one that the interpreter has, and the same one for everything but a literal. -/
theorem Means.alike (h : Means .written catalog sheet m target param id v) :
    ∃ w, Means .compiled catalog sheet m target param id w ∧ v.Alike w ∧
      ∀ b, sheet.block? id = some b → b.soleField? = none → v = w := by
  induction h with
  | @field id b f v hb hlowering hprimitive hhat hfield hread =>
    obtain ⟨rfl, hlike⟩ := hread
    refine ⟨_, .field hb hlowering hprimitive hhat hfield rfl, hlike, fun b' hb' hnone => ?_⟩
    cases hb.symm.trans hb'
    cases hfield.symm.trans hnone
  | @reporter id b r vs v hb hliteral hlowering hhat hdeclares hempty hfilled hreport ih =>
    have hinputs : ∀ name, ∃ w, name ∈ r.inputs → (vs name).Alike w ∧
        (b.inputBlock? name = none → w = .empty) ∧ ∀ input, b.inputBlock? name = some input →
          Means .compiled catalog sheet m target param input w := by
      intro name
      cases hinput : b.inputBlock? name with
      | none =>
        exact ⟨.empty, fun hname => ⟨hempty name hname hinput ▸ .refl _, fun _ => rfl, nofun⟩⟩
      | some input =>
        by_cases hname : name ∈ r.inputs
        · obtain ⟨w, hw, hlike, -⟩ := ih name hname input hinput
          refine ⟨w, fun _ => ⟨hlike, nofun, ?_⟩⟩
          rintro _ ⟨⟩
          exact hw
        · exact ⟨.empty, fun h => absurd h hname⟩
    choose ws hws using hinputs
    have hsame : r.report m target param b ws = some v := by
      rw [← hreport]
      exact (r.report_alike fun name hname => (hws name hname).1).symm
    exact ⟨v, .reporter hb hliteral hlowering hhat hdeclares
      (fun name hname => (hws name hname).2.1)
      (fun name hname => (hws name hname).2.2) hsame, .refl v, fun _ _ _ => rfl⟩

/-- **Compiled code reads the value of a tree.** -/
theorem Means.operand (h : Means .compiled catalog sheet m target param id v)
    (ho : Lowers catalog sheet names id o) (hbound : ∀ name v, param name = some v → name ∈ names) :
    o.Has locals m target param v := by
  induction h generalizing o with
  | @field id b f v hb hlowering _ _ hfield hread =>
    obtain rfl : v = Reading.constant b f := hread
    cases ho with
    | literal hb' hliteral' =>
      cases hb.symm.trans hb'
      rw [Reading.constant, hliteral']
      exact Operand.has_const _
    | field hb' hliteral' _ _ hfield' =>
      cases hb.symm.trans hb'
      cases hfield.symm.trans hfield'
      rw [Reading.constant, hliteral']
      exact Operand.has_const _
    | reporter hb' _ hlowering' =>
      cases hb.symm.trans hb'
      cases hlowering.symm.trans hlowering'
  | reporter hb hliteral hlowering _ _ hempty _ hreport ih =>
    cases ho with
    | literal hb' hliteral' =>
      cases hb.symm.trans hb'
      cases hliteral.symm.trans hliteral'
    | field hb' _ hlowering' =>
      cases hb.symm.trans hb'
      cases hlowering.symm.trans hlowering'
    | reporter hb' _ hlowering' _ hempty' hfilled' =>
      cases hb.symm.trans hb'
      cases hlowering.symm.trans hlowering'
      refine Reporter.operand_has (fun name hname => ?_) hbound hreport
      cases hinput : Block.inputBlock? _ name with
      | none =>
        rw [hempty name hname hinput, hempty' name hname hinput]
        exact Operand.has_const _
      | some input => exact ih name hname input hinput (hfilled' name hname input hinput)

end Trees

/-! ## Primitives -/

/-- The primitive of a reporter. -/
def Reporter.primitive : Reporter → Primitive σ
  | .var => Library.Memory.getVariable
  | .listText => Library.Memory.ofItems fun _ items => .text (BlockMachine.listText items)
  | .listItem => Library.Memory.item
  | .listPosition => Library.Memory.ofItems fun args items =>
      .number (Float.ofNat (positionOf items (args.get "ITEM")))
  | .listLength => Library.Memory.ofItems fun _ items => .number (Float.ofNat items.length)
  | .listContains =>
    Library.Memory.ofItems fun args items => .bool (containsItem items (args.get "ITEM"))
  | .arithmetic op => Library.Operators.arithmetic op
  | .compare op => Library.Operators.comparison op
  | .and =>
    Library.Operators.pureValue fun args => .bool (args.bool "OPERAND1" && args.bool "OPERAND2")
  | .or =>
    Library.Operators.pureValue fun args => .bool (args.bool "OPERAND1" || args.bool "OPERAND2")
  | .not => Library.Operators.pureValue fun args => .bool (!args.bool "OPERAND")
  | .random => Library.Operators.random
  | .join =>
    Library.Operators.pureValue fun args => .text (args.text "STRING1" ++ args.text "STRING2")
  | .letter => Library.Operators.pureValue fun args =>
      .text (Text.letterAt (args.number "LETTER") (args.text "STRING"))
  | .length =>
    Library.Operators.pureValue fun args => .number (Float.ofNat (args.text "STRING").length)
  | .includes => Library.Operators.pureValue fun args =>
      .bool (Text.includes (args.text "STRING1") (args.text "STRING2"))
  | .round =>
    Library.Operators.pureValue fun args => .number (Number.roundHalfUp (args.number "NUM"))
  | .math => Library.Operators.math
  | .timer => Library.askClock "projectTimer"
  | .argument default => Library.Custom.argument default

/-- Reporters with an operand of their own are called through their primitives. -/
def Catalog.Reporting (c : Catalog σ) : Prop :=
  ∀ opcode r, c.lowering? opcode = some (.reporter r) → c.primitive? opcode = some r.primitive

namespace Library

theorem union_lowering? {c d : Catalog σ} {opcode : String} {l : Lowering}
    (h : (c.union d).lowering? opcode = some l) :
    d.lowering? opcode = some l ∨ c.lowering? opcode = some l := by
  change (d.lowering? opcode <|> c.lowering? opcode) = some l at h
  cases hd : d.lowering? opcode with
  | none =>
    rw [hd] at h
    exact .inr h
  | some l' =>
    rw [hd] at h
    exact .inl h

theorem core_reporting : (core : Catalog σ).Reporting := by
  intro opcode r h
  rcases union_lowering? h with h | h
  · change timerLowering? opcode = _ at h
    unfold timerLowering? at h
    split at h <;> cases h
    rfl
  rcases union_lowering? h with h | h
  · change Custom.lowering? opcode = _ at h
    unfold Custom.lowering? at h
    split at h <;> cases h <;> rfl
  rcases union_lowering? h with h | h
  · change Operators.lowering? opcode = _ at h
    unfold Operators.lowering? at h
    split at h <;> cases h <;> rfl
  rcases union_lowering? h with h | h
  · cases h
  rcases union_lowering? h with h | h
  · change Memory.lowering? opcode = _ at h
    unfold Memory.lowering? at h
    split at h <;> cases h <;> rfl
  rcases union_lowering? h with h | h
  · cases h
  · change Flow.lowering? opcode = _ at h
    unfold Flow.lowering? at h
    split at h <;> cases h

end Library

/-! ## Arguments -/

namespace Args

theorem number_eq (args : Args) (name : String) : args.number name = (args.get name).toNumber := by
  unfold number get
  cases args.get? name with
  | none => decide +kernel
  | some v => rfl

theorem text_eq (args : Args) (name : String) : args.text name = (args.get name).toText := by
  unfold text get
  cases args.get? name <;> rfl

theorem bool_eq (args : Args) (name : String) : args.bool name = (args.get name).toBool := by
  unfold bool get
  cases args.get? name with
  | none => decide +kernel
  | some v => rfl

end Args

/-- The arguments after one more input. -/
def Block.takeInput (b : Block) (vs : String → Value) (args : Args) (name : String) : Args :=
  if isStackSlot name then args
  else
    match b.inputBlock? name with
    | none => args
    | some _ => args.insert name (vs name)

/-- What a block is called with, if its inputs have those values. -/
def Block.arguments (b : Block) (vs : String → Value) : Args :=
  b.inputs.keys.foldl (b.takeInput vs) (.ofFields b.opcode b.mutation b.fields)

namespace Block

variable {b : Block} {vs : String → Value} {names keys : List String} {args : Args} {k : String}

theorem takeInputs_values (hk : isStackSlot k = false) :
    (keys.foldl (b.takeInput vs) args).values[k]? =
      if k ∈ keys ∧ (b.inputBlock? k).isSome then some (vs k) else args.values[k]? := by
  induction keys generalizing args with
  | nil => simp
  | cons name keys ih =>
    rw [foldl_cons, ih]
    unfold takeInput
    by_cases heq : name = k
    · subst heq
      cases b.inputBlock? name <;> simp [hk]
    · have htake : (if isStackSlot name = true then args else
          match b.inputBlock? name with
          | none => args
          | some _ => args.insert name (vs name)).values[k]? = args.values[k]? := by
        split
        · rfl
        · cases b.inputBlock? name with
          | none => rfl
          | some input => rw [Args.values_insert, if_neg heq]
      rw [htake]
      simp [Ne.symm heq]

theorem takeInputs_rest :
    (keys.foldl (b.takeInput vs) args).fields = args.fields ∧
      (keys.foldl (b.takeInput vs) args).mutation = args.mutation := by
  induction keys generalizing args with
  | nil => exact ⟨rfl, rfl⟩
  | cons name keys ih =>
    rw [foldl_cons, ih.1, ih.2]
    unfold takeInput
    split
    · exact ⟨rfl, rfl⟩
    · cases b.inputBlock? name <;> exact ⟨rfl, rfl⟩

theorem arguments_fields (name : String) : (b.arguments vs).fields[name]? = b.fields[name]? := by
  rw [arguments, takeInputs_rest.1, Args.fields_ofFields]

theorem arguments_mutation : (b.arguments vs).mutation = b.mutation := by
  rw [arguments, takeInputs_rest.2, Args.ofFields, Std.TreeMap.foldl_eq_foldl_toList,
    Args.foldl_insertField]

theorem arguments_ref (vs : String → Value) (name : String) :
    (b.arguments vs).ref name = b.ref name := by
  unfold Args.ref Args.ref? Block.ref Block.fieldText
  rw [arguments_fields]
  cases b.fields[name]? <;> rfl

theorem mem_keys {input : BlockId} (h : b.inputBlock? k = some input) : k ∈ b.inputs.keys := by
  obtain ⟨slot, hslot, -⟩ := bind_eq_some_iff.mp h
  exact Std.TreeMap.mem_keys.mpr (Std.TreeMap.mem_iff_isSome_getElem?.mpr (by rw [hslot]; rfl))

/-- An input that is declared is read where it is filled. -/
theorem arguments_input (h : b.Declares names) (hk : k ∈ names) :
    (b.arguments vs).get? k = (b.inputBlock? k).map fun _ => vs k := by
  unfold Args.get? arguments
  rw [takeInputs_values (h.slots k hk), Args.values_ofFields, h.fields k hk]
  cases hinput : b.inputBlock? k with
  | none => simp
  | some input => simp [mem_keys hinput]

theorem arguments_get (h : b.Declares names) (hk : k ∈ names)
    (hempty : b.inputBlock? k = none → vs k = .empty) : (b.arguments vs).get k = vs k := by
  unfold Args.get
  rw [arguments_input h hk]
  cases hinput : b.inputBlock? k with
  | none => exact (hempty hinput).symm
  | some input => rfl

/-- A field is read by its name. -/
theorem arguments_field (vs : String → Value) (h : b.Declares names) (hk : k ∉ names)
    (hslot : isStackSlot k = false) :
    (b.arguments vs).text k = b.fieldText k := by
  have hkeys : k ∉ b.inputs.keys := fun hmem => hk (h.mem hmem hslot)
  unfold Args.text Args.get? arguments Block.fieldText
  rw [takeInputs_values hslot, if_neg (fun h => hkeys h.1), Args.values_ofFields, Option.map_map]
  rfl

end Block

/-! ## Calls of reporters -/

namespace Call

variable {kit : Kit σ} {predicate : Exec (Turn σ) Unit} {mode : Mode} {c : Call σ} {α : Type}

theorem run_readVariable {next : Value → Action σ α}
    (h : c.machine.found? c.thread.target ref false = some w)
    :
    run kit predicate mode (.ask (.readVariable ref) next) c =
      run kit predicate mode (next w.get) c := by
  have hperform : perform kit predicate mode (.readVariable ref) c = some (.ok w.get, c) := by
    show some ((Machine.readVariable c.thread.target ref c.machine).1,
      { c with machine := (Machine.readVariable c.thread.target ref c.machine).2 }) = _
    rw [Machine.readVariable_found h]
    rfl
  exact Exec.andThen_ok hperform

theorem run_readList {next : List Value → Action σ α}
    (h : c.machine.found? c.thread.target ref true = some w)
    :
    run kit predicate mode (.ask (.readList ref) next) c =
      run kit predicate mode (next w.items) c := by
  have hperform : perform kit predicate mode (.readList ref) c = some (.ok w.items, c) := by
    show some ((Machine.readList c.thread.target ref c.machine).1,
      { c with machine := (Machine.readList c.thread.target ref c.machine).2 }) = _
    rw [Machine.readList_found h]
    rfl
  exact Exec.andThen_ok hperform

/-- A reporter that is called through its primitive reports what it means. -/
theorem run_reporter {b : Block} {vs : String → Value} (hdeclares : b.Declares r.inputs)
    (hempty : ∀ name ∈ r.inputs, b.inputBlock? name = none → vs name = .empty)
    (hreport : r.report c.machine c.thread.target c.thread.param? b vs = some v) :
    run kit predicate mode (r.primitive (b.arguments vs)) c = some (.ok (.value v), c) := by
  have hget : ∀ name ∈ r.inputs, (b.arguments vs).get name = vs name :=
    fun name hname => Block.arguments_get hdeclares hname (hempty name hname)
  have hnumber : ∀ name ∈ r.inputs, (b.arguments vs).number name = (vs name).toNumber :=
    fun name hname => by rw [Args.number_eq, hget name hname]
  have htext : ∀ name ∈ r.inputs, (b.arguments vs).text name = (vs name).toText :=
    fun name hname => by rw [Args.text_eq, hget name hname]
  have hbool : ∀ name ∈ r.inputs, (b.arguments vs).bool name = (vs name).toBool :=
    fun name hname => by rw [Args.bool_eq, hget name hname]
  have hlist : ∀ {f : Args → List Value → Value},
      (Reporter.report.items c.machine c.thread.target b).map (f (b.arguments vs)) = some v →
      run kit predicate mode (Library.Memory.ofItems f (b.arguments vs)) c =
        some (.ok (.value v), c) := by
    intro f h
    obtain ⟨xs, hxs, rfl⟩ := map_eq_some_iff.mp h
    obtain ⟨w, hw, rfl⟩ := map_eq_some_iff.mp hxs
    rw [← Block.arguments_ref vs] at hw
    exact run_readList hw
  cases r with
  | random | timer => cases hreport
  | var =>
    obtain ⟨w, hw, rfl⟩ := map_eq_some_iff.mp hreport
    rw [← Block.arguments_ref vs] at hw
    exact run_readVariable hw
  | listText => exact hlist (f := fun _ xs => .text (listText xs)) hreport
  | listLength => exact hlist (f := fun _ xs => .number (Float.ofNat xs.length)) hreport
  | listPosition =>
    rw [Reporter.report, ← hget "ITEM" mem_cons_self] at hreport
    exact hlist (f := fun args xs => .number (Float.ofNat (positionOf xs (args.get "ITEM"))))
      hreport
  | listContains =>
    rw [Reporter.report, ← hget "ITEM" mem_cons_self] at hreport
    exact hlist (f := fun args xs => .bool (containsItem xs (args.get "ITEM"))) hreport
  | listItem =>
    simp only [Reporter.report] at hreport
    split at hreport
    · cases hreport
    next hdraw =>
      obtain ⟨xs, hxs, rfl⟩ := map_eq_some_iff.mp hreport
      obtain ⟨w, hw, rfl⟩ := map_eq_some_iff.mp hxs
      rw [← Block.arguments_ref vs] at hw
      rw [← hget "INDEX" mem_cons_self] at hdraw ⊢
      refine (run_readList hw).trans ?_
      show run kit predicate mode
        (if Position.asksDraw ((b.arguments vs).get "INDEX") = true then _ else _) c = _
      rw [if_neg hdraw]
      rfl
  | argument default =>
    cases hreport
    have hname := Block.arguments_field vs hdeclares (k := "VALUE") (by simp [Reporter.inputs])
      (by decide)
    show some (Except.ok
      (Reported.value ((c.thread.param? ((b.arguments vs).text "VALUE")).getD default)), c) = _
    rw [hname]
  | arithmetic op =>
    cases hreport
    rw [← hnumber "NUM1" (by simp [Reporter.inputs]), ← hnumber "NUM2" (by simp [Reporter.inputs])]
    rfl
  | compare op =>
    cases hreport
    rw [← hget "OPERAND1" (by simp [Reporter.inputs]),
      ← hget "OPERAND2" (by simp [Reporter.inputs])]
    rfl
  | and | or =>
    cases hreport
    rw [← hbool "OPERAND1" (by simp [Reporter.inputs]),
      ← hbool "OPERAND2" (by simp [Reporter.inputs])]
    rfl
  | not =>
    cases hreport
    rw [← hbool "OPERAND" mem_cons_self]
    rfl
  | join | includes =>
    cases hreport
    rw [← htext "STRING1" (by simp [Reporter.inputs]),
      ← htext "STRING2" (by simp [Reporter.inputs])]
    rfl
  | letter =>
    cases hreport
    rw [← hnumber "LETTER" (by simp [Reporter.inputs]),
      ← htext "STRING" (by simp [Reporter.inputs])]
    rfl
  | length =>
    cases hreport
    rw [Value.textLength, ← htext "STRING" mem_cons_self]
    rfl
  | round =>
    cases hreport
    rw [← hnumber "NUM" mem_cons_self]
    rfl
  | math =>
    cases hreport
    have hname := Block.arguments_field vs hdeclares (k := "OPERATOR") (by simp [Reporter.inputs])
      (by decide)
    rw [← hnumber "NUM" mem_cons_self, ← hname]
    rfl

end Call

/-! ## The interpreter -/

/-- Run in a frame of its own, the reporter hands the value to the frame that waits for it, and that
is all. -/
def HandsOver (kit : Kit σ) (sheet : Sheet) (m : Machine σ) (target : TargetId)
    (param : String → Option Value) (id : BlockId) (v : Value) : Prop :=
  ∀ (t : Thread) (warp : Bool) (g : Frame) (rest : List Frame) (name : String),
    t.Reads sheet target param (g :: rest) → g.waiting = some name →
      ∃ fuel₀ f, ∀ fuel, Turn.execute kit (fuel + fuel₀)
          (.of m t ({ block := some id, warp } :: g :: rest)) =
        some (.ok (), .of m t (f :: { g with reported := g.reported.insert name v } :: rest))

section Interpreter

open Exec

variable {kit : Kit σ} {sheet : Sheet} {m : Machine σ} {target : TargetId}
  {param : String → Option Value} {t : Thread} {f : Frame} {rest : List Frame} {b : Block}
  {vs : String → Value} {name : String} {names : List String} {reported : Table Value}
  {id : BlockId} {v : Value}

/-- An input is at hand: the frame holds it, or its reporter hands it over. -/
def Block.Ready (kit : Kit σ) (sheet : Sheet) (m : Machine σ) (target : TargetId)
    (param : String → Option Value) (b : Block) (vs : String → Value) (reported : Table Value)
    (name : String) : Prop :=
  isStackSlot name = false → (b.inputBlock? name = none → reported[name]? = none) ∧
    ∀ input, b.inputBlock? name = some input → reported[name]? = some (vs name) ∨
      reported[name]? = none ∧ HandsOver kit sheet m target param input (vs name)

theorem Block.ready_of_fresh (hfresh : reported[name]? = none)
    (h : isStackSlot name = false → ∀ input, b.inputBlock? name = some input →
      HandsOver kit sheet m target param input (vs name))
    : b.Ready kit sheet m target param vs reported name :=
  fun hslot => ⟨fun _ => hfresh, fun input hinput => .inr ⟨hfresh, h hslot input hinput⟩⟩

/-- Inputs that are at hand are taken one after the other. -/
theorem evalInputs_handed (hready : ∀ k ∈ names, b.Ready kit sheet m target param vs reported k)
    (hreads : t.Reads sheet target param (f :: rest)) (args : Args) (more : List String) :
    ∃ fuel₀ f', f'.bare = f.bare ∧
      ((∀ k : String, f.reported[k]? = none) → ∀ k : String, f'.reported[k]? = none) ∧
      ∀ fuel, Turn.evalInputs (Turn.execute kit (fuel + fuel₀)) b (rest.length + 1) reported args
          (names ++ more) (.of m t (f :: rest)) =
        Turn.evalInputs (Turn.execute kit (fuel + fuel₀)) b (rest.length + 1) reported
          (names.foldl (b.takeInput vs) args) more (.of m t (f' :: rest)) := by
  induction names generalizing args f with
  | nil => exact ⟨0, f, rfl, id, fun _ => rfl⟩
  | cons name names ih =>
    obtain ⟨hfirst, hrest⟩ := forall_mem_cons.mp hready
    rw [foldl_cons, Block.takeInput, cons_append]
    cases hslot : isStackSlot name with
    | true =>
      obtain ⟨fuel₀, f', hbare, hfresh, hrun⟩ := ih hrest hreads args
      exact ⟨fuel₀, f', hbare, hfresh,
        fun fuel => by rw [Turn.evalInputs_stack hslot]; exact hrun fuel⟩
    | false =>
      obtain ⟨hempty, hfilled⟩ := hfirst hslot
      cases hblock : b.inputBlock? name with
      | none =>
        obtain ⟨fuel₀, f', hbare, hfresh, hrun⟩ := ih hrest hreads args
        exact ⟨fuel₀, f', hbare, hfresh,
          fun fuel => by rw [Turn.evalInputs_empty hslot (hempty hblock) hblock]; exact hrun fuel⟩
      | some input =>
        rcases hfilled input hblock with hheld | ⟨hnone, hhands⟩
        · obtain ⟨fuel₀, f', hbare, hfresh, hrun⟩ := ih hrest hreads (args.insert name (vs name))
          exact ⟨fuel₀, f', hbare, hfresh,
            fun fuel => by rw [Turn.evalInputs_held hslot hheld]; exact hrun fuel⟩
        · have hwaiting : t.Reads sheet target param ({ f with waiting := some name } :: rest) :=
            hreads.replace rfl
          obtain ⟨fuel₁, f₁, hgo⟩ := hhands t f.warp _ rest name hwaiting rfl
          obtain ⟨fuel₂, f', hbare, hfresh, hrun⟩ := ih
            (f := { f with
              waiting := none, reported := (f.reported.insert name (vs name)).erase name })
            hrest (hreads.replace rfl) (args.insert name (vs name))
          refine ⟨fuel₂ + fuel₁, f', hbare, fun hf => hfresh fun k => ?_, fun fuel => ?_⟩
          · rw [Table.getElem?_erase, Table.getElem?_insert, hf k]
            by_cases hk : name = k <;> simp [hk]
          rw [← Nat.add_assoc, Turn.evalInputs_input hslot hnone hblock hreads.running (hgo _),
            Nat.add_right_comm]
          exact hrun (fuel + fuel₁)

/-- A block whose inputs are at hand is called with them. -/
theorem execute_handed {primitive : Primitive σ} (hreads : t.Reads sheet target param (f :: rest))
    (htarget : m.targets.contains t.target = true) (hblock : f.block = some id)
    (hb : t.sheet.block? id = some b) (hprimitive : kit.primitive? b.opcode = some primitive)
    (hready : ∀ k ∈ b.inputs.keys, b.Ready kit sheet m target param vs f.reported k) :
    ∃ fuel₀ f', f'.bare = f.bare ∧
      ∀ fuel, Turn.execute kit (fuel + fuel₀ + 1) (.of m t (f :: rest)) =
      (Turn.callBlock kit (Turn.execute kit (fuel + fuel₀)) (rest.length + 1) primitive
        (b.arguments vs)
        >>= Turn.takeReport kit.toCatalog b.id b.opcode) (.of m t (f' :: rest)) := by
  obtain ⟨fuel₀, f', hbare, -, hrun⟩ := evalInputs_handed (f := f.bare) hready
    (hreads.replace rfl) (.ofFields b.opcode b.mutation b.fields) []
  rw [append_nil] at hrun
  refine ⟨fuel₀, f', hbare, fun fuel => ?_⟩
  rw [Turn.execute_primitive (s := .of m t (f :: rest)) htarget hblock hb hprimitive, Turn.runBlock,
    getThread_andThen, onThread_andThen]
  exact andThen_ok (hrun fuel)

/-- A reporter whose inputs are there hands its value to the frame that waits for it. -/
theorem callBlock_reporter {g : Frame} (hdeclares : b.Declares r.inputs)
    (hempty : ∀ k ∈ r.inputs, b.inputBlock? k = none → vs k = .empty)
    (hreport : r.report m target param b vs = some v) (hhat : kit.isHat b.opcode = false)
    (hreads : t.Reads sheet target param (f :: g :: rest)) (hwaiting : g.waiting = some name) :
    (Turn.callBlock kit go (rest.length + 2) r.primitive (b.arguments vs)
        >>= Turn.takeReport kit.toCatalog b.id b.opcode) (.of m t (f :: g :: rest)) =
      some (.ok (), .of m t (f :: { g with reported := g.reported.insert name v } :: rest)) := by
  let c : Call σ := { Turn.of m t (f :: g :: rest) with scratch := f.scratch }
  have hparam : c.thread.param? = param := funext hreads.params
  have hreport' : r.report c.machine c.thread.target c.thread.param? b vs = some v := by
    rw [hparam]
    show r.report m t.target param b vs = some v
    rw [hreads.target, hreport]
  have hran : Call.run kit go .interpreted (r.primitive (b.arguments vs)) c =
      some (.ok (.value v), c) :=
    Call.run_reporter hdeclares hempty hreport'
  refine (andThen_ok (Turn.callBlock_ran [] hran rfl)).trans ?_
  exact Scene.takeReport_value hhat hwaiting

/-- **The interpreter hands over the value of a tree.** -/
theorem Means.handsOver (hkit : kit.Reporting) (hpresent : m.targets.contains target = true)
    (h : Means .typed kit.toCatalog sheet m target param id v) :
    HandsOver kit sheet m target param id v := by
  have hthere : ∀ {t : Thread} {stack : List Frame}, t.Reads sheet target param stack →
      m.targets.contains t.target = true := fun hreads => by rw [hreads.target, hpresent]
  induction h with
  | @field id b f v hb _ hprimitive hhat hfield hread =>
    obtain rfl : v = f.value := hread
    intro t warp g rest name hreads hwaiting
    have htarget := hthere hreads
    have hblock : t.sheet.block? id = some b := by rw [hreads.sheet, hb]
    have hexecute : ∀ fuel, Turn.execute kit (fuel + 1)
        (.of m t ({ block := some id, warp } :: g :: rest)) =
        Turn.runLiteral kit.toCatalog b (.of m t ({ block := some id, warp } :: g :: rest)) :=
      fun fuel => Turn.execute_literal htarget rfl hblock hprimitive
    refine ⟨1, { block := some id, warp }, fun fuel => ?_⟩
    rw [hexecute, Turn.runLiteral, if_neg (by simp [hhat]), hfield]
    exact Scene.report_waiting f.value hwaiting
  | @reporter id b r vs v hb _ hlowering hhat hdeclares hempty _ hreport ih =>
    intro t warp g rest name hreads hwaiting
    have hinner : t.Reads sheet target param ({ block := some id, warp } :: g :: rest) :=
      hreads.push rfl
    have hready : ∀ k ∈ b.inputs.keys, b.Ready kit sheet m target param vs ∅ k :=
      fun k hk => Block.ready_of_fresh Std.TreeMap.getElem?_emptyc fun hslot =>
        ih k (hdeclares.mem hk hslot)
    obtain ⟨fuel₀, f', hbare, hrun⟩ := execute_handed hinner (hthere hreads) rfl
      (by rw [hreads.sheet, hb]) (hkit _ _ hlowering) hready
    have hreads' : t.Reads sheet target param (f' :: g :: rest) :=
      hinner.replace (Scene.bare_params hbare)
    refine ⟨fuel₀ + 1, f', fun fuel => ?_⟩
    rw [← Nat.add_assoc, hrun fuel]
    exact callBlock_reporter hdeclares hempty hreport hhat hreads' hwaiting

end Interpreter

end BlockMachine

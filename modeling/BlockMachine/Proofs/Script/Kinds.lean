import BlockMachine.Library.Core
import BlockMachine.Proofs.Number.Pick
import BlockMachine.Proofs.Script.Operands

/-!
# What is known of compiled reporters

The kind of an operand is a claim about its value (`Kind.Admits`). It is kept by every reporter but
one: a random pick counts as a number other than NaN, and it is NaN where it strays. Rounding hands
this on, so an operand is of its kind just where no pick strays in it (`Operand.Tells`).

The module is about `Descent.compileReporter` and `Operand.kind`.

## Results

* `Operand.Tells`: what is kept by every reporter.
* `static_kind_admits_value`: the kind of a compiled reporter and its value.
* `pick_from_infinity_is_nan`: a random pick that strays.

Left out are expressions that end in an error, which have no value.
-/

namespace BlockMachine

open Option

variable {σ S : Type} {e : Expr}

/-- The kind tells the truth about a value. -/
def Kind.Admits : Kind → Value → Prop
  | .alwaysNumber, v => ∃ x : Float, v = .number x ∧ x.isNaN = false
  | .number, v => ∃ x, v = .number x
  | .text, v => ∃ s, v = .text s
  | .bool, v => ∃ b, v = .bool b
  | .dynamic, _ => True

theorem Operand.kindOf_admits (v : Value) : (kindOf v).Admits v := by
  cases v with
  | bool b => exact ⟨b, rfl⟩
  | text s => exact ⟨s, rfl⟩
  | number x =>
    show (if x.isNaN then Kind.number else .alwaysNumber).Admits (.number x)
    by_cases h : x.isNaN = true
    · rw [if_pos h]
      exact ⟨x, rfl⟩
    · rw [if_neg h]
      exact ⟨x, rfl, by simpa using h⟩

/-- A result that is a function of the result of one part. -/
theorem Exec.bind_pure_ok {α β : Type} {x : Exec S α} {f : α → β} {v : β} {s s' : S}
    (h : (x >>= fun a => pure (f a)) s = some (.ok v, s')) :
    ∃ a, x s = some (.ok a, s') ∧ v = f a := by
  obtain ⟨a, s₁, hx, h⟩ := bind_ok.mp h
  obtain ⟨hv, rfl⟩ := pure_some.mp h
  cases hv
  exact ⟨a, hx, rfl⟩

/-! ## Picks that stray -/

/-- The expression is a pick that strays, or such a pick rounded. -/
inductive Expr.Strays (env : Env (Exec S)) (s : S) : Expr → Prop
  | random {a b : Expr} {p q : Value} {d : Draw} {s₁ s₂ s₃ : S}
      (ha : a.eval env s = some (.ok p, s₁)) (hb : b.eval env s₁ = some (.ok q, s₂))
      (hd : env.draw s₂ = some (.ok d, s₃)) (h : Number.Strays p q d) : Strays env s (.random a b)
  | round {e : Expr} (h : Strays env s e) : Strays env s (.round e)

namespace Expr

open Exec

variable {env : Env (Exec S)} {s s' : S} {v : Value}

/-- Whether the expression is a pick or rounds one. -/
def mayStray : Expr → Bool
  | .random _ _ | .round _ => true
  | _ => false

theorem not_strays (h : e.mayStray = false) : ¬ e.Strays env s := by
  intro hstrays
  cases hstrays <;> cases h

theorem random_ok {a b : Expr} (h : (random a b).eval env s = some (.ok v, s')) :
    ∃ p q d s₁ s₂, a.eval env s = some (.ok p, s₁) ∧ b.eval env s₁ = some (.ok q, s₂) ∧
      env.draw s₂ = some (.ok d, s') ∧ v = .number (Number.pick p q d) := by
  obtain ⟨p, s₁, ha, h⟩ := bind_ok.mp h
  obtain ⟨q, s₂, hb, h⟩ := bind_ok.mp h
  obtain ⟨d, hd, rfl⟩ := bind_pure_ok h
  exact ⟨p, q, d, s₁, s₂, ha, hb, hd, rfl⟩

theorem Strays.isNaN (h : e.Strays env s) (he : e.eval env s = some (.ok v, s')) :
    ∃ x : Float, v = .number x ∧ x.isNaN = true := by
  induction h generalizing v with
  | random ha hb hd h =>
    obtain ⟨p', q', d', s₁', s₂', ha', hb', hd', rfl⟩ := random_ok he
    rw [ha] at ha'
    cases ha'
    rw [hb] at hb'
    cases hb'
    rw [hd] at hd'
    cases hd'
    exact ⟨_, rfl, (Number.isNaN_pick_iff _ _ _).mpr h⟩
  | round _ ih =>
    obtain ⟨w, hw, rfl⟩ := bind_pure_ok he
    obtain ⟨x, rfl, hx⟩ := ih hw
    exact ⟨_, rfl, Number.isNaN_roundHalfUp hx⟩

end Expr

/-- What is known of the operand is true of its value where no pick strays, and only what counts as
a number other than NaN strays. -/
structure Operand.Tells (env : Env (Exec S)) (o : Operand) : Prop where
  admits : ∀ {s s' v}, o.expr.eval env s = some (.ok v, s') → ¬ o.expr.Strays env s →
    o.kind.Admits v
  kind : ∀ {s}, o.expr.Strays env s → o.kind = .alwaysNumber

namespace Operand

open Exec

variable {env : Env (Exec S)} {o : Operand} {s s' : S} {v : Value} {e : Expr} {kind : Kind}

theorem tells_const (v : Value) : (const v).Tells env where
  admits h _ := by
    obtain ⟨hv, -⟩ := pure_some.mp h
    cases hv
    exact kindOf_admits _
  kind h := absurd h (Expr.not_strays rfl)

/-- An expression that is no pick has values of its kind. -/
theorem tells_of_admits (hexpr : e.mayStray = false)
    (h : ∀ {s s' v}, e.eval env s = some (.ok v, s') → kind.Admits v) :
    (Operand.mk e kind).Tells env where
  admits heval _ := h heval
  kind hstrays := absurd hstrays (Expr.not_strays hexpr)

theorem tells_dynamic (hexpr : e.mayStray = false) : (dynamic e).Tells env :=
  tells_of_admits hexpr fun _ => trivial

theorem Tells.folded (h : (Operand.mk e kind).Tells env) : (folded e kind).Tells env := by
  unfold Operand.folded
  split
  · split
    · exact tells_const _
    · exact h
  · exact h

/-- Cast to a number, an operand is NaN only where a pick strays. -/
theorem Tells.asNumber (h : o.Tells env) (heval : o.asNumber.eval env s = some (.ok v, s'))
    (hstrays : ¬ o.asNumber.Strays env s) : v.rawNumber.isNaN = false := by
  unfold Operand.asNumber castBy at heval hstrays
  cases hconst : o.expr.const? with
  | some u =>
    rw [hconst] at heval
    obtain ⟨hv, -⟩ := pure_some.mp heval
    cases hv
    exact Number.isNaN_zeroNaN _
  | none =>
    rw [hconst] at heval hstrays
    dsimp only at heval hstrays
    cases hkind : o.kind with
    | alwaysNumber =>
      rw [hkind] at heval hstrays
      obtain ⟨x, rfl, hx⟩ := hkind ▸ h.admits heval hstrays
      exact hx
    | number | text | bool | dynamic =>
      rw [hkind] at heval
      obtain ⟨w, -, rfl⟩ := bind_pure_ok heval
      exact Number.isNaN_zeroNaN _

end Operand

/-! ## Reporters -/

/-- The timer never reads NaN. -/
def Env.Timed (env : Env (Exec S)) : Prop :=
  ∀ {s s' x}, env.timer s = some (.ok x, s') → x.isNaN = false

namespace Reporter

open Exec Operand

variable {env : Env (Exec S)} {names : List String} {b : Block} {os : String → Operand}

theorem compared_tells (op : Comparison) (x y : Operand) : (compared op x y).Tells env := by
  unfold compared
  split
  all_goals
    refine .folded (tells_of_admits rfl fun heval => ?_)
    obtain ⟨_, _, -, heval⟩ := bind_ok.mp heval
    obtain ⟨_, -, rfl⟩ := bind_pure_ok heval
    exact ⟨_, rfl⟩

/-- Every reporter is of its kind where its inputs are. Only rounding looks at the kind of one. -/
theorem operand_tells (htimed : env.Timed) {r : Reporter}
    (h : ∀ name ∈ r.inputs, (os name).Tells env) : (r.operand names b os).Tells env := by
  cases r with
  | var | listItem => exact tells_dynamic rfl
  | listText =>
    refine tells_of_admits rfl fun heval => ?_
    obtain ⟨_, -, rfl⟩ := bind_pure_ok heval
    exact ⟨_, rfl⟩
  | listLength =>
    refine tells_of_admits rfl fun heval => ?_
    obtain ⟨_, -, rfl⟩ := bind_pure_ok heval
    exact ⟨_, rfl, Number.isCount_isNaN (Number.isCount_ofNat _)⟩
  | listPosition =>
    refine tells_of_admits rfl fun heval => ?_
    obtain ⟨_, _, -, heval⟩ := bind_ok.mp heval
    obtain ⟨_, -, rfl⟩ := bind_pure_ok heval
    exact ⟨_, rfl, Number.isCount_isNaN (Number.isCount_ofNat _)⟩
  | listContains =>
    refine tells_of_admits rfl fun heval => ?_
    obtain ⟨_, _, -, heval⟩ := bind_ok.mp heval
    obtain ⟨_, -, rfl⟩ := bind_pure_ok heval
    exact ⟨_, rfl⟩
  | timer =>
    refine tells_of_admits rfl fun heval => ?_
    obtain ⟨x, htimer, rfl⟩ := bind_pure_ok heval
    exact ⟨x, rfl, htimed htimer⟩
  | argument default =>
    simp only [operand]
    split
    · exact tells_dynamic rfl
    · exact tells_const _
  | compare op => exact compared_tells op _ _
  | arithmetic op | join | letter | includes =>
    refine .folded (tells_of_admits rfl fun heval => ?_)
    obtain ⟨_, _, -, heval⟩ := bind_ok.mp heval
    obtain ⟨_, -, rfl⟩ := bind_pure_ok heval
    exact ⟨_, rfl⟩
  | and =>
    refine .folded (tells_of_admits rfl fun heval => ?_)
    obtain ⟨_, _, -, heval⟩ := bind_ok.mp heval
    split at heval
    · obtain ⟨_, -, rfl⟩ := bind_pure_ok heval
      exact ⟨_, rfl⟩
    · obtain ⟨hv, -⟩ := pure_some.mp heval
      cases hv
      exact ⟨_, rfl⟩
  | or =>
    refine .folded (tells_of_admits rfl fun heval => ?_)
    obtain ⟨_, _, -, heval⟩ := bind_ok.mp heval
    split at heval
    · obtain ⟨hv, -⟩ := pure_some.mp heval
      cases hv
      exact ⟨_, rfl⟩
    · obtain ⟨_, -, rfl⟩ := bind_pure_ok heval
      exact ⟨_, rfl⟩
  | not =>
    refine .folded (tells_of_admits rfl fun heval => ?_)
    obtain ⟨_, -, rfl⟩ := bind_pure_ok heval
    exact ⟨_, rfl⟩
  | length =>
    refine .folded (tells_of_admits rfl fun heval => ?_)
    obtain ⟨_, -, rfl⟩ := bind_pure_ok heval
    exact ⟨_, rfl, Number.isCount_isNaN (Number.isCount_ofNat _)⟩
  | math =>
    simp only [operand]
    split
    · refine .folded (tells_of_admits rfl fun heval => ?_)
      obtain ⟨_, -, rfl⟩ := bind_pure_ok heval
      exact ⟨_, rfl⟩
    · exact tells_const _
  | random =>
    refine ⟨fun heval hstrays => ?_, fun _ => rfl⟩
    obtain ⟨p, q, d, s₁, s₂, ha, hb, hd, rfl⟩ := Expr.random_ok heval
    refine ⟨_, rfl, ?_⟩
    have hno : ¬ Number.Strays p q d := fun h => hstrays (.random ha hb hd h)
    simpa using mt (Number.isNaN_pick_iff p q d).mp hno
  | round =>
    refine .folded ⟨fun heval hstrays => ?_, fun _ => rfl⟩
    obtain ⟨w, hw, rfl⟩ := bind_pure_ok heval
    have hnumber := (h "NUM" List.mem_cons_self).asNumber hw fun h => hstrays (.round h)
    exact ⟨_, rfl, Number.isCount_isNaN (Number.isCount_roundHalfUp hnumber)⟩

end Reporter

/-! ## Compiled reporters -/

section

open Compile

variable {env : Env (Exec S)} {ctx : Context σ} {d : Descent σ} {b : Block} {st st' : Draft}
  {code : Code} {o : Operand}

/-- The descent compiles reporters to operands that are of their kinds. -/
def Descent.Tells (d : Descent σ) (env : Env (Exec S)) : Prop :=
  ∀ {ctx b st code o st'}, d.reporter ctx b st = .ok ((code, o), st') → o.Tells env

theorem Context.input_tells (hd : d.Tells env) {name : String}
    (h : ctx.input d b name st = .ok ((code, o), st')) : o.Tells env := by
  unfold Context.input at h
  cases hinput : b.inputBlock? name with
  | none =>
    rw [hinput] at h
    obtain ⟨heq, -⟩ := pure_ok.mp h
    cases heq
    exact Operand.tells_const _
  | some input =>
    rw [hinput] at h
    obtain ⟨_, _, -, h⟩ := bind_ok.mp h
    exact hd h

theorem Context.Takes.tells (hd : d.Tells env) {os : String → Operand} {inputs : List String}
    (h : ctx.Takes d b os inputs st code st') : ∀ name ∈ inputs, (os name).Tells env := by
  induction h with
  | nil => exact fun _ h => absurd h List.not_mem_nil
  | cons hinput _ ih => exact List.forall_mem_cons.mpr ⟨ctx.input_tells hd hinput, ih⟩

theorem Context.reporterWith_tells (htimed : env.Timed) (hd : d.Tells env)
    (h : ctx.reporterWith d b st = .ok ((code, o), st')) : o.Tells env := by
  unfold Context.reporterWith at h
  cases hliteral : Context.literal? b with
  | some v =>
    simp only [hliteral] at h
    obtain ⟨heq, -⟩ := pure_ok.mp h
    cases heq
    exact Operand.tells_const _
  | none =>
    simp only [hliteral] at h
    cases hlowering : ctx.catalog.lowering? b.opcode with
    | some l =>
      simp only [hlowering] at h
      cases l with
      | reporter r =>
        obtain ⟨os, htakes, rfl⟩ := Reporter.lower_ok h
        exact Reporter.operand_tells htimed (htakes.tells hd)
      | statement => exact (fail_ok.mp h).elim
    | none =>
      simp only [hlowering] at h
      split at h
      · obtain ⟨slot, _, -, h⟩ := bind_ok.mp h
        obtain ⟨_, _, -, h⟩ := bind_ok.mp h
        obtain ⟨heq, -⟩ := pure_ok.mp h
        cases heq
        exact Operand.tells_dynamic rfl
      · cases hfield : b.soleField? with
        | none =>
          rw [hfield] at h
          exact (fail_ok.mp h).elim
        | some f =>
          rw [hfield] at h
          obtain ⟨heq, -⟩ := pure_ok.mp h
          cases heq
          exact Operand.tells_const _

theorem Descent.ofDepth_tells (htimed : env.Timed) (depth : Nat) :
    (Descent.ofDepth depth : Descent σ).Tells env := by
  induction depth with
  | zero =>
    intro ctx b st code o st' h
    exact (fail_ok.mp h).elim
  | succ depth ih =>
    intro ctx b st code o st' h
    exact ctx.reporterWith_tells htimed ih h

end

/-- The environment of a turn that draws from another source. -/
def Turn.envOf (draw : Exec (Turn σ) Draw) : Env (Exec (Turn σ)) :=
  { Turn.env with draw }

theorem Turn.envOf_timed (draw : Exec (Turn σ) Draw) : (Turn.envOf draw).Timed := by
  intro s s' x h
  obtain ⟨r, -, rfl⟩ := Exec.bind_pure_ok h
  cases r.value? with
  | none => rfl
  | some v => exact Number.isNaN_zeroNaN _

/-- Whatever is drawn, the value of a compiled reporter is of the kind that is known of it, unless a
random pick strays in it: then it is a NaN that is taken for a number. -/
theorem static_kind_admits_value {ctx : Context σ} {depth : Nat} {b : Block} {st st' : Draft}
    {code : Code} {o : Operand} (h : Descent.compileReporter depth ctx b st = .ok ((code, o), st'))
    (draw : Exec (Turn σ) Draw) {s s' : Turn σ} {v : Value}
    (heval : o.expr.eval (Turn.envOf draw) s = some (.ok v, s')) :
    (o.kind.Admits v ↔ ¬ o.expr.Strays (Turn.envOf draw) s) ∧
      (o.kind ≠ .alwaysNumber → o.kind.Admits v) := by
  have htells : o.Tells (Turn.envOf draw) :=
    Descent.ofDepth_tells (Turn.envOf_timed draw) depth h
  refine ⟨⟨fun hadmits hstrays => ?_, htells.admits heval⟩, fun hkind => ?_⟩
  · rw [htells.kind hstrays] at hadmits
    obtain ⟨x, rfl, hx⟩ := hadmits
    obtain ⟨_, hv, hnan⟩ := hstrays.isNaN heval
    cases hv
    rw [hx] at hnan
    cases hnan
  · exact htells.admits heval fun hstrays => hkind (htells.kind hstrays)

/-! ## A pick and its rounding -/

/-- A pick between the numbers of two fields, and the block that rounds it. -/
def Sheet.between (low high : Value) : Sheet :=
  .ofBlocks [
    { id := "round", opcode := "operator_round",
      inputs := Table.of [("NUM", { block := some "pick" })] },
    { id := "pick", opcode := "operator_random",
      inputs := Table.of [("FROM", { block := some "low" }), ("TO", { block := some "high" })] },
    { id := "low", opcode := "math_number", fields := Table.of [("NUM", { value := low })] },
    { id := "high", opcode := "math_number", fields := Table.of [("NUM", { value := high })] }]

/-- The operand that a block of the sheet is compiled to, and what it reads when that is drawn. -/
def Sheet.reads (sheet : Sheet) (id : BlockId) (drawn : Draw) : Option (Operand × Value) := do
  let b ← sheet.block? id
  let ctx : Context Unit := { catalog := Library.core, sheet }
  let ((_, o), _) ← (Descent.compileReporter 3 ctx b {}).toOption
  let (r, _) ← o.expr.eval (Turn.envOf (pure drawn)) ⟨{ host := () }, .start 0 0 id sheet⟩
  return (o, ← r.toOption)

/-- From an infinite bound there is no way to go, so the pick is NaN and so is its rounding, and
both count as numbers other than NaN. -/
theorem pick_from_infinity_is_nan :
    ["pick", "round"].map (fun id =>
      ((Sheet.between (.text "-Infinity") (.text "0")).reads id 1).map fun (o, v) =>
        (o.kind, v.isNumber, v.toText)) =
    [some (.alwaysNumber, true, "NaN"), some (.alwaysNumber, true, "NaN")] := by
  decide +kernel

theorem Sheet.reads_some {sheet : Sheet} {id : BlockId} {drawn : Draw} {o : Operand} {v : Value}
    (h : sheet.reads id drawn = some (o, v)) :
    ∃ b code st' s', sheet.block? id = some b ∧
      Descent.compileReporter 3 ({ catalog := Library.core, sheet } : Context Unit) b {} =
        .ok ((code, o), st') ∧
      o.expr.eval (Turn.envOf (pure drawn)) ⟨{ host := () }, .start 0 0 id sheet⟩ =
        some (.ok v, s') := by
  obtain ⟨b, hb, h⟩ := bind_eq_some_iff.mp h
  obtain ⟨⟨⟨code, o'⟩, st'⟩, hcompile, h⟩ := bind_eq_some_iff.mp h
  obtain ⟨⟨r, s'⟩, heval, h⟩ := bind_eq_some_iff.mp h
  obtain ⟨v', hv, h⟩ := bind_eq_some_iff.mp h
  cases h
  cases r with
  | error e => cases hv
  | ok w =>
    cases hv
    refine ⟨b, code, st', s', hb, ?_, heval⟩
    revert hcompile
    cases Descent.compileReporter 3 ({ catalog := Library.core, sheet } : Context Unit) b {} with
    | error e => exact nofun
    | ok r => exact fun h => congrArg _ (Option.some.inj h)

/-- The rounding of a pick between whole numbers is known to be a number, and it is one. -/
theorem rounded_pick_admits :
    ∃ (o : Operand) (v : Value),
      (Sheet.between (.text "1") (.text "3")).reads "round" 1073741824 = some (o, v) ∧
      o.kind = .alwaysNumber ∧ v.toText = "2" ∧
      ¬ o.expr.Strays (Turn.envOf (pure 1073741824))
        ⟨{ host := () }, .start 0 0 "round" (.between (.text "1") (.text "3"))⟩ := by
  have hreads : ((Sheet.between (.text "1") (.text "3")).reads "round" 1073741824).any
    (fun (o, v) =>
      o.kind == .alwaysNumber && v.isNumber && !v.rawNumber.isNaN && v.toText == "2") = true := by
    decide +kernel
  obtain ⟨⟨o, v⟩, hread, hfacts⟩ := (Option.any_eq_true _ _).mp hreads
  simp only [Bool.and_eq_true, beq_iff_eq, Bool.not_eq_true'] at hfacts
  obtain ⟨⟨⟨hkind, hnumber⟩, hnan⟩, htext⟩ := hfacts
  obtain ⟨b, code, st', s', -, hcompile, heval⟩ := Sheet.reads_some hread
  refine ⟨o, v, hread, hkind, htext, ((static_kind_admits_value hcompile _ heval).1).mp ?_⟩
  rw [hkind]
  cases v with
  | number x => exact ⟨x, rfl, hnan⟩
  | bool b | text s => cases hnumber

end BlockMachine

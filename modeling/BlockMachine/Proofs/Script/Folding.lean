import BlockMachine.Proofs.Script.Kinds

/-!
# Folding and casts

An expression that reads nothing has one value in all environments (`Expr.eval_foldable`), so it may
be evaluated when a script is compiled. A cast that is left out because of the kind of an operand
would have changed nothing (`Operand.Ends.asNumber` and the others).

The module is about `Expr.eval`, `Operand.folded` and the casts of an operand.

## Results

* `Expr.eval_foldable`: an expression that reads nothing.
* `folding_keeps_values`: folding and all four casts, in any environment.

Left out is whether the kind of an operand is true of its value: see `Proofs/Script/Kinds.lean`.
-/

namespace BlockMachine

/-- A foldable expression has one value in all environments. -/
theorem Expr.eval_foldable {e : Expr} (h : e.isFoldable = true) :
    ∃ v, ∀ {m : Type → Type} [Monad m] [LawfulMonad m] (env : Env m), e.eval env = pure v := by
  induction e with
  | const v => exact ⟨v, fun _ => rfl⟩
  | slot | argument | var | listText | listItem | listLength | listContains | listPosition | random
  | timer => cases h
  | toNumber e ih | rawNumber e ih | zeroNaN e ih | toText e ih | toBool e ih | not e ih
  | length e ih
  | round e ih | math f e ih =>
    obtain ⟨v, hv⟩ := ih h
    exact ⟨_, fun env => by rw [eval, hv, pure_bind]⟩
  | arithmetic op a b iha ihb | compare op a b iha ihb | compareNumbers op a b iha ihb
  | join a b iha ihb | letter a b iha ihb | includes a b iha ihb =>
    obtain ⟨ha, hb⟩ := Bool.and_eq_true_iff.mp h
    obtain ⟨v, hv⟩ := iha ha
    obtain ⟨w, hw⟩ := ihb hb
    exact ⟨_, fun env => by rw [eval, hv, pure_bind, hw, pure_bind]⟩
  | and a b iha ihb =>
    obtain ⟨ha, hb⟩ := Bool.and_eq_true_iff.mp h
    obtain ⟨v, hv⟩ := iha ha
    obtain ⟨w, hw⟩ := ihb hb
    refine ⟨.bool (v.toBool && w.toBool), fun env => ?_⟩
    rw [eval, hv, pure_bind, hw, pure_bind]
    cases v.toBool <;> rfl
  | or a b iha ihb =>
    obtain ⟨ha, hb⟩ := Bool.and_eq_true_iff.mp h
    obtain ⟨v, hv⟩ := iha ha
    obtain ⟨w, hw⟩ := ihb hb
    refine ⟨.bool (v.toBool || w.toBool), fun env => ?_⟩
    rw [eval, hv, pure_bind, hw, pure_bind]
    cases v.toBool <;> rfl

namespace Operand

variable {m : Type → Type} [Monad m]

/-- A relation that says which value a computation ends with. -/
structure Ends (R : m Value → Value → Prop) : Prop where
  map {x : m Value} {v : Value} (f : Value → Value) : R x v → R (x >>= fun a => pure (f a)) (f v)
  pure_eq {u v : Value} : R (pure u) v → u = v

variable [LawfulMonad m] {R : m Value → Value → Prop} {env : Env m} {o : Operand} {v : Value}

theorem eval_folded (e : Expr) (kind : Kind) (env : Env m) :
    (folded e kind).expr.eval env = e.eval env := by
  unfold folded
  split
  · next hfold =>
    obtain ⟨w, hw⟩ := Expr.eval_foldable (Bool.and_eq_true_iff.mp hfold).1
    rw [hw Env.constant, hw env]
    rfl
  · rfl

namespace Ends

theorem folded_admits {e : Expr} {kind : Kind} (hR : Ends R) (h : R (e.eval env) v)
    (hkind : kind.Admits v) :
    (folded e kind).kind.Admits v := by
  unfold folded
  split
  · next hfold =>
    obtain ⟨w, hw⟩ := Expr.eval_foldable (Bool.and_eq_true_iff.mp hfold).1
    rw [hw env] at h
    obtain rfl := hR.pure_eq h
    rw [hw Env.constant]
    exact kindOf_admits w
  · exact hkind

/-- A constant is cast when it is compiled, and all else when it is read. -/
theorem castBy {now : Value → Value} {later : Kind → Expr → Expr} (hR : Ends R)
    (h : R (o.expr.eval env) v) (hlater : R ((later o.kind o.expr).eval env) (now v)) :
    R ((o.castBy now later).eval env) (now v) := by
  unfold Operand.castBy
  cases hconst : o.expr.const? with
  | some u =>
    rw [const?_some hconst] at h
    have hcast := hR.map now h
    rwa [Expr.eval, pure_bind] at hcast
  | none => exact hlater

theorem asNumber (hR : Ends R) (h : R (o.expr.eval env) v) (hkind : o.kind.Admits v) :
    R (o.asNumber.eval env) (.number v.toNumber) := by
  refine hR.castBy h ?_
  cases hk : o.kind with
  | alwaysNumber =>
    rw [hk] at hkind
    obtain ⟨x, rfl, hx⟩ := hkind
    have hcount : (Value.number x).toNumber = x :=
      if_neg (by rw [Value.rawNumber, hx]; exact Bool.false_ne_true)
    rw [hcount]
    exact h
  | number | text | bool | dynamic => exact hR.map _ h

theorem asRawNumber (hR : Ends R) (h : R (o.expr.eval env) v) (hkind : o.kind.Admits v) :
    R (o.asRawNumber.eval env) (.number v.rawNumber) := by
  refine hR.castBy h ?_
  cases hk : o.kind with
  | alwaysNumber =>
    rw [hk] at hkind
    obtain ⟨x, rfl, -⟩ := hkind
    exact h
  | number =>
    rw [hk] at hkind
    obtain ⟨x, rfl⟩ := hkind
    exact h
  | text | bool | dynamic => exact hR.map _ h

theorem asText (hR : Ends R) (h : R (o.expr.eval env) v) (hkind : o.kind.Admits v) :
    R (o.asText.eval env) (.text v.toText) := by
  refine hR.castBy h ?_
  cases hk : o.kind with
  | text =>
    rw [hk] at hkind
    obtain ⟨x, rfl⟩ := hkind
    exact h
  | alwaysNumber | number | bool | dynamic => exact hR.map _ h

theorem asBool (hR : Ends R) (h : R (o.expr.eval env) v) (hkind : o.kind.Admits v) :
    R (o.asBool.eval env) (.bool v.toBool) := by
  refine hR.castBy h ?_
  cases hk : o.kind with
  | bool =>
    rw [hk] at hkind
    obtain ⟨x, rfl⟩ := hkind
    exact h
  | alwaysNumber | number | text | dynamic => exact hR.map _ h

end Ends

/-- **Folding and leaving out casts keep values.** A foldable expression has one value in all
environments, the constant one included, and changes none of them. In every environment an operand
ends as its expression did before folding, and with a kind that is true of the value its casts give
the casts of the value. -/
theorem folding_keeps_values {S : Type} (e : Expr) (kind : Kind) (env : Env (Exec S)) :
    (e.isFoldable = true → ∃ v, e.eval Env.constant = .ok v ∧
        ∀ {S : Type} (env : Env (Exec S)), e.eval env = pure v) ∧
      (folded e kind).expr.eval env = e.eval env ∧
      ∀ {s s' v}, e.eval env s = some (.ok v, s') → kind.Admits v →
        (folded e kind).asNumber.eval env s = some (.ok (.number v.toNumber), s') ∧
        (folded e kind).asRawNumber.eval env s = some (.ok (.number v.rawNumber), s') ∧
        (folded e kind).asText.eval env s = some (.ok (.text v.toText), s') ∧
        (folded e kind).asBool.eval env s = some (.ok (.bool v.toBool), s') := by
  refine ⟨fun h => ?_, eval_folded e kind env, fun {s s' v} h hkind => ?_⟩
  · obtain ⟨v, hv⟩ := Expr.eval_foldable h
    exact ⟨v, hv Env.constant, fun env => hv env⟩
  · have hends : Ends fun (x : Exec S Value) v => x s = some (.ok v, s') :=
      { map := fun f h => Exec.bind_ok.mpr ⟨_, _, h, rfl⟩
        pure_eq := fun h => by
          cases h
          rfl }
    have hvalue : (folded e kind).expr.eval env s = some (.ok v, s') := by rw [eval_folded, h]
    have hadmits := hends.folded_admits h hkind
    exact ⟨hends.asNumber hvalue hadmits, hends.asRawNumber hvalue hadmits,
      hends.asText hvalue hadmits, hends.asBool hvalue hadmits⟩

end Operand
end BlockMachine

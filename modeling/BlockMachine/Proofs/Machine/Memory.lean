import BlockMachine.Proofs.Machine.Aside
import BlockMachine.Proofs.Table

/-!
# The memory of a machine

Where a reference finds its variable and what a change of one variable leaves of the others. On a
machine in order (`Machine.Ready`) every variable is kept under its id, so what a reference finds is
there (`Machine.Ready.found`).
-/

namespace BlockMachine

open Option

variable {σ : Type} {α β : Type} {m m' : Machine σ} {isList : Bool} {ref : VarRef} {p : Place}

namespace Machine

variable {target : TargetId}

/-- The target is there, and every variable is kept under its id. -/
structure Ready (m : Machine σ) (target : TargetId) : Prop where
  present : m.targets.contains target = true
  keyed : ∀ {p v}, m.variableAt? p = some v → v.id = p.id

/-! ## Finding variables -/

theorem variableAt?_eq (m : Machine σ) (p : Place) :
    m.variableAt? p = m.targets[p.owner]?.bind (·.vars[p.id]?) := rfl

theorem placeById?_eq (m : Machine σ) (ref : VarRef) (owner : TargetId) :
    m.placeById? ref owner =
      if (m.variableAt? ⟨owner, ref.id⟩).isSome then some ⟨owner, ref.id⟩ else none := by
  unfold placeById?
  rw [variableAt?_eq]
  cases m.targets[owner]? with
  | none => rfl
  | some t =>
    show (if t.vars.contains ref.id = true then _ else _) = if t.vars[ref.id]?.isSome = true then _
      else _
    rw [Std.TreeMap.isSome_getElem?_eq_contains]

theorem placeByName?_eq (m : Machine σ) (ref : VarRef) (isList : Bool) (owner : TargetId) :
    m.placeByName? ref isList owner = m.targets[owner]?.bind fun t =>
      (t.vars.values.find? fun v => v.name == ref.name && v.isList == isList).map
        fun v => ⟨owner, v.id⟩ := by
  unfold placeByName?
  cases m.targets[owner]? with
  | none => rfl
  | some t =>
    show (t.vars.values.find? _).bind _ = (t.vars.values.find? _).map _
    cases t.vars.values.find? _ <;> rfl

/-- What a reference finds is kept under its id. -/
theorem Ready.found (h : m.Ready target) (hp : m.place? target ref isList = some p) :
    ∃ v, m.variableAt? p = some v := by
  refine isSome_iff_exists.mp ?_
  unfold place? at hp
  dsimp only at hp
  cases hid : (m.owners target).findSome? (m.placeById? ref) with
  | some q =>
    rw [hid] at hp
    cases hp
    obtain ⟨owner, -, howner⟩ := List.exists_of_findSome?_eq_some hid
    rw [placeById?_eq] at howner
    split at howner
    · next hsome =>
      cases howner
      exact hsome
    · cases howner
  | none =>
    rw [hid] at hp
    obtain ⟨owner, -, howner⟩ := List.exists_of_findSome?_eq_some hp
    rw [placeByName?_eq] at howner
    obtain ⟨t, ht, howner⟩ := bind_eq_some_iff.mp howner
    obtain ⟨v, hv, rfl⟩ := map_eq_some_iff.mp howner
    have hmem := List.mem_of_find?_eq_some hv
    rw [Table.values_eq] at hmem
    obtain ⟨⟨k, v'⟩, hentry, rfl⟩ := List.mem_map.mp hmem
    have hk := Std.TreeMap.mem_toList_iff_getElem?_eq_some.mp hentry
    have hat : m.variableAt? ⟨owner, k⟩ = some v' := by
      rw [variableAt?_eq, ht]
      exact hk
    rw [h.keyed hat, hat]
    rfl

/-! ## Changing variables -/

theorem getElem?_onTarget (m : Machine σ) (target id : TargetId) (f : Target → Target) :
    (m.onTarget target f).targets[id]? =
      if target = id then m.targets[id]?.map f else m.targets[id]? := by
  unfold onTarget
  rw [Std.TreeMap.getElem?_modify]
  by_cases h : target = id
  · simp [h]
  · rw [if_neg (by rwa [Std.compare_eq_iff_eq]), if_neg h]

theorem contains_onTarget (m : Machine σ) (target id : TargetId) (f : Target → Target) :
    (m.onTarget target f).targets.contains id = m.targets.contains id := by
  rw [Std.TreeMap.contains_eq_isSome_getElem?, Std.TreeMap.contains_eq_isSome_getElem?,
    getElem?_onTarget]
  split
  · rw [isSome_map]
  · rfl

/-- What is found after a variable was put into the table of a target. -/
theorem variableAt?_onTarget {k : String} {f : Target → Target} {v : Target → Variable}
    (hf : ∀ t, (f t).vars = t.vars.insert k (v t)) (p : Place) :
    (m.onTarget target f).variableAt? p =
      if p = ⟨target, k⟩ then m.targets[target]?.map v else m.variableAt? p := by
  obtain ⟨owner, id⟩ := p
  rw [variableAt?_eq, variableAt?_eq, getElem?_onTarget]
  by_cases howner : target = owner
  · subst howner
    rw [if_pos rfl, Option.bind_map]
    cases m.targets[target]? with
    | none => simp
    | some t =>
      simp only [Option.bind_some, Function.comp_apply, map_some, Place.mk.injEq, true_and, hf,
        Table.getElem?_insert, eq_comm]
  · rw [if_neg howner, if_neg fun h => howner (Place.mk.inj h).1.symm]

theorem variableAt?_store (m : Machine σ) (p q : Place) (v : Variable) :
    (m.store p v).variableAt? q =
      if q = p then m.targets[p.owner]?.map (fun _ => v) else m.variableAt? q :=
  variableAt?_onTarget (fun _ => rfl) q

theorem variableAt?_addVariable (m : Machine σ) (target : TargetId) (v : Variable) (p : Place) :
    (m.onTarget target (·.addVariable v)).variableAt? p =
      if p = ⟨target, v.id⟩ then
        m.targets[target]?.map fun _ => { v with isLocal := !m.isStage target }
      else m.variableAt? p := by
  rw [variableAt?_onTarget (k := v.id) (fun _ => rfl)]
  split
  · unfold isStage
    cases m.targets[target]? <;> rfl
  · rfl

theorem Ready.addVariable (h : m.Ready target) (v : Variable) :
    (m.onTarget target (·.addVariable v)).Ready target where
  present := by
    rw [contains_onTarget]
    exact h.present
  keyed {q w} hw := by
    rw [variableAt?_addVariable] at hw
    split at hw
    · next heq =>
      obtain ⟨t, -, rfl⟩ := map_eq_some_iff.mp hw
      rw [heq]
    · exact h.keyed hw

end Machine

/-! ## Services -/

namespace Service

theorem bind_ok {x : Service σ α} {f : α → Service σ β} {a : α} (h : x m = (.ok a, m')) :
    (x >>= f) m = f a m' := by
  show ExceptT.bindCont f (x m).1 (x m).2 = _
  rw [h]
  rfl

end Service

namespace Machine

open Service

variable {target : TargetId}

theorem resolve_eq (m : Machine σ) (target : TargetId) (ref : VarRef) (isList : Bool) :
    (resolve target ref isList : Service σ Place) m =
      match m.place? target ref isList with
      | some p => (.ok p, m)
      | none =>
        if m.targets.contains target then
          (.ok ⟨target, ref.id⟩, m.onTarget target (·.addVariable (fresh ref isList)))
        else (.error (.missingTarget target), m) := by
  show (match m.place? target ref isList with
    | some p => pure p
    | none =>
      if m.targets.contains target then do
        set (m.onTarget target (·.addVariable (fresh ref isList)))
        return ⟨target, ref.id⟩
      else throw (.missingTarget target) : Service σ Place) m = _
  cases m.place? target ref isList with
  | some p => rfl
  | none => cases m.targets.contains target <;> rfl

theorem fresh_id (ref : VarRef) (isList : Bool) : (fresh ref isList).id = ref.id := by
  unfold fresh
  split <;> rfl

theorem lookUp_eq {v : Variable} (h : resolve target ref isList m = (.ok p, m'))
    (hv : m'.variableAt? p = some v) : lookUp target ref isList m = (.ok (p, v), m') := by
  unfold lookUp
  rw [bind_ok h, Service.get_andThen, hv]
  rfl

theorem edit_id (v : Variable) (limit : Nat) (d : Draw) (e : ListEdit) :
    (v.edit limit d e).id = v.id := by
  cases e <;> simp only [Variable.edit] <;> repeat' split
  all_goals
    simp only [Variable.pushItem, Variable.deleteItem, Variable.deleteAllItems, Variable.insertItem,
      Variable.replaceItem]
  all_goals repeat' split
  all_goals rfl

end Machine
end BlockMachine

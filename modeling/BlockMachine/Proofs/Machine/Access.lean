import BlockMachine.Proofs.Machine.Memory

/-!
# What services do to variables

On behalf of a target a service creates a variable that a reference does not find, stores a value or
edits a list where a reference finds it, and changes no other variable. A relation between machines
that holds along each of these (`Machine.Reads`, `Machine.Writes`) holds along the service.
-/

namespace BlockMachine

variable {σ α : Type} {isList : Bool} {v : Variable}

theorem Service.bind_error {β : Type} {x : Service σ α} {f : α → Service σ β} {m m' : Machine σ}
    {e : BlockError} (h : x m = (.error e, m')) : (x >>= f) m = (.error e, m') := by
  show ExceptT.bindCont f (x m).1 (x m).2 = _
  rw [h]
  rfl

namespace Machine

variable {m m' : Machine σ} {R : Machine σ → Machine σ → Prop} {target : TargetId} {ref : VarRef}

theorem Rest.place? (h : m.Rest m') (target : TargetId) (ref : VarRef) (isList : Bool) :
    m'.place? target ref isList = m.place? target ref isList := by
  unfold Machine.place? owners placeById? placeByName?
  rw [h.same, h.stage]

theorem Rest.variableAt? (h : m.Rest m') (p : Place) : m'.variableAt? p = m.variableAt? p := by
  unfold Machine.variableAt?
  rw [h.same]

theorem rest_draw (m : Machine σ) : m.Rest m.draw.2 := by
  unfold draw
  cases m.dice.roll
  exact .of_rest

theorem Asked.rest (h : m.Asked m') : m.Rest m' := by
  obtain ⟨_, _, _, rfl⟩ := h
  exact .of_rest

/-- The machine on which a reference that found nothing has created its variable. -/
def created (m : Machine σ) (target : TargetId) (ref : VarRef) (isList : Bool) : Machine σ :=
  m.onTarget target (·.addVariable (fresh ref isList))

theorem variableAt?_created (hpresent : m.targets.contains target = true) (ref : VarRef)
    (isList : Bool) :
    (m.created target ref isList).variableAt? ⟨target, ref.id⟩ =
      some { fresh ref isList with isLocal := !m.isStage target } := by
  rw [Std.TreeMap.contains_eq_isSome_getElem?] at hpresent
  obtain ⟨t, ht⟩ := Option.isSome_iff_exists.mp hpresent
  rw [created, variableAt?_addVariable, if_pos (by rw [fresh_id]), ht]
  rfl

/-- A reference finds the variable of the target with its id first of all. -/
theorem place?_own (hv : m.variableAt? ⟨target, ref.id⟩ = some v) (isList : Bool) :
    m.place? target ref isList = some ⟨target, ref.id⟩ := by
  have hid : m.placeById? ref target = some ⟨target, ref.id⟩ := by
    rw [placeById?_eq, hv]
    rfl
  unfold place? owners
  dsimp only
  rw [List.findSome?_cons, hid]
  rfl

/-- What a reference creates it finds. -/
theorem place?_created (hpresent : m.targets.contains target = true) (ref : VarRef)
    (isList : Bool) :
    (m.created target ref isList).place? target ref isList = some ⟨target, ref.id⟩ :=
  place?_own (variableAt?_created hpresent ref isList) isList

/-- The relation holds along what reading variables on behalf of a target may do. -/
structure Reads (target : TargetId) (R : Machine σ → Machine σ → Prop) : Prop where
  rest : ∀ {m m'}, m.Rest m' → R m m'
  create : ∀ {m ref isList}, m.place? target ref isList = none → m.targets.contains target = true →
    R m (m.created target ref isList)

/-- The relation holds along what writing through a reference of a target may do. -/
structure Writes (target : TargetId) (ref : VarRef) (R : Machine σ → Machine σ → Prop) : Prop where
  assign : ∀ {m p v} value, m.place? target ref false = some p → m.variableAt? p = some v →
    R m (m.store p (v.set value))
  edit : ∀ {m p v} d e, m.place? target ref true = some p → m.variableAt? p = some v →
    R m (m.store p (v.edit m.settings.listItemLimit d e))

/-- The relation holds along all that is done to variables. -/
structure Lenient (R : Machine σ → Machine σ → Prop) : Prop where
  reads : ∀ target, Reads target R
  writes : ∀ target ref, Writes target ref R

/-- A relation that does not depend on variables holds along all that is done to them. -/
theorem Lenient.of_still (hstill : ∀ {m m' : Machine σ}, m.Still m' → R m m') : Lenient R where
  reads target :=
    { rest := fun h => hstill h.toStill
      create := fun {m ref isList} _ _ => hstill (aside_onTarget m target fun t => by
        show (t.addVariable (fresh ref isList)).bare = t.bare
        rfl).toStill }
  writes _ _ :=
    { assign := fun _ _ _ => hstill (aside_store _ _ _).toStill
      edit := fun _ _ _ _ => hstill (aside_store _ _ _).toStill }

theorem Lenient.rest (h : Lenient R) (hrest : m.Rest m') : R m m' := (h.reads 0).rest hrest

open Service

/-- What a look-up gives is what the reference denotes then. -/
theorem lookUp_found {p : Place} (h : lookUp target ref isList m = (.ok (p, v), m')) :
    m'.place? target ref isList = some p ∧ m'.variableAt? p = some v := by
  have hresolve : ∀ {q m₁}, resolve target ref isList m = (.ok q, m₁) →
      m₁.place? target ref isList = some q → m'.place? target ref isList = some p ∧
        m'.variableAt? p = some v := by
    intro q m₁ hq hplace
    unfold lookUp at h
    rw [bind_ok hq, Service.get_andThen] at h
    cases hv : m₁.variableAt? q with
    | none =>
      rw [hv] at h
      cases h
    | some w =>
      rw [hv] at h
      cases h
      exact ⟨hplace, hv⟩
  have hcases := resolve_eq m target ref isList
  cases hplace : m.place? target ref isList with
  | some q =>
    rw [hplace] at hcases
    exact hresolve hcases hplace
  | none =>
    rw [hplace] at hcases
    dsimp only at hcases
    by_cases hpresent : m.targets.contains target = true
    · rw [if_pos hpresent] at hcases
      exact hresolve hcases (place?_created hpresent ref isList)
    · rw [if_neg hpresent] at hcases
      unfold lookUp at h
      rw [bind_error hcases] at h
      cases h

variable [Lasting R]

section Reads

variable (reads : Reads target R)

include reads

theorem resolve_keeps (ref : VarRef) (isList : Bool) :
    Keeps R (resolve target ref isList : Service σ Place) := by
  intro m
  rw [resolve_eq]
  cases hplace : m.place? target ref isList with
  | some p => exact Lasting.refl m
  | none =>
    by_cases hpresent : m.targets.contains target = true
    · rw [if_pos hpresent]
      exact reads.create hplace hpresent
    · rw [if_neg hpresent]
      exact Lasting.refl m

theorem lookUp_keeps (ref : VarRef) (isList : Bool) :
    Keeps R (lookUp target ref isList : Service σ (Place × Variable)) := by
  refine (resolve_keeps reads ref isList).andThen fun p => keeps_get.andThen fun m => ?_
  cases m.variableAt? p with
  | some v => exact keeps_pure _
  | none => exact keeps_throw _

/-- A service that begins with a look-up goes on where the reference denotes what was found. -/
theorem lookUp_andThen_keeps {f : Place × Variable → Service σ α}
    (hf : ∀ {m p v}, m.place? target ref isList = some p → m.variableAt? p = some v →
      R m (f (p, v) m).2) :
    Keeps R (lookUp target ref isList >>= f) := by
  intro m
  have hlook := lookUp_keeps reads ref isList m
  show R m (ExceptT.bindCont f (lookUp target ref isList m).1 (lookUp target ref isList m).2).2
  rcases h : lookUp target ref isList m with ⟨r, m₁⟩
  rw [h] at hlook
  cases r with
  | error e => exact hlook
  | ok q =>
    obtain ⟨hplace, hv⟩ := lookUp_found h
    exact Lasting.trans hlook (hf hplace hv)

theorem readVariable_keeps (ref : VarRef) : Keeps R (readVariable target ref : Service σ Value) :=
  (lookUp_keeps reads ref false).andThen fun _ => keeps_pure _

theorem readList_keeps (ref : VarRef) : Keeps R (readList target ref : Service σ (List Value)) :=
  (lookUp_keeps reads ref true).andThen fun _ => keeps_pure _

omit [Lasting R] in
theorem query_keeps (kit : Kit σ) (device function : String) (args : List Value) :
    Keeps R (query kit device function args) :=
  fun m => reads.rest (query_asked kit device function args m).rest

omit [Lasting R] in
theorem queryClock_keeps (function : String) : Keeps R (queryClock function : Service σ Reported) :=
  fun m => reads.rest (queryClock_asked function m).rest

omit [Lasting R] in
theorem draw_keeps : Keeps R (modifyGet draw : Service σ Draw) :=
  fun m => reads.rest (rest_draw m)

variable (writes : Writes target ref R)

include writes

theorem setVariable_keeps (kit : Kit σ) (value : Value) :
    Keeps R (setVariable kit target ref value) := by
  refine lookUp_andThen_keeps reads fun {m p v} hplace hv => ?_
  have htell : Keeps R (if v.isCloud && kit.devices.contains "cloud" then
      discard (query kit "cloud" "requestUpdateVariable" [.text v.name, value]) else pure ()) := by
    split
    · exact (query_keeps reads kit _ _ _).discarded
    · exact keeps_pure _
  exact Lasting.trans (writes.assign value hplace hv) (htell _)

theorem changeVariable_keeps (kit : Kit σ) (amount : Float) :
    Keeps R (changeVariable kit target ref amount) :=
  (readVariable_keeps reads ref).andThen fun _ => setVariable_keeps reads writes kit _

theorem editList_keeps (edit : ListEdit) : Keeps R (editList target ref edit : Service σ Unit) := by
  refine lookUp_andThen_keeps reads fun {m p v} hplace hv => ?_
  dsimp only
  split
  · -- the draw leaves the reference where it is
    have hdraw := rest_draw m
    exact Lasting.trans (reads.rest hdraw)
      (writes.edit m.draw.1 edit ((hdraw.place? _ _ _).trans hplace)
        ((hdraw.variableAt? p).trans hv))
  · exact writes.edit 0 edit hplace hv

end Reads
end Machine
end BlockMachine

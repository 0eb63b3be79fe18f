import BlockMachine.Proofs.Machine.Reached
import Mathlib.Data.List.TakeDrop

/-!
# What happens to variables

Of all that operations do to a machine, few things concern variables: a reference creates one that
it does not find, one is assigned, a list is edited, a clone brings its own, a target is removed
with its variables, and what lists hold is told. Every operation is a sequence of these
(`Machine.play_traced`), so that what each of them keeps is kept at every point of every run
(`Machine.Trace.keeps`).
-/

namespace BlockMachine

open List Option

variable {σ : Type} {event : Event} {v : Variable} {p : Place}

/-- Whether an event tells the items of a list. -/
def Event.isListUpdate : Event → Bool
  | .listUpdate _ _ _ => true
  | _ => false

theorem Event.isListUpdate_eq_false (h : event.isUpdate = false) : event.isListUpdate = false := by
  cases event with
  | listUpdate => cases h
  | _ => rfl

/-- What can happen to the variables of a machine. -/
inductive Touch where
  /-- Something that does not concern variables. -/
  | other
  | create (target : TargetId) (ref : VarRef) (isList : Bool)
  | assign (target : TargetId) (ref : VarRef) (value : Value)
  | edit (target : TargetId) (ref : VarRef) (d : Draw) (e : ListEdit)
  | clone (source : TargetId)
  | remove (target : TargetId)
  | tellLists

variable {touch : Touch}

namespace Machine

/-- The targets are the same but for the edges of hats, and no list was told. -/
structure Alike (m m' : Machine σ) : Prop where
  settings : m'.settings = m.settings
  stage : m'.stage = m.stage
  nextTarget : m'.nextTarget = m.nextTarget
  targets : ∀ id : TargetId,
    m'.targets[id]?.map Target.clearEdges = m.targets[id]?.map Target.clearEdges
  events : ∃ told, (∀ e ∈ told, Event.isListUpdate e = false) ∧ m'.events = m.events ++ told

/-- One thing that happened to the variables of a machine. -/
inductive Touched : Machine σ → Touch → Machine σ → Prop
  | other {m m' : Machine σ} (h : m.Alike m') : Touched m .other m'
  | create {m : Machine σ} {target : TargetId} {ref : VarRef} {isList : Bool}
      (hplace : m.place? target ref isList = none) (hpresent : m.targets.contains target = true) :
      Touched m (.create target ref isList) (m.created target ref isList)
  | assign {m : Machine σ} {target : TargetId} {ref : VarRef} {p : Place} {v : Variable}
      (value : Value) (hplace : m.place? target ref false = some p)
      (hv : m.variableAt? p = some v) :
      Touched m (.assign target ref value) (m.store p (v.set value))
  | edit {m : Machine σ} {target : TargetId} {ref : VarRef} {p : Place} {v : Variable} (d : Draw)
      (e : ListEdit) (hplace : m.place? target ref true = some p) (hv : m.variableAt? p = some v) :
      Touched m (.edit target ref d e) (m.store p (v.edit m.settings.listItemLimit d e))
  | clone {m m' : Machine σ} {source id : TargetId} (h : m.addClone? source = some (id, m')) :
      Touched m (.clone source) m'
  | remove (m : Machine σ) (target : TargetId) : Touched m (.remove target) (m.removeTarget target)
  | tellLists (m : Machine σ) : Touched m .tellLists m.reportLists

/-- What happened to the variables from one machine to another, each with the machine that it
happened to. -/
inductive Trace : Machine σ → List (Machine σ × Touch) → Machine σ → Prop
  | nil (m : Machine σ) : Trace m [] m
  | cons {m m₁ m' : Machine σ} {touch : Touch} {trace : List (Machine σ × Touch)}
      (h : Touched m touch m₁) (rest : Trace m₁ trace m') : Trace m ((m, touch) :: trace) m'

namespace Trace

variable {m m' m'' : Machine σ} {trace trace' : List (Machine σ × Touch)}

theorem single (h : m.Touched touch m') : Trace m [(m, touch)] m' :=
  .cons h (.nil m')

theorem append (h : Trace m trace m') (h' : Trace m' trace' m'') :
    Trace m (trace ++ trace') m'' := by
  induction h with
  | nil m => exact h'
  | cons h rest ih => exact .cons h (ih h')

/-- What a relation between machines says of everything that can happen it says of whole traces. -/
theorem relates {R : Machine σ → Machine σ → Prop} [Lasting R]
    (hstep : ∀ {m touch m'}, Touched m touch m' → R m m') (h : Trace m trace m') : R m m' := by
  induction h with
  | nil m => exact Lasting.refl m
  | cons h rest ih => exact Lasting.trans (hstep h) ih

/-- What everything that can happen keeps holds at every point. -/
theorem keeps {I : Machine σ → Prop} (hstep : ∀ {m touch m'}, Touched m touch m' → I m → I m')
    (h : Trace m trace m') (hm : I m) : I m' ∧ ∀ x ∈ trace, I x.1 := by
  induction h with
  | nil m => exact ⟨hm, by simp⟩
  | cons h rest ih =>
    obtain ⟨hend, htrace⟩ := ih (hstep h hm)
    exact ⟨hend, forall_mem_cons.mpr ⟨hm, htrace⟩⟩

end Trace

/-- There is a trace from one machine to the other. -/
def Traced (m m' : Machine σ) : Prop := ∃ trace, Trace m trace m'

instance : Lasting (Traced : Machine σ → Machine σ → Prop) where
  refl m := ⟨[], .nil m⟩
  trans := fun ⟨_, h⟩ ⟨_, h'⟩ => ⟨_, h.append h'⟩

variable {m m' : Machine σ}

theorem Touched.traced (h : m.Touched touch m') : m.Traced m' := ⟨_, .single h⟩

theorem alike_emit (m : Machine σ) (h : event.isListUpdate = false) : m.Alike (m.emit event) :=
  ⟨rfl, rfl, rfl, fun _ => rfl, [event], by simpa using h, rfl⟩

theorem alike_note (m : Machine σ) (block : BlockId) (v : Value) :
    m.Alike ({ m with monitorValues := m.monitorValues.insert block v }.emit
      (.monitorUpdate block v)) :=
  ⟨rfl, rfl, rfl, fun _ => rfl, [.monitorUpdate block v], by simp [Event.isListUpdate], rfl⟩

theorem alike_threads (m : Machine σ) (threads : List Thread) (nextThread : ThreadId) :
    m.Alike { m with threads, nextThread } :=
  ⟨rfl, rfl, rfl, fun _ => rfl, [], by simp, (append_nil _).symm⟩

theorem Rest.alike (h : m.Rest m') : m.Alike m' where
  settings := h.settings
  stage := h.stage
  nextTarget := h.nextTarget
  targets id := by rw [h.same]
  events := ⟨[], by simp, by rw [h.events, append_nil]⟩

/-- A change of the edges of a target. -/
theorem alike_insert {id : TargetId} {t t' : Target} (ht : m.targets[id]? = some t)
    (hedges : t'.clearEdges = t.clearEdges) :
    m.Alike { m with targets := m.targets.insert id t' } where
  settings := rfl
  stage := rfl
  nextTarget := rfl
  targets id' := by
    show (m.targets.insert id t')[id']?.map _ = _
    rw [getElem?_insert_target]
    by_cases h : id = id'
    · rw [if_pos h, ← h, ht, map_some, map_some, hedges]
    · rw [if_neg h]
  events := ⟨[], by simp, (append_nil _).symm⟩

theorem alike_edgeFires (m : Machine σ) (target : TargetId) (block : BlockId) (value : Bool) :
    m.Alike (m.edgeFires target block value).2 := by
  unfold edgeFires
  cases ht : m.targets[target]? with
  | none => exact (Lasting.refl m : m.Rest m).alike
  | some t => exact alike_insert ht rfl

theorem alike_clearEdges (m : Machine σ) :
    m.Alike { m with targets := m.targets.map fun _ t => t.clearEdges } where
  settings := rfl
  stage := rfl
  nextTarget := rfl
  targets id := by
    show ((m.targets.map fun _ t => t.clearEdges)[id]?).map _ = _
    rw [Std.TreeMap.getElem?_map, Option.map_map]
    rfl
  events := ⟨[], by simp, (append_nil _).symm⟩

/-- All that happens to a machine is a sequence of touches. -/
theorem traced_law : ReportLaw (Traced : Machine σ → Machine σ → Prop) where
  reads _ :=
    { rest := fun h => (Touched.other h.alike).traced
      create := fun hplace hpresent => (Touched.create hplace hpresent).traced }
  writes _ _ :=
    { assign := fun value hplace hv => (Touched.assign value hplace hv).traced
      edit := fun d e hplace hv => (Touched.edit d e hplace hv).traced }
  tell m _ hevent := (Touched.other (alike_emit m (Event.isListUpdate_eq_false hevent))).traced
  note m block v := (Touched.other (alike_note m block v)).traced
  reportLists m := (Touched.tellLists m).traced
  threads m threads nextThread := (Touched.other (alike_threads m threads nextThread)).traced
  removeTarget m target := (Touched.remove m target).traced
  edgeFires m target block value := (Touched.other (alike_edgeFires m target block value)).traced
  addClone h := (Touched.clone h).traced
  clearEdges m := (Touched.other (alike_clearEdges m)).traced

/-- **Every run of operations is a sequence of touches.** -/
theorem play_traced {kit : Kit σ} {ops : List (Operation × Nat)} {done : List Thread}
    (h : Machine.play kit ops m = some (done, m')) : ∃ trace, Trace m trace m' :=
  play_along (R := Traced) (fun fuel op => Operation.apply_along traced_law.frameLaw fuel op)
    ops m done m' h

/-! ## What touches do to the table of targets -/

section

variable {β : Type} {f : Target → β}

/-- What does not depend on the edges of hats is the same in all targets. -/
theorem eq_of_edges {ts ts' : Std.TreeMap TargetId Target}
    (h : ∀ id : TargetId, ts'[id]?.map Target.clearEdges = ts[id]?.map Target.clearEdges)
    (hf : ∀ t, f t.clearEdges = f t) (id : TargetId) : ts'[id]?.map f = ts[id]?.map f := by
  have hmap : ∀ ts :
      Std.TreeMap TargetId Target, ts[id]?.map f = (ts[id]?.map Target.clearEdges).map f := by
    intro ts
    rw [Option.map_map]
    congr 1
    funext t
    exact (hf t).symm
  rw [hmap, hmap, h]

theorem Alike.eq_of_edges (h : m.Alike m') (hf : ∀ t, f t.clearEdges = f t) (id : TargetId) :
    m'.targets[id]?.map f = m.targets[id]?.map f :=
  Machine.eq_of_edges h.targets hf id

theorem Alike.variableAt? (h : m.Alike m') (p : Place) : m'.variableAt? p = m.variableAt? p := by
  have hbind : ∀ m :
      Machine σ, m.variableAt? p = (m.targets[p.owner]?.map (·.vars[p.id]?)).join := by
    intro m
    rw [variableAt?_eq]
    cases m.targets[p.owner]? <;> rfl
  rw [hbind, hbind, h.eq_of_edges (fun _ => rfl)]

end

theorem variableAt?_addClone {source id : TargetId} (h : m.addClone? source = some (id, m'))
    (p : Place) :
    m'.variableAt? p =
      if p.owner = m.nextTarget then (m.variableAt? ⟨source, p.id⟩).filter (!·.isCloud)
      else m.variableAt? p := by
  obtain ⟨t, ht, -, -, rfl, rfl⟩ := addClone?_some h
  rw [variableAt?_eq, variableAt?_eq, variableAt?_eq]
  show (m.targets.insert m.nextTarget _)[p.owner]?.bind _ = _
  rw [getElem?_insert_target]
  by_cases howner : p.owner = m.nextTarget
  · rw [if_pos howner, if_pos howner.symm, ht]
    show (t.vars.filter _)[p.id]? = _
    rw [Std.TreeMap.getElem?_filter, Option.pfilter_eq_filter]
    rfl
  · rw [if_neg howner, if_neg (Ne.symm howner)]

theorem variableAt?_removeTarget (m : Machine σ) (target : TargetId) (p : Place) :
    (m.removeTarget target).variableAt? p = if p.owner = target then none else m.variableAt? p := by
  unfold removeTarget
  cases ht : m.targets[target]? with
  | none =>
    dsimp only
    split
    · next howner => rw [variableAt?_eq, howner, ht, bind_none]
    · rfl
  | some t =>
    show ((m.targets.erase target)[p.owner]?).bind _ = _
    rw [getElem?_erase_target]
    by_cases howner : p.owner = target
    · rw [if_pos howner, if_pos howner.symm, bind_none]
    · rw [if_neg howner, if_neg (Ne.symm howner), variableAt?_eq]

theorem variableAt?_reportLists (m : Machine σ) (p : Place) :
    m.reportLists.variableAt? p =
      (m.variableAt? p).map fun v => if v.isList then { v with isShown := true } else v := by
  rw [variableAt?_eq, variableAt?_eq]
  show ((m.targets.map _)[p.owner]?).bind _ = _
  rw [Std.TreeMap.getElem?_map]
  cases m.targets[p.owner]? with
  | none => rfl
  | some t => exact Std.TreeMap.getElem?_map

/-- Where a variable that is there after a touch comes from. -/
inductive Origin (m : Machine σ) : Touch → Place → Variable → Prop
  | kept {touch : Touch} {p : Place} {v : Variable} (hv : m.variableAt? p = some v) :
      Origin m touch p v
  | created {target : TargetId} {ref : VarRef} {isList : Bool}
      (hplace : m.place? target ref isList = none) :
      Origin m (.create target ref isList) ⟨target, ref.id⟩
        { fresh ref isList with isLocal := !m.isStage target }
  | assigned {target : TargetId} {ref : VarRef} {p : Place} {v : Variable} {value : Value}
      (hplace : m.place? target ref false = some p) (hv : m.variableAt? p = some v) :
      Origin m (.assign target ref value) p (v.set value)
  | edited {target : TargetId} {ref : VarRef} {p : Place} {v : Variable} {d : Draw} {e : ListEdit}
      (hplace : m.place? target ref true = some p) (hv : m.variableAt? p = some v) :
      Origin m (.edit target ref d e) p (v.edit m.settings.listItemLimit d e)
  | cloned {source : TargetId} {p : Place} {v : Variable} (hnew : p.owner = m.nextTarget)
      (hv : m.variableAt? ⟨source, p.id⟩ = some v) : Origin m (.clone source) p v
  | told {p : Place} {v : Variable} (hv : m.variableAt? p = some v) :
      Origin m .tellLists p (if v.isList then { v with isShown := true } else v)

/-- **Every variable after a touch has an origin before it.** -/
theorem Touched.origin (h : m.Touched touch m') (hv : m'.variableAt? p = some v) :
    m.Origin touch p v := by
  cases h with
  | other h => exact .kept ((h.variableAt? p).symm.trans hv)
  | @create target ref isList hplace hpresent =>
    rw [created, variableAt?_addVariable] at hv
    split at hv
    · next hp =>
      obtain ⟨t, -, rfl⟩ := map_eq_some_iff.mp hv
      rw [fresh_id] at hp
      rw [hp]
      exact .created hplace
    · exact .kept hv
  | assign value hplace hw =>
    rw [variableAt?_store] at hv
    split at hv
    · next hp =>
      obtain ⟨t, -, rfl⟩ := map_eq_some_iff.mp hv
      exact hp ▸ .assigned hplace hw
    · exact .kept hv
  | edit d e hplace hw =>
    rw [variableAt?_store] at hv
    split at hv
    · next hp =>
      obtain ⟨t, -, rfl⟩ := map_eq_some_iff.mp hv
      exact hp ▸ .edited hplace hw
    · exact .kept hv
  | clone h =>
    rw [variableAt?_addClone h] at hv
    split at hv
    · next howner => exact .cloned howner (filter_eq_some_iff.mp hv).1
    · exact .kept hv
  | remove target =>
    rw [variableAt?_removeTarget] at hv
    split at hv
    · cases hv
    · exact .kept hv
  | tellLists =>
    rw [variableAt?_reportLists] at hv
    obtain ⟨w, hw, rfl⟩ := map_eq_some_iff.mp hv
    exact .told hw

theorem Touched.settings (h : m.Touched touch m') : m'.settings = m.settings := by
  cases h with
  | other h => exact h.settings
  | clone h => exact sameSettings_law.addClone h
  | remove target => exact sameSettings_law.removeTarget _ _
  | create | assign | edit | tellLists => rfl

theorem Touched.inherits (h : m.Touched touch m') : m.Inherits m' := by
  cases h with
  | other h => exact .of_sheets h.nextTarget (h.eq_of_edges fun _ => rfl)
  | @create target ref isList hplace hpresent =>
    exact (inherits_law.reads target).create hplace hpresent
  | @assign target ref p v value hplace hv =>
    exact (inherits_law.writes target ref).assign value hplace hv
  | @edit target ref p v d e hplace hv => exact (inherits_law.writes target ref).edit d e hplace hv
  | clone h => exact inherits_law.addClone h
  | remove target => exact inherits_law.removeTarget m target
  | tellLists => exact inherits_law.reportLists m

/-- No target has an id that is yet to be given out. -/
def Numbered (m : Machine σ) : Prop := ∀ id ∈ m.targets, id < m.nextTarget

theorem Numbered.owner (h : m.Numbered) (hv : m.variableAt? p = some v) :
    p.owner < m.nextTarget := by
  rw [variableAt?_eq] at hv
  obtain ⟨t, ht, -⟩ := bind_eq_some_iff.mp hv
  exact h p.owner (mem_targets_iff.mpr ⟨t, ht⟩)

/-! ## Projects -/

section Install

variable {I : Machine σ → Prop} {project : Project}

theorem addTargets_keeps {targets : List Target}
    (hadd : ∀ m t, t ∈ targets → I m → I (m.addTarget t).2) (hm : I m) :
    I (m.addTargets targets).2 := by
  induction targets generalizing m with
  | nil => exact hm
  | cons t targets ih =>
    exact ih (fun m t ht => hadd m t (mem_cons_of_mem _ ht)) (hadd m t mem_cons_self hm)

/-- What adding each target of a project keeps is kept by installing it. -/
theorem install?_keeps (hadd : ∀ m t, t ∈ project.targets → I m → I (m.addTarget t).2) (hm : I m)
    {ids : List TargetId} (h : m.install? project = some (ids, m')) : I m' := by
  unfold install? at h
  rw [span_eq_takeWhile_dropWhile] at h
  have hall : project.targets.takeWhile (!·.isStage) ++ project.targets.dropWhile (!·.isStage) =
      project.targets := takeWhile_append_dropWhile
  generalize project.targets.takeWhile (!·.isStage) = before at h hall
  cases hrest : project.targets.dropWhile (!·.isStage) with
  | nil =>
    rw [hrest] at h
    cases h
  | cons stage after =>
    rw [hrest] at h hall
    cases h
    have hmem : ∀ t, t = stage ∨ t ∈ before ∨ t ∈ after → t ∈ project.targets := by
      intro t ht
      rw [← hall, mem_append, mem_cons]
      tauto
    refine addTargets_keeps (fun m t ht => hadd m t (hmem t (.inr (.inr ht)))) ?_
    refine addTargets_keeps (fun m t ht => hadd m t (hmem t (.inr (.inl ht)))) ?_
    exact hadd m stage (hmem stage (.inl rfl)) hm

end Install

theorem addTarget_targets (m : Machine σ) (t : Target) :
    (m.addTarget t).2.targets = m.targets.insert m.nextTarget { t with id := m.nextTarget } := by
  unfold addTarget
  dsimp only
  split <;> rfl

theorem variableAt?_addTarget (m : Machine σ) (t : Target) (p : Place) :
    (m.addTarget t).2.variableAt? p = if p.owner = m.nextTarget then t.vars[p.id]?
      else m.variableAt? p := by
  rw [variableAt?_eq, addTarget_targets, getElem?_insert_target]
  by_cases howner : p.owner = m.nextTarget
  · rw [if_pos howner, if_pos howner.symm]
    rfl
  · rw [if_neg howner, if_neg (Ne.symm howner)]
    rfl

theorem Numbered.addTarget (h : m.Numbered) (t : Target) : (m.addTarget t).2.Numbered := by
  have hnext : (m.addTarget t).2.nextTarget = m.nextTarget + 1 := by
    unfold Machine.addTarget
    dsimp only
    split <;> rfl
  intro id hid
  rw [hnext]
  rw [addTarget_targets, Std.TreeMap.mem_insert, Std.compare_eq_iff_eq] at hid
  rcases hid with rfl | hid
  · exact Nat.lt_succ_self _
  · exact Nat.lt_succ_of_lt (h id hid)

theorem numbered_new (settings : Settings) (clock : Clock) (host : σ) :
    (Machine.new settings clock host).Numbered :=
  fun _ hid => absurd hid Std.TreeMap.not_mem_emptyc

end Machine
end BlockMachine

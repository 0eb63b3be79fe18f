import BlockMachine.Proofs.ListEdit
import BlockMachine.Proofs.Machine.Touches
import BlockMachine.Proofs.Project

/-!
# What is told of lists

A list variable notes whether its monitor shows the current items. Whatever sets the items clears
the note, and it is set when the items are told, so that the last thing told of a list that is shown
are its items (`Machine.Told`). At the end of a frame all lists are shown; hence nothing that is
told of a list is out of date then, and nothing is told of it again before an edit has taken effect
on it (`Machine.list_monitors_up_to_date`).

The module is about `Machine.reportLists` and the note `Variable.isShown`.

## Results

* `Machine.Told`: the invariant, kept by every touch.
* `Machine.list_monitors_up_to_date`: what was told at the end of a frame, and what is told later.

Left out are the lists of clones, and projects that no document gives (`Project.Fresh`).
-/

namespace BlockMachine

open List Option

variable {σ : Type} {p : Place} {v : Variable} {t : Target}

/-- The items that some events tell of the list at a place, in order. -/
def updatesOf (p : Place) (events : List Event) : List (List Value) :=
  events.filterMap fun
    | .listUpdate target list items => if target = p.owner ∧ list = p.id then some items else none
    | _ => none

theorem updatesOf_append (p : Place) (events events' : List Event) :
    updatesOf p (events ++ events') = updatesOf p events ++ updatesOf p events' :=
  filterMap_append

theorem updatesOf_eq_nil {events : List Event} (h : ∀ e ∈ events, Event.isListUpdate e = false) :
    updatesOf p events = [] := by
  refine filterMap_eq_nil_iff.mpr fun e he => ?_
  have hlist := h e he
  cases e with
  | listUpdate => cases hlist
  | _ => rfl

/-- What a variable of a target adds to what is told of a place. -/
def Target.tells (t : Target) (p : Place) (v : Variable) : Option (List Value) :=
  if v.isList && !v.isShown then
    if t.id = p.owner ∧ v.id = p.id then some v.items else none
  else none

theorem Target.tells_eq_none (h : ¬(t.id = p.owner ∧ v.id = p.id)) : t.tells p v = none := by
  unfold tells
  rw [if_neg h, ite_self]

theorem Target.tells_eq (ht : t.id = p.owner) (hv : v.id = p.id) :
    t.tells p v = if v.isList && !v.isShown then some v.items else none := by
  unfold tells
  simp only [ht, hv, and_self, if_true]

/-- Of entries with keys of their own, only the one of a key counts if the others give nothing. -/
theorem flatMap_toList {κ α β : Type} {cmp : κ → κ → Ordering} [Std.TransCmp cmp]
    [Std.LawfulEqCmp cmp]
    (t : Std.TreeMap κ α cmp) (k : κ) {f : κ × α → List β}
    (hf : ∀ e ∈ t.toList, e.1 ≠ k → f e = []) :
    t.toList.flatMap f = (t[k]?.map fun a => f (k, a)).getD [] := by
  have hnodup : (t.toList.map Prod.fst).Nodup := by
    rw [Std.TreeMap.map_fst_toList_eq_keys]
    exact Std.TreeMap.nodup_keys
  cases h : t[k]? with
  | none =>
    refine flatMap_eq_nil_iff.mpr fun e he => hf e he fun heq => ?_
    rw [← heq, Std.TreeMap.mem_toList_iff_getElem?_eq_some.mp he] at h
    cases h
  | some a =>
    obtain ⟨l₁, l₂, hl⟩ := append_of_mem (Std.TreeMap.mem_toList_iff_getElem?_eq_some.mpr h)
    rw [hl] at hf hnodup ⊢
    rw [map_append, map_cons, nodup_middle, nodup_cons, ← map_append] at hnodup
    have hother : ∀ e ∈ l₁ ++ l₂, f e = [] := fun e he =>
      hf e (by simp only [mem_append, mem_cons] at he ⊢; tauto)
        fun heq => hnodup.1 (mem_map.mpr ⟨e, he, heq⟩)
    have h₁ : l₁.flatMap f = [] :=
      flatMap_eq_nil_iff.mpr fun e he => hother e (mem_append_left _ he)
    have h₂ : l₂.flatMap f = [] :=
      flatMap_eq_nil_iff.mpr fun e he => hother e (mem_append_right _ he)
    rw [flatMap_append, flatMap_cons, h₁, h₂, nil_append, append_nil]
    rfl

namespace Machine

variable {m m' : Machine σ} {touch : Touch}

/-- Targets and variables are kept under their ids. -/
structure Keyed (m : Machine σ) : Prop where
  targets : ∀ {id : TargetId} {t : Target}, m.targets[id]? = some t → t.id = id
  vars : ∀ {p : Place} {v : Variable}, m.variableAt? p = some v → v.id = p.id

/-- A target that is there after a touch was there before, or is a clone under a new id. -/
theorem Touched.target_cases {β : Type} (h : m.Touched touch m')
    {f : Target → β} (hbare : ∀ t, f t.bare = f t) (hedges : ∀ t, f t.clearEdges = f t)
    {id : TargetId} {t' : Target} (ht' : m'.targets[id]? = some t') :
    (∃ t, m.targets[id]? = some t ∧ f t = f t') ∨
      id = m.nextTarget ∧ t'.id = id ∧ t'.isClone = true := by
  have hsame : m'.targets[id]?.map f = m.targets[id]?.map f → ∃ t, m.targets[id]? = some t ∧
      f t = f t' := by
    intro heq
    rw [ht', map_some] at heq
    exact map_eq_some_iff.mp heq.symm
  cases h with
  | other h => exact .inl (hsame (h.eq_of_edges hedges id))
  | @create target ref isList =>
    have haside := aside_onTarget m target (f := (·.addVariable (fresh ref isList))) fun _ => rfl
    exact .inl (hsame (haside.eq_of_bare hbare id))
  | assign | edit => exact .inl (hsame ((aside_store m _ _).eq_of_bare hbare id))
  | clone h =>
    obtain ⟨t, ht, -, -, rfl, rfl⟩ := addClone?_some h
    replace ht' : (m.targets.insert m.nextTarget { t.clone with id := m.nextTarget })[id]? =
      some t' := ht'
    rw [getElem?_insert_target] at ht'
    split at ht'
    · next hid =>
      cases ht'
      exact .inr ⟨hid.symm, hid, rfl⟩
    · exact .inl ⟨t', ht', rfl⟩
  | remove target =>
    unfold removeTarget at ht'
    cases ht : m.targets[target]? with
    | none =>
      rw [ht] at ht'
      exact .inl ⟨t', ht', rfl⟩
    | some t =>
      rw [ht] at ht'
      replace ht' : (m.targets.erase target)[id]? = some t' := ht'
      rw [getElem?_erase_target] at ht'
      split at ht'
      · cases ht'
      · exact .inl ⟨t', ht', rfl⟩
  | tellLists => exact .inl (hsame ((apart_reportLists m).eq_of_bare hbare id))

theorem Touched.keyed (h : m.Touched touch m') (hm : m.Keyed) : m'.Keyed where
  targets {id t'} ht' := by
    rcases h.target_cases (f := Target.id) (fun _ => rfl) (fun _ => rfl)
      ht' with ⟨t, ht, heq⟩ | ⟨-, hid, -⟩
    · exact heq.symm.trans (hm.targets ht)
    · exact hid
  vars {p v'} hv' := by
    cases h.origin hv' with
    | kept hv => exact hm.vars hv
    | created => exact fresh_id _ _
    | @assigned target ref p v value hplace hv => exact hm.vars (v := v) hv
    | edited hplace hv => exact (edit_id _ _ _ _).trans (hm.vars hv)
    | @cloned source p v hnew hv => exact hm.vars (p := ⟨source, p.id⟩) hv
    | told hv =>
      rw [← hm.vars hv]
      split <;> rfl

/-! ## Events -/

theorem updatesOf_changedLists_target (t : Target) (p : Place) :
    updatesOf p (changedLists t) = t.vars.toList.flatMap fun e => (t.tells p e.2).toList := by
  unfold updatesOf changedLists
  rw [filterMap_map, filterMap_filter, Table.values_eq, filterMap_map,
    filterMap_eq_flatMap_toList]
  rfl

/-- What is told of a list when all lists that have changed are told. -/
theorem updatesOf_changedLists (hm : m.Keyed) (p : Place) :
    updatesOf p (m.targets.values.flatMap changedLists) =
      ((m.variableAt? p).map fun v => if v.isList && !v.isShown then [v.items] else []).getD
        [] := by
  have htargets : updatesOf p (m.targets.values.flatMap changedLists) =
      (m.targets[p.owner]?.map fun t => updatesOf p (changedLists t)).getD [] := by
    have hflat : updatesOf p (m.targets.values.flatMap changedLists) =
        m.targets.toList.flatMap fun e => updatesOf p (changedLists e.2) := by
      unfold updatesOf
      rw [filterMap_flatMap, Table.values_eq, flatMap_map]
    rw [hflat]
    refine flatMap_toList m.targets p.owner fun e he hne => ?_
    have hid := hm.targets (Std.TreeMap.mem_toList_iff_getElem?_eq_some.mp he)
    rw [updatesOf_changedLists_target]
    refine flatMap_eq_nil_iff.mpr fun x _ => ?_
    rw [Target.tells_eq_none fun h => hne (hid.symm.trans h.1)]
    rfl
  rw [htargets, variableAt?_eq]
  cases ht : m.targets[p.owner]? with
  | none => rfl
  | some t =>
    have hid := hm.targets ht
    show updatesOf p (changedLists t) = ((t.vars[p.id]?).map _).getD []
    have hkeyed : ∀ {k : String} {v : Variable}, t.vars[k]? = some v → v.id = k := fun {k v} hv =>
      hm.vars (p := ⟨p.owner, k⟩) (by rw [variableAt?_eq, ht]; exact hv)
    rw [updatesOf_changedLists_target, flatMap_toList t.vars p.id]
    · cases hv : t.vars[p.id]? with
      | none => rfl
      | some v =>
        show (t.tells p v).toList = if v.isList && !v.isShown then [v.items] else []
        rw [Target.tells_eq hid (hkeyed hv)]
        split <;> rfl
    · intro e he hne
      have hk := hkeyed (Std.TreeMap.mem_toList_iff_getElem?_eq_some.mp he)
      rw [Target.tells_eq_none fun h => hne (hk.symm.trans h.2)]
      rfl

/-- Nothing is told of lists but when all of them are told. -/
theorem Touched.updatesOf_eq (h : m.Touched touch m') (htouch : touch ≠ .tellLists) (p : Place) :
    updatesOf p m'.events = updatesOf p m.events := by
  cases h with
  | other h =>
    obtain ⟨told, htold, hevents⟩ := h.events
    rw [hevents, updatesOf_append, updatesOf_eq_nil htold, append_nil]
  | create | assign | edit => rfl
  | clone h =>
    obtain ⟨t, -, -, -, -, rfl⟩ := addClone?_some h
    rfl
  | remove target =>
    unfold removeTarget
    cases m.targets[target]? <;> rfl
  | tellLists => exact absurd rfl htouch

theorem updatesOf_reportLists (hm : m.Keyed) (p : Place) :
    updatesOf p m.reportLists.events = updatesOf p m.events ++
      ((m.variableAt? p).map fun v => if v.isList && !v.isShown then [v.items] else []).getD
        [] := by
  show updatesOf p (m.events ++ _) = _
  rw [updatesOf_append, updatesOf_changedLists hm]

/-! ## Lists that are shown -/

/-- The last thing told of a list that is shown on an original target are its items. -/
structure Told (m : Machine σ) : Prop extends m.Keyed where
  last : ∀ {p : Place} {v : Variable}, m.isClone p.owner = false → m.variableAt? p = some v →
    v.isList = true → v.isShown = true → (updatesOf p m.events).getLast? = some v.items

/-- The owner of a variable that is no clone was none before. -/
theorem Touched.isClone (h : m.Touched touch m') (hv : m'.variableAt? p = some v)
    (horiginal : m'.isClone p.owner = false) : m.isClone p.owner = false := by
  rw [variableAt?_eq] at hv
  obtain ⟨t', ht', -⟩ := bind_eq_some_iff.mp hv
  unfold Machine.isClone at horiginal ⊢
  rw [ht', Option.any_some] at horiginal
  rcases h.target_cases (f := Target.isClone) (fun _ => rfl) (fun _ => rfl)
    ht' with ⟨t, ht, heq⟩ | ⟨-, -, hclone⟩
  · rwa [ht, Option.any_some, heq]
  · rw [hclone] at horiginal
    cases horiginal

theorem isClone_addClone {source id : TargetId} (h : m.addClone? source = some (id, m')) :
    m'.isClone m.nextTarget = true := by
  obtain ⟨t, -, -, -, rfl, rfl⟩ := addClone?_some h
  show ((m.targets.insert m.nextTarget _)[m.nextTarget]?).any Target.isClone = true
  rw [getElem?_insert_target, if_pos rfl]
  rfl

/-- **What is told of lists is up to date after every touch.** -/
theorem Touched.told (h : m.Touched touch m') (hm : m.Told) : m'.Told := by
  refine ⟨h.keyed hm.toKeyed, fun {p v'} horiginal' hv' hlist hshown => ?_⟩
  have horiginal := h.isClone hv' horiginal'
  by_cases htouch : touch = .tellLists
  · subst htouch
    obtain ⟨⟩ := h
    rw [variableAt?_reportLists] at hv'
    obtain ⟨v, hv, rfl⟩ := map_eq_some_iff.mp hv'
    rw [updatesOf_reportLists hm.toKeyed, hv]
    have hisList : v.isList = true := by
      by_cases hl : v.isList = true
      · exact hl
      · rwa [if_neg hl] at hlist
    rw [if_pos hisList]
    show (updatesOf p m.events ++ if v.isList && !v.isShown then [v.items] else []).getLast? =
      some v.items
    cases hwas : v.isShown with
    | true =>
      rw [if_neg (by simp), append_nil]
      exact hm.last horiginal hv hisList hwas
    | false =>
      rw [hisList, if_pos (by simp), getLast?_append]
      rfl
  · rw [h.updatesOf_eq htouch]
    cases h.origin hv' with
    | kept hv => exact hm.last horiginal hv hlist hshown
    | @created target ref isList hplace =>
      -- a new list is not shown yet
      cases isList with
      | true => cases hshown
      | false => cases hlist
    | assigned => cases hlist
    | @edited target ref p v d e hplace hv =>
      rw [Variable.edit_eq] at hlist hshown ⊢
      cases hresult : e.result v.items m.settings.listItemLimit d with
      | some items =>
        rw [hresult] at hshown
        cases hshown
      | none =>
        rw [hresult] at hlist hshown
        exact hm.last horiginal hv hlist hshown
    | cloned hnew hv =>
      cases h with
      | clone hclone => exact absurd horiginal' (by rw [hnew, isClone_addClone hclone]; decide)
    | told => exact absurd rfl htouch

/-! ## Edits that take effect -/

/-- An edit took effect on the variable at a place. -/
def Edits (p : Place) (x : Machine σ × Touch) : Prop :=
  ∃ target ref d e v, x.2 = .edit target ref d e ∧ x.1.place? target ref true = some p ∧
    x.1.variableAt? p = some v ∧ (e.result v.items x.1.settings.listItemLimit d).isSome = true

/-- A variable is there as long as its owner is. -/
theorem Touched.present (h : m.Touched touch m') (hv : m.variableAt? p = some v)
    (howner : p.owner ≠ m.nextTarget) (hpresent : m'.targets.contains p.owner = true) :
    ∃ v', m'.variableAt? p = some v' := by
  rw [Std.TreeMap.contains_eq_isSome_getElem?] at hpresent
  obtain ⟨t', ht'⟩ := isSome_iff_exists.mp hpresent
  have htarget : ∃ t, m.targets[p.owner]? = some t := by
    rw [variableAt?_eq] at hv
    obtain ⟨t, ht, -⟩ := bind_eq_some_iff.mp hv
    exact ⟨t, ht⟩
  obtain ⟨t, ht⟩ := htarget
  cases h with
  | other h => exact ⟨v, (h.variableAt? p).trans hv⟩
  | @create target ref isList =>
    rw [created, variableAt?_addVariable]
    split
    · next hp =>
      rw [hp] at ht
      exact ⟨_, by rw [ht]; rfl⟩
    · exact ⟨v, hv⟩
  | assign | edit =>
    rw [variableAt?_store]
    split
    · next hp =>
      rw [← hp, ht]
      exact ⟨_, rfl⟩
    · exact ⟨v, hv⟩
  | clone h =>
    rw [variableAt?_addClone h, if_neg howner]
    exact ⟨v, hv⟩
  | remove target =>
    rw [variableAt?_removeTarget]
    split
    · next hp =>
      unfold removeTarget at ht'
      rw [← hp, ht] at ht'
      replace ht' : (m.targets.erase p.owner)[p.owner]? = some t' := ht'
      rw [getElem?_erase_target, if_pos rfl] at ht'
      cases ht'
    · exact ⟨v, hv⟩
  | tellLists =>
    rw [variableAt?_reportLists, hv]
    exact ⟨_, rfl⟩

/-- The variable at a place, as long as it is there, is shown if it is a list, and nothing more was
told of it. -/
structure Settled (p : Place) (told : List (List Value)) (m : Machine σ) :
    Prop extends m.Keyed where
  owner : p.owner < m.nextTarget
  present : m.targets.contains p.owner = true → ∃ v, m.variableAt? p = some v
  shown : ∀ {v}, m.variableAt? p = some v → v.isList = true → v.isShown = true
  updates : updatesOf p m.events = told

theorem Touched.settled (h : m.Touched touch m') {told : List (List Value)}
    (hedits : ¬Edits p (m, touch)) (hm : m.Settled p told) : m'.Settled p told := by
  have hpresent : m'.targets.contains p.owner = true → m.targets.contains p.owner = true := by
    rw [Std.TreeMap.contains_eq_isSome_getElem?, Std.TreeMap.contains_eq_isSome_getElem?]
    intro hp
    obtain ⟨t', ht'⟩ := isSome_iff_exists.mp hp
    rcases h.target_cases (f := fun _ => ())
      (fun _ => rfl) (fun _ => rfl) ht' with ⟨t, ht, -⟩ | ⟨hnew, -⟩
    · rw [ht]
      rfl
    · exact absurd hnew (Nat.ne_of_lt hm.owner)
  refine ⟨h.keyed hm.toKeyed, Nat.lt_of_lt_of_le hm.owner h.inherits.next, fun hp => ?_,
    fun {v'} hv' hlist => ?_, ?_⟩
  · obtain ⟨v, hv⟩ := hm.present (hpresent hp)
    exact h.present hv (Nat.ne_of_lt hm.owner) hp
  · cases h.origin hv' with
    | kept hv => exact hm.shown hv hlist
    | @created target ref isList hplace =>
      -- the place has a variable already, which the reference would have found
      cases h with
      | create _ htarget =>
        obtain ⟨v, hv⟩ := hm.present htarget
        rw [place?_own hv] at hplace
        cases hplace
    | assigned => cases hlist
    | @edited target ref p v d e hplace hv =>
      rw [Variable.edit_eq] at hlist ⊢
      cases hresult : e.result v.items m.settings.listItemLimit d with
      | some items =>
        exact absurd ⟨target, ref, d, e, v, rfl, hplace, hv, by rw [hresult]; rfl⟩ hedits
      | none =>
        rw [hresult] at hlist
        exact hm.shown hv hlist
    | cloned hnew => exact absurd hnew (Nat.ne_of_lt hm.owner)
    | @told p v hv =>
      split at hlist
      · next hl => rw [if_pos hl]
      · next hl => exact absurd hlist hl
  · by_cases htouch : touch = .tellLists
    · subst htouch
      obtain ⟨⟩ := h
      rw [updatesOf_reportLists hm.toKeyed, hm.updates]
      cases hv : m.variableAt? p with
      | none => exact append_nil _
      | some v =>
        show told ++ (if v.isList && !v.isShown then [v.items] else []) = told
        rw [if_neg, append_nil]
        intro hstale
        rw [Bool.and_eq_true] at hstale
        rw [hm.shown hv hstale.1] at hstale
        cases hstale.2
    · exact (h.updatesOf_eq htouch p).trans hm.updates

theorem Trace.settled {trace : List (Machine σ × Touch)} (h : Trace m trace m')
    {told : List (List Value)} (hedits : ∀ x ∈ trace, ¬Edits p x) (hm : m.Settled p told) :
    m'.Settled p told := by
  induction h with
  | nil m => exact hm
  | cons h rest ih =>
    rw [forall_mem_cons] at hedits
    exact ih hedits.2 (h.settled hedits.1 hm)

/-! ## Frames -/

/-- All lists are shown at the end of a frame. -/
theorem shown_of_step {kit : Kit σ} {fuel : Nat} {done : List Thread}
    (h : step kit fuel m = some (done, m')) (hv : m'.variableAt? p = some v)
    (hlist : v.isList = true) : v.isShown = true := by
  rw [step_eq] at h
  obtain ⟨-, m₁, -, h⟩ := Run.bind_some.mp h
  obtain ⟨done', m₂, -, h⟩ := Run.bind_some.mp h
  obtain ⟨_, m₃, htell, h⟩ := Run.bind_some.mp h
  obtain ⟨-, rfl⟩ := Run.pure_some.mp h
  rw [← Run.modify_some.mp htell, variableAt?_reportLists] at hv
  obtain ⟨w, -, rfl⟩ := map_eq_some_iff.mp hv
  split at hlist
  · next hl => rw [if_pos hl]
  · next hl => exact absurd hlist hl

/-- What holds of a machine on which a project has just been installed. -/
theorem told_of_install {settings : Settings} {clock : Clock} {host : σ} {project : Project}
    {ids : List TargetId} (hproject : project.Fresh)
    (h : (Machine.new settings clock host).install? project = some (ids, m)) :
    m.Told ∧ m.Numbered := by
  have hnone (id : TargetId) : (Machine.new settings clock host).targets[id]? = none := rfl
  have hempty (p : Place) : (Machine.new settings clock host).variableAt? p = none := rfl
  have hall : m.Keyed ∧ m.Numbered ∧
      ∀ {p v}, m.variableAt? p = some v → v.isList = true → v.isShown = false := by
    refine install?_keeps (I := fun m => m.Keyed ∧ m.Numbered ∧
      ∀ {p v}, m.variableAt? p = some v → v.isList = true → v.isShown = false)
      (fun m t ht ⟨hkeyed, hnumbered, hunshown⟩ => ⟨⟨fun {id t'} ht' => ?_, fun {p v} hv => ?_⟩,
        hnumbered.addTarget t, fun {p v} hv => ?_⟩)
      ⟨⟨fun {id t} ht => ?_, fun {p v} hv => ?_⟩, numbered_new _ _ _, fun {p v} hv => ?_⟩ h
    · rw [addTarget_targets, getElem?_insert_target] at ht'
      split at ht'
      · next hid =>
        cases ht'
        exact hid
      · exact hkeyed.targets ht'
    · rw [variableAt?_addTarget] at hv
      split at hv
      · exact (hproject t ht p.id v hv).1
      · exact hkeyed.vars hv
    · rw [variableAt?_addTarget] at hv
      split at hv
      · exact (hproject t ht p.id v hv).2
      · exact hunshown hv
    · cases (hnone id).symm.trans ht
    · cases (hempty p).symm.trans hv
    · cases (hempty p).symm.trans hv
  obtain ⟨hkeyed, hnumbered, hunshown⟩ := hall
  refine ⟨⟨hkeyed, fun _ hv hlist hshown => ?_⟩, hnumbered⟩
  rw [hunshown hv hlist] at hshown
  cases hshown

end Machine

/-- A stage with two lists. When the flag is clicked, its script adds to the first list, makes an
edit of the second that does not take effect, and adds to a list that does not exist. -/
def Json.listed : Json :=
  .object [("targets", .array [.object [
    ("name", .text "Stage"),
    ("isStage", .bool true),
    ("lists", .object [
      ("names", .array [.text "names", .array [.text "a"]]),
      ("still", .array [.text "still", .array [.text "b"]])]),
    ("blocks", .array [
      .object [("id", .text "flag"), ("opcode", .text "event_whenflagclicked"),
        ("topLevel", .bool true), ("next", .text "add")],
      .object [("id", .text "add"), ("opcode", .text "data_addtolist"), ("next", .text "delete"),
        ("fields", .object [("LIST", .text "names")]),
        ("inputs", .object [("ITEM", .object [("shadow", .text "x")])])],
      .object [("id", .text "delete"), ("opcode", .text "data_deleteoflist"),
        ("next", .text "create"), ("fields", .object [("LIST", .text "still")]),
        ("inputs", .object [("INDEX", .object [("shadow", .text "x")])])],
      .object [("id", .text "create"), ("opcode", .text "data_addtolist"),
        ("fields", .object [("LIST", .array [.text "later", .text "later"])]),
        ("inputs", .object [("ITEM", .object [("shadow", .text "x")])])],
      .object [("id", .text "x"), ("opcode", .text "text"), ("shadow", .bool true),
        ("fields", .object [("TEXT", .text "x")])]])]])]

end BlockMachine

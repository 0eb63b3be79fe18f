import BlockMachine.Proofs.Machine.ListMonitors

/-!
# References without an id

A reference that has only a name carries the empty id, and is resolved like any other one, by its id
first. So a variable that is kept under the empty id is what all references without an id denote,
and what such a reference creates is kept under the empty id.

Two references without an id and with different names are apart exactly as long as each of them
finds a variable by its name and none is kept under the empty id in their reach. Then a change
through one of them leaves alone what the other one denotes. Otherwise they denote the same
variable.

The module is about `Machine.resolve` and `Machine.lookUp`.

## Results

* `alteration_stores`: one change through a reference.
* `references_apart_iff`: when two references denote different variables.
* `created_references_alias`: two that are created and denote the same one.

Left out are references with an id.
-/

namespace BlockMachine

open List Option

variable {σ : Type} {v : Variable}

/-- What is done through a reference: a variable is set, a list is edited. -/
inductive Alteration where
  | assign (value : Value)
  | edit (e : ListEdit)

namespace Alteration

/-- Whether the reference is one to a list. -/
def isList : Alteration → Bool
  | .assign _ => false
  | .edit _ => true

/-- Does it to the machine. -/
def apply (kit : Kit σ) (target : TargetId) (ref : VarRef) : Alteration → Service σ Unit
  | .assign value => Machine.setVariable kit target ref value
  | .edit e => Machine.editList target ref e

end Alteration

theorem Variable.edit_name (v : Variable) (limit : Nat) (d : Draw) (e : ListEdit) :
    (v.edit limit d e).name = v.name := by
  rw [edit_eq]
  split <;> rfl

namespace Machine

variable {m m' : Machine σ} {target : TargetId} {ref ref' : VarRef} {isList isList' : Bool}
  {p p' : Place}

/-- No variable in reach of the target is kept under the empty id. -/
def Unclaimed (m : Machine σ) (target : TargetId) : Prop :=
  ∀ owner ∈ m.owners target, m.variableAt? ⟨owner, ""⟩ = none

/-! ## What references denote -/

theorem findSome?_placeById? (hunclaimed : m.Unclaimed target) (hid : ref.id = "") :
    (m.owners target).findSome? (m.placeById? ref) = none := by
  refine findSome?_eq_none_iff.mpr fun owner howner => ?_
  rw [placeById?_eq, hid, hunclaimed owner howner]
  rfl

/-- Where no variable is kept under the empty id, a reference without an id is resolved by its
name. -/
theorem place?_unclaimed (hunclaimed : m.Unclaimed target) (hid : ref.id = "") :
    m.place? target ref isList = (m.owners target).findSome? (m.placeByName? ref isList) := by
  unfold place?
  dsimp only
  rw [findSome?_placeById? hunclaimed hid]
  rfl

/-- Where a variable is kept under the empty id, all references without an id denote one
variable. -/
theorem exists_place?_of_claimed (h : ¬m.Unclaimed target) : ∃ p, ∀ (ref : VarRef) (isList : Bool),
    ref.id = "" → m.place? target ref isList = some p := by
  have hsome : (m.owners target).findSome? (m.placeById? ⟨"", ""⟩) ≠ none := by
    intro hnone
    rw [findSome?_eq_none_iff] at hnone
    refine h fun owner howner => ?_
    have hplace := hnone owner howner
    rw [placeById?_eq] at hplace
    split at hplace
    · cases hplace
    · next hv => rwa [Bool.not_eq_true, Option.isSome_eq_false_iff, isNone_iff_eq_none] at hv
  obtain ⟨p, hp⟩ := Option.ne_none_iff_exists'.mp hsome
  refine ⟨p, fun ref isList hid => ?_⟩
  have hsame : m.placeById? ref = m.placeById? ⟨"", ""⟩ := by
    funext owner
    rw [placeById?_eq, placeById?_eq, hid]
  unfold place?
  dsimp only
  rw [hsame, hp]
  rfl

/-- What is found by its name has that name. -/
theorem Ready.name_of_place? (h : m.Ready target) (hunclaimed : m.Unclaimed target)
    (hid : ref.id = "") (hp : m.place? target ref isList = some p) (hv : m.variableAt? p = some v) :
    v.name = ref.name := by
  rw [place?_unclaimed hunclaimed hid] at hp
  obtain ⟨owner, -, howner⟩ := exists_of_findSome?_eq_some hp
  rw [placeByName?_eq] at howner
  obtain ⟨t, ht, howner⟩ := bind_eq_some_iff.mp howner
  obtain ⟨w, hw, rfl⟩ := map_eq_some_iff.mp howner
  have hmem := mem_of_find?_eq_some hw
  rw [Table.values_eq] at hmem
  obtain ⟨⟨k, w⟩, hentry, rfl⟩ := mem_map.mp hmem
  have hat : m.variableAt? ⟨owner, k⟩ = some w := by
    rw [variableAt?_eq, ht]
    exact Std.TreeMap.mem_toList_iff_getElem?_eq_some.mp hentry
  rw [h.keyed hat, hat] at hv
  cases hv
  have hname := find?_some hw
  simp only [Bool.and_eq_true, beq_iff_eq] at hname
  exact hname.1

/-! ## Creating variables -/

/-- What a reference without an id creates is what all references without an id denote. -/
theorem place?_of_created (hpresent : m.targets.contains target = true) (hid : ref.id = "")
    (hid' : ref'.id = "") (isList' : Bool) :
    (m.created target ref isList).place? target ref' isList' = some ⟨target, ""⟩ := by
  have hv := variableAt?_created hpresent ref isList
  rw [hid, ← hid'] at hv
  rw [place?_own hv, hid']

/-! ## Changing variables -/

/-- A variable of another name is found as before, when one keeps its name and its id. -/
theorem placeByName?_store {w : Variable} (hv : m.variableAt? p = some v) (hid : w.id = v.id)
    (hname : w.name = v.name) (hne : v.name ≠ ref.name) :
    (m.store p w).placeByName? ref isList = m.placeByName? ref isList := by
  funext owner
  rw [placeByName?_eq, placeByName?_eq, store, getElem?_onTarget]
  by_cases howner : p.owner = owner
  · subst howner
    rw [if_pos rfl, Option.bind_map]
    cases ht : m.targets[p.owner]? with
    | none => rfl
    | some t =>
      rw [variableAt?_eq, ht] at hv
      replace hv : t.vars[p.id]? = some v := hv
      -- the two tables agree in the ids of the variables that count, and in which ones these are
      let f : Variable → Bool × String := fun u => (u.name == ref.name && u.isList == isList, u.id)
      have hvalues : (t.vars.insert p.id w).values.map f = t.vars.values.map f := by
        refine Table.values_map_eq fun k => ?_
        rw [Table.getElem?_insert]
        split
        · next hk =>
          subst hk
          have hnot : (v.name == ref.name) = false := by simpa using hne
          rw [hv]
          simp [f, hid, hname, hnot]
        · rfl
      have hfind : ∀ vars : List Variable,
          (vars.find? fun u => u.name == ref.name && u.isList == isList).map
            (fun u => (⟨p.owner, u.id⟩ : Place)) =
          ((vars.map f).find? Prod.fst).map fun u => ⟨p.owner, u.2⟩ := by
        intro vars
        rw [find?_map, Option.map_map]
        rfl
      show Option.map _ ((t.vars.insert p.id w).values.find? _) =
        Option.map _ (t.vars.values.find? _)
      rw [hfind, hfind t.vars.values, hvalues]
  · rw [if_neg howner]

theorem Unclaimed.store (h : m.Unclaimed target) (hv : m.variableAt? p = some v) (w : Variable) :
    (m.store p w).Unclaimed target := by
  intro owner howner
  have hnone : m.variableAt? ⟨owner, ""⟩ = none := h owner howner
  have hne : ⟨owner, ""⟩ ≠ p := by
    rintro rfl
    rw [hnone] at hv
    cases hv
  rw [variableAt?_store, if_neg hne, hnone]

theorem rest_store_draw (m : Machine σ) (p : Place) (v : Variable) :
    (m.store p v).Rest (m.draw.2.store p v) := by
  unfold draw
  cases m.dice.roll
  exact .of_rest

/-- A change is stored where the reference finds its variable, which keeps its name and id. -/
theorem alteration_stores (kit : Kit σ) (c : Alteration)
    (hp : m.place? target ref c.isList = some p) (hv : m.variableAt? p = some v) :
    ∃ w : Variable, w.id = v.id ∧ w.name = v.name ∧
      (m.store p w).Rest (c.apply kit target ref m).2 := by
  have hlook : lookUp target ref c.isList m = (.ok (p, v), m) :=
    lookUp_eq (by rw [resolve_eq, hp]) hv
  cases c with
  | assign value =>
    refine ⟨v.set value, rfl, rfl, ?_⟩
    show Rest _ (setVariable kit target ref value m).2
    unfold setVariable
    rw [Service.bind_ok (show lookUp target ref false m = _ from hlook)]
    show Rest _ ((if v.isCloud && kit.devices.contains "cloud" then _ else _ : Service σ Unit)
      (m.store p (v.set value))).2
    split
    · exact (query_asked kit _ _ _).discarded (m.store p (v.set value)) |>.rest
    · exact Lasting.refl _
  | edit e =>
    show ∃ w : Variable, _ ∧ _ ∧ Rest _ (editList target ref e m).2
    unfold editList
    rw [Service.bind_ok (show lookUp target ref true m = _ from hlook)]
    by_cases hdraw : asksDraw e = true
    · refine ⟨v.edit m.settings.listItemLimit m.draw.1 e, edit_id _ _ _ _, v.edit_name _ _ _, ?_⟩
      simp only [hdraw, if_true]
      exact rest_store_draw m p (v.edit m.settings.listItemLimit m.draw.1 e)
    · refine ⟨v.edit m.settings.listItemLimit 0 e, edit_id _ _ _ _, v.edit_name _ _ _, ?_⟩
      simp only [hdraw]
      exact Lasting.refl _

/-- Changes through the first reference leave alone what the second one reads. -/
def Spares (kit : Kit σ) (target : TargetId) (ref : VarRef) (isList : Bool) (ref' : VarRef)
    (isList' : Bool) (m : Machine σ) : Prop :=
  ∀ c : Alteration, c.isList = isList → ∃ p v, lookUp target ref' isList' m = (.ok (p, v), m) ∧
    let m' := (c.apply kit target ref m).2
    lookUp target ref' isList' m' = (.ok (p, v), m')

/-- References to different variables spare each other. -/
theorem Ready.spares (kit : Kit σ) (h : m.Ready target) (hunclaimed : m.Unclaimed target)
    (hid : ref.id = "") (hid' : ref'.id = "") (hname : ref.name ≠ ref'.name)
    (hp : m.place? target ref isList = some p) (hp' : m.place? target ref' isList' = some p')
    (hne : p ≠ p') : Spares kit target ref isList ref' isList' m := by
  rintro c rfl
  obtain ⟨v, hv⟩ := h.found hp
  obtain ⟨v', hv'⟩ := h.found hp'
  obtain ⟨w, hwid, hwname, hrest⟩ := alteration_stores kit c hp hv
  refine ⟨p', v', lookUp_eq (by rw [resolve_eq, hp']) hv', ?_⟩
  have hvname : v.name ≠ ref'.name := by
    rw [h.name_of_place? hunclaimed hid hp hv]
    exact hname
  have hplace : (m.store p w).place? target ref' isList' = some p' := by
    rw [place?_unclaimed (hunclaimed.store hv w) hid', placeByName?_store hv hwid hwname hvname]
    rw [← hp', place?_unclaimed hunclaimed hid']
    rfl
  have hvar : (m.store p w).variableAt? p' = some v' := by
    rw [variableAt?_store, if_neg (Ne.symm hne), hv']
  exact lookUp_eq (by rw [resolve_eq, hrest.place?, hplace]) ((hrest.variableAt? p').trans hvar)

/-! ## Two references -/

/-- A reference is found, or it creates what it denotes from then on. -/
theorem Ready.lookUp_cases (h : m.Ready target) (ref : VarRef) (isList : Bool) :
    ∃ r m', lookUp target ref isList m = (.ok r, m') ∧ m'.Ready target ∧
      ((∃ p, m.place? target ref isList = some p) ∧ m' = m ∨
        m.place? target ref isList = none ∧ m' = m.created target ref isList) := by
  cases hp : m.place? target ref isList with
  | some p =>
    obtain ⟨v, hv⟩ := h.found hp
    exact ⟨_, m, lookUp_eq (by rw [resolve_eq, hp]) hv, h, .inl ⟨⟨p, rfl⟩, rfl⟩⟩
  | none =>
    have hresolve : resolve target ref isList m =
        (.ok ⟨target, ref.id⟩, m.created target ref isList) := by
      rw [resolve_eq, hp]
      exact if_pos h.present
    exact ⟨_, _, lookUp_eq hresolve (variableAt?_created h.present ref isList),
      h.addVariable _, .inr ⟨rfl, rfl⟩⟩

/-- References of different names that are found by them denote different variables. -/
theorem Ready.place?_ne (h : m.Ready target) (hunclaimed : m.Unclaimed target) (hid : ref.id = "")
    (hid' : ref'.id = "") (hname : ref.name ≠ ref'.name) (hp : m.place? target ref isList = some p)
    (hp' : m.place? target ref' isList' = some p') : p ≠ p' := by
  rintro rfl
  obtain ⟨v, hv⟩ := h.found hp
  refine hname ?_
  rw [← h.name_of_place? hunclaimed hid hp hv, h.name_of_place? hunclaimed hid' hp' hv]

/-- Each of the two references finds a variable, and none is kept under the empty id. -/
def FoundByName (m : Machine σ) (target : TargetId) (ref : VarRef) (isList : Bool) (ref' : VarRef)
    (isList' : Bool) : Prop :=
  m.Unclaimed target ∧ (m.place? target ref isList).isSome ∧ (m.place? target ref' isList').isSome

/-- Looking up two references changes nothing if both are found by name. Otherwise all references
without an id denote one variable afterwards. -/
theorem Ready.lookUp_two (h : m.Ready target) (hid : ref.id = "") (hid' : ref'.id = "")
    (isList isList' : Bool) :
    ∃ r r' m₁ m₂, lookUp target ref isList m = (.ok r, m₁) ∧
      lookUp target ref' isList' m₁ = (.ok r', m₂) ∧
      (m.FoundByName target ref isList ref' isList' ∧ m₂ = m ∨
        ¬m.FoundByName target ref isList ref' isList' ∧
          ∃ q, ∀ ref₀ isList₀, ref₀.id = "" → m₂.place? target ref₀ isList₀ = some q) := by
  obtain ⟨r, m₁, hlook, hready₁, hcases⟩ := h.lookUp_cases ref isList
  obtain ⟨r', m₂, hlook', -, hcases'⟩ := hready₁.lookUp_cases ref' isList'
  refine ⟨r, r', m₁, m₂, hlook, hlook', ?_⟩
  rcases hcases with ⟨⟨p, hp⟩, rfl⟩ | ⟨hnone, rfl⟩
  · rcases hcases' with ⟨⟨p', hp'⟩, rfl⟩ | ⟨hnone', rfl⟩
    · by_cases hunclaimed : m₂.Unclaimed target
      · exact .inl ⟨⟨hunclaimed, by rw [hp]; rfl, by rw [hp']; rfl⟩, rfl⟩
      · exact .inr ⟨fun hfound => hunclaimed hfound.1, exists_place?_of_claimed hunclaimed⟩
    · refine .inr ⟨fun hfound => ?_, ⟨target, ""⟩, fun _ _ hid₀ => ?_⟩
      · exact absurd hfound.2.2 (by simp [hnone'])
      · exact place?_of_created h.present hid' hid₀ _
  · -- what the first reference has created is there when the second one is looked up
    have hcreated : ∀ ref₀ isList₀, ref₀.id = "" →
        (m.created target ref isList).place? target ref₀ isList₀ = some ⟨target, ""⟩ :=
      fun _ _ hid₀ => place?_of_created h.present hid hid₀ _
    rcases hcases' with ⟨-, rfl⟩ | ⟨hnone', -⟩
    · refine .inr ⟨fun hfound => ?_, ⟨target, ""⟩, hcreated⟩
      exact absurd hfound.2.1 (by simp [hnone])
    · rw [hcreated ref' isList' hid'] at hnone'
      cases hnone'

/-- The targets of a machine that has been run are ready. -/
theorem ready_of_play {kit : Kit σ} {settings : Settings} {clock : Clock} {host : σ}
    {project : Project} {ids : List TargetId} {m₀ : Machine σ} {ops : List (Operation × Nat)}
    {done : List Thread} (hproject : project.Fresh)
    (hinstall : (Machine.new settings clock host).install? project = some (ids, m₀))
    (hplay : Machine.play kit ops m₀ = some (done, m))
    (hpresent : m.targets.contains target = true) :
    m.Ready target := by
  obtain ⟨trace, htrace⟩ := play_traced hplay
  have hkeyed : m.Keyed :=
    (htrace.keeps Touched.keyed (told_of_install hproject hinstall).1.toKeyed).1
  exact ⟨hpresent, hkeyed.vars⟩

/-- **Which references without an id are apart.** Two such references of different names, looked up
one after the other, denote different variables exactly where each of them was found by its name.
Then no change through one of them is seen through the other. -/
theorem references_apart_iff (kit : Kit σ) (h : m.Ready target) (hid : ref.id = "")
    (hid' : ref'.id = "") (hname : ref.name ≠ ref'.name) (isList isList' : Bool) :
    ∃ r r' m₁ m₂, lookUp target ref isList m = (.ok r, m₁) ∧
      lookUp target ref' isList' m₁ = (.ok r', m₂) ∧
      ∃ p p', m₂.place? target ref isList = some p ∧ m₂.place? target ref' isList' = some p' ∧
        (p ≠ p' ↔ m.FoundByName target ref isList ref' isList') ∧
        (p ≠ p' → Spares kit target ref isList ref' isList' m₂ ∧
          Spares kit target ref' isList' ref isList m₂) := by
  obtain ⟨r, r', m₁, m₂, hlook, hlook', hcases⟩ := h.lookUp_two hid hid' isList isList'
  refine ⟨r, r', m₁, m₂, hlook, hlook', ?_⟩
  rcases hcases with ⟨hfound, rfl⟩ | ⟨hnot, q, hq⟩
  · obtain ⟨p, hp⟩ := isSome_iff_exists.mp hfound.2.1
    obtain ⟨p', hp'⟩ := isSome_iff_exists.mp hfound.2.2
    have hne := h.place?_ne hfound.1 hid hid' hname hp hp'
    refine ⟨p, p', hp, hp', iff_of_true hne hfound, fun _ => ?_⟩
    exact ⟨h.spares kit hfound.1 hid hid' hname hp hp' hne,
      h.spares kit hfound.1 hid' hid hname.symm hp' hp hne.symm⟩
  · refine ⟨q, q, hq ref isList hid, hq ref' isList' hid', ?_, fun hne => absurd rfl hne⟩
    exact iff_of_false (fun hne => hne rfl) hnot

end Machine

theorem Except.toOption_eq_some {ε α : Type} {x : Except ε α} {a : α} (h : x.toOption = some a) :
    x = .ok a := by
  cases x with
  | error e => cases h
  | ok b =>
    cases h
    rfl

/-- A stage with a variable and a list, and a sprite with neither. -/
def Json.named : Json :=
  .object [("targets", .array [
    .object [
      ("name", .text "Stage"),
      ("isStage", .bool true),
      ("variables", .object [("v", .array [.text "score", .text "none"])]),
      ("lists", .object [("l", .array [.text "names", .array [.text "a"]])])],
    .object [("name", .text "Cat"), ("isStage", .bool false)]])]

/-- The sprite's references to the variable and to the list by their names are apart. -/
theorem score_and_names_apart :
    ∃ (project : Project) (ids : List TargetId) (m₀ m : Machine Unit) (done : List Thread),
      Project.decode .named = .ok project ∧
      (Machine.new {} { tick := 5.0 } ()).install? project = some (ids, m₀) ∧
      Machine.play { Library.core with } [(.step, 60)] m₀ = some (done, m) ∧
      m.place? 1 ⟨"", "score"⟩ false = some ⟨0, "v"⟩ ∧
        m.place? 1 ⟨"", "names"⟩ true = some ⟨0, "l"⟩ ∧
      Machine.Spares { Library.core with } 1 ⟨"", "score"⟩ false ⟨"", "names"⟩ true m ∧
      Machine.Spares { Library.core with } 1 ⟨"", "names"⟩ true ⟨"", "score"⟩ false m := by
  have hrun : ((Project.decode .named).toOption.bind fun project =>
      ((Machine.new {} { tick := 5.0 } ()).install? project).bind fun x =>
        (Machine.play { Library.core with } [(.step, 60)] x.2).map fun y =>
          (y.2.targets.contains 1, y.2.place? 1 ⟨"", "score"⟩ false,
            y.2.place? 1 ⟨"", "names"⟩ true)) =
      some (true, some ⟨0, "v"⟩, some ⟨0, "l"⟩) := by decide +kernel
  obtain ⟨project, hread, hrun⟩ := bind_eq_some_iff.mp hrun
  have hdecode := Except.toOption_eq_some hread
  obtain ⟨⟨ids, m₀⟩, hinstall, hrun⟩ := bind_eq_some_iff.mp hrun
  obtain ⟨⟨done, m⟩, hplay, hplaces⟩ := map_eq_some_iff.mp hrun
  simp only [Prod.mk.injEq] at hplaces
  obtain ⟨hpresent, hscore, hnames⟩ := hplaces
  have hready := Machine.ready_of_play (Project.fresh_of_decode hdecode) hinstall hplay hpresent
  have hid (name : String) : (⟨"", name⟩ : VarRef).id = "" := rfl
  obtain ⟨r, r', m₁, m₂, hlook, hlook', p, p', hp, hp', -, hspares⟩ :=
    Machine.references_apart_iff { Library.core with } hready (hid "score") (hid "names")
      (by decide) false true
  -- both are found, so that looking them up leaves the machine as it is
  obtain ⟨v, hv⟩ := hready.found hscore
  cases hlook.symm.trans (Machine.lookUp_eq (by rw [Machine.resolve_eq, hscore]) hv)
  obtain ⟨l, hl⟩ := hready.found hnames
  cases hlook'.symm.trans (Machine.lookUp_eq (by rw [Machine.resolve_eq, hnames]) hl)
  cases hp.symm.trans hscore
  cases hp'.symm.trans hnames
  exact ⟨project, ids, m₀, m, done, hdecode, hinstall, hplay, hscore, hnames, hspares (by decide)⟩

/-- A sprite that sets two variables which only have names reads what it set last in both of
them. -/
theorem created_references_alias :
    ((Project.decode .named).toOption.bind fun project =>
      ((Machine.new {} { tick := 5.0 } ()).install? project).map fun x =>
        ((do
          Machine.setVariable { Library.core with } 1 ⟨"", "first"⟩ (.text "x")
          Machine.setVariable { Library.core with } 1 ⟨"", "second"⟩ (.text "y")
          Machine.readVariable 1 ⟨"", "first"⟩ : Service Unit Value) x.2).1.toOption.map
            Value.toText) =
      some (some "y") := by
  decide +kernel

end BlockMachine

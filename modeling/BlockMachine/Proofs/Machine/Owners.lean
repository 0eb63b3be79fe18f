import BlockMachine.Proofs.Machine.Touches

/-!
# Whose variables a turn changes

Most core blocks write no variables but those that a reference of theirs denotes, on the target of
the thread or on the stage, and create what they do not find on the target (`Library.core_near`). So
do the instructions that they are compiled to. Hence a turn that runs nothing else leaves the
variables of all other targets alone, the clones and the original of the target among them, and
changes only what is written through the references of what it runs
(`Machine.turn_keeps_to_owners`).

The module is about `Machine.turn` and what is run in it (`Machine.turnRuns`).

## Results

* `Library.core_near`: what the primitives of the core blocks ask for.
* `Machine.turn_keeps_to_owners`: the variables that a turn may have changed or created.

Left out are turns that stop, clone or send, which may start scripts of other targets.
-/

namespace BlockMachine

open List Option

variable {σ α : Type} {opcode : String} {primitive : Primitive σ} {m : Machine σ} {s : Turn σ}
  {args : Args}

/-! ## Blocks -/

/-- **What most core blocks ask for stays with their thread.** -/
theorem Library.core_near (h : (core : Catalog σ).primitive? opcode = some primitive)
    (hnear : isNear opcode = true) (args : Args) : (primitive args).Only (IsNear opcode args) := by
  have hcore := core_requests h args
  generalize primitive args = a at hcore ⊢
  induction hcore with
  | done r => trivial
  | fail e => trivial
  | ask _ hr _ ih => exact ⟨hr hnear, ih⟩
  | move _ hr => exact ⟨hr hnear, fun _ => trivial⟩
  | removeTarget hfar =>
    rw [hnear] at hfar
    cases hfar

namespace Ran

/-- The opcode of a block that is run through its primitive. -/
def opcode? : Ran → Option String
  | .block b => some b.opcode
  | .instr (.primitive c) => some c.opcode
  | .instr _ => none

/-- Whether what is run stays with its thread. -/
def isNear : Ran → Bool
  | .instr (.stop _) => false
  | x => x.opcode?.all Library.isNear

/-- The reference that is written through. -/
def writes? : Ran → Option VarRef
  | .block b => Library.writes? b.opcode (.ofFields b.opcode b.mutation b.fields)
  | .instr (.primitive c) => Library.writes? c.opcode (.ofFields c.opcode c.mutation c.fields)
  | .instr i => i.writes?

end Ran

/-! ## Turns -/

/-- What may happen to variables on behalf of a target that writes through some references. -/
def Touch.Within (target : TargetId) (P : VarRef → Prop) : Touch → Prop
  | .other => True
  | .create owner _ _ => owner = target
  | .assign owner ref _ | .edit owner ref _ _ => owner = target ∧ P ref
  | .clone _ | .remove _ | .tellLists => False

namespace Turn

open Exec Machine

/-- Nothing has happened to variables but on behalf of the thread, with writes through some
references only. -/
structure Confined (P : VarRef → Prop) (s s' : Turn σ) : Prop where
  same : s.thread.Same s'.thread
  trace : ∃ trace, Trace s.machine trace s'.machine ∧ ∀ x ∈ trace, x.2.Within s.thread.target P

variable {P : VarRef → Prop}

instance : Lasting (Confined P : Turn σ → Turn σ → Prop) where
  refl s := ⟨.refl _, [], .nil _, by simp⟩
  trans {s s₁ s₂} := by
    rintro ⟨hsame, trace, htrace, hwithin⟩ ⟨hsame', trace', htrace', hwithin'⟩
    refine ⟨hsame.trans hsame', trace ++ trace', htrace.append htrace', ?_⟩
    rw [forall_mem_append]
    rw [hsame.target] at hwithin'
    exact ⟨hwithin, hwithin'⟩

theorem confined_of_touched {touch : Touch} (h : s.machine.Touched touch m)
    (hwithin : touch.Within s.thread.target P) : Confined P s { s with machine := m } :=
  ⟨.refl _, _, .single h, by simpa using hwithin⟩

theorem confined_lax : Lax (Confined P : Turn σ → Turn σ → Prop) where
  thread h := ⟨h, [], .nil _, by simp⟩
  reads t :=
    { rest := fun h => confined_of_touched (s := ⟨_, t⟩) (.other h.alike) trivial
      create := fun hplace hpresent => confined_of_touched (s := ⟨_, t⟩)
        (.create hplace hpresent) rfl }

theorem confined_writes {ref : VarRef} (href : P ref) :
    Writes (Confined P : Turn σ → Turn σ → Prop) ref :=
  fun t =>
    { assign := fun value hplace hv =>
        confined_of_touched (s := ⟨_, t⟩) (.assign value hplace hv) ⟨rfl, href⟩
      edit := fun d e hplace hv =>
        confined_of_touched (s := ⟨_, t⟩) (.edit d e hplace hv) ⟨rfl, href⟩ }

theorem confined_notes : Notes (Confined P : Turn σ → Turn σ → Prop) := fun s _ _ =>
  confined_of_touched (.other (alike_edgeFires s.machine _ _ _)) trivial

theorem confined_fail (s : Turn σ) (e : BlockError) : Confined P s (s.fail e) := by
  have htell : s.machine.Touched .other (s.machine.reportError s.thread e) :=
    .other (alike_emit _ rfl)
  exact ⟨⟨rfl, rfl, rfl, rfl, rfl⟩, _, .single htell, by simp [Touch.Within]⟩

variable {kit : Kit σ}

theorem writes?_congr {args' : Args} (h : args.fields = args'.fields) :
    Library.writes? opcode args = Library.writes? opcode args' := by
  unfold Library.writes? Args.ref Args.ref?
  rw [h]

theorem insertAll_fields (values : List (String × Value)) (args : Args) :
    (values.foldl (fun args (name, v) => args.insert name v) args).fields = args.fields := by
  induction values generalizing args with
  | nil => rfl
  | cons v values ih => exact ih _

variable (hkit : ∀ opcode, Library.isNear opcode = true →
  kit.primitive? opcode = Library.core.primitive? opcode)

include hkit

/-- A call of a core block writes through its own reference. -/
theorem run_confined (hprimitive : kit.primitive? opcode = some primitive)
    (hnear : Library.isNear opcode = true) (hwrites : ∀ ref, Library.writes? opcode args =
      some ref → P ref)
    (predicate : Exec (Turn σ) Unit) (mode : Mode) :
    Keeps (Call.On (Confined P)) (Call.run kit predicate mode (primitive args)) := by
  rw [hkit opcode hnear] at hprimitive
  refine Call.run_only (fun r hr => ?_) (Library.core_near hprimitive hnear args)
  exact Call.perform_near confined_lax predicate mode hr.1 fun ref href =>
    confined_writes (hwrites ref (hr.2 ref href))

/-- A block that stays with its thread writes through its own reference. -/
theorem block_confined (fuel : Nat) {b : Block} (hnear : (Ran.block b).isNear = true)
    (hwrites : ∀ ref, (Ran.block b).writes? = some ref → P ref) :
    b.Keeps kit (Confined P) fuel := by
  intro primitive hprimitive args hfields
  refine run_confined hkit hprimitive (by simpa [Ran.isNear, Ran.opcode?] using hnear)
    (fun ref href => ?_) _ _
  exact hwrites ref ((writes?_congr hfields).symm.trans href)

theorem instr_confined {i : Instr Script} (hnear : (Ran.instr i).isNear = true)
    (hwrites : ∀ ref, (Ran.instr i).writes? = some ref → P ref) (fuel pc : Nat) :
    Keeps (Confined P) (runInstr kit fuel pc i) := by
  refine runInstr_lax confined_lax fuel pc i (fun ref href => ?_) (fun c hc => ?_)
    fun option hoption => ?_
  · refine confined_writes (hwrites ref ?_)
    cases i <;> first | exact href | cases href
  · subst hc
    refine callPrimitive_lax confined_lax pc fun primitive hprimitive values warp => ?_
    refine run_confined hkit hprimitive (by simpa [Ran.isNear, Ran.opcode?] using hnear)
      (fun ref href => ?_) _ _
    exact hwrites ref ((writes?_congr (insertAll_fields values _)).symm.trans href)
  · subst hoption
    cases hnear

/-- A turn in which everything that is run stays with its thread writes through their references. -/
theorem turn_confined {fuel i : Nat} {t : Thread}
    (hnear : ∀ x ∈ m.turnRuns kit fuel i t, x.isNear = true) (h : m.turn kit fuel i t = some s) :
    Confined (fun ref => ∃ x ∈ m.turnRuns kit fuel i t, x.writes? = some ref)
      ⟨{ m with threads := m.threads.set i t.placeholder }, t⟩ s := by
  have hblocks := fun fuel' b hb =>
    block_confined (P := fun ref => ∃ x ∈ m.turnRuns kit fuel i t, x.writes? = some ref) hkit fuel'
      (hnear (.block b) hb) fun ref href => ⟨_, hb, href⟩
  have hinstrs := fun instr hinstr =>
    instr_confined (P := fun ref => ∃ x ∈ m.turnRuns kit fuel i t, x.writes? = some ref) hkit
      (hnear (.instr instr) hinstr) fun ref href => ⟨_, hinstr, href⟩
  unfold Machine.turn at h
  dsimp only at h
  split at h
  · next hwaits =>
    refine await_ran confined_lax confined_notes (fun fuel _ => hblocks fuel) hinstrs confined_fail
      h fun x hx => ?_
    unfold Machine.turnRuns
    rwa [if_pos hwaits]
  · next hwaits =>
    refine step_ran confined_lax confined_notes (fun fuel _ => hblocks fuel) hinstrs confined_fail h
      fun x hx => ?_
    unfold Machine.turnRuns
    rwa [if_neg hwaits]

end Turn

/-! ## Owners -/

namespace Machine

variable {m m' : Machine σ} {target : TargetId} {ref : VarRef} {P : VarRef → Prop} {touch : Touch}

/-- A reference denotes variables of its target and of the stage only. -/
theorem place?_owner {isList : Bool} {p : Place} (h : m.place? target ref isList = some p) :
    p.owner = target ∨ m.stage = some p.owner := by
  have howners : ∀ owner ∈ m.owners target, owner = target ∨ m.stage = some owner := by
    intro owner howner
    simp only [owners, mem_cons, Option.mem_toList, filter_eq_some_iff] at howner
    exact howner.imp_right And.left
  unfold place? at h
  dsimp only at h
  rcases Option.or_eq_some_iff.mp ((Option.orElse_eq_or ..).symm.trans h) with h | ⟨-, h⟩
  · obtain ⟨owner, hmem, hplace⟩ := exists_of_findSome?_eq_some h
    rw [placeById?_eq] at hplace
    split at hplace
    · cases hplace
      exact howners owner hmem
    · cases hplace
  · obtain ⟨owner, hmem, hplace⟩ := exists_of_findSome?_eq_some h
    rw [placeByName?_eq] at hplace
    obtain ⟨t, -, hplace⟩ := bind_eq_some_iff.mp hplace
    obtain ⟨v, -, rfl⟩ := map_eq_some_iff.mp hplace
    exact howners owner hmem

/-- What happens on behalf of a target does not change the variables of a target that is neither
that one nor the stage. -/
theorem Touched.others (h : m.Touched touch m') (hwithin : touch.Within target P) :
    m'.stage = m.stage ∧ ∀ id, id ≠ target → m.stage ≠ some id →
      m'.targets[id]?.map Target.vars = m.targets[id]?.map Target.vars := by
  have hstore : ∀ {ref isList p} (v : Variable), m.place? target ref isList = some p →
    ∀ id, id ≠ target →
      m.stage ≠ some id →
        (m.store p v).targets[id]?.map Target.vars = m.targets[id]?.map Target.vars := by
    intro ref isList p v hplace id hid hstage
    have hp : p.owner ≠ id := by
      rintro rfl
      rcases place?_owner hplace with h | h
      · exact hid h
      · exact hstage h
    rw [store, getElem?_onTarget, if_neg hp]
  cases h with
  | other h => exact ⟨h.stage, fun id _ _ => h.eq_of_edges (fun _ => rfl) id⟩
  | create hplace hpresent =>
    cases hwithin
    exact ⟨rfl, fun id hid _ => by rw [created, getElem?_onTarget, if_neg (Ne.symm hid)]⟩
  | assign value hplace hv =>
    cases hwithin.1
    exact ⟨rfl, hstore _ hplace⟩
  | edit d e hplace hv =>
    cases hwithin.1
    exact ⟨rfl, hstore _ hplace⟩
  | clone | remove | tellLists => cases hwithin

/-- What happens on behalf of a target keeps the variables that no reference denotes, and creates
variables on the target only. -/
theorem Touched.unless_denoted (h : m.Touched touch m') (hwithin : touch.Within target P)
    (p : Place) :
    m'.variableAt? p = m.variableAt? p ∨
      (∃ ref isList, P ref ∧ m.place? target ref isList = some p) ∨
      p.owner = target ∧ m.variableAt? p = none := by
  cases h with
  | other h => exact .inl (h.variableAt? p)
  | @create owner ref isList hplace hpresent =>
    cases hwithin
    rw [created, variableAt?_addVariable]
    split
    · next hp =>
      rw [fresh_id] at hp
      rw [hp]
      refine .inr (.inr ⟨rfl, Option.eq_none_iff_forall_ne_some.mpr fun v hv => ?_⟩)
      rw [place?_own hv] at hplace
      cases hplace
    · exact .inl rfl
  | @assign owner ref q v value hplace hv =>
    obtain ⟨rfl, href⟩ := hwithin
    rw [variableAt?_store]
    split
    · next hp => exact .inr (.inl ⟨ref, false, href, hp ▸ hplace⟩)
    · exact .inl rfl
  | @edit owner ref q v d e hplace hv =>
    obtain ⟨rfl, href⟩ := hwithin
    rw [variableAt?_store]
    split
    · next hp => exact .inr (.inl ⟨ref, true, href, hp ▸ hplace⟩)
    · exact .inl rfl
  | clone | remove | tellLists => cases hwithin

variable {trace : List (Machine σ × Touch)}

theorem Trace.others (h : Trace m trace m') (hwithin : ∀ x ∈ trace, x.2.Within target P) :
    m'.stage = m.stage ∧ ∀ id, id ≠ target → m.stage ≠ some id →
      m'.targets[id]?.map Target.vars = m.targets[id]?.map Target.vars := by
  induction h with
  | nil m => exact ⟨rfl, fun _ _ _ => rfl⟩
  | cons h rest ih =>
    rw [forall_mem_cons] at hwithin
    obtain ⟨hstage, hothers⟩ := h.others hwithin.1
    obtain ⟨hstage', hothers'⟩ := ih hwithin.2
    refine ⟨hstage'.trans hstage, fun id hid hid' => ?_⟩
    exact (hothers' id hid (hstage ▸ hid')).trans (hothers id hid hid')

theorem Trace.unless_denoted (h : Trace m trace m') (hwithin : ∀ x ∈ trace, x.2.Within target P)
    (p : Place) :
    m'.variableAt? p = m.variableAt? p ∨
      (∃ ref isList, P ref ∧ ∃ x ∈ trace, x.1.place? target ref isList = some p) ∨
      p.owner = target ∧ m.variableAt? p = none := by
  induction h with
  | nil m => exact .inl rfl
  | cons h rest ih =>
    rw [forall_mem_cons] at hwithin
    rcases h.unless_denoted hwithin.1 p with hkept | ⟨ref, isList, href, hplace⟩ | hnew
    · rcases ih hwithin.2 with hkept' | ⟨ref, isList, href, x, hx, hplace⟩ | ⟨howner, hnew⟩
      · exact .inl (hkept'.trans hkept)
      · exact .inr (.inl ⟨ref, isList, href, x, mem_cons_of_mem _ hx, hplace⟩)
      · exact .inr (.inr ⟨howner, hkept ▸ hnew⟩)
    · exact .inr (.inl ⟨ref, isList, href, _, mem_cons_self, hplace⟩)
    · exact .inr (.inr hnew)

/-! ## Clones -/

open Run in
/-- A clone has the variables of its source that are no cloud variables, and the variables of no
other target change. -/
theorem createClone_vars {kit : Kit σ} (h : kit.hasPrimitive "control_start_as_clone" = false)
    {predicate : Exec (Turn σ) Unit} {source id : TargetId}
    (hclone : createClone kit.toCatalog predicate source m = some (some id, m')) :
    id = m.nextTarget ∧ ∀ id', m'.targets[id']?.map Target.vars =
      if id' = id then m.targets[source]?.map fun t => t.vars.filter fun _ v => !v.isCloud
      else m.targets[id']?.map Target.vars := by
  have : Lasting fun m m' : Machine σ => m'.targets = m.targets :=
    ⟨fun _ => rfl, fun h h' => h'.trans h⟩
  have hstart : Keeps (fun m m' : Machine σ => m'.targets = m.targets)
      (startHats kit.toCatalog predicate "control_start_as_clone" [] (some m.nextTarget)) :=
    startHats_along (startScript_unasked (fun h => h.same) (fun _ _ _ => rfl) h) _ _
  rcases createClone_cases hclone with ⟨-, hnone, -⟩ | ⟨id₁, m₁, ids, hadd, heq, hhats⟩
  · cases hnone
  · cases heq
    obtain ⟨t, ht, -, -, rfl, hm₁⟩ := addClone?_some hadd
    refine ⟨rfl, fun id' => ?_⟩
    rw [hstart _ _ _ hhats, hm₁]
    show ((m.targets.insert m.nextTarget _)[id']?).map _ = _
    rw [getElem?_insert_target]
    by_cases hid : id' = m.nextTarget
    · rw [if_pos hid, if_pos hid.symm, ht]
      rfl
    · rw [if_neg hid, if_neg (Ne.symm hid)]

/-- **The effects of a turn on variables stay with their owners.** A turn that runs core blocks
other than those that stop, clone or send changes no variables but those of its target and of the
stage. It keeps those that no reference of what it runs denotes when it is written through, and
creates variables on its target only. A clone begins with the variables of its source, without the
cloud variables. -/
theorem turn_keeps_to_owners {kit : Kit σ} {fuel i : Nat} {t : Thread} {s : Turn σ}
    (hkit : ∀ opcode, Library.isNear opcode = true →
      kit.primitive? opcode = Library.core.primitive? opcode)
    (hnear : ∀ x ∈ m.turnRuns kit fuel i t, x.isNear = true)
    (hturn : m.turn kit fuel i t = some s) :
    (∀ id, id ≠ t.target → m.stage ≠ some id →
      s.machine.targets[id]?.map Target.vars = m.targets[id]?.map Target.vars) ∧
    (∃ trace, Trace m trace s.machine ∧
      (∀ y ∈ trace, y.2.Within t.target fun ref =>
        ∃ x ∈ m.turnRuns kit fuel i t, x.writes? = some ref) ∧
      ∀ p, s.machine.variableAt? p = m.variableAt? p ∨
        (∃ ref isList, (∃ x ∈ m.turnRuns kit fuel i t, x.writes? = some ref) ∧
          ∃ y ∈ trace, y.1.place? t.target ref isList = some p) ∨
        p.owner = t.target ∧ m.variableAt? p = none) ∧
    ∀ predicate source id (m m' : Machine σ), kit.hasPrimitive "control_start_as_clone" = false →
      createClone kit.toCatalog predicate source m = some (some id, m') →
      id = m.nextTarget ∧ ∀ id', m'.targets[id']?.map Target.vars =
        if id' = id then m.targets[source]?.map fun t => t.vars.filter fun _ v => !v.isCloud
        else m.targets[id']?.map Target.vars := by
  have hplace : Touched m .other { m with threads := m.threads.set i t.placeholder } :=
    .other (alike_threads m _ _)
  obtain ⟨-, trace, htrace, hwithin⟩ := Turn.turn_confined hkit hnear hturn
  have hall : Trace m ((m, .other) :: trace) s.machine := .cons hplace htrace
  have hwithin' : ∀ y ∈ (m, Touch.other) :: trace, y.2.Within t.target fun ref =>
      ∃ x ∈ m.turnRuns kit fuel i t, x.writes? = some ref :=
    forall_mem_cons.mpr ⟨trivial, hwithin⟩
  exact ⟨(hall.others hwithin').2, ⟨_, hall, hwithin', hall.unless_denoted hwithin'⟩,
    fun _ _ _ _ _ h hclone => createClone_vars h hclone⟩

end Machine

/-- Two sprites that each have a variable of one id. When the flag is clicked, the second one sets
its variable to what the variable of the stage holds, changes the variable of the stage and adds to
a list that does not exist. -/
def Project.owning : Project where
  targets := [
    (Target.stage (.ofBlocks [])).addVariable (.scalar "shared" "shared" (.text "a")),
    ({ name := "First", isStage := false, sheet := .ofBlocks [] } : Target).addVariable
      (.scalar "own" "own" (.text "o")),
    ({ name := "Second", isStage := false, sheet := .ofBlocks [
      { id := "flag", opcode := "event_whenflagclicked", isTopLevel := true, next := some "set" },
      { id := "set", opcode := "data_setvariableto", next := some "share",
        fields := Table.of [("VARIABLE", { value := .text "own", id := some "own" })],
        inputs := Table.of [("VALUE", { block := some "read" })] },
      { id := "read", opcode := "data_variable",
        fields := Table.of [("VARIABLE", { value := .text "shared", id := some "shared" })] },
      { id := "share", opcode := "data_setvariableto", next := some "add",
        fields := Table.of [("VARIABLE", { value := .text "shared", id := some "shared" })],
        inputs := Table.of [("VALUE", { block := some "yes" })] },
      { id := "add", opcode := "data_addtolist",
        fields := Table.of [("LIST", { value := .text "later", id := some "later" })],
        inputs := Table.of [("ITEM", { block := some "yes" })] },
      { id := "yes", opcode := "operator_not" }] } : Target).addVariable
      (.scalar "own" "own" (.text "o"))]

/-- The texts of the variables of the project and of the list that its script creates. -/
def Machine.owningTexts (m : Machine σ) : List (Option String) :=
  [⟨0, "shared"⟩, ⟨1, "own"⟩, ⟨2, "own"⟩, ⟨2, "later"⟩].map fun p =>
    (m.variableAt? p).map fun v => v.get.toText

/-- The turn of the second sprite leaves the variable of the first one alone. -/
theorem owning_keeps_to_owners :
    ∃ (m : Machine Unit) (t : Thread) (s : Turn Unit),
      t.target = 2 ∧ m.stage = some 0 ∧ (m.turnRuns { Library.core with } 60 0 t).length = 6 ∧
      m.turn { Library.core with } 60 0 t = some s ∧
      m.owningTexts = [some "a", some "o", some "o", none] ∧
      s.machine.owningTexts = [some "true", some "o", some "a", some "true"] ∧
      s.machine.targets[1]?.map Target.vars = m.targets[1]?.map Target.vars := by
  have hrun : (((Machine.new { compilerEnabled := false } { tick := 5.0 } ()).install? .owning).bind
    fun x =>
      (Machine.play { Library.core with } [(.greenFlag, 60)] x.2).bind fun y =>
        y.2.threads[0]?.bind fun t =>
          (y.2.turn { Library.core with } 60 0 t).map fun s =>
            ((t.target, y.2.stage), (y.2.turnRuns { Library.core with } 60 0 t).map Ran.isNear,
              y.2.owningTexts, s.machine.owningTexts)) =
      some ((2, some 0), [true, true, true, true, true, true], [some "a", some "o", some "o", none],
        [some "true", some "o", some "a", some "true"]) := by decide +kernel
  obtain ⟨⟨ids, m₀⟩, -, hrun⟩ := bind_eq_some_iff.mp hrun
  obtain ⟨⟨done, m⟩, -, hrun⟩ := bind_eq_some_iff.mp hrun
  obtain ⟨t, -, hrun⟩ := bind_eq_some_iff.mp hrun
  obtain ⟨s, hturn, hrun⟩ := map_eq_some_iff.mp hrun
  simp only [Prod.mk.injEq] at hrun
  obtain ⟨⟨htarget, hstage⟩, hruns, hbefore, hafter⟩ := hrun
  have hnear : ∀ x ∈ m.turnRuns { Library.core with } 60 0 t, x.isNear = true := by
    intro x hx
    have hmem := mem_map_of_mem (f := Ran.isNear) hx
    rw [hruns] at hmem
    simpa using hmem
  have hlength := congrArg length hruns
  rw [length_map] at hlength
  have hothers := (Machine.turn_keeps_to_owners (fun _ _ => rfl) hnear hturn).1
  refine ⟨m, t, s, htarget, hstage, hlength, hturn, hbefore, hafter, hothers 1 ?_ ?_⟩
  · rw [htarget]
    decide
  · rw [hstage]
    decide

end BlockMachine

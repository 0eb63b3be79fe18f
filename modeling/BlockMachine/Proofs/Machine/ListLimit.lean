import BlockMachine.Proofs.ListEdit
import BlockMachine.Proofs.Machine.Touches

/-!
# The limit of list items

No list gets longer than the limit, or than the longest list of the project where that is longer,
and a list that is within the limit stays within it (`Machine.lists_stay_within_limit`). Whatever
happens to the variables of a machine keeps the bound (`Machine.Touched.bounded`), and a list that
is too long was so before or is a copy on a new clone (`Machine.Touched.within`).

The module is about `Variable.edit` and `Machine.editList`, and all else that touches variables.

## Results

* `Machine.Touched.bounded`, `Machine.Touched.within`: one touch.
* `Machine.lists_stay_within_limit`: all touches of a run, and what the blocks do at the limit.

Left out are settings that change on the way.
-/

namespace BlockMachine

open List

variable {σ : Type} {v : Variable} {p : Place}

/-- The length of the longest list of a project. -/
def Project.longestList (project : Project) : Nat :=
  ((project.targets.flatMap fun t => t.vars.values).map fun v => v.items.length).max?.getD 0

theorem Project.length_le_longestList {project : Project} {t : Target} (ht : t ∈ project.targets)
    {k : String} (hv : t.vars[k]? = some v) : v.items.length ≤ project.longestList := by
  refine le_max?_getD_of_mem (mem_map.mpr ⟨v, mem_flatMap.mpr ⟨t, ht, ?_⟩, rfl⟩)
  rw [Table.values_eq]
  exact mem_map.mpr ⟨(k, v), Std.TreeMap.mem_toList_iff_getElem?_eq_some.mpr hv, rfl⟩

namespace Machine

variable {m m' : Machine σ} {bound : Nat} {touch : Touch}

/-- A variable that is there after a touch was there before and has grown up to the limit at most,
or holds no items, or is a copy on a new clone. -/
theorem Touched.length_cases (h : m.Touched touch m') {v' : Variable}
    (hv' : m'.variableAt? p = some v') :
    (∃ v, m.variableAt? p = some v ∧
      v'.items.length ≤ max m.settings.listItemLimit v.items.length) ∨
      v'.items = [] ∨
      p.owner = m.nextTarget ∧ ∃ q, m.variableAt? q = some v' := by
  cases h.origin hv' with
  | kept hv => exact .inl ⟨v', hv, Nat.le_max_right _ _⟩
  | @created target ref isList hplace => cases isList <;> exact .inr (.inl rfl)
  | assigned hplace hv => exact .inr (.inl rfl)
  | @edited target ref p v d e hplace hv => exact .inl ⟨v, hv, v.length_edit _ d e⟩
  | cloned hnew hv => exact .inr (.inr ⟨hnew, _, hv⟩)
  | @told p v hv =>
    refine .inl ⟨v, hv, Nat.le_trans (Nat.le_of_eq ?_) (Nat.le_max_right _ _)⟩
    split <;> rfl

/-- The limit and all lists are within the bound. -/
structure Bounded (m : Machine σ) (bound : Nat) : Prop where
  limit : m.settings.listItemLimit ≤ bound
  lists : ∀ {p v}, m.variableAt? p = some v → v.items.length ≤ bound

/-- **Whatever happens to variables keeps the bound.** -/
theorem Touched.bounded (h : m.Touched touch m') (hm : m.Bounded bound) : m'.Bounded bound := by
  refine ⟨h.settings ▸ hm.limit, fun hv' => ?_⟩
  rcases h.length_cases hv' with ⟨v, hv, hlength⟩ | hnil | ⟨-, q, hq⟩
  · exact Nat.le_trans hlength (Nat.max_le.mpr ⟨hm.limit, hm.lists hv⟩)
  · rw [hnil]
    exact Nat.zero_le _
  · exact hm.lists hq

/-- A list that is too long was so before, or has come with a clone. -/
structure Within (m m' : Machine σ) : Prop extends m.Inherits m' where
  settings : m'.settings = m.settings
  lists : ∀ {p v'}, m'.variableAt? p = some v' → m.settings.listItemLimit < v'.items.length →
    p.owner < m.nextTarget → ∃ v, m.variableAt? p = some v ∧
      m.settings.listItemLimit < v.items.length

instance : Lasting (Within : Machine σ → Machine σ → Prop) where
  refl m := ⟨Lasting.refl m, rfl, fun hv' hlong _ => ⟨_, hv', hlong⟩⟩
  trans {m m' m''} h h' := by
    refine ⟨Lasting.trans h.toInherits h'.toInherits, h'.settings.trans h.settings,
      fun hv'' hlong howner => ?_⟩
    obtain ⟨v', hv', hlong'⟩ :=
      h'.lists hv'' (h.settings ▸ hlong) (Nat.lt_of_lt_of_le howner h.next)
    exact h.lists hv' (h.settings ▸ hlong') howner

theorem Touched.within (h : m.Touched touch m') : m.Within m' := by
  refine ⟨h.inherits, h.settings, fun hv' hlong howner => ?_⟩
  rcases h.length_cases hv' with ⟨v, hv, hlength⟩ | hnil | ⟨hnew, -⟩
  · exact ⟨v, hv, by omega⟩
  · rw [hnil] at hlong
    exact absurd hlong (Nat.not_lt_zero _)
  · exact absurd hnew (Nat.ne_of_lt howner)

/-! ## Edits by scripts -/

/-- The draw that an edit is made with. -/
def drawFor (m : Machine σ) (e : ListEdit) : Draw := if asksDraw e then m.draw.1 else 0

/-- What the list that a reference denotes holds after an edit. -/
theorem variableAt?_editList {target : TargetId} {ref : VarRef} (e : ListEdit)
    (hplace : m.place? target ref true = some p) (hv : m.variableAt? p = some v) :
    (editList target ref e m).2.variableAt? p =
      some (v.edit m.settings.listItemLimit (m.drawFor e) e) := by
  have howner : ∃ t, m.targets[p.owner]? = some t := by
    rw [variableAt?_eq] at hv
    obtain ⟨t, ht, -⟩ := Option.bind_eq_some_iff.mp hv
    exact ⟨t, ht⟩
  obtain ⟨t, ht⟩ := howner
  have hresolve : resolve target ref true m = (.ok p, m) := by rw [resolve_eq, hplace]
  unfold editList drawFor
  rw [Service.bind_ok (lookUp_eq hresolve hv)]
  dsimp only
  split
  · have hdraw := rest_draw m
    show (m.draw.2.store p (v.edit m.draw.2.settings.listItemLimit m.draw.1 e)).variableAt? p = _
    rw [variableAt?_store, if_pos rfl, hdraw.settings, hdraw.same, ht]
    rfl
  · show (m.store p (v.edit m.settings.listItemLimit 0 e)).variableAt? p = _
    rw [variableAt?_store, if_pos rfl, ht]
    rfl

/-- **Lists stay within the limit.** -/
theorem lists_stay_within_limit {kit : Kit σ} {settings : Settings} {clock : Clock} {host : σ}
    {project : Project} {ids : List TargetId} {m₀ m : Machine σ} {ops : List (Operation × Nat)}
    {done : List Thread} (hinstall : (Machine.new settings clock host).install? project =
      some (ids, m₀))
    (hplay : Machine.play kit ops m₀ = some (done, m)) :
    (∃ trace, Trace m₀ trace m) ∧
    (∀ trace m₁, Trace m₀ trace m₁ →
      (∀ p v, m₁.variableAt? p = some v →
        v.items.length ≤ max settings.listItemLimit project.longestList) ∧
      (∀ trace' m₂ p v v', Trace m₁ trace' m₂ → m₁.variableAt? p = some v →
        m₂.variableAt? p = some v' →
        v.items.length ≤ settings.listItemLimit → v'.items.length ≤ settings.listItemLimit) ∧
      ∀ target ref p v, m₁.place? target ref true = some p → m₁.variableAt? p = some v →
        (∀ item, settings.listItemLimit ≤ v.items.length →
          (editList target ref (.add item) m₁).2.variableAt? p = some v) ∧
        ∀ index item n, Position.resolve index (v.items.length + 1)
          (m₁.drawFor (.insert index item)) false =
            .item n →
          (settings.listItemLimit < n →
            (editList target ref (.insert index item) m₁).2.variableAt? p = some v) ∧
          (n ≤ settings.listItemLimit → settings.listItemLimit ≤ v.items.length →
            (editList target ref (.insert index item) m₁).2.variableAt? p =
              some (v.setItems (v.items.take (n - 1) ++ item :: v.items.drop
                (n - 1)).dropLast))) := by
  have hbound : m₀.settings = settings ∧ m₀.Numbered ∧
      m₀.Bounded (max settings.listItemLimit project.longestList) := by
    refine install?_keeps (I := fun m => m.settings = settings ∧ m.Numbered ∧
      m.Bounded (max settings.listItemLimit project.longestList)) (fun m t ht hm => ?_) ?_ hinstall
    · have hsettings : (m.addTarget t).2.settings = m.settings := by
        unfold addTarget
        dsimp only
        split <;> rfl
      refine ⟨hsettings.trans hm.1, hm.2.1.addTarget t, hsettings ▸ hm.2.2.limit,
        fun {p v} hv => ?_⟩
      rw [variableAt?_addTarget] at hv
      split at hv
      · exact Nat.le_trans (Project.length_le_longestList ht hv) (Nat.le_max_right _ _)
      · exact hm.2.2.lists hv
    · exact ⟨rfl, numbered_new settings clock host, Nat.le_max_left _ _, fun hv => by cases hv⟩
  refine ⟨play_traced hplay, fun trace m₁ htrace => ?_⟩
  have hwithin := htrace.relates Touched.within
  have hsettings : m₁.settings = settings := hwithin.settings.trans hbound.1
  have hbounded := (htrace.keeps (I := fun m => m.Bounded _) Touched.bounded hbound.2.2).1
  refine ⟨fun p v hv => hbounded.lists hv, fun trace' m₂ p v v' htrace' hv hv' hshort => ?_,
    fun target ref p v hplace hv => ⟨fun item hfull => ?_, fun index item n hindex => ?_⟩⟩
  · rw [← Nat.not_lt]
    intro hlong
    have howner := Numbered.owner (hwithin.given hbound.2.1) hv
    obtain ⟨w, hw, hwlong⟩ := (htrace'.relates Touched.within).lists hv' (hsettings ▸ hlong) howner
    rw [hv] at hw
    cases hw
    rw [hsettings] at hwlong
    omega
  · rw [variableAt?_editList (.add item) hplace hv, Variable.edit_eq, hsettings]
    simp only [ListEdit.result, if_neg (Nat.not_lt.mpr hfull)]
  · rw [variableAt?_editList (.insert index item) hplace hv, Variable.edit_eq, hsettings]
    simp only [ListEdit.result, hindex]
    refine ⟨fun hbehind => ?_, fun hinside hfull => ?_⟩
    · rw [if_neg (Nat.not_le.mpr hbehind)]
    · have hn := (Position.resolve_item hindex).2
      rw [if_pos hinside]
      dsimp only [Variable.inserted]
      rw [if_pos]
      rw [length_append, length_cons, length_take, length_drop]
      omega

end Machine

/-- A stage with a list of two items and one of three, and a script that inserts into the first and
adds to the second. -/
def Project.crowded : Project where
  targets := [
    ((Target.stage (.ofBlocks [
      { id := "flag", opcode := "event_whenflagclicked",
        isTopLevel := true, next := some "insert" },
      { id := "insert", opcode := "data_insertatlist", next := some "add",
        fields := Table.of [("LIST", { value := .text "two", id := some "two" })],
        inputs := Table.of [("INDEX", { shadow := some "one" }),
          ("ITEM", { shadow := some "x" })] },
      { id := "add", opcode := "data_addtolist",
        fields := Table.of [("LIST", { value := .text "three", id := some "three" })],
        inputs := Table.of [("ITEM", { shadow := some "x" })] },
      { id := "one", opcode := "math_number", isShadow := true,
        fields := Table.of [("NUM", { value := .number 1.0 })] },
      { id := "x", opcode := "text", isShadow := true,
        fields := Table.of [("TEXT", { value := .text "x" })] }])).addVariable
      (.list "two" "two" [.text "a", .text "b"])).addVariable
      (.list "three" "three" [.text "a", .text "b", .text "c"])]

/-- With a limit of two, the item put in takes the place of the last one, and nothing is added. -/
theorem crowded_stays_within_limit :
    ∃ (ids : List TargetId) (m₀ : Machine Unit) (done : List Thread) (m : Machine Unit),
      (Machine.new { listItemLimit := 2 } { tick := 5.0 } ()).install? .crowded = some (ids, m₀) ∧
      Machine.play { Library.core with } [(.greenFlag, 60), (.step, 60)] m₀ = some (done, m) ∧
      ["two", "three"].map
        (fun id => (m.variableAt? ⟨0, id⟩).map fun v => v.items.map Value.toText) =
        [some ["x", "a"], some ["a", "b", "c"]] ∧
      ∀ p v, m.variableAt? p = some v → v.items.length ≤ 3 := by
  have hrun : (((Machine.new { listItemLimit := 2 } { tick := 5.0 } ()).install? .crowded).bind
    fun p =>
      (Machine.play { Library.core with } [(.greenFlag, 60), (.step, 60)] p.2).map fun q =>
        ["two", "three"].map fun id => (q.2.variableAt? ⟨0, id⟩).map fun v =>
          v.items.map Value.toText) =
      some [some ["x", "a"], some ["a", "b", "c"]] := by decide +kernel
  obtain ⟨⟨ids, m₀⟩, hinstall, hrun⟩ := Option.bind_eq_some_iff.mp hrun
  obtain ⟨⟨done, m⟩, hplay, hlists⟩ := Option.map_eq_some_iff.mp hrun
  obtain ⟨⟨trace, htrace⟩, hpoints⟩ := Machine.lists_stay_within_limit hinstall hplay
  have hlongest : Project.crowded.longestList = 3 := by decide +kernel
  refine ⟨ids, m₀, done, m, hinstall, hplay, hlists, fun p v hv => ?_⟩
  simpa [hlongest] using (hpoints trace m htrace).1 p v hv

end BlockMachine

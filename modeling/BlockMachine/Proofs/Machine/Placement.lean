import BlockMachine.Proofs.Machine.Reached
import BlockMachine.Proofs.Machine.Touches
import BlockMachine.Proofs.Project
import Mathlib.Data.List.TakeWhile

/-!
# Where the targets of a project are placed

Adding a target gives it the next id, leaves the targets that are there alone, and puts a stage
before all layers and a sprite behind them. What several additions do is put together from this
(`Places`) and does not depend on their order where it matters: a project is installed with its
stage first, and yet every target is found under the id in its own place of the list
(`install_places_targets`).

The module is about `Machine.addTarget` and `Machine.install?`.

## Results

* `Places`: what adding several targets comes to.
* `install_places_targets`: a whole project, on any machine that can be reached.

Left out are projects with several stages.
-/

namespace BlockMachine.Machine

open List

variable {σ : Type} {m m' m'' : Machine σ}

/-- The ids of the stages among targets. -/
def stages (ps : List (Target × TargetId)) : List TargetId :=
  (ps.filter (·.1.isStage)).map Prod.snd

/-- The ids of the sprites among targets. -/
def sprites (ps : List (Target × TargetId)) : List TargetId :=
  (ps.filter (!·.1.isStage)).map Prod.snd

/-- The machine has been given targets under new ids, one after the other. -/
structure Places (m : Machine σ) (ps : List (Target × TargetId)) (m' : Machine σ) : Prop where
  next : m.nextTarget ≤ m'.nextTarget
  fresh : ∀ p ∈ ps, m.nextTarget ≤ p.2 ∧ p.2 < m'.nextTarget
  nodup : (ps.map Prod.snd).Nodup
  stored : ∀ p ∈ ps, m'.targets[p.2]? = some { p.1 with id := p.2 }
  kept : ∀ id < m.nextTarget, m'.targets[id]? = m.targets[id]?
  layers : m'.layers = (stages ps).reverse ++ m.layers ++ sprites ps
  stage : m'.stage = (stages ps).getLast?.or m.stage

theorem Places.append {ps qs : List (Target × TargetId)} (h : m.Places ps m')
    (h' : m'.Places qs m'') :
    m.Places (ps ++ qs) m'' where
  next := Nat.le_trans h.next h'.next
  fresh p hp := by
    rcases mem_append.mp hp with hp | hp
    · exact ⟨(h.fresh p hp).1, Nat.lt_of_lt_of_le (h.fresh p hp).2 h'.next⟩
    · exact ⟨Nat.le_trans h.next (h'.fresh p hp).1, (h'.fresh p hp).2⟩
  nodup := by
    rw [map_append]
    refine h.nodup.append h'.nodup fun id hid hid' => ?_
    obtain ⟨p, hp, rfl⟩ := mem_map.mp hid
    obtain ⟨q, hq, heq⟩ := mem_map.mp hid'
    exact absurd heq (Nat.ne_of_gt (Nat.lt_of_lt_of_le (h.fresh p hp).2 (h'.fresh q hq).1))
  stored p hp := by
    rcases mem_append.mp hp with hp | hp
    · rw [h'.kept _ (h.fresh p hp).2, h.stored p hp]
    · exact h'.stored p hp
  kept id hid := (h'.kept id (Nat.lt_of_lt_of_le hid h.next)).trans (h.kept id hid)
  layers := by
    rw [h'.layers, h.layers]
    simp [stages, sprites]
  stage := by
    rw [h'.stage, h.stage]
    simp [stages, Option.or_assoc]

theorem addTarget_places (m : Machine σ) (t : Target) :
    m.Places [(t, m.nextTarget)] (m.addTarget t).2 := by
  have hnext : (m.addTarget t).2.nextTarget = m.nextTarget + 1 := by
    unfold addTarget
    dsimp only
    split <;> rfl
  refine ⟨hnext ▸ Nat.le_succ _, by simp [hnext], nodup_singleton _, fun p hp => ?_,
    fun id hid => ?_, ?_, ?_⟩
  · obtain rfl := mem_singleton.mp hp
    rw [addTarget_targets, getElem?_insert_target, if_pos rfl]
  · rw [addTarget_targets, getElem?_insert_target, if_neg (Nat.ne_of_gt hid)]
  all_goals
    unfold addTarget stages
    cases hstage : t.isStage <;> simp [hstage, sprites]

theorem addTargets_places (m : Machine σ) (ts : List Target) :
    (m.addTargets ts).1.length = ts.length ∧
      m.Places (ts.zip (m.addTargets ts).1) (m.addTargets ts).2 := by
  induction ts generalizing m with
  | nil => exact ⟨rfl, by constructor <;> simp [addTargets, stages, sprites]⟩
  | cons t ts ih =>
    obtain ⟨hlength, hplaces⟩ := ih (m.addTarget t).2
    exact ⟨congrArg Nat.succ hlength, (m.addTarget_places t).append hplaces⟩

/-- Removes targets one after the other. -/
def removeAll (ids : List TargetId) (m : Machine σ) : Machine σ := ids.foldl removeTarget m

theorem mem_removeTarget {id id' : TargetId} :
    id' ∈ (m.removeTarget id).targets ↔ id' ∈ m.targets ∧ id' ≠ id := by
  unfold removeTarget
  cases ht : m.targets[id]? with
  | none =>
    refine ⟨fun hmem => ⟨hmem, ?_⟩, And.left⟩
    rintro rfl
    simp [Std.TreeMap.mem_iff_isSome_getElem?, ht] at hmem
  | some t =>
    show id' ∈ m.targets.erase id ↔ _
    rw [Std.TreeMap.mem_erase, Ne, Std.compare_eq_iff_eq, and_comm, eq_comm]

theorem mem_removeAll {ids : List TargetId} {id : TargetId} :
    id ∈ (m.removeAll ids).targets ↔ id ∈ m.targets ∧ id ∉ ids := by
  induction ids generalizing m with
  | nil => simp [removeAll]
  | cons first ids ih =>
    show id ∈ ((m.removeTarget first).removeAll ids).targets ↔ _
    rw [ih, mem_removeTarget, List.mem_cons, not_or, and_assoc]

/-- A host cannot come to a machine with a target whose id has not been given out. -/
theorem Reached.numbered {kit : Kit σ} (h : m.Reached kit) : m.Numbered := by
  induction h with
  | new settings clock host => exact numbered_new settings clock host
  | addTarget _ t _ _ ih => exact ih.addTarget t
  | addMonitor _ monitor ih =>
    unfold Machine.addMonitor
    split <;> exact ih
  | @edit m _ id t ht sheet _ ih =>
    intro id' hid'
    rcases Std.TreeMap.mem_insert.mp hid' with heq | hid'
    · exact Std.compare_eq_iff_eq.mp heq ▸ ih id (mem_targets_iff.mpr ⟨t, ht⟩)
    · exact ih id' hid'
  | configure _ settings _ ih => exact ih
  | stopTarget _ target except ih => exact ih
  | dispose _ ih =>
    intro id hid
    have := mem_removeAll.mp hid
    simp at this
  | operate _ op hop ih =>
    exact (Operation.apply_along inherits_law.frameLaw _ op _ _ _ hop).given ih
  | apart _ hapart ih => exact hapart.inherits.given ih

/-- A project is installed with its first stage before the other targets. -/
theorem install?_of_stage {p : Project} {before after : List Target} {stage : Target}
    (hall : p.targets = before ++ stage :: after) (hbefore : ∀ t ∈ before, t.isStage = false)
    (hstage : stage.isStage = true) :
    ∃ id ids ids' m', m.install? p = some (ids ++ id :: ids', m') ∧
      ids.length = before.length ∧ ids'.length = after.length ∧
      m.Places ((stage, id) :: (before.zip ids ++ after.zip ids')) m' := by
  have hspan : p.targets.span (!·.isStage) = (before, stage :: after) := by
    rw [span_eq_takeWhile_dropWhile, hall, takeWhile_append_of_pos (by simpa using hbefore),
      dropWhile_append_of_pos (by simpa using hbefore)]
    simp [hstage]
  unfold install?
  rw [hspan]
  obtain ⟨hlength, hplaces⟩ := (m.addTarget stage).2.addTargets_places before
  obtain ⟨hlength', hplaces'⟩ := ((m.addTarget stage).2.addTargets before).2.addTargets_places after
  exact ⟨_, _, _, _, rfl, hlength, hlength',
    (m.addTarget_places stage).append (hplaces.append hplaces')⟩

theorem filter_isStage {ts : List Target} (h : ∀ t ∈ ts, t.isStage = false) (ids : List TargetId) :
    (ts.zip ids).filter (·.1.isStage) = [] :=
  filter_eq_nil_iff.mpr fun q hq => by simp [h _ (of_mem_zip hq).1]

theorem mem_zip_of_mapM {α : Type} {decode : Json → Decoded α} {docs : List Json} {items : List α}
    (h : docs.mapM decode = .ok items) : docs.length = items.length ∧
      ∀ {ids : List TargetId} {doc id}, (doc, id) ∈ docs.zip ids →
        ∃ a, decode doc = .ok a ∧ (a, id) ∈ items.zip ids := by
  induction docs generalizing items with
  | nil =>
    cases h
    exact ⟨rfl, fun h => by simp at h⟩
  | cons doc docs ih =>
    rw [mapM_cons] at h
    obtain ⟨a, ha, h⟩ := Json.bind_ok h
    obtain ⟨rest, hrest, h⟩ := Json.bind_ok h
    cases h
    obtain ⟨hlength, hzip⟩ := ih hrest
    refine ⟨congrArg Nat.succ hlength, fun {ids doc' id} hmem => ?_⟩
    cases ids with
    | nil => simp at hmem
    | cons first ids =>
      rcases mem_cons.mp hmem with heq | hmem
      · cases heq
        exact ⟨a, ha, mem_cons_self⟩
      · obtain ⟨b, hb, hmem⟩ := hzip hmem
        exact ⟨b, hb, mem_cons_of_mem _ hmem⟩

/-- **Installing a project places its targets faithfully.** Without a stage there is nothing to
install. A project with one stage gives an id to each of its targets, all of them new; every target
is found under the id in its place, as it was read; the targets that were there are as before; the
stage is the one of the project, and the layers are the stage, then those before, then the sprites
in the order of the project. -/
theorem install_places_targets {kit : Kit σ} (hm : m.Reached kit) {p : Project} {docs : List Json}
    (hread : docs.mapM Project.decodeTarget = .ok p.targets) :
    (p.targets.countP Target.isStage = 0 → m.install? p = none) ∧
      (p.targets.countP Target.isStage = 1 → ∃ ids stage m', m.install? p = some (ids, m') ∧
        ids.length = docs.length ∧ ids.Nodup ∧ (∀ id ∈ ids, id ∉ m.targets) ∧
        (∀ doc id, (doc, id) ∈ docs.zip ids → ∃ t, Project.decodeTarget doc = .ok t ∧
          m'.targets[id]? = some { t with id } ∧ (t.isStage = true → id = stage)) ∧
        (∀ id ∈ m.targets, m'.targets[id]? = m.targets[id]?) ∧
        m'.stage = some stage ∧
          m'.layers = stage :: (m.layers ++ sprites (p.targets.zip ids))) := by
  have hnone : ∀ {ts : List Target}, ts.countP Target.isStage = 0 → ∀ t ∈ ts, t.isStage = false :=
    fun h t ht => by simpa using countP_eq_zero.mp h t ht
  refine ⟨fun h => ?_, fun h => ?_⟩
  · unfold install?
    have hdrop : p.targets.dropWhile (!·.isStage) = [] :=
      dropWhile_eq_nil_iff.mpr fun t ht => by simp [hnone h t ht]
    rw [span_eq_takeWhile_dropWhile, hdrop]
  cases hfind : p.targets.find? Target.isStage with
  | none =>
    have := countP_eq_zero.mpr (find?_eq_none.mp hfind)
    omega
  | some t =>
    obtain ⟨hstage, before, after, hall, hbefore⟩ := find?_eq_some_iff_append.mp hfind
    replace hbefore : ∀ t ∈ before, t.isStage = false := fun t ht => by simpa using hbefore t ht
    have hafter : ∀ t ∈ after, t.isStage = false := hnone (by
      rw [hall, countP_append, countP_cons_of_pos hstage] at h
      omega)
    obtain ⟨stage, ids, ids', m', hinstall, hlength, hlength', hplaces⟩ :=
      m.install?_of_stage hall hbefore hstage
    have hzip : p.targets.zip (ids ++ stage :: ids') = before.zip ids ++
        (t, stage) :: after.zip ids' := by
      rw [hall, zip_append hlength.symm]
      rfl
    have hperm : ((t, stage) :: (before.zip ids ++ after.zip ids')).Perm
        (p.targets.zip (ids ++ stage :: ids')) := hzip ▸ perm_middle.symm
    have hids : (p.targets.zip (ids ++ stage :: ids')).map Prod.snd = ids ++ stage :: ids' :=
      map_snd_zip (by simp [hall, hlength, hlength'])
    have hstages : stages ((t, stage) :: (before.zip ids ++ after.zip ids')) = [stage] := by
      simp [stages, hstage, filter_isStage hbefore, filter_isStage hafter]
    have hlayers := hplaces.layers
    have hstageId := hplaces.stage
    rw [hstages] at hlayers hstageId
    obtain ⟨hdocs, hread⟩ := mem_zip_of_mapM hread
    refine ⟨_, stage, m', hinstall, ?_, hids ▸ (hperm.map Prod.snd).nodup hplaces.nodup,
      fun id hid hmem => ?_, fun doc id hdoc => ?_, fun id hid =>
        hplaces.kept id (hm.numbered id hid),
      hstageId, ?_⟩
    · simp [hdocs, hall, hlength, hlength']
    · rw [← hids] at hid
      obtain ⟨q, hq, rfl⟩ := mem_map.mp hid
      exact Nat.not_lt.mpr (hplaces.fresh q (hperm.mem_iff.mpr hq)).1 (hm.numbered _ hmem)
    · obtain ⟨u, hu, hmem⟩ := hread hdoc
      refine ⟨u, hu, hplaces.stored _ (hperm.mem_iff.mpr hmem), fun hstage => ?_⟩
      have hin : id ∈ stages ((t, stage) :: (before.zip ids ++ after.zip ids')) :=
        mem_map.mpr ⟨_, mem_filter.mpr ⟨hperm.mem_iff.mpr hmem, hstage⟩, rfl⟩
      rw [hstages] at hin
      exact mem_singleton.mp hin
    · rw [hlayers, hzip]
      simp [sprites, hstage]

/-- A cat and a stage behind it, installed where there is a dog: the stage gets the smaller id. -/
theorem cat_and_stage_placed :
    let m : Machine Unit := (addTarget (.new {} {} ()) (.sprite "Dog" {})).2
    let docs := [.object [("name", .text "Cat")],
      .object [("name", .text "Stage"), ("isStage", .bool true)]]
    ∃ p, docs.mapM Project.decodeTarget = .ok p.targets ∧
      ∃ ids stage m', m.install? p = some (ids, m') ∧
      ids = [2, 1] ∧ ids.Nodup ∧ m'.stage = some stage ∧
      m'.layers = stage :: (m.layers ++ sprites (p.targets.zip ids)) := by
  intro m docs
  have hreached : m.Reached ({ Library.core with } : Kit Unit) :=
    .addTarget (.new {} {} ()) (.sprite "Dog" {}) rfl nodup_nil
  have hread : docs.mapM Project.decodeTarget =
      .ok [{ name := "Cat" }, { name := "Stage", isStage := true }] := rfl
  obtain ⟨ids, stage, m', hinstall, -, hnodup, -, -, -, hstage, hlayers⟩ :=
    (install_places_targets hreached (p := ⟨_⟩) hread).2 rfl
  refine ⟨⟨_⟩, hread, ids, stage, m', hinstall, ?_, hnodup, hstage, hlayers⟩
  cases hinstall
  rfl

end BlockMachine.Machine

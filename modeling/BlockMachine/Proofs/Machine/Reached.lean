import BlockMachine.Proofs.Machine.Passes
import BlockMachine.Proofs.Machine.Registry

/-!
# The machines that a host can come to

A host makes a machine, adds targets and monitors, edits sheets, changes settings, variables,
promises and the clock, and asks for operations, in any order and any number of times. Whatever it
does, the register of targets is in order, the threads have ids of their own, and every sheet has
each of its scripts once (`Machine.Reached.orderly`).
-/

namespace BlockMachine

open List

variable {σ : Type} {kit : Kit σ} {done : List Thread}

namespace Machine

/-- The machines that a host can come to. The targets that it adds are no clones, its sheets have
each script once, and the settings leave room for the clones that there are. -/
inductive Reached (kit : Kit σ) : Machine σ → Prop
  | new (settings : Settings) (clock : Clock) (host : σ) : Reached kit (.new settings clock host)
  | addTarget {m : Machine σ} (h : Reached kit m) (t : Target) (horiginal : t.cloneOf = none)
      (hscripts : t.sheet.scripts.Nodup) : Reached kit (m.addTarget t).2
  | addMonitor {m : Machine σ} (h : Reached kit m) (monitor : Monitor) :
      Reached kit (m.addMonitor monitor)
  | edit {m : Machine σ} (h : Reached kit m) {id : TargetId} {t : Target}
      (ht : m.targets[id]? = some t) (sheet : Sheet) (hscripts : sheet.scripts.Nodup) :
      Reached kit { m with targets := m.targets.insert id { t with sheet } }
  | configure {m : Machine σ} (h : Reached kit m) (settings : Settings)
      (hlimit : m.cloneCount ≤ settings.maxClones) : Reached kit { m with settings }
  | stopTarget {m : Machine σ} (h : Reached kit m) (target : TargetId) (except : Option ThreadId) :
      Reached kit (m.stopTarget target except)
  | dispose {m : Machine σ} (h : Reached kit m) : Reached kit (m.dispose kit)
  | operate {m m' : Machine σ} {fuel : Nat} {done : List Thread} (h : Reached kit m)
      (op : Operation) (hop : op.apply kit fuel m = some (done, m')) : Reached kit m'
  /-- Variables, promises, the clock, the project timer and what the host itself keeps. -/
  | apart {m m' : Machine σ} (h : Reached kit m) (hapart : m.Apart m') : Reached kit m'

variable {m m' : Machine σ}

/-- A host can come to the machine if it could come to the one before. -/
def StaysReached (kit : Kit σ) (m m' : Machine σ) : Prop := m.Reached kit → m'.Reached kit

instance (kit : Kit σ) : Lasting (StaysReached kit) where
  refl _ h := h
  trans h h' hm := h' (h hm)

theorem Reached.play (h : m.Reached kit) {ops : List (Operation × Nat)}
    (hplay : Machine.play kit ops m = some (done, m')) : m'.Reached kit :=
  play_along (R := StaysReached kit) (fun _ op _ _ _ hop hm => hm.operate op hop) ops m
    done m' hplay h

/-! ## Ids of threads -/

/-- The threads have ids of their own if they had them before. -/
def StaysTidy (m m' : Machine σ) : Prop := m.Tidy → m'.Tidy

instance : Lasting (StaysTidy : Machine σ → Machine σ → Prop) where
  refl _ h := h
  trans h h' hm := h' (h hm)

theorem tidy_frameLaw (kit : Kit σ) : FrameLaw kit StaysTidy where
  toLenient := .of_still fun h => h.toApart.evolves.tidy
  tell _ _ _ := (Apart.evolves .of_rest).tidy
  note _ _ _ := (Apart.evolves .of_rest).tidy
  reportLists m := (apart_reportLists m).evolves.tidy
  stopAll m := (evolves_stopAll m).tidy
  stopTarget m target except := (evolves_stopTarget m target except).tidy
  removeTarget m target := (evolves_removeTarget m target).tidy
  edgeFires m target block value := (evolves_edgeFires m target block value).tidy
  addClone h := (evolves_addClone? h).tidy
  startScript fuel _ opcode hat target top m r m' h :=
    (startScript_evolves (Turn.execute_evolves kit fuel) opcode hat target top m r m' h).tidy
  visit h := (visit_happens h).tidy
  takeDone m hm := by
    unfold takeDone
    rw [partition_eq_filter_filter]
    exact hm.sublist filter_sublist
  startMonitors m := (startMonitors_along evolves_startMonitor m.monitors m).tidy
  clearEdges _ hm := ⟨hm.nodup, hm.given⟩
  toggle m top target := (evolves_toggle m top target).tidy
  pushThread fuel top target m r m' h := (pushThread_evolves kit fuel top target m r m' h).tidy

/-! ## Sheets -/

/-- A target that has been there has its sheet still, and a new one has a sheet that was there. -/
structure Inherits (m m' : Machine σ) : Prop where
  next : m.nextTarget ≤ m'.nextTarget
  given : (∀ id ∈ m.targets, id < m.nextTarget) → ∀ id ∈ m'.targets, id < m'.nextTarget
  old : ∀ (id : TargetId) (t' : Target), m'.targets[id]? = some t' → id < m.nextTarget →
    ∃ t : Target, m.targets[id]? = some t ∧ t.sheet = t'.sheet
  any : ∀ (id : TargetId) (t' : Target), m'.targets[id]? = some t' →
    ∃ (id₀ : TargetId) (t : Target), m.targets[id₀]? = some t ∧ t.sheet = t'.sheet

instance : Lasting (Inherits : Machine σ → Machine σ → Prop) where
  refl m := ⟨Nat.le_refl _, fun h => h, fun _ t' h _ => ⟨t', h, rfl⟩,
    fun id t' h => ⟨id, t', h, rfl⟩⟩
  trans {m m' m''} h h' := by
    refine ⟨Nat.le_trans h.next h'.next, fun hm => h'.given (h.given hm), fun id t'' ht'' hid => ?_,
      fun id t'' ht'' => ?_⟩
    · obtain ⟨t', ht', hsheet'⟩ := h'.old id t'' ht'' (Nat.lt_of_lt_of_le hid h.next)
      obtain ⟨t, ht, hsheet⟩ := h.old id t' ht' hid
      exact ⟨t, ht, hsheet.trans hsheet'⟩
    · obtain ⟨id', t', ht', hsheet'⟩ := h'.any id t'' ht''
      obtain ⟨id₀, t, ht, hsheet⟩ := h.any id' t' ht'
      exact ⟨id₀, t, ht, hsheet.trans hsheet'⟩

/-- The targets that are there were there before, with their sheets. -/
theorem Inherits.of_same (hnext : m'.nextTarget = m.nextTarget)
    (h : ∀ (id : TargetId) (t' : Target), m'.targets[id]? = some t' →
      ∃ t, m.targets[id]? = some t ∧ t.sheet = t'.sheet) :
    m.Inherits m' := by
  refine ⟨Nat.le_of_eq hnext.symm, fun hm id hid => ?_, fun id t' ht' _ => h id t' ht',
    fun id t' ht' => ⟨id, h id t' ht'⟩⟩
  obtain ⟨t', ht'⟩ := mem_targets_iff.mp hid
  obtain ⟨t, ht, -⟩ := h id t' ht'
  exact hnext ▸ hm id (mem_targets_iff.mpr ⟨t, ht⟩)

theorem Inherits.of_sheets (hnext : m'.nextTarget = m.nextTarget)
    (h : ∀ id : TargetId, m'.targets[id]?.map Target.sheet = m.targets[id]?.map Target.sheet) :
    m.Inherits m' := by
  refine .of_same hnext fun id t' ht' => ?_
  have hsheet := h id
  rw [ht', Option.map_some] at hsheet
  exact Option.map_eq_some_iff.mp hsheet.symm

theorem Apart.inherits (h : m.Apart m') : m.Inherits m' :=
  .of_sheets h.nextTarget (h.eq_of_bare fun _ => rfl)

theorem inherits_law : ReportLaw (Inherits : Machine σ → Machine σ → Prop) where
  toLenient := .of_still fun h => h.toApart.inherits
  tell _ _ _ := Apart.inherits .of_rest
  note _ _ _ := Apart.inherits .of_rest
  reportLists m := (apart_reportLists m).inherits
  threads _ _ _ := .of_same rfl fun _ t' ht' => ⟨t', ht', rfl⟩
  removeTarget m target := by
    unfold Machine.removeTarget
    cases m.targets[target]? with
    | none => exact Lasting.refl m
    | some t =>
      refine .of_same rfl fun id t' ht' => ⟨t', ?_, rfl⟩
      replace ht' : (m.targets.erase target)[id]? = some t' := ht'
      rw [getElem?_erase_target] at ht'
      split at ht'
      · cases ht'
      · exact ht'
  edgeFires m target block value := by
    unfold Machine.edgeFires
    cases ht : m.targets[target]? with
    | none => exact Lasting.refl m
    | some t =>
      refine .of_same rfl fun id t' ht' => ?_
      replace ht' : (m.targets.insert target (t.noteEdge block value).2)[id]? = some t' := ht'
      rw [getElem?_insert_target] at ht'
      split at ht'
      · rename_i heq
        cases ht'
        exact ⟨t, heq ▸ ht, rfl⟩
      · exact ⟨t', ht', rfl⟩
  addClone {m source id m'} h := by
    obtain ⟨t, ht, -, -, rfl, rfl⟩ := addClone?_some h
    have hget : ∀ (id : TargetId) (t' : Target),
        (m.targets.insert m.nextTarget { t.clone with id := m.nextTarget })[id]? = some t' →
          m.nextTarget = id ∧ t.sheet = t'.sheet ∨ m.targets[id]? = some t' := by
      intro id t' ht'
      rw [getElem?_insert_target] at ht'
      split at ht'
      · rename_i heq
        cases ht'
        exact .inl ⟨heq, rfl⟩
      · exact .inr ht'
    refine ⟨Nat.le_succ _, fun hm id hid => ?_, fun id t' ht' hid => ?_, fun id t' ht' => ?_⟩
    · obtain ⟨t', ht'⟩ := mem_targets_iff.mp hid
      rcases hget id t' ht' with ⟨heq, -⟩ | ht'
      · exact heq ▸ Nat.lt_succ_self _
      · exact Nat.lt_succ_of_lt (hm id (mem_targets_iff.mpr ⟨t', ht'⟩))
    · rcases hget id t' ht' with ⟨heq, -⟩ | ht'
      · exact absurd heq.symm (Nat.ne_of_lt hid)
      · exact ⟨t', ht', rfl⟩
    · rcases hget id t' ht' with ⟨-, hsheet⟩ | ht'
      · exact ⟨source, t, ht, hsheet⟩
      · exact ⟨id, t', ht', rfl⟩
  clearEdges m := by
    refine .of_sheets rfl fun id => ?_
    show ((m.targets.map fun _ t => t.clearEdges)[id]?).map Target.sheet = _
    rw [Std.TreeMap.getElem?_map, Option.map_map]
    rfl

/-- Every sheet has each of its scripts once. -/
def Distinct (m : Machine σ) : Prop :=
  ∀ (id : TargetId) (t : Target), m.targets[id]? = some t → t.sheet.scripts.Nodup

theorem Inherits.distinct (h : m.Inherits m') (hm : m.Distinct) : m'.Distinct := by
  intro id t' ht'
  obtain ⟨id₀, t, ht, hsheet⟩ := h.any id t' ht'
  exact hsheet ▸ hm id₀ t ht

theorem Distinct.scriptsOf_nodup (h : m.Distinct) (opcode : String)
    (fields : List (String × String)) (target : TargetId) :
    (m.scriptsOf opcode fields target).Nodup := by
  unfold scriptsOf
  cases ht : m.targets[target]? with
  | none => exact nodup_nil
  | some t => exact (((h target t ht).filter _).filter _).map fun _ _ heq => (Prod.mk.inj heq).2

/-! ## What holds of all of them -/

/-- The register of targets is in order, the threads have ids of their own, and every sheet has each
of its scripts once. -/
structure Orderly (m : Machine σ) : Prop where
  registered : m.Registered
  tidy : m.Tidy
  distinct : m.Distinct

theorem Orderly.apart (h : m.Orderly) (hapart : m.Apart m') : m'.Orderly :=
  ⟨h.registered.of_apart hapart, hapart.evolves.tidy h.tidy,
    hapart.inherits.distinct h.distinct⟩

theorem orderly_new (settings : Settings) (clock : Clock) (host : σ) :
    (Machine.new settings clock host).Orderly := by
  refine ⟨registered_new settings clock host, ⟨nodup_nil, forall_mem_nil _⟩, fun id t ht => ?_⟩
  have hnone : (Machine.new settings clock host).targets[id]? = none := Std.TreeMap.getElem?_emptyc
  rw [hnone] at ht
  cases ht

theorem Orderly.addTarget (h : m.Orderly) (t : Target) (horiginal : t.cloneOf = none)
    (hscripts : t.sheet.scripts.Nodup) : (m.addTarget t).2.Orderly := by
  have hsame : (m.addTarget t).2.threads = m.threads ∧ (m.addTarget t).2.nextThread = m.nextThread ∧
      (m.addTarget t).2.targets = m.targets.insert m.nextTarget { t with id := m.nextTarget } := by
    unfold Machine.addTarget
    dsimp only
    split <;> exact ⟨rfl, rfl, rfl⟩
  obtain ⟨hthreads, hnext, htargets⟩ := hsame
  refine ⟨h.registered.addTarget t horiginal, (Evolves.of_eq hthreads hnext).tidy h.tidy,
    fun id t' ht' => ?_⟩
  rw [htargets, getElem?_insert_target] at ht'
  split at ht'
  · cases ht'
    exact hscripts
  · exact h.distinct id t' ht'

theorem Orderly.edit (h : m.Orderly) {id : TargetId} {t : Target} (ht : m.targets[id]? = some t)
    {sheet : Sheet} (hscripts : sheet.scripts.Nodup) :
    ({ m with targets := m.targets.insert id { t with sheet } } : Machine σ).Orderly := by
  refine ⟨h.registered.insert_kind ht rfl, ⟨h.tidy.nodup, h.tidy.given⟩, fun id' t' ht' => ?_⟩
  replace ht' : (m.targets.insert id { t with sheet })[id']? = some t' := ht'
  rw [getElem?_insert_target] at ht'
  split at ht'
  · cases ht'
    exact hscripts
  · exact h.distinct id' t' ht'

theorem Orderly.dispose (kit : Kit σ) (h : m.Orderly) : (m.dispose kit).Orderly := by
  have hfold : ∀ (ids : List TargetId) (m : Machine σ), m.Registered → m.Distinct →
      (ids.foldl Machine.removeTarget m).Registered ∧
        (ids.foldl Machine.removeTarget m).Distinct := by
    intro ids
    induction ids with
    | nil => exact fun m hm hd => ⟨hm, hd⟩
    | cons id ids ih =>
      exact fun m hm hd => ih _ (hm.removeTarget id) ((inherits_law.removeTarget m id).distinct hd)
  obtain ⟨hregistered, hdistinct⟩ := hfold m.stopAll.targets.keys m.stopAll h.registered.stopAll
    ((inherits_law.stopAll m).distinct h.distinct)
  exact ⟨hregistered.of_kind rfl rfl rfl rfl (fun _ => rfl) (forall_mem_nil _),
    ⟨nodup_nil, forall_mem_nil _⟩, hdistinct⟩

theorem Orderly.operate (hkit : kit.Loyal) (h : m.Orderly) {op : Operation} {fuel : Nat}
    (hop : op.apply kit fuel m = some (done, m')) : m'.Orderly :=
  ⟨Operation.apply_along (registered_frameLaw hkit) fuel op m done m' hop h.registered,
    Operation.apply_along (tidy_frameLaw kit) fuel op m done m' hop h.tidy,
    (Operation.apply_along inherits_law.frameLaw fuel op m done m' hop).distinct h.distinct⟩

/-- **A machine that a host can come to is in order.** -/
theorem Reached.orderly (hkit : kit.Loyal) (h : m.Reached kit) : m.Orderly := by
  induction h with
  | new settings clock host => exact orderly_new settings clock host
  | addTarget _ t horiginal hscripts ih => exact ih.addTarget t horiginal hscripts
  | @addMonitor m _ monitor ih =>
    unfold Machine.addMonitor
    split
    · exact ih
    · exact ⟨ih.registered.of_kind rfl rfl rfl rfl (fun _ => rfl) ih.registered.threads,
        ⟨ih.tidy.nodup, ih.tidy.given⟩, ih.distinct⟩
  | edit _ ht sheet hscripts ih => exact ih.edit ht hscripts
  | configure _ settings hlimit ih =>
    obtain ⟨hnodup, hmem, hstages, hclones, -, hids, hthreads⟩ := ih.registered
    exact ⟨⟨hnodup, hmem, hstages, hclones, hlimit, hids, hthreads⟩, ⟨ih.tidy.nodup, ih.tidy.given⟩,
      ih.distinct⟩
  | stopTarget _ target except ih =>
    exact ⟨ih.registered.onThreads _, (evolves_stopTarget _ target except).tidy ih.tidy,
      ih.distinct⟩
  | dispose _ ih => exact ih.dispose kit
  | operate _ op hop ih => exact ih.operate hkit hop
  | apart _ hapart ih => exact ih.apart hapart

end Machine

theorem Sheet.insert_nodup {s : Sheet} (h : s.scripts.Nodup) (b : Block) :
    (s.insert b).scripts.Nodup := by
  unfold Sheet.insert
  dsimp only
  split
  · rename_i hnew
    refine nodup_append.mpr ⟨h, nodup_singleton _, fun a ha a' ha' heq => ?_⟩
    rw [mem_singleton.mp ha'] at heq
    simp [heq ▸ ha] at hnew
  · exact h

/-- A sheet that is put together block by block has each script once. -/
theorem Sheet.ofBlocks_nodup (blocks : List Block) : (Sheet.ofBlocks blocks).scripts.Nodup := by
  have hfold : ∀ (blocks : List Block) (s : Sheet), s.scripts.Nodup →
      (blocks.foldl Sheet.insert s).scripts.Nodup := by
    intro blocks
    induction blocks with
    | nil => exact fun s hs => hs
    | cons b blocks ih => exact fun s hs => ih _ (Sheet.insert_nodup hs b)
  exact hfold blocks {} nodup_nil

end BlockMachine

import BlockMachine.Proofs.Machine.Lifetimes
import BlockMachine.Proofs.Turn.Loyal

/-!
# The register of targets

A machine keeps its targets by id, in layers, and counts the clones; every thread belongs to a
target. All of this is changed one by one, and by operations that a script may ask for in its own
turn. The register is in order (`Machine.Registered`) after any number of operations.

The module is about `Machine.addTarget`, `Machine.addClone?`, `Machine.removeTarget` and
`Machine.stopAll`.

## Results

* `Machine.registered_law`: what every change of a machine keeps.
* `targets_stay_registered`: any number of changes, and where a clone is put.

Left out are kits whose blocks remove the target of a thread that goes on (`Catalog.Loyal`).
-/

namespace BlockMachine

open List Option

variable {σ : Type} {t : Thread} {r : Option Thread}

/-- What the register knows of a target. -/
def Target.kind (t : Target) : TargetId × Bool × Option TargetId := (t.id, t.isStage, t.cloneOf)

namespace Machine

/-- The layers hold each target once, stages in front of sprites; every target has the id under
which it is kept, given out before; the clones are counted and not too many; and the threads that
are not done belong to targets. -/
structure Registered (m : Machine σ) : Prop where
  nodup : m.layers.Nodup
  mem : ∀ id, id ∈ m.layers ↔ id ∈ m.targets
  stages : m.layers.Pairwise fun a b => m.isStage b → m.isStage a
  clones : m.cloneCount = m.layers.countP m.isClone
  limit : m.cloneCount ≤ m.settings.maxClones
  ids : ∀ id t, m.targets[id]? = some t → t.id = id ∧ id < m.nextTarget
  threads : ∀ t ∈ m.threads, t.status ≠ .done → t.target ∈ m.targets

variable {m m' : Machine σ} {id source : TargetId}

theorem mem_targets_iff : id ∈ m.targets ↔ ∃ t, m.targets[id]? = some t := by
  rw [Std.TreeMap.mem_iff_isSome_getElem?, isSome_iff_exists]

theorem getElem?_insert_target (targets : Std.TreeMap TargetId Target) (id id' : TargetId)
    (t : Target) :
    (targets.insert id t)[id']? = if id = id' then some t else targets[id']? := by
  rw [Std.TreeMap.getElem?_insert]
  by_cases h : id = id'
  · rw [if_pos h, if_pos (Std.compare_eq_iff_eq.mpr h)]
  · rw [if_neg h, if_neg fun heq => h (Std.compare_eq_iff_eq.mp heq)]

theorem getElem?_erase_target (targets : Std.TreeMap TargetId Target) (id id' : TargetId) :
    (targets.erase id)[id']? = if id = id' then none else targets[id']? := by
  rw [Std.TreeMap.getElem?_erase]
  by_cases h : id = id'
  · rw [if_pos h, if_pos (Std.compare_eq_iff_eq.mpr h)]
  · rw [if_neg h, if_neg fun heq => h (Std.compare_eq_iff_eq.mp heq)]

namespace Registered

section

variable (h : m.Registered)

include h

theorem lt_next (hid : id ∈ m.layers) : id < m.nextTarget := by
  obtain ⟨t, ht⟩ := mem_targets_iff.mp ((h.mem id).mp hid)
  exact (h.ids id t ht).2

theorem next_not_mem : m.nextTarget ∉ m.layers := fun hmem =>
  Nat.lt_irrefl _ (h.lt_next hmem)

/-- The number of clones is that of the targets that are clones. -/
theorem cloneCount_eq : m.cloneCount = m.targets.values.countP Target.isClone := by
  have hperm : m.layers.Perm m.targets.keys := by
    refine (perm_ext_iff_of_nodup h.nodup Std.TreeMap.nodup_keys).mpr fun id => ?_
    rw [h.mem, Std.TreeMap.mem_keys]
  rw [h.clones, hperm.countP_eq, ← Std.TreeMap.map_fst_toList_eq_keys, Table.values_eq,
    countP_map, countP_map]
  refine countP_congr fun p hp => ?_
  have hget := Std.TreeMap.mem_toList_iff_getElem?_eq_some.mp hp
  dsimp only [Function.comp, isClone]
  rw [hget]
  rfl

/-- The register depends on the kinds of the targets only. -/
theorem of_kind (hlayers : m'.layers = m.layers) (hnext : m'.nextTarget = m.nextTarget)
    (hcount : m'.cloneCount = m.cloneCount) (hsettings : m'.settings = m.settings)
    (hkind : ∀ id : TargetId, m'.targets[id]?.map Target.kind = m.targets[id]?.map Target.kind)
    (hthreads : ∀ t ∈ m'.threads, t.status ≠ .done → t.target ∈ m.targets) : m'.Registered := by
  have hof : ∀ {β : Type} (f : TargetId × Bool × Option TargetId → β) (id : TargetId),
      m'.targets[id]?.map (f ∘ Target.kind) = m.targets[id]?.map (f ∘ Target.kind) := by
    intro β f id
    rw [← Option.map_map, hkind, Option.map_map]
  have hstage : m'.isStage = m.isStage := by
    funext id
    have hany : ∀ m : Machine σ, m.isStage id =
        ((m.targets[id]?.map ((fun k => k.2.1) ∘ Target.kind)).getD false) := by
      intro m
      unfold isStage
      cases m.targets[id]? <;> rfl
    rw [hany, hany, hof]
  have hclone : m'.isClone = m.isClone := by
    funext id
    have hany : ∀ m : Machine σ, m.isClone id =
        ((m.targets[id]?.map ((fun k => k.2.2.isSome) ∘ Target.kind)).getD false) := by
      intro m
      unfold isClone
      cases m.targets[id]? <;> rfl
    rw [hany, hany, hof]
  have hmem : ∀ id, id ∈ m'.targets ↔ id ∈ m.targets := by
    intro id
    have hsome := congrArg Option.isSome (hkind id)
    rw [isSome_map, isSome_map] at hsome
    rw [Std.TreeMap.mem_iff_isSome_getElem?, Std.TreeMap.mem_iff_isSome_getElem?, hsome]
  refine ⟨hlayers ▸ h.nodup, fun id => ?_, ?_, ?_, ?_, fun id t ht => ?_, fun t ht hdone => ?_⟩
  · rw [hlayers, hmem]
    exact h.mem id
  · rw [hlayers, hstage]
    exact h.stages
  · rw [hcount, hlayers, hclone]
    exact h.clones
  · rw [hcount, hsettings]
    exact h.limit
  · have hk := hkind id
    rw [ht, map_some] at hk
    obtain ⟨t₀, ht₀, hk₀⟩ := map_eq_some_iff.mp hk.symm
    obtain ⟨hid, hlt⟩ := h.ids id t₀ ht₀
    rw [hnext]
    exact ⟨(congrArg Prod.fst hk₀).symm.trans hid, hlt⟩
  · exact (hmem _).mpr (hthreads t ht hdone)

theorem of_apart (hapart : m.Apart m') : m'.Registered :=
  h.of_kind hapart.layers hapart.nextTarget hapart.cloneCount hapart.settings
    (hapart.eq_of_bare fun _ => rfl) (by rw [hapart.threads]; exact h.threads)

/-- Other threads may be in the list. -/
theorem of_threads {threads : List Thread} (hthreads : ∀ t ∈ threads, t.status ≠ .done →
    t.target ∈ m.targets) :
    { m with threads }.Registered :=
  h.of_kind rfl rfl rfl rfl (fun _ => rfl) hthreads

theorem onThreads (p : Thread → Bool) : (m.onThreads p Thread.retire).Registered := by
  refine h.of_threads fun t' ht' hdone => ?_
  obtain ⟨t, ht, rfl⟩ := mem_map.mp ht'
  split at hdone
  · exact absurd rfl hdone
  · rename_i hp
    rw [if_neg hp]
    exact h.threads t ht hdone

/-- A target may become another one of its kind. -/
theorem insert_kind {t t' : Target} (ht : m.targets[id]? = some t) (hkind : t'.kind = t.kind) :
    { m with targets := m.targets.insert id t' }.Registered := by
  refine h.of_kind rfl rfl rfl rfl (fun id' => ?_) h.threads
  rw [getElem?_insert_target]
  by_cases hid : id = id'
  · subst hid
    rw [if_pos rfl, ht, map_some, map_some, hkind]
  · rw [if_neg hid]

end

end Registered

/-! ## Adding targets -/

section Insert

variable {t : Target}

theorem isStage_insert (targets : Std.TreeMap TargetId Target) (id id' : TargetId) (t : Target) :
    (targets.insert id t)[id']?.any Target.isStage =
      if id = id' then t.isStage else targets[id']?.any Target.isStage := by
  rw [getElem?_insert_target]
  split <;> rfl

theorem isClone_insert (targets : Std.TreeMap TargetId Target) (id id' : TargetId) (t : Target) :
    (targets.insert id t)[id']?.any Target.isClone =
      if id = id' then t.isClone else targets[id']?.any Target.isClone := by
  rw [getElem?_insert_target]
  split <;> rfl

/-- A new target somewhere in the layers, behind all that must be in front of it. -/
theorem Registered.insert (h : m.Registered) (before after : List TargetId) {count : Nat}
    {stage : Option TargetId} (hlayers : m.layers = before ++ after) (hid : t.id = m.nextTarget)
    (hbefore : t.isStage → ∀ a ∈ before, m.isStage a)
    (hafter : ∀ b ∈ after, m.isStage b → t.isStage)
    (hcount : count = m.cloneCount + if t.isClone then 1 else 0)
    (hlimit : count ≤ m.settings.maxClones) :
    { m with
      nextTarget := m.nextTarget + 1
      targets := m.targets.insert m.nextTarget t
      layers := before ++ m.nextTarget :: after
      cloneCount := count
      stage }.Registered := by
  have hnew : ∀ a ∈ before ++ after, m.nextTarget ≠ a := by
    rintro a ha rfl
    exact h.next_not_mem (hlayers ▸ ha)
  have hnewBefore : ∀ a ∈ before, m.nextTarget ≠ a := fun a ha => hnew a (mem_append_left _ ha)
  have hnewAfter : ∀ a ∈ after, m.nextTarget ≠ a := fun a ha => hnew a (mem_append_right _ ha)
  have hstages := hlayers ▸ h.stages
  have hnodup := hlayers ▸ h.nodup
  refine ⟨?_, fun id => ?_, ?_, ?_, hlimit, fun id t' ht' => ?_, fun t' ht' hdone => ?_⟩
  · rw [nodup_middle]
    exact nodup_cons.mpr ⟨fun hmem => hnew _ hmem rfl, hnodup⟩
  · have hold := h.mem id
    rw [hlayers] at hold
    rw [Std.TreeMap.mem_insert, Std.compare_eq_iff_eq, ← hold]
    simp only [mem_append, mem_cons]
    constructor
    · rintro (h | rfl | h)
      · exact .inr (.inl h)
      · exact .inl rfl
      · exact .inr (.inr h)
    · rintro (rfl | h | h)
      · exact .inr (.inl rfl)
      · exact .inl h
      · exact .inr (.inr h)
  · obtain ⟨hb, ha, hba⟩ := pairwise_append.mp hstages
    unfold isStage at *
    simp only [isStage_insert]
    refine pairwise_append.mpr ⟨?_, pairwise_cons.mpr ⟨fun b hmem => ?_, ?_⟩, ?_⟩
    · refine hb.imp_of_mem fun {a b} hamem hbmem hab => ?_
      rw [if_neg (hnewBefore b hbmem), if_neg (hnewBefore a hamem)]
      exact hab
    · rw [if_neg (hnewAfter b hmem), if_pos rfl]
      exact hafter b hmem
    · refine ha.imp_of_mem fun {a b} hamem hbmem hab => ?_
      rw [if_neg (hnewAfter b hbmem), if_neg (hnewAfter a hamem)]
      exact hab
    · intro a hamem b hbmem
      rw [if_neg (hnewBefore a hamem)]
      rcases mem_cons.mp hbmem with rfl | hbmem
      · rw [if_pos rfl]
        exact fun hstage => hbefore hstage a hamem
      · rw [if_neg (hnewAfter b hbmem)]
        exact hba a hamem b hbmem
  · have hsame : ∀ l : List TargetId, (∀ a ∈ l, m.nextTarget ≠ a) →
        l.countP (fun a => if m.nextTarget = a then t.isClone else m.targets[a]?.any
          Target.isClone) =
          l.countP m.isClone := by
      intro l hl
      refine countP_congr fun a ha => ?_
      rw [if_neg (hl a ha)]
      rfl
    unfold isClone
    simp only [isClone_insert]
    rw [countP_append, countP_cons, hsame _ hnewBefore, hsame _ hnewAfter, if_pos rfl, hcount,
      h.clones, hlayers, countP_append]
    omega
  · dsimp only at ht'
    rw [getElem?_insert_target] at ht'
    split at ht'
    · cases ht'
      rename_i hid'
      exact ⟨hid.trans hid', by rw [← hid']; exact Nat.lt_succ_self _⟩
    · obtain ⟨hid', hlt⟩ := h.ids id t' ht'
      exact ⟨hid', Nat.lt_succ_of_lt hlt⟩
  · exact Std.TreeMap.mem_insert.mpr (.inr (h.threads t' ht' hdone))

end Insert

theorem Registered.addTarget (h : m.Registered) (t : Target) (horiginal : t.cloneOf = none) :
    (m.addTarget t).2.Registered := by
  have hclone : (if ({ t with id := m.nextTarget } : Target).isClone then 1 else 0) = 0 := by
    unfold Target.isClone
    rw [horiginal]
    rfl
  unfold Machine.addTarget
  dsimp only
  split
  · rename_i hstage
    exact h.insert (t := { t with id := m.nextTarget }) [] _ (nil_append _).symm rfl
      (fun _ a ha => by cases ha) (fun _ _ _ => hstage) (by rw [hclone, Nat.add_zero]) h.limit
  · rename_i hsprite
    exact h.insert (t := { t with id := m.nextTarget }) _ [] (append_nil _).symm rfl
      (fun hstage => absurd hstage hsprite) (fun b hb => by cases hb)
        (by rw [hclone, Nat.add_zero]) h.limit

/-- A clone comes right before its source. -/
theorem insertBefore_eq {x mark : TargetId} {l : List TargetId} (h : mark ∈ l) :
    ∃ before after, l = before ++ mark :: after ∧
      insertBefore x mark l = before ++ x :: mark :: after := by
  induction l with
  | nil => cases h
  | cons y ys ih =>
    by_cases heq : y = mark
    · subst heq
      refine ⟨[], ys, rfl, ?_⟩
      unfold insertBefore
      rw [if_pos (beq_self_eq_true y)]
      rfl
    · obtain ⟨before, after, hl, hinsert⟩ := ih (mem_of_ne_of_mem (Ne.symm heq) h)
      refine ⟨y :: before, after, by rw [hl]; rfl, ?_⟩
      unfold insertBefore
      rw [if_neg (by simpa using heq), hinsert]
      rfl

/-- A clone can be made of every sprite while there is room for it. -/
theorem addClone?_isSome : (m.addClone? source).isSome ↔
    m.targets[source]?.any (!·.isStage) ∧ m.cloneCount < m.settings.maxClones := by
  unfold addClone?
  cases m.targets[source]? with
  | none => simp
  | some t => cases t.isStage <;> simp

theorem Registered.addClone (h : m.Registered) (hclone : m.addClone? source = some (id, m')) :
    m'.Registered ∧
      ∃ before after, m.layers = before ++ source :: after ∧
        m'.layers = before ++ id :: source :: after := by
  obtain ⟨t, ht, hsprite, hlimit, rfl, rfl⟩ := addClone?_some hclone
  have hmem : source ∈ m.layers := (h.mem source).mpr (mem_targets_iff.mpr ⟨t, ht⟩)
  obtain ⟨before, after, hlayers, hinsert⟩ := insertBefore_eq (x := m.nextTarget) hmem
  refine ⟨?_, before, after, hlayers, hinsert⟩
  have hsource : m.isStage source = false := by
    unfold isStage
    rw [ht]
    exact hsprite
  rw [hinsert]
  refine h.insert (t := { t.clone with id := m.nextTarget }) _ _ hlayers rfl
    (fun hstage => by cases hstage) (fun b hb hstage => ?_) rfl hlimit
  -- No stage is behind a sprite.
  have hstages := (pairwise_append.mp (hlayers ▸ h.stages)).2.1
  rcases mem_cons.mp hb with rfl | hb
  · rw [hsource] at hstage
    cases hstage
  · have := (pairwise_cons.mp hstages).1 b hb hstage
    rw [hsource] at this
    cases this

/-! ## Removing targets -/

theorem Registered.removeTarget (h : m.Registered) (id : TargetId) :
    (m.removeTarget id).Registered := by
  unfold Machine.removeTarget
  cases ht : m.targets[id]? with
  | none => exact h
  | some t =>
    dsimp only
    obtain ⟨before, after, hlayers⟩ :=
      append_of_mem ((h.mem id).mpr (mem_targets_iff.mpr ⟨t, ht⟩))
    have hnodup := hlayers ▸ h.nodup
    rw [nodup_middle, nodup_cons, mem_append, not_or] at hnodup
    obtain ⟨⟨hbefore, hafter⟩, hrest⟩ := hnodup
    have hkeep : ∀ l : List TargetId, id ∉ l → l.filter (· != id) = l := by
      intro l hl
      refine filter_eq_self.mpr fun a ha => ?_
      simp only [bne_iff_ne]
      rintro rfl
      exact hl ha
    have hfilter : m.layers.filter (· != id) = before ++ after := by
      rw [hlayers, filter_append, filter_cons_of_neg (by simp), hkeep _ hbefore,
        hkeep _ hafter]
    have hne : ∀ a ∈ before ++ after, id ≠ a := by
      rintro a ha rfl
      exact (mem_append.mp ha).elim hbefore hafter
    have hget : ∀ a ∈ before ++ after, (m.targets.erase id)[a]? = m.targets[a]? := by
      intro a ha
      rw [getElem?_erase_target, if_neg (hne a ha)]
    have hclones : (if t.isClone then m.cloneCount - 1 else m.cloneCount) =
        (before ++ after).countP m.isClone := by
      have hisClone : m.isClone id = t.isClone := by
        unfold isClone
        rw [ht]
        rfl
      rw [h.clones, hlayers, countP_append, countP_append, countP_cons, hisClone]
      cases t.isClone
      · rfl
      · simp only [if_true]
        omega
    rw [hfilter, hclones]
    refine ⟨hrest, fun a => ?_, ?_, ?_, ?_, fun a t' ht' => ?_, fun t' ht' hdone => ?_⟩
    · have hmem := h.mem a
      rw [hlayers] at hmem
      show a ∈ before ++ after ↔ a ∈ m.targets.erase id
      rw [Std.TreeMap.mem_erase, ← hmem, Ne, Std.compare_eq_iff_eq]
      simp only [mem_append, mem_cons]
      constructor
      · exact fun ha => ⟨hne a (mem_append.mpr ha), ha.imp_right .inr⟩
      · rintro ⟨hane, ha | rfl | ha⟩
        · exact .inl ha
        · exact absurd rfl hane
        · exact .inr ha
    · have hstages := (hlayers ▸ h.stages).sublist
        (List.Sublist.append_left (sublist_cons_self id after) before)
      refine hstages.imp_of_mem fun {a b} ha hb hab => ?_
      show (m.targets.erase id)[b]?.any Target.isStage → (m.targets.erase id)[a]?.any Target.isStage
      rw [hget a ha, hget b hb]
      exact hab
    · refine countP_congr fun a ha => ?_
      show m.isClone a ↔ (m.targets.erase id)[a]?.any Target.isClone
      rw [hget a ha]
      exact Iff.rfl
    · rw [← hclones]
      show (if t.isClone then m.cloneCount - 1 else m.cloneCount) ≤ m.settings.maxClones
      have := h.limit
      split <;> omega
    · have ht' : (m.targets.erase id)[a]? = some t' := ht'
      rw [getElem?_erase_target] at ht'
      split at ht'
      · cases ht'
      · exact h.ids a t' ht'
    · obtain ⟨t₀, ht₀, rfl⟩ := mem_map.mp ht'
      split at hdone
      · exact absurd rfl hdone
      · rename_i hp
        rw [if_neg hp]
        refine Std.TreeMap.mem_erase.mpr ⟨fun heq => hp ?_, h.threads t₀ ht₀ hdone⟩
        rw [Std.compare_eq_iff_eq.mp heq]
        simp

theorem Registered.stopAll (h : m.Registered) : m.stopAll.Registered :=
  stopAll_induction (fun _ id hm => hm.removeTarget id) (fun _ hm => hm.onThreads _)
    (h.of_apart .of_rest)

/-! ## Threads -/

/-- A thread that may be put in the list. -/
def Admits (m : Machine σ) (t : Thread) : Prop := t.status ≠ .done → t.target ∈ m.targets

theorem Registered.next {memos} (h : m.Registered) :
    { m with memos, nextThread := m.nextThread + 1 }.Registered :=
  h.of_kind rfl rfl rfl rfl (fun _ => rfl) h.threads

theorem Registered.append (h : m.Registered) (ht : m.Admits t) :
    { m with threads := m.threads ++ [t] }.Registered := by
  refine h.of_threads fun t' ht' hdone => ?_
  rcases mem_append.mp ht' with ht' | ht'
  · exact h.threads t' ht' hdone
  · rw [mem_singleton.mp ht'] at hdone ⊢
    exact ht hdone

theorem Registered.set (h : m.Registered) (ht : m.Admits t) (i : Nat) :
    { m with threads := m.threads.set i t }.Registered := by
  refine h.of_threads fun t' ht' hdone => ?_
  rcases mem_or_eq_of_mem_set ht' with ht' | rfl
  · exact h.threads t' ht' hdone
  · exact ht hdone

theorem Registered.place (h : m.Registered) (ht : m.Admits t) (slot : Option Nat) :
    (m.place slot t).Registered := by
  unfold Machine.place
  split
  · split
    · exact h.set ht _
    · exact h.append ht
  · exact h.append ht

/-- The machine is in order if it was before. -/
def StaysRegistered (m m' : Machine σ) : Prop := m.Registered → m'.Registered

instance : Lasting (StaysRegistered : Machine σ → Machine σ → Prop) where
  refl _ h := h
  trans h h' hm := h' (h hm)

section Starting

variable {kit : Kit σ} {fuel : Nat} (hkit : kit.Loyal)
  (hgo : Exec.Keeps (Turn.Along StaysRegistered) (Turn.execute kit fuel))

include hkit hgo

theorem askPredicate_registered (hm : m.Registered)
    (h : askPredicate (Turn.execute kit fuel) t m = some (r, m')) :
    m'.Registered ∧ ∀ t', r = some t' → m'.Admits t' := by
  obtain ⟨outcome, s, hs, h⟩ := askPredicate_cases h
  have hclock : m.readClock.2.Registered := hm.of_apart .of_rest
  have hturned : s.machine.Registered := (hgo _ _ _ hs).machine hclock
  rcases h with ⟨e, -, rfl, rfl⟩ | ⟨rfl, rfl, hr⟩
  · exact ⟨hturned.of_apart .of_rest, fun t' ht' => by cases ht'⟩
  · have hadmits : s.machine.Admits s.thread := (Turn.execute_grounded hkit fuel _ _ hs).founded
    refine ⟨hturned, fun t' ht' => ?_⟩
    rcases hr with rfl | rfl | ⟨-, rfl⟩ <;> cases ht'
    · exact hadmits
    · unfold Thread.leaveHat Thread.enterProgram?
      cases s.thread.program <;> exact hadmits

theorem spawn_registered {hasPredicate : Bool} {target : TargetId} {top : BlockId}
    (hm : m.Registered) (h : spawn kit.toCatalog (Turn.execute kit fuel) hasPredicate target top m =
      some (r, m')) :
    m'.Registered ∧ ∀ t, r = some t → m'.Admits t := by
  rcases spawn_cases h with ⟨rfl, rfl⟩ | ⟨source, program, memos, hsource,
    ⟨-, h⟩ | ⟨-, rfl, t, rfl, hsame⟩⟩
  · exact ⟨hm, fun t ht => by cases ht⟩
  · exact askPredicate_registered hkit hgo hm.next h
  · refine ⟨hm.next, fun t' ht' _ => ?_⟩
    cases ht'
    rw [hsame.target]
    exact mem_targets_iff.mpr ⟨source, hsource⟩

theorem startScript_registered (opcode : String) (hat : Hat) (target : TargetId) (top : BlockId) :
    Run.Keeps StaysRegistered
      (startScript kit.toCatalog (Turn.execute kit fuel) opcode hat target top) := by
  intro m r m' h hm
  rcases startScript_cases h with ⟨-, rfl⟩ | ⟨slot, t, m₁, -, hspawn, -, rfl⟩
  · exact hm
  · obtain ⟨hm₁, hadmits⟩ := spawn_registered hkit hgo hm hspawn
    cases t with
    | none => exact hm₁
    | some t => exact hm₁.place (hadmits t rfl) slot

end Starting

variable {kit : Kit σ} {fuel : Nat}

theorem registered_law (hkit : kit.Loyal) : Law kit StaysRegistered where
  toLenient := .of_still fun h hm => hm.of_apart h.toApart
  tell _ _ _ hm := hm.of_apart .of_rest
  stopAll _ hm := hm.stopAll
  stopTarget _ _ _ hm := hm.onThreads _
  removeTarget _ id hm := hm.removeTarget id
  edgeFires m target block value hm := by
    unfold Machine.edgeFires
    cases ht : m.targets[target]? with
    | none => exact hm
    | some t => exact hm.insert_kind ht rfl
  addClone hclone hm := (hm.addClone hclone).1
  startScript _ hgo := startScript_registered hkit hgo

/-! ## Frames -/

theorem Registered.visit (hkit : kit.Loyal) (hm : m.Registered) {isFirst : Bool} {i : Nat}
    (h : m.visit kit fuel isFirst i = some m') : m'.Registered := by
  rcases visit_cases h with ⟨-, rfl⟩ | ⟨t₀, ht, hcases⟩
  · exact hm
  · have hmem := mem_of_getElem? ht
    obtain ⟨hid, htarget, -, hdone⟩ := wake_same isFirst t₀
    have hadmits : m.Admits (wake isFirst t₀) := by
      intro halive
      rw [htarget]
      refine hm.threads t₀ hmem fun hstatus => halive ?_
      unfold wake
      rw [hstatus]
      exact hstatus
    rcases hcases with ⟨-, rfl⟩ | ⟨-, s, hs, rfl⟩
    · exact hm.set hadmits i
    · generalize wake isFirst t₀ = t at *
      have hplaceholder : { m with threads := m.threads.set i t.placeholder }.Registered :=
        hm.set (t := t.placeholder) hadmits i
      have hs' : s.machine.Registered :=
        (turn_along (registered_law hkit).turnRule hs).machine hplaceholder
      -- The place of the thread is one of the same target, and stopped if that was removed.
      obtain ⟨slot, hslot, -, hscript, -⟩ := turn_slot (List.getElem?_eq_some_iff.mp ht).1 hs
      rcases putBack_eq hslot { s.thread with warpStart := none } with ⟨-, heq⟩ | ⟨-, heq⟩
      · rw [heq]
        refine hs'.set (fun halive => ?_) i
        split at halive
        · exact absurd rfl halive
        · rename_i hstatus
          rw [if_neg hstatus]
          show s.thread.target ∈ s.machine.targets
          rw [(turn_evolves hs).thread.target, ← hscript]
          exact hs'.threads slot (mem_of_getElem? hslot) (by simpa using hstatus)
      · rw [heq]
        exact hs'

theorem registered_frameLaw (hkit : kit.Loyal) : FrameLaw kit StaysRegistered where
  toLaw := registered_law hkit
  note m _ _ hm := hm.of_apart .of_rest
  reportLists m hm := hm.of_apart (apart_reportLists m)
  visit h hm := hm.visit hkit h
  takeDone m hm := by
    unfold takeDone
    rw [partition_eq_filter_filter]
    exact hm.of_threads fun t ht => hm.threads t (mem_of_mem_filter ht)
  startMonitors m := by
    refine startMonitors_along (R := StaysRegistered) (fun m monitor hm => ?_) m.monitors m
    unfold startMonitor
    dsimp only
    split
    · exact hm
    · unfold newThread?
      cases ht : m.targets[monitor.target]? with
      | none => exact hm
      | some t => exact hm.next.append fun _ => mem_targets_iff.mpr ⟨t, ht⟩
  clearEdges m hm := by
    refine hm.of_kind rfl rfl rfl rfl (fun id => ?_) hm.threads
    show ((m.targets.map fun _ t => t.clearEdges)[id]?).map Target.kind = _
    rw [Std.TreeMap.getElem?_map, Option.map_map]
    rfl
  toggle m top target hm := by
    unfold toggle
    dsimp only
    split
    · refine hm.of_threads fun t ht hdone => ?_
      obtain ⟨j, hj, rfl⟩ := mem_iff_getElem.mp ht
      rw [getElem_modify] at hdone ⊢
      split at hdone
      · exact absurd rfl hdone
      · rename_i hne
        rw [if_neg hne]
        exact hm.threads _ (getElem_mem _) hdone
    · unfold newThread?
      cases ht : m.targets[target]? with
      | none => exact hm
      | some t => exact hm.next.append fun _ => mem_targets_iff.mpr ⟨t, ht⟩
  pushThread fuel top target m r m' h hm := by
    rcases pushThread_cases h with rfl | ⟨_, t, m₁, hspawn, rfl⟩
    · exact hm
    · obtain ⟨hm₁, hadmits⟩ := spawn_registered hkit
        (Turn.execute_along (registered_law hkit).rule fuel) hm hspawn
      cases t with
      | none => exact hm₁
      | some t => exact hm₁.append (hadmits t rfl)

/-! ## Operations -/

theorem registered_new (settings : Settings) (clock : Clock) (host : σ) :
    (Machine.new settings clock host).Registered := by
  have hnone : ∀ id : TargetId, (Machine.new settings clock host).targets[id]? = none :=
    fun _ => Std.TreeMap.getElem?_emptyc
  refine ⟨nodup_nil, fun id => ?_, List.Pairwise.nil, rfl, Nat.zero_le _, fun id t ht => ?_,
    forall_mem_nil _⟩
  · rw [mem_targets_iff, hnone]
    exact ⟨fun hmem => absurd hmem not_mem_nil, fun ⟨t, ht⟩ => absurd ht (some_ne_none t).symm⟩
  · rw [hnone] at ht
    cases ht

end Machine

/-- What is done to a machine that gets its targets one by one. Those that are added are no
clones. -/
inductive Change where
  | add (t : Target) (original : t.cloneOf = none)
  | operate (op : Operation) (fuel : Nat)

def Change.apply (kit : Kit σ) : Change → Run (Machine σ) Unit
  | .add t _ => discard (modifyGet (·.addTarget t))
  | .operate op fuel => discard (op.apply kit fuel)

/-- Changes one after the other. -/
def Machine.undergo (kit : Kit σ) : List Change → Run (Machine σ) Unit
  | [] => return
  | change :: rest => do
    change.apply kit
    undergo kit rest

namespace Machine

open Run

variable {kit : Kit σ} {m m' : Machine σ}

theorem undergo_registered (hkit : kit.Loyal) (changes : List Change) :
    Keeps StaysRegistered (undergo kit changes) := by
  induction changes with
  | nil => exact keeps_pure _
  | cons change changes ih =>
    refine Keeps.andThen ?_ fun _ => ih
    cases change with
    | add t original => exact (keeps_modifyGet fun m hm => hm.addTarget t original).discarded
    | operate op fuel =>
      exact (Operation.apply_along (registered_frameLaw hkit) fuel op).discarded

theorem undergo_settings (changes : List Change) : Keeps SameSettings (undergo kit changes) := by
  induction changes with
  | nil => exact keeps_pure _
  | cons change changes ih =>
    refine Keeps.andThen ?_ fun _ => ih
    cases change with
    | add t original =>
      refine (keeps_modifyGet fun m => ?_).discarded
      unfold addTarget SameSettings
      dsimp only
      split <;> rfl
    | operate op fuel => exact (Operation.apply_along sameSettings_law.frameLaw fuel op).discarded

/-- The layers stay as they are. -/
def SameLayers (m m' : Machine σ) : Prop := m'.layers = m.layers

instance : Lasting (SameLayers : Machine σ → Machine σ → Prop) where
  refl _ := rfl
  trans h h' := h'.trans h

/-- A clone is made if it can be, and comes right before its source. -/
theorem Registered.createClone (hm : m.Registered)
    (hhat : kit.hasPrimitive "control_start_as_clone" = false) {predicate : Exec (Turn σ) Unit}
    {source : TargetId} {r : Option TargetId}
    (h : Machine.createClone kit.toCatalog predicate source m = some (r, m')) :
    (r.isSome ↔ m.targets[source]?.any (!·.isStage) ∧ m.cloneCount < m.settings.maxClones) ∧
      ∀ id, r = some id → ∃ before after, m.layers = before ++ source :: after ∧
        m'.layers = before ++ id :: source :: after := by
  rw [← addClone?_isSome]
  rcases createClone_cases h with ⟨hadd, rfl, -⟩ | ⟨id, m₁, ids, hadd, rfl, hstart⟩
  · rw [hadd]
    exact ⟨Iff.rfl, fun id hid => by cases hid⟩
  · have hsame : m'.layers = m₁.layers := startHats_along (R := SameLayers)
      (startScript_unasked (fun h => h.toApart.layers) (fun _ _ _ => rfl) hhat) []
        (some id) _ _ _ hstart
    obtain ⟨before, after, hlayers, hclone⟩ := (hm.addClone hadd).2
    rw [hadd]
    refine ⟨Iff.rfl, fun id' hid' => ?_⟩
    cases hid'
    exact ⟨before, after, hlayers, hsame.trans hclone⟩

end Machine

/-- **The register of targets is in order.** Take a machine without targets, any blocks of which
those that remove targets end their threads, and any number of changes: targets that are added,
clones that are made, targets that are removed, flags, stops, frames and whatever else may be asked
of it. Then
* the layers hold exactly the targets, each once, and stages come before all sprites;
* the clones are counted, and there are never more than the settings allow;
* each target has the id under which it is kept, and no id is used that was not given out;
* every thread that is not done belongs to a target;
* a clone is made of any sprite while there is room, and it comes right before its source. -/
theorem targets_stay_registered {kit : Kit σ} (hkit : kit.Loyal)
    (hhat : kit.hasPrimitive "control_start_as_clone" = false) {settings : Settings} {clock : Clock}
    {host : σ} {changes : List Change} {m : Machine σ}
    (h : Machine.undergo kit changes (Machine.new settings clock host) = some ((), m)) :
    m.layers.Nodup ∧ (∀ id, id ∈ m.layers ↔ id ∈ m.targets) ∧
      (m.layers.Pairwise fun a b => m.isStage b → m.isStage a) ∧
      m.cloneCount = m.targets.values.countP Target.isClone ∧ m.cloneCount ≤ settings.maxClones ∧
      (∀ id t, m.targets[id]? = some t → t.id = id ∧ id < m.nextTarget) ∧
      (∀ t ∈ m.threads, t.isDone = false → t.target ∈ m.targets) ∧
      ∀ fuel source r m',
        Machine.createClone kit.toCatalog (Machine.predicate kit fuel) source m = some (r, m') →
          (r.isSome ↔ m.targets[source]?.any (!·.isStage) ∧ m.cloneCount < settings.maxClones) ∧
            ∀ id, r = some id → ∃ before after, m.layers = before ++ source :: after ∧
              m'.layers = before ++ id :: source :: after := by
  have hm := Machine.undergo_registered hkit changes _ _ _ h
    (Machine.registered_new settings clock host)
  have hsettings : m.settings = settings := Machine.undergo_settings changes _ _ _ h
  refine ⟨hm.nodup, hm.mem, hm.stages, hm.cloneCount_eq, hsettings ▸ hm.limit, hm.ids,
    fun t ht halive => hm.threads t ht ?_, fun fuel source r m' hclone => ?_⟩
  · intro hdone
    simp [Thread.isDone, hdone] at halive
  · rw [← hsettings]
    exact hm.createClone hhat hclone

/-- A cat that makes a clone of itself under the flag; its clones go away as soon as they start. -/
def Target.cat : Target :=
  .sprite "Cat" (.ofBlocks [
    { id := "flag", opcode := "event_whenflagclicked", next := some "make", isTopLevel := true },
    { id := "make", opcode := "control_create_clone_of",
      fields := Table.of [("CLONE_OPTION", { value := .text "_myself_" })] },
    { id := "born", opcode := "control_start_as_clone", next := some "leave", isTopLevel := true },
    { id := "leave", opcode := "control_delete_this_clone" }])

/-- Clones come and go, from outside and in turns, and one is left. -/
theorem cat_stays_registered :
    ∃ m : Machine Unit,
      Machine.undergo { Library.core with }
        [.add .cat rfl, .add (.stage {}) rfl, .operate .greenFlag 20, .operate (.createClone 0) 20,
          .operate .step 40, .operate (.createClone 0) 20]
        (Machine.new {} { tick := 1.0 } ()) = some ((), m) ∧
      m.layers = [1, 4, 0] ∧ m.layers.Nodup ∧ m.cloneCount = 1 ∧
      m.cloneCount = m.targets.values.countP Target.isClone ∧
      m.threads.map Thread.target = [4] ∧
      ∀ t ∈ m.threads, t.isDone = false → t.target ∈ m.targets := by
  have hplay : ((Machine.undergo ({ Library.core with } : Kit Unit)
      [.add .cat rfl, .add (.stage {}) rfl, .operate .greenFlag 20, .operate (.createClone 0) 20,
        .operate .step 40, .operate (.createClone 0) 20]
      (Machine.new {} { tick := 1.0 } ())).map fun p =>
        (p.2.layers, p.2.cloneCount, p.2.threads.map Thread.target)) =
          some ([1, 4, 0], 1, [4]) := by
    decide +kernel
  obtain ⟨⟨_, m⟩, h, heq⟩ := map_eq_some_iff.mp hplay
  simp only [Prod.mk.injEq] at heq
  obtain ⟨hlayers, hcount, htargets⟩ := heq
  obtain ⟨hnodup, -, -, hclones, -, -, hthreads, -⟩ :=
    targets_stay_registered Library.core_loyal rfl h
  exact ⟨m, h, hlayers, hnodup, hcount, hclones, htargets, hthreads⟩

end BlockMachine

import BlockMachine.Proofs.Machine.Reached
import BlockMachine.Proofs.Machine.Restarts
import BlockMachine.Proofs.Number.Order

/-!
# The flag

A click on the flag ends all threads, removes all clones, forgets what the edge-activated hats have
answered, starts the project timer again, and starts the scripts under the flag. From every machine
that a host can come to it leads to the same threads, each script under the flag once
(`flag_starts_each_script_once`). Their order is not always the same: a script whose thread is still
listed gets that thread's place (`flag_order_follows_list`).

The module is about `Machine.greenFlag`.

## Results

* `flag_starts_each_script_once`: what a click leads to, from every machine that can be reached.
* `flag_order_follows_list`: the order of the threads, from two such machines.
* `flag_order_depends_on_history`: two runs of one project that differ in that order.

Left out are hats for the flag that have a predicate or do not restart their scripts.
-/

namespace BlockMachine

open List

variable {σ : Type} {top : BlockId} {t : Target} {target id : TargetId}

namespace Machine

variable {m m' : Machine σ}

/-! ## Stopping everything -/

theorem removeTargets_targets (ids : List TargetId) (m : Machine σ) (id : TargetId) :
    (ids.foldl removeTarget m).targets[id]? = if id ∈ ids then none else m.targets[id]? := by
  induction ids generalizing m with
  | nil => simp
  | cons first ids ih =>
    have hone : (m.removeTarget first).targets[id]? = if first = id then none
        else m.targets[id]? := by
      unfold removeTarget
      cases ht : m.targets[first]? with
      | none =>
        dsimp only
        by_cases heq : first = id
        · rw [if_pos heq, ← heq, ht]
        · rw [if_neg heq]
      | some t => exact getElem?_erase_target m.targets first id
    rw [foldl_cons, ih, hone]
    by_cases hmem : id ∈ ids
    · simp [hmem]
    · by_cases heq : first = id
      · simp [heq]
      · simp [hmem, heq, Ne.symm heq]

theorem Registered.removeTargets_layers (h : m.Registered) (ids : List TargetId) :
    (ids.foldl Machine.removeTarget m).layers = m.layers.filter (· ∉ ids) := by
  induction ids generalizing m with
  | nil => simp
  | cons first ids ih =>
    have hone : (m.removeTarget first).layers = m.layers.filter (· != first) := by
      unfold Machine.removeTarget
      cases ht : m.targets[first]? with
      | none =>
        refine (filter_eq_self.mpr fun id hid => ?_).symm
        obtain ⟨t, ht'⟩ := mem_targets_iff.mp ((h.mem id).mp hid)
        have hne : id ≠ first := by
          rintro rfl
          rw [ht] at ht'
          cases ht'
        simpa using hne
      | some t => rfl
    rw [foldl_cons, ih (h.removeTarget first), hone, filter_filter]
    refine filter_congr fun id _ => ?_
    by_cases heq : id = first <;> simp [heq]

/-- What removing targets and ending threads leaves alone. -/
structure Silences (m m' : Machine σ) : Prop where
  now : m'.now = m.now
  stopwatch : m'.stopwatch = m.stopwatch
  nextThread : m'.nextThread = m.nextThread
  listed : listed m'.threads = listed m.threads

instance : Lasting (Silences : Machine σ → Machine σ → Prop) where
  refl _ := ⟨rfl, rfl, rfl, rfl⟩
  trans h h' := ⟨h'.now.trans h.now, h'.stopwatch.trans h.stopwatch,
    h'.nextThread.trans h.nextThread, h'.listed.trans h.listed⟩

theorem listed_retired (p : Thread → Bool) (ts : List Thread) :
    listed (ts.map fun t => if p t then t.retire else t) = listed ts := by
  unfold listed
  induction ts with
  | nil => rfl
  | cons t ts ih =>
    rw [map_cons]
    have hsame : ∀ u :
        Thread, u = t.retire ∨ u = t → u.isHatted = t.isHatted ∧ u.script = t.script := by
      rintro u (rfl | rfl) <;> exact ⟨rfl, rfl⟩
    obtain ⟨hhatted, hscript⟩ := hsame (if p t then t.retire else t) (by split <;> simp)
    rw [filter_cons, filter_cons, hhatted]
    split
    · rw [map_cons, map_cons, hscript, ih]
    · exact ih

theorem silences_onThreads (m : Machine σ) (p : Thread → Bool) :
    m.Silences (m.onThreads p Thread.retire) :=
  ⟨rfl, rfl, rfl, listed_retired p m.threads⟩

theorem silences_stopAll (m : Machine σ) : m.Silences m.stopAll := by
  have hone : ∀ (m : Machine σ) (id : TargetId), m.Silences (m.removeTarget id) := by
    intro m id
    unfold removeTarget
    cases m.targets[id]? with
    | none => exact Lasting.refl m
    | some t => exact ⟨rfl, rfl, rfl, listed_retired _ m.threads⟩
  exact stopAll_along hone (fun m => silences_onThreads m _) ⟨rfl, rfl, rfl, rfl⟩

theorem mem_values_iff : t ∈ m.targets.values ↔ ∃ id : TargetId, m.targets[id]? = some t := by
  rw [Table.values_eq, mem_map]
  constructor
  · rintro ⟨p, hp, rfl⟩
    exact ⟨p.1, Std.TreeMap.mem_toList_iff_getElem?_eq_some.mp hp⟩
  · rintro ⟨id, hid⟩
    exact ⟨(id, t), Std.TreeMap.mem_toList_iff_getElem?_eq_some.mpr hid, rfl⟩

/-- The ids of the clones, as they are removed. -/
theorem Registered.mem_clones (h : m.Registered) (id : TargetId) :
    id ∈ (m.targets.values.filter Target.isClone).map Target.id ↔ m.isClone id = true := by
  unfold Machine.isClone
  simp only [mem_map, mem_filter, Option.any_eq_true]
  constructor
  · rintro ⟨t, ⟨hmem, hclone⟩, rfl⟩
    obtain ⟨id, hid⟩ := mem_values_iff.mp hmem
    exact ⟨t, (h.ids id t hid).1.symm ▸ hid, hclone⟩
  · rintro ⟨t, ht, hclone⟩
    exact ⟨t, ⟨mem_values_iff.mpr ⟨id, ht⟩, hclone⟩, (h.ids id t ht).1⟩

/-- The targets that are no clones, in layer order. -/
def originals (m : Machine σ) : List TargetId :=
  m.layers.filter (!m.isClone ·)

theorem Registered.stopAll_targets (h : m.Registered) (id : TargetId) :
    m.stopAll.targets[id]? = if m.isClone id then none else m.targets[id]? := by
  show (foldl Machine.removeTarget (m.emit .projectStopAll) _).targets[id]? = _
  rw [removeTargets_targets]
  exact if_congr (h.mem_clones id) rfl rfl

theorem Registered.stopAll_layers (h : m.Registered) : m.stopAll.layers = m.originals := by
  show (foldl Machine.removeTarget (m.emit .projectStopAll) _).layers = _
  rw [(h.of_apart .of_rest : (m.emit .projectStopAll).Registered).removeTargets_layers]
  refine filter_congr fun id _ => ?_
  have hmem : id ∈ ((m.emit .projectStopAll).targets.values.filter Target.isClone).map Target.id ↔
      m.isClone id = true := h.mem_clones id
  rw [Bool.eq_iff_iff, decide_eq_true_eq, hmem, Bool.not_eq_true, Bool.not_eq_true']

theorem Registered.stopAll_cloneCount (h : m.Registered) : m.stopAll.cloneCount = 0 := by
  rw [h.stopAll.clones, countP_eq_zero]
  intro id _
  rw [Machine.isClone, h.stopAll_targets, Machine.isClone]
  cases m.targets[id]? with
  | none => simp
  | some t => by_cases hclone : t.isClone = true <;> simp [hclone]

/-! ## The scripts under the flag -/

/-- The machine when the flag was clicked, before the scripts are started. -/
def cleared (m : Machine σ) : Machine σ :=
  let m := m.stopAll.emit .projectStart
  { m with
    stopwatch := m.stopwatch.restart m.now
    targets := m.targets.map fun _ t => t.clearEdges }

/-- The scripts under the flag: the targets from the last layer to the first, and the scripts of a
target in the order of their creation. -/
def flagScripts (m : Machine σ) : List (TargetId × BlockId) :=
  m.originals.reverse.flatMap (m.scriptsOf "event_whenflagclicked" [])

theorem Registered.cleared_targets (h : m.Registered) (id : TargetId) :
    m.cleared.targets[id]? = if m.isClone id then none
      else m.targets[id]?.map Target.clearEdges := by
  show (m.stopAll.targets.map fun _ t => t.clearEdges)[id]? = _
  rw [Std.TreeMap.getElem?_map, h.stopAll_targets]
  split <;> rfl

theorem Registered.cleared_targets_some (h : m.Registered) :
    m.cleared.targets[id]? = some t ↔
      ∃ t₀, m.targets[id]? = some t₀ ∧ t₀.isClone = false ∧ t₀.clearEdges = t := by
  rw [h.cleared_targets, Machine.isClone]
  cases m.targets[id]? with
  | none => simp
  | some t₀ => by_cases hclone : t₀.isClone = true <;> simp [hclone]

theorem cleared_silences (m : Machine σ) :
    m.now = m.cleared.now ∧ m.nextThread = m.cleared.nextThread ∧
    listed m.cleared.threads = listed m.threads := by
  obtain ⟨hnow, -, hnext, hlisted⟩ := silences_stopAll m
  exact ⟨hnow.symm, hnext.symm, hlisted⟩

theorem cleared_done (m : Machine σ) : ∀ t ∈ m.cleared.threads, t.isDone = true := by
  intro t ht
  obtain ⟨t, -, rfl⟩ := mem_map.mp ht
  rfl

theorem scriptsOf_eq (m : Machine σ) (opcode : String) (id : TargetId) :
    m.scriptsOf opcode [] id =
      ((m.targets[id]?.map Target.sheet).elim [] (·.scriptsWith opcode)).map (id, ·) := by
  unfold scriptsOf
  cases m.targets[id]? with
  | none => rfl
  | some t =>
    refine congrArg (map (id, ·)) (filter_eq_self.mpr fun top htop => ?_)
    obtain ⟨b, hb, -⟩ := Option.map_eq_some_iff.mp (eq_of_beq (mem_filter.mp htop).2)
    simp [hb, fieldsMatch]

theorem mem_scriptsOf {opcode : String} :
    (target, top) ∈ m.scriptsOf opcode [] id ↔
      target = id ∧ ∃ t, m.targets[id]? = some t ∧ top ∈ t.sheet.scriptsWith opcode := by
  rw [scriptsOf_eq, mem_map]
  cases m.targets[id]? with
  | none => simp
  | some t => simp [eq_comm, and_comm]

/-- The scripts that are started are those under the flag. -/
theorem Registered.cleared_scripts (h : m.Registered) :
    m.cleared.layers.reverse.flatMap (m.cleared.scriptsOf "event_whenflagclicked" []) =
      m.flagScripts := by
  have hlayers : m.cleared.layers = m.originals := h.stopAll_layers
  unfold flagScripts
  rw [hlayers]
  refine flatMap_congr fun id hid => ?_
  have hclone : m.isClone id = false := by
    simpa using (mem_filter.mp (mem_reverse.mp hid)).2
  rw [scriptsOf_eq, scriptsOf_eq, h.cleared_targets, hclone]
  cases m.targets[id]? <;> rfl

/-- The scripts of distinct targets are distinct. -/
theorem Orderly.scripts_nodup (h : m.Orderly) (opcode : String) {ids : List TargetId}
    (hids : ids.Nodup) :
    (ids.flatMap (m.scriptsOf opcode [])).Nodup := by
  refine nodup_flatMap.mpr ⟨fun id _ => h.distinct.scriptsOf_nodup _ _ id, ?_⟩
  refine hids.imp fun {a b} hne => disjoint_left.mpr ?_
  rintro ⟨target, top⟩ ha hb
  exact hne ((mem_scriptsOf.mp ha).1.symm.trans (mem_scriptsOf.mp hb).1)

theorem Orderly.flagScripts_nodup (h : m.Orderly) : m.flagScripts.Nodup :=
  h.scripts_nodup _ (nodup_reverse.mpr (h.registered.nodup.filter _))

theorem Registered.mem_flagScripts (h : m.Registered) :
    (target, top) ∈ m.flagScripts ↔ ∃ t, m.targets[target]? = some t ∧ t.isClone = false ∧
      top ∈ t.sheet.scriptsWith "event_whenflagclicked" := by
  unfold flagScripts originals Machine.isClone
  simp only [mem_flatMap, mem_reverse, mem_filter, mem_scriptsOf]
  constructor
  · rintro ⟨id, ⟨-, hclone⟩, rfl, t, ht, htop⟩
    exact ⟨t, ht, by simpa [ht] using hclone, htop⟩
  · rintro ⟨t, ht, hclone, htop⟩
    exact ⟨target, ⟨(h.mem target).mpr (mem_targets_iff.mpr ⟨t, ht⟩), by simp [ht, hclone]⟩, rfl, t,
      ht, htop⟩

/-! ## Clicking the flag -/

section Click

variable {kit : Kit σ} {hat : Hat} (hhat : kit.hats["event_whenflagclicked"]? = some hat)
  (hrestarts : hat.restarts) (hpredicate : kit.hasPrimitive "event_whenflagclicked" = false)

include hhat hrestarts hpredicate

/-- The scripts under the flag are started in the machine that was cleared. -/
theorem Registered.greenFlag_restarts (h : m.Registered) (fuel : Nat) :
    ∃ us m', m.greenFlag kit fuel = some ((), m') ∧ Restarted m.flagScripts us m.cleared m' := by
  obtain ⟨us, m', hstart, hrestarted⟩ := startOn_restarts hpredicate hrestarts
    (Machine.predicate kit fuel) [] m.cleared.layers.reverse m.cleared
  rw [h.cleared_scripts] at hrestarted
  refine ⟨us, m', ?_, hrestarted⟩
  refine Run.bind_some.mpr ⟨(), m.cleared, rfl, Run.discard_some.mpr ⟨us.map Thread.id, ?_⟩⟩
  unfold startHats
  rw [hhat]
  exact hstart

/-- The scripts that run when the flag was clicked, in their order. -/
theorem Orderly.greenFlag_live (h : m.Orderly) (fuel : Nat) :
    ∃ m', m.greenFlag kit fuel = some ((), m') ∧
      live m'.threads = startOrder (listed m.threads) m.flagScripts := by
  obtain ⟨us, m', hgreen, hscripts, hfresh, memos, next, -, rfl⟩ :=
    h.registered.greenFlag_restarts hhat hrestarts hpredicate fuel
  refine ⟨_, hgreen, ?_⟩
  have hlive := live_restarted m.cleared_done (fun u hu => (hfresh u hu).live)
    (hscripts.symm ▸ h.flagScripts_nodup)
  rwa [hscripts, m.cleared_silences.2.2] at hlive

end Click

theorem count_live (ts : List Thread) (s : TargetId × BlockId) :
    (live ts).count s = ts.countP fun t => !t.isDone && t.script == s := by
  unfold live
  rw [count, countP_map, countP_filter]
  refine countP_congr fun t _ => ?_
  simp [and_comm]

/-- The timer that starts again reads zero. -/
theorem restart_seconds (w : Stopwatch Float) {now : Float} (h : now.isFinite = true) :
    (w.restart now).seconds now = 0 := by
  have hpaused : (w.pausedAt.map fun _ => now).getD now = now := by
    cases w.pausedAt <;> rfl
  show ((w.pausedAt.map fun _ => now).getD now - now) / 1000 = 0
  rw [hpaused, Number.sub_self_of_isFinite h]
  decide +kernel

end Machine

open Machine

/-- **The flag always leads to the same configuration.** No clone is left, no thread that was listed
goes on, what the edge-activated hats have answered is forgotten, the timer reads zero, and the
threads that are not done are one for each script under the flag. -/
theorem flag_starts_each_script_once {kit : Kit σ} (hkit : kit.Loyal) {hat : Hat}
    (hhat : kit.hats["event_whenflagclicked"]? = some hat) (hrestarts : hat.restarts)
    (hpredicate : kit.hasPrimitive "event_whenflagclicked" = false) {m : Machine σ}
    (hm : m.Reached kit) (fuel : Nat) :
    ∃ m', m.greenFlag kit fuel = some ((), m') ∧
      m'.cloneCount = 0 ∧
      (∀ (id : TargetId) (t : Target), m'.targets[id]? = some t → t.isClone = false ∧ t.edges = ∅) ∧
      (∀ t ∈ m.threads, ∀ t' ∈ m'.threads, t'.id = t.id → t'.isDone = true) ∧
      (∀ target top, (m'.threads.countP fun t => !t.isDone && t.script == (target, top)) =
        if m'.targets[target]?.any (top ∈ ·.sheet.scriptsWith "event_whenflagclicked") then 1
        else 0) ∧
      (m.now.isFinite = true → m'.stopwatch.seconds m'.now = 0) := by
  have horderly := hm.orderly hkit
  have hregistered := horderly.registered
  obtain ⟨us, m', hgreen, hrestarted⟩ :=
    hregistered.greenFlag_restarts hhat hrestarts hpredicate fuel
  obtain ⟨m'', hgreen', hlive⟩ := horderly.greenFlag_live hhat hrestarts hpredicate fuel
  cases hgreen.symm.trans hgreen'
  obtain ⟨-, hfresh, memos, next, -, hm'⟩ := hrestarted
  have htargets : ∀ (id : TargetId) (t : Target), m'.targets[id]? = some t ↔
      ∃ t₀, m.targets[id]? = some t₀ ∧ t₀.isClone = false ∧ t₀.clearEdges = t := by
    intro id t
    rw [hm']
    exact hregistered.cleared_targets_some
  refine ⟨m', hgreen, ?_, fun id t ht => ?_, fun t ht t' ht' hid => ?_, fun target top => ?_,
    fun hnow => ?_⟩
  · rw [hm']
    exact hregistered.stopAll_cloneCount
  · obtain ⟨t₀, -, hclone, rfl⟩ := (htargets id t).mp ht
    exact ⟨hclone, rfl⟩
  · rw [hm'] at ht'
    rcases mem_restarts ht' with hnew | hold
    · have hlt := horderly.tidy.given t ht
      rw [m.cleared_silences.2.1, ← hid] at hlt
      exact absurd (hfresh t' hnew).new (Nat.not_le.mpr hlt)
    · exact m.cleared_done t' hold
  · rw [← count_live, hlive, (startOrder_perm _ horderly.flagScripts_nodup).count_eq,
      horderly.flagScripts_nodup.count]
    refine if_congr (hregistered.mem_flagScripts.trans ?_) rfl rfl
    rw [Option.any_eq_true]
    constructor
    · rintro ⟨t, ht, hclone, htop⟩
      exact ⟨t.clearEdges, (htargets target _).mpr ⟨t, ht, hclone, rfl⟩, decide_eq_true htop⟩
    · rintro ⟨t, ht, htop⟩
      obtain ⟨t₀, ht₀, hclone, rfl⟩ := (htargets target t).mp ht
      exact ⟨t₀, ht₀, hclone, of_decide_eq_true htop⟩
  · rw [hm']
    exact restart_seconds _ (m.cleared_silences.1 ▸ hnow)

/-- A clone that has just been made is gone, and only the cat's own script runs. -/
theorem cat_flag_starts_script_once :
    ∃ m m' : Machine Unit, m.cloneCount = 1 ∧ live m.threads = [(1, "born")] ∧
      m.greenFlag { Library.core with } 0 = some ((), m') ∧ m'.cloneCount = 0 ∧
      (m'.threads.countP fun t => !t.isDone && t.script == (0, "flag")) = 1 ∧
      (m'.threads.countP fun t => !t.isDone && t.script == (1, "born")) = 0 ∧
      m'.stopwatch.seconds m'.now = 0 := by
  have hclone : ((Operation.apply ({ Library.core with } : Kit Unit) 20 (.createClone 0)
      (Machine.addTarget (.new {} { tick := 1.0 } ()) .cat).2).map fun p =>
        (p.2.cloneCount, live p.2.threads, p.2.now.isFinite)) = some (1, [(1, "born")], true) := by
    decide +kernel
  have hscripts : ((Operation.apply ({ Library.core with } : Kit Unit) 20 (.createClone 0)
      (Machine.addTarget (.new {} { tick := 1.0 } ()) .cat).2).bind fun p =>
        (p.2.greenFlag { Library.core with } 0).map fun q => [(0, "flag"), (1, "born")].map fun s =>
          q.2.targets[s.1]?.any (s.2 ∈ ·.sheet.scriptsWith "event_whenflagclicked")) =
        some [true, false] := by
    decide +kernel
  obtain ⟨⟨done, m⟩, hop, heq⟩ := Option.map_eq_some_iff.mp hclone
  simp only [Prod.mk.injEq] at heq
  obtain ⟨hcount, hlive, hnow⟩ := heq
  have hreached : m.Reached ({ Library.core with } : Kit Unit) :=
    .operate (.addTarget (.new {} { tick := 1.0 } ()) .cat rfl (Sheet.ofBlocks_nodup _)) _ hop
  have hhat : ({ Library.core with } : Kit Unit).hats["event_whenflagclicked"]? =
      some { restarts := true } := by decide +kernel
  obtain ⟨m', hgreen, hzero, -, -, honce, htimer⟩ :=
    flag_starts_each_script_once Library.core_loyal hhat rfl rfl hreached 0
  rw [hop, Option.bind_some, hgreen, Option.map_some] at hscripts
  simp only [map_cons, map_nil, Option.some.injEq, cons.injEq, and_true] at hscripts
  refine ⟨m, m', hcount, hlive, hgreen, hzero, ?_, ?_, htimer hnow⟩
  · rw [honce, hscripts.1, if_pos rfl]
  · rw [honce, hscripts.2, if_neg Bool.false_ne_true]

/-- **The order in which the flag starts scripts follows the list of threads.** The scripts whose
threads are listed come first, in the order of the list, and the others behind them, the targets
from the last layer to the first and the scripts of a target in the order of their creation. So two
machines with the same targets start the same scripts, each once; and in the same order if they list
them in the same order, in the order of layers and creation if none of them is listed. -/
theorem flag_order_follows_list {kit : Kit σ} (hkit : kit.Loyal) {hat : Hat}
    (hhat : kit.hats["event_whenflagclicked"]? = some hat) (hrestarts : hat.restarts)
    (hpredicate : kit.hasPrimitive "event_whenflagclicked" = false) {m₁ m₂ : Machine σ}
    (hm₁ : m₁.Reached kit) (hm₂ : m₂.Reached kit) (hlayers : m₁.originals = m₂.originals)
    (hsheets : ∀ id ∈ m₁.originals,
      m₁.targets[id]?.map Target.sheet = m₂.targets[id]?.map Target.sheet) (fuel₁ fuel₂ : Nat) :
    ∃ m₁' m₂', m₁.greenFlag kit fuel₁ = some ((), m₁') ∧ m₂.greenFlag kit fuel₂ = some ((), m₂') ∧
      live m₁'.threads = startOrder (listed m₁.threads) m₁.flagScripts ∧
      live m₂'.threads = startOrder (listed m₂.threads) m₁.flagScripts ∧
      (live m₁'.threads).Perm (live m₂'.threads) ∧ (live m₁'.threads).Nodup ∧
      ((listed m₁.threads).eraseDups.filter (· ∈ m₁.flagScripts) =
        (listed m₂.threads).eraseDups.filter (· ∈ m₁.flagScripts) →
          live m₁'.threads = live m₂'.threads) ∧
      ((∀ s ∈ m₁.flagScripts, s ∉ listed m₁.threads) → live m₁'.threads = m₁.flagScripts) := by
  have horderly₁ := hm₁.orderly hkit
  have horderly₂ := hm₂.orderly hkit
  have hscripts : m₂.flagScripts = m₁.flagScripts := by
    unfold flagScripts
    rw [← hlayers]
    refine flatMap_congr fun id hid => ?_
    rw [scriptsOf_eq, scriptsOf_eq, hsheets id (mem_reverse.mp hid)]
  obtain ⟨m₁', hgreen₁, hlive₁⟩ := horderly₁.greenFlag_live hhat hrestarts hpredicate fuel₁
  obtain ⟨m₂', hgreen₂, hlive₂⟩ := horderly₂.greenFlag_live hhat hrestarts hpredicate fuel₂
  rw [hscripts] at hlive₂
  have hnodup := horderly₁.flagScripts_nodup
  have hperm₁ := startOrder_perm (listed m₁.threads) hnodup
  have hperm₂ := startOrder_perm (listed m₂.threads) hnodup
  refine ⟨m₁', m₂', hgreen₁, hgreen₂, hlive₁, hlive₂, ?_, ?_, fun heq => ?_, fun hnone => ?_⟩
  · rw [hlive₁, hlive₂]
    exact hperm₁.trans hperm₂.symm
  · rw [hlive₁]
    exact hperm₁.nodup_iff.mpr hnodup
  · rw [hlive₁, hlive₂]
    exact startOrder_congr heq
  · rw [hlive₁]
    exact startOrder_of_disjoint hnone

/-- Two scripts under the flag, of which the first one ends at once. -/
def Sheet.shortAndLong : Sheet :=
  .ofBlocks [
    { id := "short", opcode := "event_whenflagclicked", isTopLevel := true },
    { id := "long", opcode := "event_whenflagclicked", next := some "loop", isTopLevel := true },
    { id := "loop", opcode := "control_forever" }]

/-- A stage with these two scripts. -/
def Machine.shortAndLong : Machine Unit :=
  (Machine.addTarget (.new {} { tick := 5.0 } ()) (.stage .shortAndLong)).2

/-- After a frame only the long script is listed, and it comes first. -/
theorem shortAndLong_order_follows_list :
    ∃ (done : List Thread) (m m₁ m₂ : Machine Unit),
      play { Library.core with } [(.greenFlag, 0), (.step, 60)] .shortAndLong = some (done, m) ∧
      Machine.shortAndLong.greenFlag { Library.core with } 0 = some ((), m₁) ∧
      m.greenFlag { Library.core with } 0 = some ((), m₂) ∧
      live m₁.threads = [(0, "short"), (0, "long")] ∧
        live m₂.threads = [(0, "long"), (0, "short")] ∧
      (live m₁.threads).Perm (live m₂.threads) := by
  have hplay : ((play ({ Library.core with } : Kit Unit) [(.greenFlag, 0), (.step, 60)]
      .shortAndLong).map fun p => (listed p.2.threads, p.2.originals, p.2.targets.keys)) =
      some ([(0, "long")], [0], [0]) := by
    decide +kernel
  have hscripts : Machine.shortAndLong.flagScripts = [(0, "short"), (0, "long")] := by
    decide +kernel
  obtain ⟨⟨done, m⟩, hrun, heq⟩ := Option.map_eq_some_iff.mp hplay
  simp only [Prod.mk.injEq] at heq
  obtain ⟨hlisted, horiginals, hkeys⟩ := heq
  have hreached : Machine.shortAndLong.Reached ({ Library.core with } : Kit Unit) :=
    .addTarget (.new {} { tick := 5.0 } ()) _ rfl (Sheet.ofBlocks_nodup _)
  have hhat : ({ Library.core with } : Kit Unit).hats["event_whenflagclicked"]? =
      some { restarts := true } := by decide +kernel
  have hsheets : ∀ id ∈ Machine.shortAndLong.originals,
      Machine.shortAndLong.targets[id]?.map Target.sheet = m.targets[id]?.map Target.sheet := by
    intro id hid
    have hzero : id = 0 := mem_singleton.mp
      ((by decide +kernel : Machine.shortAndLong.originals = [0]) ▸ hid)
    obtain ⟨t', ht'⟩ := mem_targets_iff.mp
      (Std.TreeMap.mem_keys.mp (hkeys ▸ mem_singleton.mpr hzero))
    obtain ⟨t, ht, hsheet⟩ :=
      (play_along (Operation.apply_along inherits_law.frameLaw) _ _ _ _ hrun).old
      id t' ht' (by subst hzero; decide +kernel)
    rw [ht, ht', Option.map_some, Option.map_some, hsheet]
  obtain ⟨m₁, m₂, hgreen₁, hgreen₂, hlive₁, hlive₂, hperm, -⟩ :=
    flag_order_follows_list Library.core_loyal hhat rfl rfl hreached (hreached.play hrun)
      ((by decide +kernel : Machine.shortAndLong.originals = [0]).trans horiginals.symm) hsheets 0 0
  rw [hscripts] at hlive₁ hlive₂
  rw [hlisted] at hlive₂
  exact ⟨done, m, m₁, m₂, hrun, hgreen₁, hgreen₂, hlive₁, hlive₂.trans (by decide +kernel), hperm⟩

/-- At first the scripts start in the order of their creation. After a frame only the long one is
listed, and it keeps its place in front. -/
theorem flag_order_depends_on_history :
    ((play ({ Library.core with } : Kit Unit) [(.greenFlag, 0)] .shortAndLong).map fun p =>
      live p.2.threads) = some [(0, "short"), (0, "long")] ∧
    ((play ({ Library.core with } : Kit Unit) [(.greenFlag, 0), (.step, 60), (.greenFlag, 0)]
      .shortAndLong).map fun p => live p.2.threads) = some [(0, "long"), (0, "short")] := by
  exact ⟨by decide +kernel, by decide +kernel⟩

end BlockMachine

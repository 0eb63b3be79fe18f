import BlockMachine.Proofs.Machine.Registry
import Mathlib.Data.List.Perm.Basic

/-!
# Starting scripts afresh

A hat that restarts scripts and has no predicate always starts its scripts: each one in the place of
the first thread that its hat has started before, or at the end of the list (`startOn_restarts`).
Where no other thread is running, the scripts run in an order that depends on the list: those that
are listed come first, in the order of the list, and the others follow in the order in which they
were started (`live_restarted`).
-/

namespace BlockMachine

open List

variable {σ : Type} {scripts : List (TargetId × BlockId)}

/-- The script that a thread runs. -/
def Thread.script (t : Thread) : TargetId × BlockId := (t.target, t.top)

/-- Whether a thread was started by its hat, and neither by a click nor for a monitor. -/
def Thread.isHatted (t : Thread) : Bool := !t.isClick && !t.isMonitor

namespace Machine

variable {t u : Thread} {target : TargetId} {ts us : List Thread}

theorem runs_iff {top : BlockId} :
    runs target top t = true ↔ t.isHatted = true ∧ t.script = (target, top) := by
  simp only [runs, Thread.isHatted, Thread.script, Bool.and_eq_true, beq_iff_eq, Prod.mk.injEq]
  exact ⟨fun ⟨⟨⟨h₁, h₂⟩, h₃⟩, h₄⟩ => ⟨⟨h₃, h₄⟩, h₁, h₂⟩,
    fun ⟨⟨h₃, h₄⟩, h₁, h₂⟩ => ⟨⟨⟨h₁, h₂⟩, h₃⟩, h₄⟩⟩

theorem runs_eq_false_of_script (h : t.script ≠ u.script) : runs u.target u.top t = false := by
  rw [Bool.eq_false_iff]
  exact fun hruns => h (runs_iff.mp hruns).2

/-! ## One script -/

/-- A thread put in the place of the first one of its script, or at the end. -/
def restart : List Thread → Thread → List Thread
  | [], u => [u]
  | t :: ts, u => if runs u.target u.top t then u :: ts else t :: restart ts u

theorem restart_cons_of_runs (h : runs u.target u.top t) (ts : List Thread) :
    restart (t :: ts) u = u :: ts := if_pos h

theorem restart_cons_of_not (h : runs u.target u.top t = false) (ts : List Thread) :
    restart (t :: ts) u = t :: restart ts u := if_neg (by simp [h])

theorem restart_eq (ts : List Thread) (u : Thread) :
    restart ts u = match ts.findIdx? (runs u.target u.top) with
      | some i => ts.set i u
      | none => ts ++ [u] := by
  induction ts with
  | nil => rfl
  | cons t ts ih =>
    rw [findIdx?_cons]
    cases hruns : runs u.target u.top t with
    | true => exact restart_cons_of_runs hruns ts
    | false =>
      rw [restart_cons_of_not hruns, ih]
      cases ts.findIdx? (runs u.target u.top) <;> rfl

theorem mem_restart (h : t ∈ restart ts u) : t = u ∨ t ∈ ts := by
  induction ts with
  | nil => exact .inl (mem_singleton.mp h)
  | cons t₀ ts ih =>
    unfold restart at h
    split at h
    · rcases mem_cons.mp h with heq | hmem
      · exact .inl heq
      · exact .inr (mem_cons_of_mem _ hmem)
    · rcases mem_cons.mp h with heq | hmem
      · exact .inr (heq ▸ mem_cons_self)
      · exact (ih hmem).imp_right (mem_cons_of_mem _)

theorem mem_restarts (h : t ∈ us.foldl restart ts) : t ∈ us ∨ t ∈ ts := by
  induction us generalizing ts with
  | nil => exact .inr h
  | cons u us ih =>
    rcases ih h with hus | hts
    · exact .inl (mem_cons_of_mem _ hus)
    · rcases mem_restart hts with rfl | hts
      · exact .inl mem_cons_self
      · exact .inr hts

/-- A hat that restarts scripts finds the place of its script. -/
theorem place_restart {m m₁ : Machine σ} {hat : Hat} (hhat : hat.restarts)
    (hthreads : m₁.threads = m.threads) :
    ∃ slot, m.slotFor hat u.target u.top = some slot ∧
      m₁.place slot u = { m₁ with threads := restart m.threads u } := by
  rw [restart_eq]
  unfold slotFor
  cases hidx : m.threads.findIdx? (runs u.target u.top) with
  | none => exact ⟨none, rfl, by rw [← hthreads]; rfl⟩
  | some i =>
    refine ⟨some i, if_pos hhat, ?_⟩
    have hlt : i < m₁.threads.length := hthreads ▸ (findIdx?_eq_some_iff_getElem.mp hidx).1
    rw [← hthreads]
    exact if_pos hlt

/-- A thread that runs a script from its top, and has an id from `next` on. -/
structure Fresh (next : ThreadId) (u : Thread) : Prop where
  new : next ≤ u.id
  live : u.isDone = false
  hatted : u.isHatted = true

theorem Fresh.mono {next next' : ThreadId} (h : Fresh next' u) (hle : next ≤ next') :
    Fresh next u := ⟨Nat.le_trans hle h.new, h.live, h.hatted⟩

section Hats

variable {catalog : Catalog σ} {predicate : Exec (Turn σ) Unit} {opcode : String} {hat : Hat}
  {m : Machine σ}

/-- A script whose hat has no predicate gets a thread. -/
theorem spawn_fresh (catalog : Catalog σ) (predicate : Exec (Turn σ) Unit)
    (htarget : target ∈ m.targets) (top : BlockId) :
    ∃ u memos, spawn catalog predicate false target top m =
        some (some u, { m with memos, nextThread := m.nextThread + 1 }) ∧
      u.id = m.nextThread ∧ u.script = (target, top) ∧ Fresh m.nextThread u := by
  obtain ⟨source, hsource⟩ := mem_targets_iff.mp htarget
  rw [spawn_eq, newThread?, hsource]
  obtain ⟨program, memos, heq⟩ := prepared_eq catalog (.start m.nextThread target top source.sheet)
    { m with nextThread := m.nextThread + 1 }
  dsimp only [Option.map_some]
  rw [heq]
  refine ⟨_, memos, rfl, ?_⟩
  cases program with
  | none => exact ⟨rfl, rfl, Nat.le_refl _, rfl, rfl⟩
  | some p => exact ⟨rfl, rfl, Nat.le_refl _, rfl, rfl⟩

theorem scriptsOf_mem {fields : List (String × String)} {s : TargetId × BlockId}
    (hs : s ∈ m.scriptsOf opcode fields target) : s.1 ∈ m.targets := by
  unfold scriptsOf at hs
  cases ht : m.targets[target]? with
  | none =>
    rw [ht] at hs
    cases hs
  | some t =>
    rw [ht] at hs
    obtain ⟨top, -, rfl⟩ := mem_map.mp hs
    exact mem_targets_iff.mpr ⟨t, ht⟩

variable (hpredicate : catalog.hasPrimitive opcode = false)

include hpredicate

/-- Scripts that no thread runs get their threads at the end of the list, whatever their hat. -/
theorem startScripts_appends (predicate : Exec (Turn σ) Unit) (hat : Hat) (hnodup : scripts.Nodup)
    (htargets : ∀ s ∈ scripts, s.1 ∈ m.targets)
    (hnone : ∀ s ∈ scripts, ∀ t ∈ m.threads, runs s.1 s.2 t = false) :
    ∃ us memos next, startScripts catalog predicate opcode hat scripts m =
        some (us.map Thread.id, { m with memos, nextThread := next, threads := m.threads ++ us }) ∧
      us.map Thread.script = scripts := by
  induction scripts generalizing m with
  | nil => exact ⟨[], m.memos, m.nextThread, by rw [append_nil]; rfl, rfl⟩
  | cons script scripts ih =>
    obtain ⟨hscript, hnodup⟩ := nodup_cons.mp hnodup
    obtain ⟨htarget, htargets⟩ := forall_mem_cons.mp htargets
    obtain ⟨hfirst, hnone⟩ := forall_mem_cons.mp hnone
    obtain ⟨u, memos₁, hspawn, -, hu, -⟩ := spawn_fresh catalog predicate htarget script.2
    have hslot : m.slotFor hat script.1 script.2 = some none := by
      unfold slotFor
      rw [findIdx?_eq_none_iff.mpr hfirst]
    have hstart : startScript catalog predicate opcode hat script.1 script.2 m =
        some (some u.id, { m with
          memos := memos₁, nextThread := m.nextThread + 1, threads := m.threads ++ [u] }) := by
      unfold startScript
      rw [Run.get_andThen, hslot, hpredicate]
      exact Run.bind_some.mpr ⟨some u, _, hspawn, rfl⟩
    obtain ⟨us, memos, next, hrest, hscripts⟩ := ih hnodup (m := { m with
      memos := memos₁, nextThread := m.nextThread + 1, threads := m.threads ++ [u] }) htargets
      fun s hs t ht => by
        rcases mem_append.mp ht with ht | ht
        · exact hnone s hs t ht
        · rw [mem_singleton.mp ht, Bool.eq_false_iff]
          intro hruns
          have heq : script = s := hu.symm.trans (runs_iff.mp hruns).2
          exact hscript (heq ▸ hs)
    refine ⟨u :: us, memos, next, ?_, by rw [map_cons, hu, hscripts]⟩
    rw [append_cons]
    exact Run.bind_some.mpr ⟨_, _, hstart, Run.bind_some.mpr ⟨_, _, hrest, rfl⟩⟩

variable (hhat : hat.restarts)

include hhat

/-- The script gets a new thread in its place. -/
theorem startScript_restarts (predicate : Exec (Turn σ) Unit) (htarget : target ∈ m.targets)
    (top : BlockId) :
    ∃ u memos, startScript catalog predicate opcode hat target top m =
        some (some u.id,
          { m with memos, nextThread := m.nextThread + 1, threads := restart m.threads u }) ∧
      u.script = (target, top) ∧ Fresh m.nextThread u := by
  obtain ⟨u, memos, hspawn, hid, hscript, hfresh⟩ := spawn_fresh catalog predicate htarget top
  cases hscript
  obtain ⟨slot, hslot, hplace⟩ := place_restart (m := m) (u := u) hhat
    (Eq.refl ({ m with memos, nextThread := m.nextThread + 1 } : Machine σ).threads)
  refine ⟨u, memos, ?_, rfl, hfresh⟩
  unfold startScript
  rw [Run.get_andThen, hslot, hpredicate]
  refine Run.bind_some.mpr ⟨some u, _, hspawn, ?_⟩
  exact congrArg (fun m' => some (some u.id, m')) hplace

/-! ## Many scripts -/

/-- The scripts get new threads in their places, one after the other. -/
structure Restarted (scripts : List (TargetId × BlockId)) (us : List Thread) (m m' : Machine σ) :
    Prop where
  scripts : us.map Thread.script = scripts
  fresh : ∀ u ∈ us, Fresh m.nextThread u
  machine : ∃ memos next, m.nextThread ≤ next ∧
    m' = { m with memos, nextThread := next, threads := us.foldl restart m.threads }

theorem startScripts_restarts (predicate : Exec (Turn σ) Unit)
    (htargets : ∀ s ∈ scripts, s.1 ∈ m.targets) :
    ∃ us m', startScripts catalog predicate opcode hat scripts m = some (us.map Thread.id, m') ∧
      Restarted scripts us m m' := by
  induction scripts generalizing m with
  | nil =>
    exact ⟨[], m, rfl, rfl, forall_mem_nil _, m.memos, m.nextThread, Nat.le_refl _, rfl⟩
  | cons script scripts ih =>
    obtain ⟨htarget, htargets⟩ := forall_mem_cons.mp htargets
    obtain ⟨u, memos₁, hfirst, hscript, hu⟩ :=
      startScript_restarts hpredicate hhat predicate htarget script.2
    obtain ⟨us, m', hrest, hscripts, hus, memos, next, hle, rfl⟩ := ih (m :=
      { m with memos := memos₁, nextThread := m.nextThread + 1, threads := restart m.threads u })
        htargets
    refine ⟨u :: us, _, ?_, ?_, ?_, memos, next, Nat.le_of_succ_le hle, rfl⟩
    · exact Run.bind_some.mpr ⟨_, _, hfirst, Run.bind_some.mpr ⟨_, _, hrest, rfl⟩⟩
    · rw [map_cons, hscript, hscripts]
    · exact forall_mem_cons.mpr ⟨hu, fun u hu => (hus u hu).mono (Nat.le_succ _)⟩

theorem startOn_restarts (predicate : Exec (Turn σ) Unit) (fields : List (String × String))
    (targets : List TargetId) (m : Machine σ) :
    ∃ us m', startOn catalog predicate opcode hat fields targets m = some (us.map Thread.id, m') ∧
      Restarted (targets.flatMap (m.scriptsOf opcode fields)) us m m' := by
  induction targets generalizing m with
  | nil =>
    exact ⟨[], m, rfl, rfl, forall_mem_nil _, m.memos, m.nextThread, Nat.le_refl _, rfl⟩
  | cons target targets ih =>
    obtain ⟨us₁, m₁, hfirst, hscripts₁, hus₁, memos₁, next₁, hle₁, rfl⟩ :=
      startScripts_restarts hpredicate hhat predicate
        fun s (hs : s ∈ m.scriptsOf opcode fields target) => scriptsOf_mem hs
    obtain ⟨us, m', hrest, hscripts, hus, memos, next, hle, hm'⟩ := ih
      { m with memos := memos₁, nextThread := next₁, threads := us₁.foldl restart m.threads }
    refine ⟨us₁ ++ us, m', ?_, ?_, ?_, memos, next, Nat.le_trans hle₁ hle, ?_⟩
    · rw [startOn, Run.get_andThen, map_append]
      exact Run.bind_some.mpr ⟨_, _, hfirst, Run.bind_some.mpr ⟨_, _, hrest, rfl⟩⟩
    · rw [map_append, hscripts₁, hscripts, flatMap_cons]
      rfl
    · exact forall_mem_append.mpr ⟨hus₁, fun u hu => (hus u hu).mono hle₁⟩
    · rw [hm', foldl_append]

end Hats

/-! ## The order of the scripts -/

/-- The scripts of the threads that hats have started, in the order of the list. -/
def listed (ts : List Thread) : List (TargetId × BlockId) :=
  (ts.filter Thread.isHatted).map Thread.script

/-- The scripts of the threads that are not done, in the order of the list. -/
def live (ts : List Thread) : List (TargetId × BlockId) :=
  (ts.filter (!·.isDone)).map Thread.script

/-- The order in which scripts run that are started afresh where others, or they themselves, are
listed: the ones that are listed in the order of the list, and behind them the others. -/
def startOrder (listed scripts : List (TargetId × BlockId)) : List (TargetId × BlockId) :=
  listed.eraseDups.filter (· ∈ scripts) ++ scripts.filter (· ∉ listed)

theorem startOrder_nil (scripts : List (TargetId × BlockId)) : startOrder [] scripts = scripts := by
  simp [startOrder]

theorem eraseDups_filter {α : Type} [BEq α] [LawfulBEq α] (p : α → Bool) (l : List α) :
    (l.filter p).eraseDups = l.eraseDups.filter p := by
  induction hn : l.length using Nat.strongRecOn generalizing l with
  | ind n ih =>
    cases l with
    | nil => rfl
    | cons a l =>
      have hlt : (l.filter fun b => !b == a).length < n :=
        hn ▸ Nat.lt_succ_of_le (length_filter_le _ l)
      have hrest := ih _ hlt _ rfl
      rw [eraseDups_cons, filter_cons, filter_cons, ← hrest, filter_filter]
      by_cases hp : p a
      · rw [if_pos hp, if_pos hp, eraseDups_cons, filter_filter]
        simp only [Bool.and_comm]
      · rw [if_neg hp, if_neg hp]
        congr 1
        refine filter_congr fun b hb => ?_
        by_cases hb : b = a <;> simp [hb, hp]

section Order

variable {s : TargetId × BlockId} {listed scripts : List (TargetId × BlockId)}

theorem startOrder_cons_of_mem (hnodup : scripts.Nodup) (h : s ∈ scripts) :
    startOrder (s :: listed) scripts = s :: startOrder listed (scripts.erase s) := by
  have hfirst : (listed.filter fun b => !b == s).eraseDups.filter (· ∈ scripts) =
      listed.eraseDups.filter (· ∈ scripts.erase s) := by
    rw [eraseDups_filter, filter_filter]
    refine filter_congr fun b _ => ?_
    by_cases hb : b = s <;> simp [hnodup.mem_erase_iff, hb]
  have hothers : scripts.filter (· ∉ s :: listed) = (scripts.erase s).filter (· ∉ listed) := by
    rw [hnodup.erase_eq_filter, filter_filter]
    refine filter_congr fun b _ => ?_
    by_cases hb : b = s <;> simp [hb]
  unfold startOrder
  rw [eraseDups_cons, filter_cons_of_pos (by simpa using h), hfirst, hothers]
  rfl

theorem startOrder_cons_of_not_mem (h : s ∉ scripts) :
    startOrder (s :: listed) scripts = startOrder listed scripts := by
  have hfirst : (listed.filter fun b => !b == s).eraseDups.filter (· ∈ scripts) =
      listed.eraseDups.filter (· ∈ scripts) := by
    rw [eraseDups_filter, filter_filter]
    refine filter_congr fun b _ => ?_
    by_cases hb : b = s <;> simp [hb, h]
  have hothers : scripts.filter (· ∉ s :: listed) = scripts.filter (· ∉ listed) := by
    refine filter_congr fun b hb => ?_
    have hne : b ≠ s := fun heq => h (heq ▸ hb)
    simp [hne]
  unfold startOrder
  rw [eraseDups_cons, filter_cons_of_neg (by simpa using h), hfirst, hothers]

/-- Only the scripts that are listed and started count, and only where they are listed first. -/
theorem startOrder_congr {listed' : List (TargetId × BlockId)}
    (h : listed.eraseDups.filter (· ∈ scripts) = listed'.eraseDups.filter (· ∈ scripts)) :
    startOrder listed scripts = startOrder listed' scripts := by
  have hmem : ∀ s ∈ scripts, s ∈ listed ↔ s ∈ listed' := by
    intro s hs
    have hiff : ∀ l : List (TargetId × BlockId), s ∈ l.eraseDups.filter (· ∈ scripts) ↔ s ∈ l := by
      simp [hs]
    rw [← hiff listed, h, hiff]
  unfold startOrder
  rw [h]
  congr 1
  refine filter_congr fun s hs => ?_
  simp [hmem s hs]

theorem startOrder_of_disjoint (h : ∀ s ∈ scripts, s ∉ listed) :
    startOrder listed scripts = scripts := by
  have hfirst : listed.eraseDups.filter (· ∈ scripts) = [] := by
    rw [filter_eq_nil_iff]
    intro s hs hmem
    exact h s (of_decide_eq_true hmem) (mem_eraseDups.mp hs)
  unfold startOrder
  rw [hfirst, nil_append]
  exact filter_eq_self.mpr fun s hs => decide_eq_true (h s hs)

/-- Every script runs once. -/
theorem startOrder_perm (listed : List (TargetId × BlockId)) (hnodup : scripts.Nodup) :
    (startOrder listed scripts).Perm scripts := by
  induction listed generalizing scripts with
  | nil => rw [startOrder_nil]
  | cons s listed ih =>
    by_cases h : s ∈ scripts
    · rw [startOrder_cons_of_mem hnodup h]
      exact ((ih (hnodup.erase s)).cons s).trans (perm_cons_erase h).symm
    · rw [startOrder_cons_of_not_mem h]
      exact ih hnodup

end Order

/-! ## Where no other thread is running -/

theorem restarts_cons_of_not (h : ∀ u ∈ us, runs u.target u.top t = false) (ts : List Thread) :
    us.foldl restart (t :: ts) = t :: us.foldl restart ts := by
  induction us generalizing ts with
  | nil => rfl
  | cons u us ih =>
    obtain ⟨hu, hus⟩ := forall_mem_cons.mp h
    rw [foldl_cons, restart_cons_of_not hu, ih hus]
    rfl

/-- A thread stays in front of the threads of other scripts. -/
theorem restarts_cons_self (h : u.script ∉ us.map Thread.script) (ts : List Thread) :
    us.foldl restart (u :: ts) = u :: us.foldl restart ts :=
  restarts_cons_of_not (fun _ hu' => runs_eq_false_of_script fun heq =>
    h (heq ▸ mem_map_of_mem hu')) ts

theorem restarts_nil (h : (us.map Thread.script).Nodup) : us.foldl restart [] = us := by
  induction us with
  | nil => rfl
  | cons u us ih =>
    obtain ⟨hu, hus⟩ := nodup_cons.mp h
    rw [foldl_cons, restart, restarts_cons_self hu, ih hus]

/-- The first place of a script is taken by its new thread, and no other one. -/
theorem restarts_cons_of_runs {us₁ us₂ : List Thread}
    (hnodup : ((us₁ ++ u :: us₂).map Thread.script).Nodup) (h : runs u.target u.top t)
    (ts : List Thread) :
    (us₁ ++ u :: us₂).foldl restart (t :: ts) = u :: (us₁ ++ us₂).foldl restart ts := by
  rw [map_append, map_cons, nodup_append] at hnodup
  obtain ⟨-, hnodup₂, hdisjoint⟩ := hnodup
  have hscript : t.script = u.script := (runs_iff.mp h).2
  have hbefore : ∀ u' ∈ us₁, runs u'.target u'.top t = false := fun u' hu' =>
    runs_eq_false_of_script fun heq => hdisjoint u'.script (mem_map_of_mem hu') u.script
      mem_cons_self (heq.symm.trans hscript)
  rw [foldl_append, restarts_cons_of_not hbefore, foldl_cons, restart_cons_of_runs h,
    restarts_cons_self (nodup_cons.mp hnodup₂).1, foldl_append]

/-- **The order of scripts that are started afresh, where no other thread is running.** -/
theorem live_restarted (hdone : ∀ t ∈ ts, t.isDone = true) (hlive : ∀ u ∈ us, u.isDone = false)
    (hnodup : (us.map Thread.script).Nodup) :
    live (us.foldl restart ts) = startOrder (listed ts) (us.map Thread.script) := by
  induction ts generalizing us with
  | nil =>
    rw [restarts_nil hnodup, listed, filter_nil, map_nil, startOrder_nil, live,
      filter_eq_self.mpr fun u hu => by simp [hlive u hu]]
  | cons t ts ih =>
    obtain ⟨ht, hts⟩ := forall_mem_cons.mp hdone
    by_cases hmem : t.isHatted = true ∧ t.script ∈ us.map Thread.script
    · obtain ⟨hhatted, hmem⟩ := hmem
      obtain ⟨u, hu, hscript⟩ := mem_map.mp hmem
      obtain ⟨us₁, us₂, rfl⟩ := append_of_mem hu
      have hruns : runs u.target u.top t = true := runs_iff.mpr ⟨hhatted, hscript.symm⟩
      have hscripts : ((us₁ ++ u :: us₂).map Thread.script).erase t.script =
          (us₁ ++ us₂).map Thread.script := by
        rw [← hscript, map_append, map_cons] at *
        rw [map_append, erase_append_right _ ?_, erase_cons_head]
        exact fun hmem => (nodup_append.mp hnodup).2.2 _ hmem _ mem_cons_self rfl
      have hrest := @ih (us₁ ++ us₂) hts
        (fun u' hu' => hlive u' (by simp only [mem_append, mem_cons] at hu' ⊢; tauto))
        (hscripts ▸ hnodup.erase _)
      rw [restarts_cons_of_runs hnodup hruns, listed, filter_cons_of_pos hhatted, map_cons,
        startOrder_cons_of_mem hnodup hmem, hscripts, live,
        filter_cons_of_pos (by simp [hlive u hu]), map_cons, hscript]
      exact congrArg _ hrest
    · have hnot : ∀ u ∈ us, runs u.target u.top t = false := by
        intro u hu
        rw [Bool.eq_false_iff]
        intro hruns
        obtain ⟨hhatted, hscript⟩ := runs_iff.mp hruns
        exact hmem ⟨hhatted, hscript ▸ mem_map_of_mem hu⟩
      have hlisted : startOrder (listed (t :: ts)) (us.map Thread.script) =
          startOrder (listed ts) (us.map Thread.script) := by
        unfold listed
        by_cases hhatted : t.isHatted = true
        · rw [filter_cons_of_pos hhatted, map_cons,
            startOrder_cons_of_not_mem fun h => hmem ⟨hhatted, h⟩]
        · rw [filter_cons_of_neg hhatted]
      rw [restarts_cons_of_not hnot, hlisted, live, filter_cons_of_neg (by simp [ht])]
      exact ih hts hlive hnodup

end Machine
end BlockMachine

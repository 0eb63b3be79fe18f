import BlockMachine.Proofs.Machine.Aside
import Mathlib.Data.List.Nodup

/-!
# Places in the list of threads

Between two sweeps of the list of threads every thread keeps its place. What may happen to a place
is said by `Thread.Becomes`: the thread stays, is retired, or gives its place to a new thread of the
same script. `Machine.Evolves` says that nothing else happened, that what was added is new, and that
the threads still have ids of their own. It is kept by whatever starts or stops threads, if asking
the predicates of hats keeps it.
-/

namespace BlockMachine

open List

variable {i : Nat} {t' : Thread}

/-- What may happen to a thread in its place, where ids from `next` on are new. -/
inductive Thread.Becomes (next : ThreadId) (t : Thread) : Thread → Prop
  | same : Becomes next t t
  | retired : Becomes next t t.retire
  | replaced {t' : Thread} (hid : next ≤ t'.id) (htarget : t'.target = t.target)
      (htop : t'.top = t.top) : Becomes next t t'

namespace Thread.Becomes

variable {next next' : ThreadId} {t t' t'' : Thread}

/-- The place is still one of the same script. -/
theorem script (h : t.Becomes next t') : t'.target = t.target ∧ t'.top = t.top := by
  cases h with
  | same => exact ⟨rfl, rfl⟩
  | retired => exact ⟨rfl, rfl⟩
  | replaced _ htarget htop => exact ⟨htarget, htop⟩

/-- The thread has kept its place or a new one has it. -/
theorem id_eq_or_le (h : t.Becomes next t') : t'.id = t.id ∨ next ≤ t'.id := by
  cases h with
  | same => exact .inl rfl
  | retired => exact .inl rfl
  | replaced hid _ _ => exact .inr hid

theorem trans (h : t.Becomes next t') (hle : next ≤ next') (h' : t'.Becomes next' t'') :
    t.Becomes next t'' := by
  cases h' with
  | same => exact h
  | retired =>
    cases h with
    | same => exact .retired
    | retired => exact .retired
    | replaced hid htarget htop => exact .replaced hid htarget htop
  | replaced hid htarget htop =>
    exact .replaced (Nat.le_trans hle hid) (htarget.trans h.script.1) (htop.trans h.script.2)

end Thread.Becomes

namespace Machine

variable {σ : Type} {m m' m'' : Machine σ}

/-- The threads have ids of their own, given out before. -/
structure Tidy (m : Machine σ) : Prop where
  nodup : (m.threads.map Thread.id).Nodup
  given : ∀ t ∈ m.threads, t.id < m.nextThread

/-- Threads kept their places, were retired or gave their places to new threads of the same script,
and new threads were added. -/
structure Evolves (m m' : Machine σ) : Prop where
  next : m.nextThread ≤ m'.nextThread
  slots : ∀ (i : Nat) (t : Thread), m.threads[i]? = some t →
    ∃ t', m'.threads[i]? = some t' ∧ t.Becomes m.nextThread t'
  added : ∀ (i : Nat) (t : Thread), m'.threads[i]? = some t → m.threads[i]? = none →
    m.nextThread ≤ t.id
  tidy : m.Tidy → m'.Tidy

namespace Evolves

/-- A thread of the list after is the one in its place before, or new. -/
theorem origin (h : m.Evolves m') (ht' : m'.threads[i]? = some t') :
    (∃ t, m.threads[i]? = some t ∧ t.Becomes m.nextThread t') ∨ m.nextThread ≤ t'.id := by
  cases ht : m.threads[i]? with
  | none => exact .inr (h.added i t' ht' ht)
  | some t =>
    obtain ⟨t₁, ht₁, hb⟩ := h.slots i t ht
    rw [ht'] at ht₁
    cases ht₁
    exact .inl ⟨t, rfl, hb⟩

/-- An id that was given out before is the id of the thread in that place. -/
theorem old (h : m.Evolves m') (ht' : m'.threads[i]? = some t') (hid : t'.id < m.nextThread) :
    ∃ t, m.threads[i]? = some t ∧ t.Becomes m.nextThread t' ∧ t'.id = t.id := by
  rcases h.origin ht' with ⟨t, ht, hb⟩ | hle
  · exact ⟨t, ht, hb, hb.id_eq_or_le.resolve_right (Nat.not_le.mpr hid)⟩
  · exact absurd hid (Nat.not_lt.mpr hle)

theorem of_eq (ht : m'.threads = m.threads) (hn : m'.nextThread = m.nextThread) : m.Evolves m' where
  next := Nat.le_of_eq hn.symm
  slots i t hi := ⟨t, ht ▸ hi, .same⟩
  added i t' hi hnone := by
    rw [ht, hnone] at hi
    cases hi
  tidy h := ⟨ht ▸ h.nodup, by rw [ht, hn]; exact h.given⟩

end Evolves

instance : Lasting (Evolves : Machine σ → Machine σ → Prop) where
  refl m := .of_eq rfl rfl
  trans {m m' m''} h h' := by
    refine ⟨Nat.le_trans h.next h'.next, fun i t ht => ?_, fun i t' ht' hnone => ?_,
      fun htidy => h'.tidy (h.tidy htidy)⟩
    · obtain ⟨t₁, ht₁, hb⟩ := h.slots i t ht
      obtain ⟨t₂, ht₂, hb'⟩ := h'.slots i t₁ ht₁
      exact ⟨t₂, ht₂, hb.trans h.next hb'⟩
    · rcases h'.origin ht' with ⟨t, ht, hb⟩ | hle
      · rcases hb.id_eq_or_le with hid | hle
        · rw [hid]
          exact h.added i t ht hnone
        · exact Nat.le_trans h.next hle
      · exact Nat.le_trans h.next hle

theorem Apart.evolves (h : m.Apart m') : m.Evolves m' := .of_eq h.threads h.nextThread

/-! ## Stopping threads -/

theorem evolves_onThreads (m : Machine σ) (p : Thread → Bool) :
    m.Evolves (m.onThreads p Thread.retire) := by
  refine ⟨Nat.le_refl _, fun i t ht => ?_, fun i t' ht' hnone => ?_, fun h => ⟨?_, ?_⟩⟩
  · refine ⟨if p t then t.retire else t, ?_, ?_⟩
    · simp [onThreads, ht]
    · split
      · exact .retired
      · exact .same
  · simp [onThreads, hnone] at ht'
  · have hids : (m.onThreads p Thread.retire).threads.map Thread.id = m.threads.map Thread.id := by
      rw [onThreads, map_map]
      refine map_congr_left fun t _ => ?_
      dsimp only [Function.comp]
      split <;> rfl
    rw [hids]
    exact h.nodup
  · intro t' ht'
    obtain ⟨t, ht, rfl⟩ := mem_map.mp ht'
    have := h.given t ht
    split
    · exact this
    · exact this

theorem evolves_stopTarget (m : Machine σ) (target : TargetId) (except : Option ThreadId) :
    m.Evolves (m.stopTarget target except) := evolves_onThreads m _

theorem evolves_removeTarget (m : Machine σ) (id : TargetId) : m.Evolves (m.removeTarget id) := by
  unfold removeTarget
  split
  · exact Lasting.refl m
  · refine Lasting.trans ?_ (evolves_stopTarget _ id none)
    exact .of_eq rfl rfl

theorem evolves_stopAll (m : Machine σ) : m.Evolves m.stopAll :=
  stopAll_along evolves_removeTarget (fun m => evolves_onThreads m _) (.of_eq rfl rfl)

end Machine

/-! ## Starting threads -/

/-- It is still the same thread: its id, its script and how it was started. -/
structure Thread.Same (t t' : Thread) : Prop where
  id : t'.id = t.id
  target : t'.target = t.target
  top : t'.top = t.top
  isClick : t'.isClick = t.isClick
  isMonitor : t'.isMonitor = t.isMonitor

theorem Thread.Same.refl (t : Thread) : t.Same t := ⟨rfl, rfl, rfl, rfl, rfl⟩

theorem Thread.Same.trans {t t'' : Thread} (h : t.Same t') (h' : t'.Same t'') : t.Same t'' :=
  ⟨h'.id.trans h.id, h'.target.trans h.target, h'.top.trans h.top, h'.isClick.trans h.isClick,
    h'.isMonitor.trans h.isMonitor⟩

theorem Thread.same_enterProgram (t : Thread) : t.Same (t.enterProgram?.getD t) := by
  unfold Thread.enterProgram?
  cases t.program <;> exact ⟨rfl, rfl, rfl, rfl, rfl⟩

theorem Thread.same_leaveHat (t : Thread) : t.Same t.leaveHat := by
  unfold Thread.leaveHat Thread.enterProgram?
  cases t.program <;> exact ⟨rfl, rfl, rfl, rfl, rfl⟩

/-- The relation holds between the machines, and the thread of the turn is still the same one. -/
structure Turn.Along {σ : Type} (R : Machine σ → Machine σ → Prop) (s s' : Turn σ) : Prop where
  machine : R s.machine s'.machine
  thread : s.thread.Same s'.thread

instance {σ : Type} {R : Machine σ → Machine σ → Prop} [Lasting R] :
    Lasting (Turn.Along R) where
  refl s := ⟨Lasting.refl s.machine, .refl s.thread⟩
  trans h h' := ⟨Lasting.trans h.machine h'.machine, h.thread.trans h'.thread⟩

/-- The list of threads evolved, and the thread of the turn is still the same one. -/
abbrev Turn.Evolves {σ : Type} (s s' : Turn σ) : Prop := Turn.Along Machine.Evolves s s'

namespace Machine

variable {σ : Type} {m m' : Machine σ} {target : TargetId} {top : BlockId} {t : Thread} {hat : Hat}
  {r : Option Thread}

/-- The list evolved, and the thread is a new one that is not in it. -/
structure Spawned (m : Machine σ) (target : TargetId) (top : BlockId) (t : Thread)
    (m' : Machine σ) : Prop where
  evolves : m.Evolves m'
  new : m.nextThread ≤ t.id
  given : t.id < m'.nextThread
  apart : m.Tidy → ∀ t' ∈ m'.threads, t'.id ≠ t.id
  target : t.target = target
  top : t.top = top

/-- A number was given out for a thread, and then the list evolved. -/
theorem Spawned.of_evolves (m₁ : Machine σ) (hthreads : m₁.threads = m.threads)
    (hnext : m₁.nextThread = m.nextThread + 1) (h : m₁.Evolves m') (hid : t.id = m.nextThread)
    (htarget : t.target = target) (htop : t.top = top) : Spawned m target top t m' := by
  have hfirst : m.Evolves m₁ := by
    refine ⟨by rw [hnext]; exact Nat.le_succ _, fun i t ht => ⟨t, hthreads ▸ ht, .same⟩, ?_, ?_⟩
    · intro i t ht hnone
      rw [hthreads, hnone] at ht
      cases ht
    · intro htidy
      refine ⟨hthreads ▸ htidy.nodup, fun t ht => ?_⟩
      rw [hnext]
      exact Nat.lt_succ_of_lt (htidy.given t (hthreads ▸ ht))
  refine ⟨Lasting.trans hfirst h, Nat.le_of_eq hid.symm, ?_, fun htidy t' ht' heq => ?_, htarget,
    htop⟩
  · rw [hid]
    exact Nat.lt_of_lt_of_le (by rw [hnext]; exact Nat.lt_succ_self _) h.next
  · obtain ⟨i, hi⟩ := mem_iff_getElem?.mp ht'
    have hlt : t'.id < m₁.nextThread := by
      rw [heq, hid, hnext]
      exact Nat.lt_succ_self _
    obtain ⟨t₀, ht₀, -, hid₀⟩ := h.old hi hlt
    have hgiven := htidy.given t₀ (hthreads ▸ mem_of_getElem? ht₀)
    rw [← hid₀, heq, hid] at hgiven
    exact Nat.lt_irrefl _ hgiven

/-- What a clone is made from, and what becomes of the machine. -/
theorem addClone?_some {source id : TargetId} (h : m.addClone? source = some (id, m')) :
    ∃ t, m.targets[source]? = some t ∧ t.isStage = false ∧ m.cloneCount < m.settings.maxClones ∧
      id = m.nextTarget ∧ m' =
        { m with
          nextTarget := id + 1
          targets := m.targets.insert id { t.clone with id }
          layers := insertBefore id source m.layers
          cloneCount := m.cloneCount + 1 } := by
  simp only [addClone?, Option.bind_eq_bind, Option.bind_eq_some_iff] at h
  obtain ⟨t, ht, h⟩ := h
  split at h
  · cases h
  · rename_i hguard
    cases h
    simp only [Bool.or_eq_true, decide_eq_true_eq, not_or, Nat.not_le, Bool.not_eq_true] at hguard
    exact ⟨t, ht, hguard.1, hguard.2, rfl, rfl⟩

section Hats

variable {catalog : Catalog σ} {predicate : Exec (Turn σ) Unit}

/-- The thread and the machine once the program of the script is known, if scripts are compiled. -/
def prepared (catalog : Catalog σ) (t : Thread) (m : Machine σ) : Thread × Machine σ :=
  if m.settings.compilerEnabled then m.withProgram catalog t else (t, m)

/-- A thread gets nothing but its program, which the machine keeps. -/
theorem prepared_eq (catalog : Catalog σ) (t : Thread) (m : Machine σ) :
    ∃ program memos, prepared catalog t m = ({ t with program }, { m with memos }) := by
  unfold prepared
  split
  · unfold withProgram
    cases m.targets[t.target]? with
    | none => exact ⟨_, _, rfl⟩
    | some target =>
      unfold program?
      cases Book.program { sheet := target.sheet, memo := m.memos[target.origin]?.getD {} } catalog
        t.top
      exact ⟨_, _, rfl⟩
  · exact ⟨_, _, rfl⟩

theorem spawn_eq (hasPredicate : Bool) (m : Machine σ) :
    spawn catalog predicate hasPredicate target top m =
      match m.newThread? target top with
      | none => some (none, m)
      | some (t, m₁) =>
        let p := prepared catalog t m₁
        if hasPredicate then askPredicate predicate p.1 p.2
        else some (some (p.1.enterProgram?.getD p.1), p.2) := by
  show (match m.newThread? target top with
    | none => pure none
    | some (t, m) => _ : Run (Machine σ) (Option Thread)) m = _
  cases m.newThread? target top with
  | none => rfl
  | some p => cases hasPredicate <;> rfl

/-- All that asking a predicate comes to. -/
theorem askPredicate_cases (h : askPredicate predicate t m = some (r, m')) :
    ∃ outcome s, predicate ⟨m.readClock.2, t⟩ = some (outcome, s) ∧
      ((∃ e, outcome = .error e ∧ r = none ∧ m' = s.machine.reportError t e) ∨
        outcome = .ok () ∧ m' = s.machine ∧
          (r = none ∨ r = some s.thread ∨ s.thread.status ≠ .done ∧
            r = some s.thread.leaveHat)) := by
  obtain ⟨⟨outcome, s⟩, hs, h⟩ := Option.bind_eq_some_iff.mp h
  refine ⟨outcome, s, hs, ?_⟩
  cases outcome with
  | error e =>
    cases h
    exact .inl ⟨e, rfl, rfl, rfl⟩
  | ok u =>
    dsimp only at h
    refine .inr ⟨rfl, ?_⟩
    split at h
    · cases h
      exact ⟨rfl, .inl rfl⟩
    · cases h
      exact ⟨rfl, .inr (.inl rfl)⟩
    · next hdone _ =>
      cases h
      exact ⟨rfl, .inr (.inr ⟨hdone, rfl⟩)⟩

/-- All that spawning a thread comes to. -/
theorem spawn_cases {hasPredicate : Bool}
    (h : spawn catalog predicate hasPredicate target top m = some (r, m')) :
    r = none ∧ m' = m ∨
    ∃ source program memos, m.targets[target]? = some source ∧
      (hasPredicate = true ∧
          askPredicate predicate { Thread.start m.nextThread target top source.sheet with program }
            { m with memos, nextThread := m.nextThread + 1 } = some (r, m') ∨
        hasPredicate = false ∧ m' = { m with memos, nextThread := m.nextThread + 1 } ∧
          ∃ t, r = some t ∧ (Thread.start m.nextThread target top source.sheet).Same t) := by
  rw [spawn_eq] at h
  unfold newThread? at h
  cases hsource : m.targets[target]? with
  | none =>
    rw [hsource] at h
    cases h
    exact .inl ⟨rfl, rfl⟩
  | some source =>
    obtain ⟨program, memos, heq⟩ :=
      prepared_eq catalog (.start m.nextThread target top source.sheet)
      { m with nextThread := m.nextThread + 1 }
    rw [hsource, Option.map_some] at h
    dsimp only at h
    rw [heq] at h
    refine .inr ⟨source, program, memos, rfl, ?_⟩
    cases hasPredicate with
    | true => exact .inl ⟨rfl, h⟩
    | false =>
      obtain ⟨hid, htarget, htop, hclick, hmonitor⟩ := Thread.same_enterProgram
        { Thread.start m.nextThread target top source.sheet with program }
      cases h
      exact .inr ⟨rfl, rfl, _, rfl, hid, htarget, htop, hclick, hmonitor⟩

/-- All that cloning a sprite comes to. -/
theorem createClone_cases {source : TargetId} {r : Option TargetId}
    (h : createClone catalog predicate source m = some (r, m')) :
    m.addClone? source = none ∧ r = none ∧ m' = m ∨
    ∃ id m₁ ids, m.addClone? source = some (id, m₁) ∧ r = some id ∧
      startHats catalog predicate "control_start_as_clone" [] (some id) m₁ = some (ids, m') := by
  unfold createClone at h
  rw [Run.get_andThen] at h
  cases hadd : m.addClone? source with
  | none =>
    rw [hadd] at h
    obtain ⟨rfl, rfl⟩ := Run.pure_some.mp h
    exact .inl ⟨rfl, rfl, rfl⟩
  | some p =>
    rw [hadd] at h
    obtain ⟨u, m₁, hset, h⟩ := Run.bind_some.mp h
    cases Run.set_some.mp hset
    obtain ⟨u, m₂, hstart, h⟩ := Run.bind_some.mp h
    obtain ⟨rfl, rfl⟩ := Run.pure_some.mp h
    obtain ⟨ids, hstart⟩ := Run.discard_some.mp hstart
    exact .inr ⟨p.1, p.2, ids, rfl, rfl, hstart⟩

variable (hpredicate : Exec.Keeps Turn.Evolves predicate)

include hpredicate

theorem askPredicate_evolves (h : askPredicate predicate t m = some (r, m')) :
    m.Evolves m' ∧ ∀ t', r = some t' → t.Same t' := by
  obtain ⟨outcome, s, hs, h⟩ := askPredicate_cases h
  have hevolves := hpredicate _ _ _ hs
  have hmachine : m.Evolves s.machine :=
    Lasting.trans (.of_eq rfl rfl : m.Evolves m.readClock.2) hevolves.machine
  rcases h with ⟨e, -, rfl, rfl⟩ | ⟨-, rfl, hr⟩
  · exact ⟨Lasting.trans hmachine (.of_eq rfl rfl), by simp⟩
  · refine ⟨hmachine, fun t' ht' => ?_⟩
    rcases hr with rfl | rfl | ⟨-, rfl⟩ <;> cases ht'
    · exact hevolves.thread
    · exact hevolves.thread.trans (Thread.same_leaveHat _)

theorem spawn_spawned {hasPredicate : Bool}
    (h : spawn catalog predicate hasPredicate target top m = some (r, m')) :
    m.Evolves m' ∧ ∀ t, r = some t → Spawned m target top t m' := by
  rcases spawn_cases h with ⟨rfl, rfl⟩ | ⟨source, program, memos, -,
    ⟨-, h⟩ | ⟨-, rfl, t, rfl, hsame⟩⟩
  · exact ⟨Lasting.refl _, by simp⟩
  · obtain ⟨hevolves, hthread⟩ := askPredicate_evolves hpredicate h
    have hspawned : ∀ t : Thread, t.id = m.nextThread → t.target = target → t.top = top →
        Spawned m target top t m' :=
      fun _ => .of_evolves { m with memos, nextThread := m.nextThread + 1 } rfl rfl hevolves
    refine ⟨(hspawned (.start m.nextThread target top source.sheet) rfl rfl rfl).evolves,
      fun t ht => ?_⟩
    obtain ⟨hid, htarget, htop, -⟩ := hthread t ht
    exact hspawned t hid htarget htop
  · have hspawned : Spawned m target top t { m with memos, nextThread := m.nextThread + 1 } :=
      .of_evolves { m with memos, nextThread := m.nextThread + 1 } rfl rfl (Lasting.refl _) hsame.id
        hsame.target hsame.top
    refine ⟨hspawned.evolves, fun t' ht' => ?_⟩
    cases ht'
    exact hspawned

omit hpredicate

/-- A new thread at the end of the list. -/
theorem Spawned.append (h : Spawned m target top t m') :
    m.Evolves { m' with threads := m'.threads ++ [t] } := by
  refine ⟨h.evolves.next, fun i t₀ ht₀ => ?_, fun i t' ht' hnone => ?_, fun htidy => ⟨?_, ?_⟩⟩
  · obtain ⟨t', ht', hb⟩ := h.evolves.slots i t₀ ht₀
    exact ⟨t', getElem?_append_left (List.getElem?_eq_some_iff.mp ht').1 ▸ ht', hb⟩
  · rcases Nat.lt_or_ge i m'.threads.length with hlt | hge
    · rw [getElem?_append_left hlt] at ht'
      exact h.evolves.added i t' ht' hnone
    · rw [getElem?_append_right hge] at ht'
      rw [mem_singleton.mp (mem_of_getElem? ht')]
      exact h.new
  · rw [map_append]
    refine nodup_append.mpr ⟨(h.evolves.tidy htidy).nodup, nodup_singleton _, ?_⟩
    intro a ha b hb
    obtain ⟨t', ht', rfl⟩ := mem_map.mp ha
    rw [mem_singleton.mp hb]
    exact h.apart htidy t' ht'
  · intro t' ht'
    rcases mem_append.mp ht' with ht' | ht'
    · exact (h.evolves.tidy htidy).given t' ht'
    · rw [mem_singleton.mp ht']
      exact h.given

/-- A new thread in the place of one of the same script. -/
theorem Spawned.set (h : Spawned m target top t m') {t₀ : Thread} (ht₀ : m.threads[i]? = some t₀)
    (htarget : t₀.target = target) (htop : t₀.top = top) :
    m.Evolves { m' with threads := m'.threads.set i t } := by
  obtain ⟨t₁, ht₁, hb₁⟩ := h.evolves.slots i t₀ ht₀
  have hlt := (List.getElem?_eq_some_iff.mp ht₁).1
  refine ⟨h.evolves.next, fun j t' ht' => ?_, fun j t' ht' hnone => ?_, fun htidy => ⟨?_, ?_⟩⟩
  · by_cases hj : i = j
    · subst hj
      rw [ht₀] at ht'
      cases ht'
      exact ⟨t, getElem?_set_self hlt, .replaced h.new (h.target.trans htarget.symm)
        (h.top.trans htop.symm)⟩
    · obtain ⟨t'', ht'', hb⟩ := h.evolves.slots j t' ht'
      exact ⟨t'', (getElem?_set_ne hj).trans ht'', hb⟩
  · by_cases hj : i = j
    · subst hj
      rw [ht₀] at hnone
      cases hnone
    · rw [getElem?_set_ne hj] at ht'
      exact h.evolves.added j t' ht' hnone
  · rw [map_set]
    refine List.Nodup.set (h.evolves.tidy htidy).nodup ?_
    intro hmem
    obtain ⟨t', ht', heq⟩ := mem_map.mp hmem
    exact h.apart htidy t' ht' heq
  · intro t' ht'
    rcases mem_or_eq_of_mem_set ht' with ht' | rfl
    · exact (h.evolves.tidy htidy).given t' ht'
    · exact h.given

/-- The place for a triggered script is one of the same script. -/
theorem slotFor_some (h : m.slotFor hat target top = some (some i)) :
    ∃ t₀, m.threads[i]? = some t₀ ∧ t₀.target = target ∧ t₀.top = top := by
  unfold slotFor at h
  cases hidx : m.threads.findIdx? (runs target top) with
  | none =>
    rw [hidx] at h
    cases h
  | some j =>
    rw [hidx] at h
    dsimp only at h
    split at h
    · cases h
      obtain ⟨hlt, hruns, -⟩ := findIdx?_eq_some_iff_getElem.mp hidx
      refine ⟨m.threads[i], getElem?_eq_getElem hlt, ?_⟩
      unfold runs at hruns
      simp only [Bool.and_eq_true, beq_iff_eq] at hruns
      exact ⟨hruns.1.1.1, hruns.1.1.2⟩
    · split at h <;> cases h

theorem Spawned.place {slot : Option Nat} (h : Spawned m target top t m')
    (hslot : m.slotFor hat target top = some slot) : m.Evolves (m'.place slot t) := by
  unfold Machine.place
  cases slot with
  | none => exact h.append
  | some i =>
    dsimp only
    split
    · obtain ⟨t₀, ht₀, htarget, htop⟩ := slotFor_some hslot
      exact h.set ht₀ htarget htop
    · exact h.append

open Run

/-- A script is not started, or its hat says no, or its thread is put in its place. -/
theorem startScript_cases {opcode : String} {r : Option ThreadId}
    (h : startScript catalog predicate opcode hat target top m = some (r, m')) :
    r = none ∧ m' = m ∨ ∃ slot t m₁, m.slotFor hat target top = some slot ∧
      spawn catalog predicate (catalog.hasPrimitive opcode) target top m = some (t, m₁) ∧
      r = t.map Thread.id ∧ m' = t.elim m₁ (m₁.place slot) := by
  unfold startScript at h
  rw [get_andThen] at h
  cases hslot : m.slotFor hat target top with
  | none =>
    rw [hslot] at h
    obtain ⟨rfl, rfl⟩ := pure_some.mp h
    exact .inl ⟨rfl, rfl⟩
  | some slot =>
    rw [hslot] at h
    obtain ⟨t, m₁, hspawn, h⟩ := bind_some.mp h
    refine .inr ⟨slot, t, m₁, rfl, hspawn, ?_⟩
    cases t with
    | none =>
      obtain ⟨rfl, rfl⟩ := pure_some.mp h
      exact ⟨rfl, rfl⟩
    | some t =>
      obtain ⟨u, m₂, hplace, h⟩ := bind_some.mp h
      obtain ⟨rfl, rfl⟩ := pure_some.mp h
      exact ⟨rfl, (modify_some.mp hplace).symm⟩

include hpredicate

theorem startScript_evolves (opcode : String) (hat : Hat) (target : TargetId) (top : BlockId) :
    Keeps Evolves (startScript catalog predicate opcode hat target top) := by
  intro m r m' h
  rcases startScript_cases h with ⟨-, rfl⟩ | ⟨slot, t, m₁, hslot, hspawn, -, rfl⟩
  · exact Lasting.refl m'
  · obtain ⟨hevolves, hspawned⟩ := spawn_spawned hpredicate hspawn
    cases t with
    | none => exact hevolves
    | some t => exact (hspawned t rfl).place hslot

end Hats
end Machine
end BlockMachine

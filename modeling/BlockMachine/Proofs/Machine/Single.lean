import BlockMachine.Proofs.Machine.Reached
import BlockMachine.Proofs.Machine.Restarts

/-!
# The threads of scripts

A hat that restarts scripts keeps one thread of each of its scripts in the list, done or not. What a
turn does keeps that (`discreet_rule`), leaves the threads of all other scripts in their places, and
starts the scripts of new targets once.
-/

namespace BlockMachine

open List

variable {σ : Type} {opcode : String} {fields : List (String × String)} {s : TargetId × BlockId}
  {f : Thread → Thread} {target : TargetId} {i : Nat}

namespace Machine

variable {t u : Thread} {us ts : List Thread} {p : Thread → Bool}

/-! ## Lists of threads -/

/-- At most one thread of the list meets the condition. -/
def Lone (p : Thread → Bool) (ts : List Thread) : Prop :=
  ∀ (i j : Nat) (t t' : Thread), ts[i]? = some t → ts[j]? = some t' → p t = true →
    p t' = true → i = j

theorem Lone.of_imp {q : Thread → Bool} (h : Lone p ts) (hqp : ∀ t, q t = true → p t = true) :
    Lone q ts :=
  fun i j t t' ht ht' hq hq' => h i j t t' ht ht' (hqp t hq) (hqp t' hq')

theorem lone_of_none (h : ∀ t ∈ ts, p t = false) : Lone p ts := by
  intro i _ t _ ht _ hp
  rw [h t (mem_of_getElem? ht)] at hp
  cases hp

theorem Lone.tail (h : Lone p (t :: ts)) : Lone p ts :=
  fun i j t₁ t₂ ht₁ ht₂ hp₁ hp₂ => Nat.succ.inj (h (i + 1) (j + 1) t₁ t₂ ht₁ ht₂ hp₁ hp₂)

theorem Lone.not_mem_tail (h : Lone p (t :: ts)) (hp : p t = true) : ∀ t' ∈ ts, p t' = false := by
  intro t' ht'
  obtain ⟨j, hj⟩ := mem_iff_getElem?.mp ht'
  rw [Bool.eq_false_iff]
  intro hp'
  cases h 0 (j + 1) t t' rfl hj hp hp'

theorem lone_cons (h : Lone p ts) (ht : p t = true → ∀ t' ∈ ts, p t' = false) :
    Lone p (t :: ts) := by
  intro i j t₁ t₂ ht₁ ht₂ hp₁ hp₂
  cases i with
  | zero =>
    cases ht₁
    cases j with
    | zero => rfl
    | succ j =>
      rw [ht hp₁ t₂ (mem_of_getElem? ht₂)] at hp₂
      cases hp₂
  | succ i =>
    cases j with
    | zero =>
      cases ht₂
      rw [ht hp₂ t₁ (mem_of_getElem? ht₁)] at hp₁
      cases hp₁
    | succ j => exact congrArg Nat.succ (h i j t₁ t₂ ht₁ ht₂ hp₁ hp₂)

theorem Lone.countP_le_one (h : Lone p ts) : ts.countP p ≤ 1 := by
  induction ts with
  | nil => exact Nat.zero_le _
  | cons t ts ih =>
    rw [countP_cons]
    split
    · rename_i hp
      have hzero : ts.countP p = 0 :=
        countP_eq_zero.mpr fun t' ht' => by simp [h.not_mem_tail hp t' ht']
      exact Nat.le_of_eq (congrArg (· + 1) hzero)
    · exact ih h.tail

theorem Lone.sublist {ts' : List Thread} (h : Lone p ts) (hsub : ts'.Sublist ts) : Lone p ts' := by
  induction hsub with
  | slnil => exact h
  | cons t _ ih => exact ih h.tail
  | cons_cons t hsub ih =>
    exact lone_cons (ih h.tail) fun hp t' ht' => h.not_mem_tail hp t' (hsub.subset ht')

/-- A thread in the place of one that met the condition, too. -/
theorem Lone.set (h : Lone p ts) (ht : ts[i]? = some t) (hp : p u = true → p t = true) :
    Lone p (ts.set i u) := by
  have hback : ∀ (j : Nat) (t' : Thread), (ts.set i u)[j]? = some t' → p t' = true →
      ∃ t₀, ts[j]? = some t₀ ∧ p t₀ = true := by
    intro j t' ht' hp'
    by_cases hj : i = j
    · subst hj
      rw [getElem?_set_self (List.getElem?_eq_some_iff.mp ht).1] at ht'
      cases ht'
      exact ⟨t, ht, hp hp'⟩
    · exact ⟨t', (getElem?_set_ne hj).symm.trans ht', hp'⟩
  intro j k t₁ t₂ ht₁ ht₂ hp₁ hp₂
  obtain ⟨t₁', ht₁', hp₁'⟩ := hback j t₁ ht₁ hp₁
  obtain ⟨t₂', ht₂', hp₂'⟩ := hback k t₂ ht₂ hp₂
  exact h j k t₁' t₂' ht₁' ht₂' hp₁' hp₂'

/-- Threads at the end of a list where no other one meets the condition. -/
theorem lone_append (hts : ∀ t ∈ ts, p t = false) (hus : Lone p us) : Lone p (ts ++ us) := by
  induction ts with
  | nil => exact hus
  | cons t ts ih =>
    obtain ⟨ht, hts⟩ := forall_mem_cons.mp hts
    exact lone_cons (ih hts) fun hp => by rw [ht] at hp; cases hp

theorem lone_singleton (p : Thread → Bool) (t : Thread) : Lone p [t] :=
  lone_cons (lone_of_none (forall_mem_nil _)) fun _ => forall_mem_nil _

/-- A thread at the end that does not meet the condition. -/
theorem Lone.append (h : Lone p ts) (hu : p u = false) : Lone p (ts ++ [u]) := by
  induction ts with
  | nil => exact lone_singleton p u
  | cons t ts ih =>
    refine lone_cons (ih h.tail) fun hp t' ht' => ?_
    rcases mem_append.mp ht' with hmem | hmem
    · exact h.not_mem_tail hp t' hmem
    · rw [mem_singleton.mp hmem]
      exact hu

/-- Whether a thread runs the script by its hat and is not done. -/
def runsLive (s : TargetId × BlockId) (t : Thread) : Bool :=
  runs s.1 s.2 t && !t.isDone

theorem runs_of_runsLive (h : runsLive s t = true) :
    runs s.1 s.2 t = true := (Bool.and_eq_true _ _ ▸ h).1

/-- The threads of a script stay in their places or are retired there, and no other ones come. -/
structure Steady (s : TargetId × BlockId) (ts ts' : List Thread) : Prop where
  forth : ∀ (i : Nat) (t : Thread), ts[i]? = some t → runs s.1 s.2 t = true →
    ts'[i]? = some t ∨ ts'[i]? = some t.retire
  back : ∀ (i : Nat) (t' : Thread), ts'[i]? = some t' → runs s.1 s.2 t' = true →
    ∃ t, ts[i]? = some t ∧ (t' = t ∨ t' = t.retire)

namespace Steady

variable {s : TargetId × BlockId} {ts ts' ts'' : List Thread}

theorem of_map (hf : ∀ t, f t = t ∨ f t = t.retire) (ts : List Thread) :
    Steady s ts (ts.map f) := by
  refine ⟨fun i t ht _ => ?_, fun i t' ht' _ => ?_⟩
  · rw [getElem?_map, ht, Option.map_some]
    exact (hf t).imp (congrArg some) (congrArg some)
  · rw [getElem?_map] at ht'
    obtain ⟨t, ht, rfl⟩ := Option.map_eq_some_iff.mp ht'
    exact ⟨t, ht, hf t⟩

theorem refl (ts : List Thread) : Steady s ts ts :=
  ⟨fun _ _ ht _ => .inl ht, fun _ t' ht' _ => ⟨t', ht', .inl rfl⟩⟩

theorem trans (h : Steady s ts ts') (h' : Steady s ts' ts'') : Steady s ts ts'' := by
  refine ⟨fun i t ht hr => ?_, fun i t'' ht'' hr => ?_⟩
  · rcases h.forth i t ht hr with ht' | ht'
    · exact h'.forth i t ht' hr
    · exact (h'.forth i t.retire ht' hr).elim .inr .inr
  · obtain ⟨t', ht', hstays'⟩ := h'.back i t'' ht'' hr
    have hr' : runs s.1 s.2 t' = true := by
      rcases hstays' with rfl | rfl <;> exact hr
    obtain ⟨t, ht, hstays⟩ := h.back i t' ht' hr'
    refine ⟨t, ht, ?_⟩
    rcases hstays with rfl | rfl <;> rcases hstays' with rfl | rfl
    · exact .inl rfl
    · exact .inr rfl
    · exact .inr rfl
    · exact .inr rfl

/-- Threads of other scripts at the end. -/
theorem of_append (h : ∀ u ∈ us, u.script ≠ s) (ts : List Thread) : Steady s ts (ts ++ us) := by
  refine ⟨fun i t ht _ => ?_, fun i t' ht' hr => ?_⟩
  · exact .inl ((getElem?_append_left (List.getElem?_eq_some_iff.mp ht).1).trans ht)
  · rcases Nat.lt_or_ge i ts.length with hlt | hge
    · exact ⟨t', (getElem?_append_left hlt).symm.trans ht', .inl rfl⟩
    · rw [getElem?_append_right hge] at ht'
      exact absurd (runs_iff.mp hr).2 (h t' (mem_of_getElem? ht'))

/-- A thread of another script that is started afresh. -/
theorem of_restart (h : u.script ≠ s) (ts : List Thread) : Steady s ts (restart ts u) := by
  rw [restart_eq]
  cases hidx : ts.findIdx? (runs u.target u.top) with
  | none => exact of_append (fun u' hu' => mem_singleton.mp hu' ▸ h) ts
  | some j =>
    dsimp only
    obtain ⟨hlt, hruns, -⟩ := findIdx?_eq_some_iff_getElem.mp hidx
    refine ⟨fun i t ht hr => ?_, fun i t' ht' hr => ?_⟩
    · have hne : j ≠ i := by
        rintro rfl
        rw [getElem?_eq_getElem hlt] at ht
        cases ht
        exact h ((runs_iff.mp hruns).2.symm.trans (runs_iff.mp hr).2)
      exact .inl ((getElem?_set_ne hne).trans ht)
    · by_cases hij : j = i
      · subst hij
        rw [getElem?_set_self hlt] at ht'
        cases ht'
        exact absurd (runs_iff.mp hr).2 h
      · exact ⟨t', (getElem?_set_ne hij).symm.trans ht', .inl rfl⟩

theorem lone (h : Steady s ts ts') (hlone : Lone (runs s.1 s.2) ts) : Lone (runs s.1 s.2) ts' := by
  intro i j t₁' t₂' ht₁' ht₂' hr₁ hr₂
  obtain ⟨t₁, ht₁, hstays₁⟩ := h.back i t₁' ht₁' hr₁
  obtain ⟨t₂, ht₂, hstays₂⟩ := h.back j t₂' ht₂' hr₂
  refine hlone i j t₁ t₂ ht₁ ht₂ ?_ ?_
  · rcases hstays₁ with rfl | rfl <;> exact hr₁
  · rcases hstays₂ with rfl | rfl <;> exact hr₂

/-- A running thread was running before. -/
theorem runsLive_back (h : Steady s ts ts') {t' : Thread} (ht' : ts'[i]? = some t')
    (hlive : runsLive s t' = true) : ts[i]? = some t' := by
  obtain ⟨t, ht, rfl | rfl⟩ := h.back i t' ht' (runs_of_runsLive hlive)
  · exact ht
  · simp [runsLive, Thread.isDone, Thread.retire] at hlive

theorem loneLive (h : Steady s ts ts') (hlone : Lone (runsLive s) ts) : Lone (runsLive s) ts' :=
  fun i j t₁' t₂' ht₁' ht₂' hl₁ hl₂ =>
    hlone i j t₁' t₂' (h.runsLive_back ht₁' hl₁) (h.runsLive_back ht₂' hl₂) hl₁ hl₂

end Steady

/-- A script that is started afresh keeps at most one thread. -/
theorem lone_restart (h : Lone (runs s.1 s.2) ts) (u : Thread) :
    Lone (runs s.1 s.2) (restart ts u) := by
  by_cases hs : u.script = s
  · cases hs
    rw [restart_eq]
    cases hidx : ts.findIdx? (runs u.target u.top) with
    | none => exact lone_append (findIdx?_eq_none_iff.mp hidx) (lone_singleton _ u)
    | some j =>
      obtain ⟨hlt, hruns, -⟩ := findIdx?_eq_some_iff_getElem.mp hidx
      exact h.set (getElem?_eq_getElem hlt) fun _ => hruns
  · exact (Steady.of_restart hs ts).lone h

/-! ## What turns keep -/

/-- The script begins with a block of that opcode. -/
def Begins (m : Machine σ) (opcode : String) (s : TargetId × BlockId) : Prop :=
  ∃ t, m.targets[s.1]? = some t ∧ t.sheet.opcode? s.2 = some opcode

/-- The hat of the script starts it afresh where it is running. -/
def Restarts (kit : Kit σ) (m : Machine σ) (s : TargetId × BlockId) : Prop :=
  ∃ opcode hat, m.Begins opcode s ∧ kit.hats[opcode]? = some hat ∧ hat.restarts = true

/-- The ids of targets were given out before, and every sheet has each of its scripts once. -/
structure Sound (m : Machine σ) : Prop where
  targets : ∀ id ∈ m.targets, id < m.nextTarget
  threads : ∀ t ∈ m.threads, t.target < m.nextTarget
  distinct : m.Distinct

/-- The script runs once at a time, and has one thread at most if its hat restarts it. -/
structure Fine (kit : Kit σ) (m : Machine σ) (s : TargetId × BlockId) : Prop where
  live : Lone (runsLive s) m.threads
  lone : m.Restarts kit s → Lone (runs s.1 s.2) m.threads

variable {kit : Kit σ} {m m' m'' : Machine σ} {s : TargetId × BlockId}

theorem fine_of_lone (h : Lone (runs s.1 s.2) m.threads) : m.Fine kit s :=
  ⟨h.of_imp fun _ => runs_of_runsLive, fun _ => h⟩

/-- No thread runs a script of a target that is yet to come. -/
theorem Sound.runs_of_le (h : m.Sound) (hs : m.nextTarget ≤ s.1) :
    ∀ t ∈ m.threads, runs s.1 s.2 t = false := by
  intro t ht
  rw [Bool.eq_false_iff]
  intro hruns
  have htarget : t.target = s.1 := congrArg Prod.fst (runs_iff.mp hruns).2
  exact absurd (h.threads t ht) (Nat.not_lt.mpr (htarget ▸ hs))

theorem Inherits.begins (h : m.Inherits m') (hs : s.1 < m.nextTarget)
    (hbegins : m'.Begins opcode s) :
    m.Begins opcode s := by
  obtain ⟨t', ht', hopcode⟩ := hbegins
  obtain ⟨t, ht, hsheet⟩ := h.old s.1 t' ht' hs
  exact ⟨t, ht, hsheet ▸ hopcode⟩

theorem Inherits.restarts (h : m.Inherits m') (hs : s.1 < m.nextTarget) (hr : m'.Restarts kit s) :
    m.Restarts kit s := by
  obtain ⟨opcode, hat, hbegins, hhat⟩ := hr
  exact ⟨opcode, hat, h.begins hs hbegins, hhat⟩

/-- What a turn does to the scripts: those whose hats restart them keep one thread at most, the
threads of the others stay in their places, and the scripts of new targets have one thread at
most. -/
structure Heeds (kit : Kit σ) (m m' : Machine σ) : Prop where
  inherits : m.Inherits m'
  sound : m'.Sound
  lone : ∀ s, s.1 < m.nextTarget → m.Restarts kit s → Lone (runs s.1 s.2) m.threads →
    Lone (runs s.1 s.2) m'.threads
  steady : ∀ s, s.1 < m.nextTarget → ¬m.Restarts kit s → Steady s m.threads m'.threads
  new : ∀ s : TargetId × BlockId, m.nextTarget ≤ s.1 → Lone (runs s.1 s.2) m'.threads

/-- The scripts were heeded if the machine was sound. -/
def Discreet (kit : Kit σ) (m m' : Machine σ) : Prop := m.Sound → Heeds kit m m'

theorem Heeds.fine (h : Heeds kit m m') (hs : m.Fine kit s) : m'.Fine kit s := by
  rcases Nat.lt_or_ge s.1 m.nextTarget with hlt | hle
  · by_cases hr : m.Restarts kit s
    · exact fine_of_lone (h.lone s hlt hr (hs.lone hr))
    · exact ⟨(h.steady s hlt hr).loneLive hs.live,
        fun hr' => absurd (h.inherits.restarts hlt hr') hr⟩
  · exact fine_of_lone (h.new s hle)

/-- One thread at most stays one thread at most. -/
theorem Heeds.keeps_lone (h : Heeds kit m m') (hs : Lone (runs s.1 s.2) m.threads) :
    Lone (runs s.1 s.2) m'.threads := by
  rcases Nat.lt_or_ge s.1 m.nextTarget with hlt | hle
  · by_cases hr : m.Restarts kit s
    · exact h.lone s hlt hr hs
    · exact (h.steady s hlt hr).lone hs
  · exact h.new s hle

theorem Heeds.trans (h : Heeds kit m m') (h' : Heeds kit m' m'') : Heeds kit m m'' := by
  refine ⟨Lasting.trans h.inherits h'.inherits, h'.sound, fun s hs hr hlone => ?_,
    fun s hs hr => ?_, fun s hs => h'.keeps_lone (h.new s hs)⟩
  · exact h'.keeps_lone (h.lone s hs hr hlone)
  · exact (h.steady s hs hr).trans
      (h'.steady s (Nat.lt_of_lt_of_le hs h.inherits.next)
        fun hr' => hr (h.inherits.restarts hs hr'))

instance : Lasting (Discreet kit) where
  refl m hm := ⟨Lasting.refl m, hm, fun _ _ _ h => h, fun _ _ _ => .refl _,
    fun _ hs => lone_of_none (hm.runs_of_le hs)⟩
  trans h h' hm := (h hm).trans (h' (h hm).sound)

/-- Threads are retired, and targets stay or go. -/
theorem Discreet.of_map (hinherits : m.Inherits m') (hnext : m'.nextTarget = m.nextTarget)
    (hf : ∀ t, f t = t ∨ f t = t.retire) (hthreads : m'.threads = m.threads.map f) :
    m.Discreet kit m' := by
  intro hm
  have hsound : m'.Sound := by
    refine ⟨hinherits.given hm.targets, fun t' ht' => ?_, hinherits.distinct hm.distinct⟩
    rw [hthreads] at ht'
    obtain ⟨t, ht, rfl⟩ := mem_map.mp ht'
    have htarget : (f t).target = t.target := by
      rcases hf t with heq | heq
      · rw [heq]
      · rw [heq]
        rfl
    rw [hnext, htarget]
    exact hm.threads t ht
  have hsteady : ∀ s, Steady s m.threads m'.threads := fun s => hthreads ▸ .of_map hf m.threads
  exact ⟨hinherits, hsound, fun s _ _ => (hsteady s).lone, fun s _ _ => hsteady s,
    fun s hs => lone_of_none (hsound.runs_of_le (hnext ▸ hs))⟩

theorem Discreet.of_threads (hinherits : m.Inherits m') (hnext : m'.nextTarget = m.nextTarget)
    (hthreads : m'.threads = m.threads) : m.Discreet kit m' :=
  .of_map hinherits hnext (f := id) (fun _ => .inl rfl) (by rw [hthreads, map_id])

/-- Threads are retired in place. -/
theorem discreet_onThreads (m : Machine σ) (p : Thread → Bool) :
    m.Discreet kit (m.onThreads p Thread.retire) := by
  refine .of_map (inherits_law.threads m _ m.nextThread) rfl (fun t => ?_) rfl
  split
  · exact .inr rfl
  · exact .inl rfl

theorem discreet_removeTarget (m : Machine σ) (target : TargetId) :
    m.Discreet kit (m.removeTarget target) := by
  have hinherits := inherits_law.removeTarget m target
  unfold removeTarget at hinherits ⊢
  cases ht : m.targets[target]? with
  | none => exact Lasting.refl m
  | some t =>
    rw [ht] at hinherits
    refine .of_map hinherits rfl (fun t => ?_) rfl
    split
    · exact .inr rfl
    · exact .inl rfl

theorem discreet_stopAll (m : Machine σ) : m.Discreet kit m.stopAll :=
  stopAll_along discreet_removeTarget (fun m => discreet_onThreads m _)
    (.of_threads (Apart.inherits .of_rest) rfl rfl)

theorem Apart.discreet (h : m.Apart m') : m.Discreet kit m' :=
  .of_threads h.inherits h.nextTarget h.threads

theorem discreet_edgeFires (m : Machine σ) (target : TargetId) (block : BlockId) (value : Bool) :
    m.Discreet kit (m.edgeFires target block value).2 := by
  refine .of_threads (inherits_law.edgeFires m target block value) ?_ ?_
  all_goals
    unfold edgeFires
    cases m.targets[target]? <;> rfl

/-! ## Starting scripts in a turn -/

open Run

theorem Steady.of_restarts (h : ∀ u ∈ us, u.script ≠ s) (ts : List Thread) :
    Steady s ts (us.foldl restart ts) := by
  induction us generalizing ts with
  | nil => exact .refl ts
  | cons u us ih =>
    obtain ⟨hu, hus⟩ := forall_mem_cons.mp h
    exact (Steady.of_restart hu ts).trans (ih hus _)

theorem lone_restarts (h : Lone (runs s.1 s.2) ts) (us : List Thread) :
    Lone (runs s.1 s.2) (us.foldl restart ts) := by
  induction us generalizing ts with
  | nil => exact h
  | cons u us ih => exact ih (lone_restart h u)

theorem Restarted.discreet {scripts : List (TargetId × BlockId)} (h : Restarted scripts us m m')
    (hscripts : ∀ s ∈ scripts, m.Restarts kit s) : m.Discreet kit m' := by
  obtain ⟨hus, -, memos, next, -, rfl⟩ := h
  have hrestarts : ∀ u ∈ us, m.Restarts kit u.script := fun u hu =>
    hscripts _ (hus ▸ mem_map_of_mem hu)
  intro hm
  have hinherits : m.Inherits
      { m with memos, nextThread := next, threads := us.foldl restart m.threads } :=
    .of_same rfl fun _ t' ht' => ⟨t', ht', rfl⟩
  have hsound : Sound
      { m with memos, nextThread := next, threads := us.foldl restart m.threads } := by
    refine ⟨hm.targets, fun t ht => ?_, hm.distinct⟩
    rcases mem_restarts ht with hnew | hold
    · obtain ⟨-, -, ⟨target, htarget, -⟩, -⟩ := hrestarts t hnew
      exact hm.targets t.target (mem_targets_iff.mpr ⟨target, htarget⟩)
    · exact hm.threads t hold
  refine ⟨hinherits, hsound, fun s _ _ hlone => lone_restarts hlone us, fun s _ hr => ?_,
    fun s hs => lone_of_none (hsound.runs_of_le hs)⟩
  refine .of_restarts (fun u hu heq => hr ?_) m.threads
  exact heq ▸ hrestarts u hu

theorem scriptsOf_opcode (hs : s ∈ m.scriptsOf opcode fields target) :
    s.1 = target ∧ m.Begins opcode s := by
  unfold scriptsOf at hs
  cases ht : m.targets[target]? with
  | none =>
    rw [ht] at hs
    cases hs
  | some t =>
    rw [ht] at hs
    obtain ⟨top, htop, rfl⟩ := mem_map.mp hs
    have hopcode := (mem_filter.mp (mem_filter.mp htop).1).2
    exact ⟨rfl, t, ht, eq_of_beq hopcode⟩

/-- A hat that restarts scripts and has no predicate. -/
theorem startHats_discreet (predicate : Exec (Turn σ) Unit)
    (hrestarts : ∀ hat, kit.hats[opcode]? = some hat → hat.restarts = true)
    (hpredicate : kit.hasPrimitive opcode = false) (fields : List (String × String))
    (only : Option TargetId) :
    Keeps (Discreet kit) (startHats kit.toCatalog predicate opcode fields only) := by
  intro m r m' h
  unfold startHats at h
  cases hhat : kit.hats[opcode]? with
  | none =>
    rw [hhat] at h
    obtain ⟨-, rfl⟩ := pure_some.mp h
    exact Lasting.refl m
  | some hat =>
    rw [hhat] at h
    dsimp only at h
    rw [Run.get_andThen] at h
    obtain ⟨us, m₁, hstart, hrestarted⟩ :=
      startOn_restarts hpredicate (hrestarts hat hhat) predicate fields
      ((only.map fun target => [target]).getD m.layers.reverse) m
    cases hstart.symm.trans h
    refine hrestarted.discreet fun s hs => ?_
    obtain ⟨target, -, hs⟩ := mem_flatMap.mp hs
    exact ⟨opcode, hat, (scriptsOf_opcode hs).2, hhat, hrestarts hat hhat⟩

theorem lone_of_nodup (h : (us.map Thread.script).Nodup) : Lone (runs s.1 s.2) us := by
  induction us with
  | nil => exact lone_of_none (forall_mem_nil _)
  | cons u us ih =>
    obtain ⟨hu, hus⟩ := nodup_cons.mp h
    refine lone_cons (ih hus) fun hr t ht => ?_
    rw [Bool.eq_false_iff]
    intro hr'
    exact hu (((runs_iff.mp hr).2.trans (runs_iff.mp hr').2.symm) ▸ mem_map_of_mem ht)

/-- The hats of one target. -/
theorem startHats_some {catalog : Catalog σ} {predicate : Exec (Turn σ) Unit} {ids : List ThreadId}
    (h : startHats catalog predicate opcode fields (some target) m = some (ids, m')) :
    m' = m ∨ ∃ hat ids', catalog.hats[opcode]? = some hat ∧
      startScripts catalog predicate opcode hat (m.scriptsOf opcode fields target) m =
        some (ids', m') := by
  unfold startHats at h
  cases hhat : catalog.hats[opcode]? with
  | none =>
    rw [hhat] at h
    exact .inl (pure_some.mp h).2.symm
  | some hat =>
    rw [hhat] at h
    dsimp only at h
    rw [Run.get_andThen] at h
    dsimp only [Option.map_some, Option.getD_some] at h
    rw [startOn, Run.get_andThen] at h
    obtain ⟨ids', m₁, hscripts, h⟩ := bind_some.mp h
    obtain ⟨others, m₂, hothers, h⟩ := bind_some.mp h
    obtain ⟨-, rfl⟩ := pure_some.mp hothers
    obtain ⟨-, rfl⟩ := pure_some.mp h
    exact .inr ⟨hat, ids', rfl, hscripts⟩

/-- New scripts of a new target. -/
theorem Heeds.of_new (hm : m.Sound) {id : TargetId} (hinherits : m.Inherits m')
    (hid : id = m.nextTarget) (hnext : m'.nextTarget = id + 1)
    (hthreads : m'.threads = m.threads ++ us) (hus : ∀ u ∈ us, u.target = id)
    (hnodup : (us.map Thread.script).Nodup) : Heeds kit m m' := by
  have hsound : m'.Sound := by
    refine ⟨hinherits.given hm.targets, fun t ht => ?_, hinherits.distinct hm.distinct⟩
    rw [hthreads] at ht
    rcases mem_append.mp ht with ht | ht
    · exact Nat.lt_of_lt_of_le (hm.threads t ht) hinherits.next
    · rw [hus t ht, hnext]
      exact Nat.lt_succ_self id
  have hsteady : ∀ s, s.1 < m.nextTarget → Steady s m.threads m'.threads := by
    intro s hs
    rw [hthreads]
    refine .of_append (fun u hu heq => ?_) m.threads
    rw [← heq, ← hid] at hs
    exact Nat.lt_irrefl _ ((hus u hu : u.script.1 = id) ▸ hs)
  refine ⟨hinherits, hsound, fun s hs _ => (hsteady s hs).lone, fun s hs _ => hsteady s hs,
    fun s hs => ?_⟩
  rw [hthreads]
  exact lone_append (hm.runs_of_le hs) (lone_of_nodup hnodup)

/-- A clone's scripts are new ones. -/
theorem createClone_discreet (predicate : Exec (Turn σ) Unit)
    (hpredicate : kit.hasPrimitive "control_start_as_clone" = false) (source : TargetId) :
    Keeps (Discreet kit) (createClone kit.toCatalog predicate source) := by
  intro m r m' h
  rcases createClone_cases h with ⟨-, -, rfl⟩ | ⟨id, m₁, ids, hadd, -, hstart⟩
  · exact Lasting.refl _
  · intro hm
    have hinherits : m.Inherits m₁ := inherits_law.addClone hadd
    obtain ⟨t, -, -, -, hid, hm₁⟩ := addClone?_some hadd
    have hthreads : m₁.threads = m.threads := by rw [hm₁]
    have hnext : m₁.nextTarget = id + 1 := by rw [hm₁]
    rcases startHats_some hstart with rfl | ⟨hat, ids', -, hscripts⟩
    · exact .of_new hm hinherits hid hnext (by rw [hthreads, append_nil]) (forall_mem_nil _)
        nodup_nil
    · obtain ⟨us, memos, next, hstarted, hus⟩ := startScripts_appends hpredicate predicate hat
        ((hinherits.distinct hm.distinct).scriptsOf_nodup _ [] id) (m := m₁)
        (fun s hs => scriptsOf_mem hs) fun s hs => by
          rw [hthreads]
          exact hm.runs_of_le (Nat.le_of_eq ((scriptsOf_opcode hs).1.trans hid).symm)
      cases hstarted.symm.trans hscripts
      refine .of_new hm (Lasting.trans hinherits ?_) hid hnext (congrArg (· ++ us) hthreads)
        (fun u hu => ?_) ?_
      · exact .of_same rfl fun _ t' ht' => ⟨t', ht', rfl⟩
      · have hu' : u.script ∈ m₁.scriptsOf "control_start_as_clone" [] id := hus ▸ mem_map_of_mem hu
        exact (scriptsOf_opcode hu').1
      · rw [hus]
        exact (hinherits.distinct hm.distinct).scriptsOf_nodup _ [] id

end Machine

/-! ## Plain kits -/

/-- Of all hats, the request starts only those that restart scripts and have no predicate. -/
def Request.Plain (catalog : Catalog σ) : Request σ → Prop
  | .startHats opcode _ => catalog.hasPrimitive opcode = false ∧
      ∀ hat, catalog.hats[opcode]? = some hat → hat.restarts = true
  | _ => True

/-- Blocks start scripts afresh only, and hats that restart scripts have no predicates. -/
structure Catalog.Plain (catalog : Catalog σ) : Prop where
  asks : ∀ opcode primitive, catalog.primitive? opcode = some primitive →
    ∀ args, (primitive args).Only (Request.Plain catalog)
  clones : catalog.hasPrimitive "control_start_as_clone" = false
  predicates : ∀ opcode hat, catalog.hats[opcode]? = some hat → hat.restarts = true →
    catalog.hasPrimitive opcode = false

namespace Library

theorem core_hats {hat : Hat} (h : (core : Catalog σ).hats[opcode]? = some hat)
    (hrestarts : hat.restarts = true) : (core : Catalog σ).hasPrimitive opcode = false := by
  have hall : ((core : Catalog σ).hats.toList.all
      fun p => !p.2.restarts || !(core : Catalog σ).hasPrimitive p.1) = true := rfl
  have hmem := Std.TreeMap.mem_toList_iff_getElem?_eq_some.mpr h
  simpa [hrestarts] using all_eq_true.mp hall _ hmem

theorem core_plain : (core : Catalog σ).Plain where
  asks opcode primitive h args := by
    refine (core_only h args).imp fun r hr => ?_
    cases r
    case startHats opcode fields =>
      cases hr
      refine ⟨rfl, fun hat hhat => ?_⟩
      cases (rfl : (core : Catalog σ).hats[Messages.received]? =
        some { restarts := true }).symm.trans hhat
      rfl
    all_goals trivial
  clones := rfl
  predicates _ _ := core_hats

end Library

namespace Machine

variable {kit : Kit σ} {m m' : Machine σ} {s : TargetId × BlockId}

theorem discreet_rule (hkit : kit.Plain) : TurnRule kit (Discreet kit) where
  toLenient := .of_still fun h => h.toApart.discreet
  reportError _ _ _ := Apart.discreet .of_rest
  edgeFires := discreet_edgeFires
  stopAll := discreet_stopAll
  stopTarget m target except := discreet_onThreads m _
  primitive fuel _ opcode primitive hprimitive mode args := by
    refine Call.run_only (fun r hr => ?_) (hkit.asks opcode primitive hprimitive args)
    cases hfar : r.isFar with
    | false =>
      have hlenient : Lenient (Discreet kit) := .of_still fun h => h.toApart.discreet
      exact Call.perform_near hlenient.lax _ mode hfar fun ref _ => hlenient.turnWrites ref
    | true =>
      cases r
      case stopAll =>
        rw [Call.perform]
        exact Call.keeps_onTurn fun c => ⟨discreet_stopAll c.machine, rfl, rfl, rfl, rfl, rfl⟩
      case stopOthers =>
        rw [Call.perform]
        exact Call.keeps_onTurn fun c => Turn.along_of_machine (discreet_onThreads c.machine _)
      case removeTarget =>
        rw [Call.perform]
        exact Call.keeps_onTurn fun c => Turn.along_of_machine (discreet_removeTarget c.machine _)
      case startHats opcode fields =>
        rw [Call.perform]
        exact Call.onMachine_along (startHats_discreet _ hr.2 hr.1 fields none)
      case createClone source =>
        rw [Call.perform]
        exact (Call.onMachine_along (createClone_discreet _ hkit.clones source)).discarded
      all_goals cases hfar

end Machine
end BlockMachine

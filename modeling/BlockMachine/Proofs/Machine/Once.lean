import BlockMachine.Proofs.Machine.Single

/-!
# Scripts run once at a time

A hat that does not restart scripts looks at the first thread of a script only: if that one is done,
the hat starts the script. So a script runs once at a time as long as no running thread of it stands
behind one that is done (`scripts_run_once`). Where one does, the script is started a second time
while it is running (`script_runs_twice`).

The module is about `Machine.slotFor` and `Machine.startHats`.

## Results

* `Machine.startHats_starts`: one trigger, which leaves the scripts of other hats alone.
* `scripts_run_once`: all operations, as long as hats are triggered so (`Machine.Guided`).
* `script_runs_twice`: a run in which one is not.

Left out are kits with other blocks than the core ones.
-/

namespace BlockMachine

open List Option

variable {σ : Type} {fuel : Nat} {opcode : String} {done : List Thread} {hat : Hat}

theorem Thread.Same.symm {t u : Thread} (h : t.Same u) : u.Same t :=
  ⟨h.id.symm, h.target.symm, h.top.symm, h.isClick.symm, h.isMonitor.symm⟩

theorem Thread.Same.runs {t u : Thread} (h : t.Same u) (target : TargetId) (top : BlockId) :
    Machine.runs target top u = Machine.runs target top t := by
  unfold Machine.runs
  rw [h.target, h.top, h.isClick, h.isMonitor]

namespace Machine

open Run

variable {ts : List Thread} {r : List ThreadId}

/-- Every script runs once at a time, and has one thread at most if its hat restarts it. -/
structure Single (kit : Kit σ) (m : Machine σ) : Prop where
  sound : m.Sound
  tidy : m.Tidy
  fine : ∀ s, m.Fine kit s

/-- No running thread of the script stands behind one that is done. -/
def Leads (s : TargetId × BlockId) (ts : List Thread) : Prop :=
  ∀ (i j : Nat) (t t' : Thread), i < j → ts[i]? = some t → ts[j]? = some t' →
    runs s.1 s.2 t = true → t.isDone = true → runsLive s t' = false

variable {kit : Kit σ} {m m' m'' : Machine σ} {s : TargetId × BlockId} {i : Nat} {t u slot : Thread}

/-! ## Single threads -/

theorem Single.discreet (hm : m.Single kit) (h : m.Discreet kit m') (htidy : m'.Tidy) :
    m'.Single kit :=
  ⟨(h hm.sound).sound, htidy, fun s => (h hm.sound).fine (hm.fine s)⟩

theorem Sound.set (h : m.Sound) (ht : m.threads[i]? = some t) (htarget : u.target = t.target) :
    Sound { m with threads := m.threads.set i u } := by
  refine ⟨h.targets, fun t' ht' => ?_, h.distinct⟩
  rcases mem_or_eq_of_mem_set ht' with hmem | rfl
  · exact h.threads t' hmem
  · rw [htarget]
    exact h.threads t (mem_of_getElem? ht)

theorem Fine.set (h : m.Fine kit s) (ht : m.threads[i]? = some t) (hsame : t.Same u)
    (hlive : runsLive s u = true → runsLive s t = true) :
    Fine kit { m with threads := m.threads.set i u } s :=
  ⟨h.live.set ht hlive, fun hr => (h.lone hr).set ht fun hu => (hsame.runs s.1 s.2).symm.trans hu⟩

/-- A thread in the place of another one of its kind, which was running if this one is. -/
theorem Single.set (h : m.Single kit) (ht : m.threads[i]? = some t) (hsame : t.Same u)
    (hdone : t.isDone = true → u.isDone = true) :
    Single kit { m with threads := m.threads.set i u } := by
  refine ⟨h.sound.set ht hsame.target, h.tidy.set ht hsame.id,
    fun s => (h.fine s).set ht hsame fun hu => ?_⟩
  unfold runsLive at hu ⊢
  rw [hsame.runs] at hu
  cases hd : t.isDone with
  | false => exact Bool.and_eq_true_iff.mpr ⟨(Bool.and_eq_true_iff.mp hu).1, rfl⟩
  | true => simp [hdone hd] at hu

/-- A thread at the end of the list that runs no script by its hat. -/
theorem Single.append (h : m.Single kit) {next : ThreadId} (hu : u.isHatted = false)
    (htarget : u.target < m.nextTarget)
    (htidy : Tidy { m with threads := m.threads ++ [u], nextThread := next }) :
    Single kit { m with threads := m.threads ++ [u], nextThread := next } := by
  have hruns : ∀ s : TargetId × BlockId, runs s.1 s.2 u = false := by
    intro s
    rw [Bool.eq_false_iff]
    intro hruns
    rw [(runs_iff.mp hruns).1] at hu
    cases hu
  refine ⟨⟨h.sound.targets, fun t ht => ?_, h.sound.distinct⟩, htidy, fun s => ⟨?_, fun hr => ?_⟩⟩
  · rcases mem_append.mp ht with hmem | hmem
    · exact h.sound.threads t hmem
    · rw [mem_singleton.mp hmem]
      exact htarget
  · exact (h.fine s).live.append (by unfold runsLive; rw [hruns s]; rfl)
  · exact ((h.fine s).lone hr).append (hruns s)

/-! ## Visits -/

theorem lone_set_of_none {p : Thread → Bool} (h : ∀ t ∈ ts, p t = false) (i : Nat) (u : Thread) :
    Lone p (ts.set i u) := by
  have honly : ∀ (j : Nat) (t : Thread), (ts.set i u)[j]? = some t → p t = true → j = i := by
    intro j t ht hp
    by_contra hne
    rw [getElem?_set_ne (Ne.symm hne)] at ht
    rw [h t (mem_of_getElem? ht)] at hp
    cases hp
  exact fun j k t t' ht ht' hp hp' => (honly j t ht hp).trans (honly k t' ht' hp').symm

theorem placeholder_isDone (t : Thread) : t.placeholder.isDone = true :=
  Bool.or_eq_true_iff.mpr (.inr rfl)

/-- While its only running thread has its turn, no thread of a script is running in the list. -/
theorem Fine.runsLive_meanwhile (h : m.Fine kit s) {t₀ : Thread} (ht₀ : m.threads[i]? = some t₀)
    (hlive : runsLive s t₀ = true) (t : Thread) :
    ∀ t' ∈ m.threads.set i t.placeholder, runsLive s t' = false := by
  intro t' ht'
  rw [Bool.eq_false_iff]
  intro hlive'
  obtain ⟨j, hj⟩ := mem_iff_getElem?.mp ht'
  by_cases hij : i = j
  · subst hij
    rw [getElem?_set_self (List.getElem?_eq_some_iff.mp ht₀).1] at hj
    cases hj
    simp [runsLive, placeholder_isDone] at hlive'
  · rw [getElem?_set_ne hij] at hj
    exact hij (h.live i j t₀ t' ht₀ hj hlive hlive')

section Return

variable {fuel : Nat} {t₀ : Thread} (hkit : kit.Plain) (hm : m.Single kit)
  (ht₀ : m.threads[i]? = some t₀) (hsame : t₀.Same t) {τ : Turn σ}
  (hτ : m.turn kit fuel i t = some τ)

include hkit hm ht₀ hsame hτ

theorem single_meanwhile : Single kit { m with threads := m.threads.set i t.placeholder } ∧
    τ.machine.Single kit := by
  have hmeanwhile : Single kit { m with threads := m.threads.set i t.placeholder } :=
    hm.set ht₀ (hsame.trans ⟨rfl, rfl, rfl, rfl, rfl⟩) fun _ => placeholder_isDone t
  exact ⟨hmeanwhile, hmeanwhile.discreet (turn_along (discreet_rule hkit) hτ).machine
    ((turn_evolves hτ).machine.tidy hmeanwhile.tidy)⟩

omit hkit in
/-- The place of the thread is its own still. -/
theorem slot_same (hslot : τ.machine.threads[i]? = some slot) (hid : slot.id = t₀.id) :
    slot.Same t₀ := by
  have hgiven : slot.id < m.nextThread := by
    rw [hid]
    exact hm.tidy.given t₀ (mem_of_getElem? ht₀)
  obtain ⟨t₁, ht₁, hbecomes, -⟩ := (turn_evolves hτ).machine.old hslot hgiven
  rw [getElem?_set_self (List.getElem?_eq_some_iff.mp ht₀).1] at ht₁
  cases ht₁
  cases hbecomes with
  | same => exact (hsame.trans ⟨rfl, rfl, rfl, rfl, rfl⟩ : t₀.Same t.placeholder).symm
  | retired => exact (hsame.trans ⟨rfl, rfl, rfl, rfl, rfl⟩ : t₀.Same t.placeholder.retire).symm
  | replaced hle _ _ => exact absurd hgiven (Nat.not_lt.mpr hle)

/-- The thread goes back to its place after its turn. The place is the only one of its script; or no
thread of the script was running meanwhile, and none has come. -/
theorem fine_of_return (halive : t₀.isDone = false) (hslot : τ.machine.threads[i]? = some slot)
    (hplace : slot.Same t₀) (hu : t₀.Same u) (s : TargetId × BlockId) :
    Fine kit { τ.machine with threads := τ.machine.threads.set i u } s := by
  obtain ⟨hmeanwhile, hmachine⟩ := single_meanwhile hkit hm ht₀ hsame hτ
  have hruns : runs s.1 s.2 u = true → runs s.1 s.2 slot = true :=
    fun hu' => ((hplace.trans hu).runs s.1 s.2).symm.trans hu'
  refine ⟨?_, fun hr => ((hmachine.fine s).lone hr).set hslot hruns⟩
  by_cases hs : runs s.1 s.2 t₀ = true
  · have htarget : t₀.target = s.1 := congrArg Prod.fst (runs_iff.mp hs).2
    have hlt : s.1 < m.nextTarget := htarget ▸ hm.sound.threads t₀ (mem_of_getElem? ht₀)
    have hheeds := (turn_along (discreet_rule hkit) hτ).machine hmeanwhile.sound
    by_cases hr : Restarts kit { m with threads := m.threads.set i t.placeholder } s
    · exact ((hheeds.lone s hlt hr ((hmeanwhile.fine s).lone hr)).set hslot hruns).of_imp
        fun _ => runs_of_runsLive
    · refine lone_set_of_none (fun t' ht' => ?_) i u
      rw [Bool.eq_false_iff]
      intro hlive
      obtain ⟨j, hj⟩ := mem_iff_getElem?.mp ht'
      have hlive₀ : runsLive s t₀ = true := by
        unfold runsLive
        rw [hs, halive]
        rfl
      have hj' := mem_of_getElem? ((hheeds.steady s hlt hr).runsLive_back hj hlive)
      rw [(hm.fine s).runsLive_meanwhile ht₀ hlive₀ t t' hj'] at hlive
      cases hlive
  · refine (hmachine.fine s).live.set hslot fun hlive => absurd ?_ hs
    exact (hu.runs s.1 s.2).symm.trans (runs_of_runsLive hlive)

theorem turn_single (halive : t₀.isDone = false) :
    (τ.machine.putBack i { τ.thread with warpStart := none }).Single kit := by
  obtain ⟨-, hmachine⟩ := single_meanwhile hkit hm ht₀ hsame hτ
  have hback : t₀.Same τ.thread := hsame.trans (turn_evolves hτ).thread
  obtain ⟨slot, hslot, -⟩ := turn_slot (List.getElem?_eq_some_iff.mp ht₀).1 hτ
  rcases putBack_eq hslot { τ.thread with warpStart := none } with ⟨hid, heq⟩ | ⟨-, heq⟩
  · rw [heq]
    have hplace := slot_same hm ht₀ hsame hτ hslot (hid.trans hback.id)
    generalize hu : (if slot.status == .done then { τ.thread with warpStart := none }.retire
      else { τ.thread with warpStart := none }) = u
    have hreturn : t₀.Same u := by
      subst hu
      split <;> exact hback.trans ⟨rfl, rfl, rfl, rfl, rfl⟩
    exact ⟨hmachine.sound.set hslot (hplace.trans hreturn).target,
      hmachine.tidy.set hslot (hplace.trans hreturn).id,
      fine_of_return hkit hm ht₀ hsame hτ halive hslot hplace hreturn⟩
  · rw [heq]
    exact hmachine

end Return

/-- Scripts run once at a time if they did so before. -/
def StaysSingle (kit : Kit σ) (m m' : Machine σ) : Prop := m.Single kit → m'.Single kit

instance : Lasting (StaysSingle kit) where
  refl _ h := h
  trans h h' hm := h' (h hm)

theorem Single.apart (hm : m.Single kit) (h : m.Apart m') : m'.Single kit :=
  hm.discreet h.discreet (h.evolves.tidy hm.tidy)

theorem Single.takeDone (hm : m.Single kit) : m.takeDone.2.Single kit := by
  have hsub : m.takeDone.2.threads.Sublist m.threads := by
    unfold Machine.takeDone
    rw [partition_eq_filter_filter]
    exact filter_sublist
  exact ⟨⟨hm.sound.targets, fun t ht => hm.sound.threads t (hsub.subset ht), hm.sound.distinct⟩,
    hm.tidy.sublist hsub, fun s =>
      ⟨(hm.fine s).live.sublist hsub, fun hr => ((hm.fine s).lone hr).sublist hsub⟩⟩

theorem Single.visit (hkit : kit.Plain) (hm : m.Single kit) {isFirst : Bool}
    (h : m.visit kit fuel isFirst i = some m') : m'.Single kit := by
  rcases visit_cases h with ⟨-, rfl⟩ | ⟨t, ht, hcases⟩
  · exact hm
  · obtain ⟨-, -, -, hdone⟩ := wake_same isFirst t
    rcases hcases with ⟨-, rfl⟩ | ⟨hturn, s, hs, rfl⟩
    · exact hm.set ht (wake_like isFirst t) fun hd => hdone.trans hd
    · have halive : t.isDone = false := by
        rw [← hdone]
        simpa using (Bool.and_eq_true_iff.mp hturn).2
      exact turn_single hkit hm ht (wake_like isFirst t) hs halive

theorem single_passLaw (hkit : kit.Plain) : PassLaw kit (StaysSingle kit) where
  rest h hm := hm.apart h.toApart
  visit h hm := hm.visit hkit h
  takeDone _ hm := hm.takeDone

/-! ## Hats that do not restart scripts -/

theorem Leads.of_steady {ts' : List Thread} (h : Leads s ts) (hsteady : Steady s ts ts')
    (hlone : Lone (runsLive s) ts) : Leads s ts' := by
  intro i j t₁ t₂ hij ht₁ ht₂ hr₁ _
  rw [Bool.eq_false_iff]
  intro hlive
  have hlive₂ := hsteady.runsLive_back ht₂ hlive
  obtain ⟨t, ht, hstays⟩ := hsteady.back i t₁ ht₁ hr₁
  have hr : runs s.1 s.2 t = true := by
    rcases hstays with rfl | rfl <;> exact hr₁
  cases hd : t.isDone with
  | true =>
    rw [h i j t t₂ hij ht hlive₂ hr hd] at hlive
    cases hlive
  | false =>
    have hlive₁ : runsLive s t = true := by
      unfold runsLive
      rw [hr, hd]
      rfl
    exact Nat.ne_of_lt hij (hlone i j t t₂ ht hlive₂ hlive₁ hlive)

theorem leads_of_lone (h : Lone (runs s.1 s.2) ts) : Leads s ts := by
  intro i j t t' hij ht ht' hr _
  rw [Bool.eq_false_iff]
  intro hlive
  exact Nat.ne_of_lt hij (h i j t t' ht ht' hr (runs_of_runsLive hlive))

theorem leads_of_done (h : ∀ t ∈ ts, t.isDone = true) : Leads s ts := by
  intro _ _ _ t' _ _ ht' _ _
  unfold runsLive
  rw [h t' (mem_of_getElem? ht'), Bool.and_eq_false_iff]
  exact .inr rfl

/-- A hat that does not restart scripts starts one at the end of the list, where it is not
running. -/
theorem slotFor_leads (hhat : hat.restarts = false) (hleads : Leads s m.threads) {slot : Option Nat}
    (h : m.slotFor hat s.1 s.2 = some slot) :
    slot = none ∧ ∀ t ∈ m.threads, runsLive s t = false := by
  unfold slotFor at h
  cases hidx : m.threads.findIdx? (runs s.1 s.2) with
  | none =>
    rw [hidx] at h
    cases h
    refine ⟨rfl, fun t ht => ?_⟩
    unfold runsLive
    rw [findIdx?_eq_none_iff.mp hidx t ht]
    rfl
  | some i =>
    obtain ⟨hlt, hruns, hfirst⟩ := findIdx?_eq_some_iff_getElem.mp hidx
    rw [hidx] at h
    dsimp only at h
    rw [if_neg (by simp [hhat]), getElem?_eq_getElem hlt] at h
    split at h
    · rename_i hdone
      cases h
      refine ⟨rfl, fun t ht => ?_⟩
      obtain ⟨j, hj⟩ := mem_iff_getElem?.mp ht
      rw [Bool.eq_false_iff]
      intro hlive
      obtain ⟨hlt', rfl⟩ := List.getElem?_eq_some_iff.mp hj
      rcases Nat.lt_trichotomy i j with hij | rfl | hij
      · rw [hleads i j _ _ hij (getElem?_eq_getElem hlt) hj hruns hdone] at hlive
        cases hlive
      · have hdone' : m.threads[i].isDone = true := hdone
        simp [runsLive, hdone'] at hlive
      · exact hfirst j hij (runs_of_runsLive hlive)
    · cases h

/-- Scripts of some kind were started, and otherwise no more was done than in a turn. -/
structure Starts (kit : Kit σ) (p : TargetId × BlockId → Prop) (m m' : Machine σ) : Prop where
  single : m'.Single kit
  inherits : m.Inherits m'
  steady : ∀ s, ¬p s → s.1 < m.nextTarget → ¬m.Restarts kit s → Steady s m.threads m'.threads
  lone : ∀ s : TargetId × BlockId, ¬p s → Lone (runs s.1 s.2) m.threads →
    Lone (runs s.1 s.2) m'.threads

section Starts

variable {p q : TargetId × BlockId → Prop}

theorem Starts.refl (hm : m.Single kit) : Starts kit p m m :=
  ⟨hm, Lasting.refl m, fun _ _ _ _ => .refl _, fun _ _ h => h⟩

theorem Starts.of_heeds (hm : m.Single kit) (h : Heeds kit m m') (htidy : m'.Tidy) :
    Starts kit p m m' :=
  ⟨⟨h.sound, htidy, fun s => h.fine (hm.fine s)⟩, h.inherits, fun s _ => h.steady s,
    fun _ _ => h.keeps_lone⟩

theorem Starts.trans (h : Starts kit p m m') (h' : Starts kit q m' m'') :
    Starts kit (fun s => p s ∨ q s) m m'' := by
  refine ⟨h'.single, Lasting.trans h.inherits h'.inherits, fun s hpq hs hr => ?_,
    fun s hpq hlone => ?_⟩
  · obtain ⟨hp, hq⟩ := not_or.mp hpq
    exact (h.steady s hp hs hr).trans
      (h'.steady s hq (Nat.lt_of_lt_of_le hs h.inherits.next)
        fun hr' => hr (h.inherits.restarts hs hr'))
  · obtain ⟨hp, hq⟩ := not_or.mp hpq
    exact h'.lone s hq (h.lone s hp hlone)

theorem Starts.mono (h : Starts kit p m m') (hpq : ∀ s, p s → q s) : Starts kit q m m' :=
  ⟨h.single, h.inherits, fun s hq => h.steady s fun hp => hq (hpq s hp),
    fun s hq => h.lone s fun hp => hq (hpq s hp)⟩

/-- A script that was not started can still be. -/
theorem Starts.leads (h : Starts kit p m m') (hm : m.Single kit) (hp : ¬p s)
    (hr : ¬m.Restarts kit s) (hleads : Leads s m.threads) : Leads s m'.threads := by
  rcases Nat.lt_or_ge s.1 m.nextTarget with hlt | hle
  · exact hleads.of_steady (h.steady s hp hlt hr) (hm.fine s).live
  · exact leads_of_lone (h.lone s hp (lone_of_none (hm.sound.runs_of_le hle)))

end Starts

/-- A script is started, and it was not running. -/
theorem Starts.of_append (hm : m.Single kit) (h : Heeds kit m m') (hs : s.1 < m.nextTarget)
    (hr : ¬m.Restarts kit s) (hnone : ∀ t ∈ m.threads, runsLive s t = false) (hu : u.script = s)
    (htidy : Tidy { m' with threads := m'.threads ++ [u] }) :
    Starts kit (· = s) m { m' with threads := m'.threads ++ [u] } := by
  have hother : ∀ s', s' ≠ s → runs s'.1 s'.2 u = false := by
    intro s' hne
    rw [Bool.eq_false_iff]
    exact fun hruns => hne ((runs_iff.mp hruns).2.symm.trans hu)
  have hinherits : m.Inherits { m' with threads := m'.threads ++ [u] } :=
    Lasting.trans h.inherits (inherits_law.threads m' _ m'.nextThread)
  refine ⟨⟨⟨h.sound.targets, fun t ht => ?_, h.sound.distinct⟩, htidy, fun s' => ?_⟩, hinherits,
    fun s' hne hs' hr' => ?_, fun s' hne hlone => (h.keeps_lone hlone).append (hother s' hne)⟩
  · rcases mem_append.mp ht with hmem | hmem
    · exact h.sound.threads t hmem
    · have htarget : t.target = s.1 := congrArg Prod.fst (mem_singleton.mp hmem ▸ hu)
      rw [htarget]
      exact Nat.lt_of_lt_of_le hs h.inherits.next
  · have hfine := h.fine (hm.fine s')
    by_cases hne : s' = s
    · subst hne
      refine ⟨lone_append (fun t ht => ?_) (lone_singleton _ u),
        fun hr' => absurd (hinherits.restarts hs hr') hr⟩
      rw [Bool.eq_false_iff]
      intro hlive
      obtain ⟨j, hj⟩ := mem_iff_getElem?.mp ht
      have hback := mem_of_getElem? ((h.steady s' hs hr).runsLive_back hj hlive)
      rw [hnone t hback] at hlive
      cases hlive
    · refine ⟨hfine.live.append ?_, fun hr' => (hfine.lone hr').append (hother s' hne)⟩
      unfold runsLive
      rw [hother s' hne]
      rfl
  · refine (h.steady s' hs' hr').trans (.of_append (fun u' hu' heq => hne ?_) m'.threads)
    rw [← heq, mem_singleton.mp hu', hu]

section Scripts

variable {opcode : String} {hat : Hat} (hkit : kit.Plain) (hhat : hat.restarts = false) {fuel : Nat}

include hkit hhat

theorem startScript_starts (hm : m.Single kit) (hs : s.1 < m.nextTarget) (hr : ¬m.Restarts kit s)
    (hleads : Leads s m.threads) {r : Option ThreadId}
    (h : startScript kit.toCatalog (predicate kit fuel) opcode hat s.1 s.2 m = some (r, m')) :
    Starts kit (· = s) m m' := by
  have htidy := (startScript_evolves (Turn.execute_evolves kit fuel) opcode hat s.1 s.2 m r m'
    h).tidy hm.tidy
  rcases startScript_cases h with ⟨-, rfl⟩ | ⟨slot, r', m₁, hslot, hspawn, -, rfl⟩
  · exact .refl hm
  · obtain ⟨rfl, hnone⟩ := slotFor_leads hhat hleads hslot
    have hheeds : Heeds kit m m₁ := spawn_along (fun h => h.toApart.discreet)
      (fun _ _ _ => Apart.discreet .of_rest)
        (fun m next => .of_threads (inherits_law.threads m m.threads next) rfl rfl)
      (Turn.execute_along (discreet_rule hkit).toRule fuel) _ s.1 s.2 m r' m₁ hspawn hm.sound
    obtain ⟨-, hspawned⟩ := spawn_spawned (Turn.execute_evolves kit fuel) hspawn
    cases r' with
    | none => exact .of_heeds hm hheeds htidy
    | some u =>
      have hu : u.script = s := Prod.ext (hspawned u rfl).target (hspawned u rfl).top
      exact .of_append hm hheeds hs hr hnone hu htidy

theorem startScripts_starts {scripts : List (TargetId × BlockId)} (hnodup : scripts.Nodup)
    (hm : m.Single kit) (hscripts : ∀ s ∈ scripts, s.1 < m.nextTarget ∧ ¬m.Restarts kit s ∧
      Leads s m.threads)
    (h : startScripts kit.toCatalog (predicate kit fuel) opcode hat scripts m = some (r, m')) :
    Starts kit (· ∈ scripts) m m' := by
  induction scripts generalizing m r with
  | nil =>
    obtain ⟨-, rfl⟩ := pure_some.mp h
    exact .refl hm
  | cons s scripts ih =>
    obtain ⟨hs, hnodup⟩ := nodup_cons.mp hnodup
    obtain ⟨⟨hlt, hr, hleads⟩, hscripts⟩ := forall_mem_cons.mp hscripts
    unfold startScripts at h
    obtain ⟨first, m₁, hfirst, h⟩ := bind_some.mp h
    obtain ⟨others, m₂, hothers, h⟩ := bind_some.mp h
    obtain ⟨-, rfl⟩ := pure_some.mp h
    have hstarts := startScript_starts hkit hhat hm hlt hr hleads hfirst
    refine (hstarts.trans (ih hnodup hstarts.single (fun s' hs' => ?_) hothers)).mono
      fun s' => mem_cons.mpr
    obtain ⟨hlt', hr', hleads'⟩ := hscripts s' hs'
    have hne : s' ≠ s := fun heq => hs (heq ▸ hs')
    exact ⟨Nat.lt_of_lt_of_le hlt' hstarts.inherits.next,
      fun hr'' => hr' (hstarts.inherits.restarts hlt' hr''), hstarts.leads hm hne hr' hleads'⟩

end Scripts

theorem not_restarts_of_begins (hhat : kit.hats[opcode]? = some hat)
    (hrestarts : hat.restarts = false) (hs : m.Begins opcode s) : ¬m.Restarts kit s := by
  rintro ⟨opcode', hat', ⟨t', ht', hopcode'⟩, hhat', hrestarts'⟩
  obtain ⟨t, ht, hopcode⟩ := hs
  cases ht.symm.trans ht'
  cases hopcode.symm.trans hopcode'
  cases hhat.symm.trans hhat'
  rw [hrestarts] at hrestarts'
  cases hrestarts'

section Hats

variable {opcode : String} {hat : Hat} (hkit : kit.Plain) (hhat : kit.hats[opcode]? = some hat)
  (hrestarts : hat.restarts = false) {fuel : Nat} {fields : List (String × String)}

include hkit hhat hrestarts

theorem scriptsOf_starts {target : TargetId} (hm : m.Single kit)
    (hleads : ∀ s, s.1 = target → m.Begins opcode s → Leads s m.threads)
    (h : startScripts kit.toCatalog (predicate kit fuel) opcode hat
      (m.scriptsOf opcode fields target) m = some
      (r, m')) :
    Starts kit (fun s => s.1 = target ∧ m.Begins opcode s) m m' := by
  refine (startScripts_starts hkit hrestarts
    (hm.sound.distinct.scriptsOf_nodup opcode fields target) hm
    (fun s hs => ?_) h).mono fun s hs => scriptsOf_opcode hs
  obtain ⟨hs₁, hbegins⟩ := scriptsOf_opcode hs
  exact ⟨hm.sound.targets s.1 (scriptsOf_mem hs), not_restarts_of_begins hhat hrestarts hbegins,
    hleads s hs₁ hbegins⟩

theorem startOn_starts {targets : List TargetId} (hnodup : targets.Nodup) (hm : m.Single kit)
    (htargets : ∀ id ∈ targets, id < m.nextTarget)
    (hleads : ∀ s, s.1 ∈ targets → m.Begins opcode s → Leads s m.threads)
    (h : startOn kit.toCatalog (predicate kit fuel) opcode hat fields targets m = some (r, m')) :
    Starts kit (fun s => s.1 ∈ targets ∧ m.Begins opcode s) m m' := by
  induction targets generalizing m r with
  | nil =>
    obtain ⟨-, rfl⟩ := pure_some.mp h
    exact .refl hm
  | cons target targets ih =>
    obtain ⟨htarget, hnodup⟩ := nodup_cons.mp hnodup
    obtain ⟨hlt, htargets⟩ := forall_mem_cons.mp htargets
    unfold startOn at h
    rw [Run.get_andThen] at h
    obtain ⟨first, m₁, hfirst, h⟩ := bind_some.mp h
    obtain ⟨others, m₂, hothers, h⟩ := bind_some.mp h
    obtain ⟨-, rfl⟩ := pure_some.mp h
    have hstarts := scriptsOf_starts hkit hhat hrestarts hm
      (fun s hs => hleads s (mem_cons.mpr (.inl hs))) hfirst
    have hback : ∀ s, s.1 ∈ targets → m₁.Begins opcode s → m.Begins opcode s :=
      fun s hs hbegins => hstarts.inherits.begins (htargets s.1 hs) hbegins
    refine (hstarts.trans
      (ih hnodup hstarts.single (fun id hid => ?_) (fun s hs hbegins => ?_) hothers)).mono
      fun s hs => ?_
    · exact Nat.lt_of_lt_of_le (htargets id hid) hstarts.inherits.next
    · have hbegins' := hback s hs hbegins
      exact hstarts.leads hm (fun hp => htarget (hp.1 ▸ hs))
        (not_restarts_of_begins hhat hrestarts hbegins')
        (hleads s (mem_cons_of_mem _ hs) hbegins')
    · rcases hs with ⟨hs, hbegins⟩ | ⟨hs, hbegins⟩
      · exact ⟨mem_cons.mpr (.inl hs), hbegins⟩
      · exact ⟨mem_cons_of_mem _ hs, hback s hs hbegins⟩

end Hats

/-- The scripts with that hat may be started: the hat restarts them, or none of them is running
behind a thread of it that is done. -/
def Startable (kit : Kit σ) (m : Machine σ) (opcode : String) : Prop :=
  ∀ hat, kit.hats[opcode]? = some hat → hat.restarts = false → ∀ s, m.Begins opcode s →
    Leads s m.threads

theorem startHats_starts (hkit : kit.Plain) {fields : List (String × String)}
    {only : Option TargetId} (hm : m.Single kit) (hlayers : m.Registered)
    (hstartable : m.Startable kit opcode)
    (h : startHats kit.toCatalog (predicate kit fuel) opcode fields only m = some (r, m')) :
    Starts kit (m.Begins opcode) m m' := by
  have htidy := (startHats_evolves kit fuel opcode fields only m r m' h).tidy hm.tidy
  cases hhat : kit.hats[opcode]? with
  | none =>
    unfold startHats at h
    rw [hhat] at h
    obtain ⟨-, rfl⟩ := pure_some.mp h
    exact .refl hm
  | some hat =>
    cases hrestarts : hat.restarts with
    | true =>
      have hall : ∀ hat', kit.hats[opcode]? = some hat' → hat'.restarts = true := by
        intro hat' hhat'
        cases hhat.symm.trans hhat'
        exact hrestarts
      exact .of_heeds hm
        (startHats_discreet _ hall (hkit.predicates opcode hat hhat hrestarts) fields only
        m r m' h hm.sound) htidy
    | false =>
      have hleads := hstartable hat hhat hrestarts
      cases only with
      | none =>
        unfold startHats at h
        rw [hhat] at h
        dsimp only at h
        rw [Run.get_andThen] at h
        exact (startOn_starts hkit hhat hrestarts (nodup_reverse.mpr hlayers.nodup) hm
          (fun id hid => hlayers.lt_next (mem_reverse.mp hid)) (fun s _ => hleads s) h).mono
          fun s hs => hs.2
      | some target =>
        rcases startHats_some h with rfl | ⟨hat', ids, hhat', hscripts⟩
        · exact .refl hm
        · cases hhat.symm.trans hhat'
          exact (scriptsOf_starts hkit hhat hrestarts hm (fun s _ => hleads s) hscripts).mono
            fun s hs => hs.2

/-! ## Operations -/

theorem Startable.of_starts {opcode' : String} (h : m.Startable kit opcode')
    (hne : opcode' ≠ opcode) (hm : m.Single kit) (hstarts : Starts kit (m.Begins opcode) m m') :
    m'.Startable kit opcode' := by
  intro hat hhat hrestarts s hbegins
  rcases Nat.lt_or_ge s.1 m.nextTarget with hlt | hle
  · have hbegins' := hstarts.inherits.begins hlt hbegins
    refine hstarts.leads hm (fun hother => hne ?_) (not_restarts_of_begins hhat hrestarts hbegins')
      (h hat hhat hrestarts s hbegins')
    obtain ⟨t, ht, hopcode⟩ := hbegins'
    obtain ⟨t', ht', hopcode'⟩ := hother
    cases ht.symm.trans ht'
    exact Option.some.inj (hopcode.symm.trans hopcode')
  · refine leads_of_lone
      (hstarts.lone s (fun hother => ?_) (lone_of_none (hm.sound.runs_of_le hle)))
    obtain ⟨t, ht, -⟩ := hother
    exact absurd (hm.sound.targets s.1 (mem_targets_iff.mpr ⟨t, ht⟩)) (Nat.not_lt.mpr hle)

theorem pollHats_single (hkit : kit.Plain) (hloyal : kit.Loyal) {opcodes : List String}
    (hnodup : opcodes.Nodup) (hm : m.Single kit) (hlayers : m.Registered)
    (hstartable : ∀ opcode ∈ opcodes, m.Startable kit opcode) {r : Unit}
    (h : pollHats kit fuel opcodes m = some (r, m')) : m'.Single kit := by
  induction opcodes generalizing m with
  | nil =>
    obtain ⟨-, rfl⟩ := pure_some.mp h
    exact hm
  | cons opcode opcodes ih =>
    obtain ⟨hopcode, hnodup⟩ := nodup_cons.mp hnodup
    obtain ⟨hfirst, hstartable⟩ := forall_mem_cons.mp hstartable
    unfold pollHats at h
    obtain ⟨_, m₁, hstart, h⟩ := bind_some.mp h
    obtain ⟨ids, hstart⟩ := discard_some.mp hstart
    have hstarts := startHats_starts hkit hm hlayers hfirst hstart
    have law := registered_law hloyal
    refine ih hnodup hstarts.single ?_ (fun opcode' hopcode' => ?_) h
    · exact startHats_along (law.startScript fuel (Turn.execute_along law.rule fuel) _) _ _ m
        ids m₁ hstart hlayers
    · exact (hstartable opcode' hopcode').of_starts (ne_of_mem_of_not_mem hopcode' hopcode) hm
        hstarts

theorem Single.startMonitor (hm : m.Single kit) (monitor : Monitor) :
    (m.startMonitor monitor).Single kit := by
  have htidy := (evolves_startMonitor m monitor).tidy hm.tidy
  unfold Machine.startMonitor newThread? at htidy ⊢
  dsimp only at htidy ⊢
  split
  · exact hm
  · rename_i hnone
    rw [if_neg hnone] at htidy
    cases ht : m.targets[monitor.target]? with
    | none => exact hm
    | some target =>
      rw [ht] at htidy
      exact hm.append rfl (hm.sound.targets monitor.target (mem_targets_iff.mpr ⟨target, ht⟩)) htidy

theorem Single.toggle (hm : m.Single kit) (top : BlockId) (target : TargetId) :
    (m.toggle top target).2.Single kit := by
  have htidy := (evolves_toggle m top target).tidy hm.tidy
  unfold Machine.toggle newThread? at htidy ⊢
  dsimp only at htidy ⊢
  split
  · rename_i i hfind
    obtain ⟨hlt, -⟩ := findIdx?_eq_some_iff_getElem.mp hfind
    have ht := getElem?_eq_getElem hlt
    rw [modify_eq_set_getElem?, ht]
    exact hm.set ht ⟨rfl, rfl, rfl, rfl, rfl⟩ fun _ => rfl
  · rename_i hfind
    rw [hfind] at htidy
    cases ht : m.targets[target]? with
    | none => exact hm
    | some target' =>
      rw [ht] at htidy
      exact hm.append rfl (hm.sound.targets target (mem_targets_iff.mpr ⟨target', ht⟩)) htidy

theorem edgeHats_nodup (catalog : Catalog σ) : catalog.edgeHats.Nodup := by
  unfold Catalog.edgeHats
  rw [nodup_iff_pairwise_ne, pairwise_map]
  refine List.Pairwise.filter _ (Std.TreeMap.distinct_keys_toList.imp fun hne heq => hne ?_)
  rw [heq]
  exact Std.ReflCmp.compare_self

theorem Startable.apart (h : m.Startable kit opcode) (hm : m.Single kit) (hapart : m.Apart m') :
    m'.Startable kit opcode := by
  intro hat hhat hrestarts s hbegins
  obtain ⟨t, ht, -⟩ := id hbegins
  have hlt : s.1 < m.nextTarget := hapart.nextTarget ▸
    (hm.apart hapart).sound.targets s.1 (mem_targets_iff.mpr ⟨t, ht⟩)
  rw [hapart.threads]
  exact h hat hhat hrestarts s (hapart.inherits.begins hlt hbegins)

theorem Single.step (hkit : kit.Plain) (hloyal : kit.Loyal) (hm : m.Single kit)
    (hlayers : m.Registered) (hstartable : ∀ opcode ∈ kit.edgeHats, m.Startable kit opcode)
    (h : step kit fuel m = some (done, m')) :
    m'.Single kit := by
  rw [step_eq] at h
  obtain ⟨_, m₁, hprepare, h⟩ := bind_some.mp h
  obtain ⟨done', m₂, hthreads, h⟩ := bind_some.mp h
  obtain ⟨_, m₃, hreport, h⟩ := bind_some.mp h
  obtain ⟨-, rfl⟩ := pure_some.mp h
  cases modify_some.mp hreport
  have hprepared : m₁.Single kit := by
    obtain ⟨_, m₄, hbegin, hprepare⟩ := bind_some.mp hprepare
    obtain ⟨_, m₅, hpoll, hmonitors⟩ := bind_some.mp hprepare
    cases modify_some.mp hbegin
    cases modify_some.mp hmonitors
    have hapart : m.Apart { m.syncClock with redraw := false } :=
      Lasting.trans (rest_syncClock m).toApart .of_rest
    have hpolled := pollHats_single hkit hloyal (edgeHats_nodup kit.toCatalog) (hm.apart hapart)
      (hlayers.of_apart hapart) (fun opcode hopcode => (hstartable opcode hopcode).apart hm hapart)
        hpoll
    exact startMonitors_along (R := StaysSingle kit) (fun _ monitor hm => hm.startMonitor monitor)
      m₅.monitors m₅ hpolled
  exact (stepThreads_along (single_passLaw hkit) fuel m₁ done' m₂ hthreads hprepared).apart
    (apart_report m₂ done')

theorem stopAll_isDone (m : Machine σ) : ∀ t ∈ m.stopAll.threads, t.isDone = true := by
  intro t ht
  obtain ⟨t', -, rfl⟩ := mem_map.mp ht
  rfl

theorem Single.greenFlag (hkit : kit.Plain) (hloyal : kit.Loyal) (hm : m.Single kit)
    (hlayers : m.Registered) {r : Unit} (h : greenFlag kit fuel m = some (r, m')) :
    m'.Single kit := by
  unfold Machine.greenFlag at h
  obtain ⟨_, m₁, hclear, h⟩ := bind_some.mp h
  obtain ⟨ids, h⟩ := discard_some.mp h
  have hcleared := modify_some.mp hclear
  have hstopped : m.stopAll.Single kit :=
    hm.discreet (discreet_stopAll m) ((evolves_stopAll m).tidy hm.tidy)
  have hstart : m.stopAll.Apart { m.stopAll.emit .projectStart with
    stopwatch := m.stopAll.stopwatch.restart m.stopAll.now } := .of_rest
  have hsingle : m₁.Single kit := by
    rw [← hcleared]
    exact (hstopped.apart hstart).discreet (.of_threads (inherits_law.clearEdges _) rfl rfl)
      ⟨hstopped.tidy.nodup, hstopped.tidy.given⟩
  have hlayers₁ : m₁.Registered := by
    rw [← hcleared]
    exact (registered_frameLaw hloyal).clearEdges _ (hlayers.stopAll.of_apart hstart)
  have hdone : ∀ t ∈ m₁.threads, t.isDone = true := by
    rw [← hcleared]
    exact stopAll_isDone m
  exact (startHats_starts hkit hsingle hlayers₁ (fun _ _ _ _ _ => leads_of_done hdone) h).single

end Machine

/-- What a host takes care of before an operation: scripts are started and polled where they may be,
and no thread is made for a script by hand. -/
def Operation.Guarded (kit : Kit σ) (m : Machine σ) : Operation → Prop
  | .startHats opcode _ _ => m.Startable kit opcode
  | .step => ∀ opcode ∈ kit.edgeHats, m.Startable kit opcode
  | .pushThread _ _ => False
  | _ => True

namespace Machine

open Run

variable {kit : Kit σ} {m m' : Machine σ}

theorem Single.operate (hkit : kit.Plain) (hloyal : kit.Loyal) (hm : m.Single kit)
    (hlayers : m.Registered) {op : Operation} (hop : op.Guarded kit m)
    (h : op.apply kit fuel m = some (done, m')) :
    m'.Single kit := by
  cases op
  case step => exact hm.step hkit hloyal hlayers hop h
  case pushThread => exact hop.elim
  all_goals
    obtain ⟨r, m₁, hdo, hreturn⟩ := bind_some.mp h
    cases (pure_some.mp hreturn).2
  case startHats opcode fields only =>
    obtain ⟨ids, hstart⟩ := discard_some.mp hdo
    exact (startHats_starts hkit hm hlayers hop hstart).single
  case greenFlag => exact hm.greenFlag hkit hloyal hlayers hdo
  case stopAll =>
    cases modify_some.mp hdo
    exact hm.discreet (discreet_stopAll m) ((evolves_stopAll m).tidy hm.tidy)
  case toggle top target =>
    obtain ⟨id, htoggle⟩ := discard_some.mp hdo
    have heq : (m.toggle top target).2 = m' := congrArg Prod.snd (modifyGet_some.mp htoggle)
    exact heq ▸ hm.toggle top target
  case createClone source =>
    obtain ⟨id, hclone⟩ := discard_some.mp hdo
    exact hm.discreet (createClone_discreet _ hkit.clones source m id m' hclone)
      ((createClone_evolves kit fuel source m id m' hclone).tidy hm.tidy)
  case removeTarget target =>
    cases modify_some.mp hdo
    exact hm.discreet (discreet_removeTarget m target)
      ((evolves_removeTarget m target).tidy hm.tidy)
  case settle promise outcome =>
    cases modify_some.mp hdo
    exact hm.apart .of_rest

/-- The machines that a host comes to from one without threads by guarded operations. -/
inductive Guided (kit : Kit σ) : Machine σ → Prop
  | start {m : Machine σ} (h : m.Reached kit) (hnone : m.threads = []) : Guided kit m
  | operate {m m' : Machine σ} {fuel : Nat} {done : List Thread} (h : Guided kit m) (op : Operation)
      (hop : op.Guarded kit m) (happly : op.apply kit fuel m = some (done, m')) : Guided kit m'
  /-- Variables, promises, the clock, the project timer and what the host itself keeps. -/
  | apart {m m' : Machine σ} (h : Guided kit m) (hapart : m.Apart m') : Guided kit m'

theorem Guided.orderly (hloyal : kit.Loyal) (h : m.Guided kit) : m.Orderly := by
  induction h with
  | start h _ => exact h.orderly hloyal
  | operate _ op _ happly ih => exact ih.operate hloyal happly
  | apart _ hapart ih => exact ih.apart hapart

theorem Guided.single (hkit : kit.Plain) (hloyal : kit.Loyal) (h : m.Guided kit) :
    m.Single kit := by
  induction h with
  | @start m h hnone =>
    have horderly := h.orderly hloyal
    have hnil : ∀ t ∈ m.threads, False := by
      rw [hnone]
      exact fun t ht => by cases ht
    refine ⟨⟨fun id hid => ?_, fun t ht => (hnil t ht).elim, horderly.distinct⟩, horderly.tidy,
      fun s => fine_of_lone (lone_of_none fun t ht => (hnil t ht).elim)⟩
    obtain ⟨t, ht⟩ := mem_targets_iff.mp hid
    exact (horderly.registered.ids id t ht).2
  | operate h op hop happly ih =>
    exact ih.operate hkit hloyal (h.orderly hloyal).registered hop happly
  | apart _ hapart ih => exact ih.apart hapart

/-- **A script runs once at a time.** With the core blocks, of the threads that a target's script
was given by its hat at most one is not done: from a machine without threads on, and for any
operations, if no script whose hat does not restart it is started or polled while a thread of it is
running behind one that is done. -/
theorem scripts_run_once (hkit : kit.toCatalog = Library.core) (hm : m.Guided kit)
    (target : TargetId) (top : BlockId) :
    m.threads.countP (fun t =>
      t.target == target && t.top == top && !t.isDone && !t.isClick && !t.isMonitor) ≤ 1 := by
  have hsingle : m.Single kit := hm.single (hkit ▸ Library.core_plain) (hkit ▸ Library.core_loyal)
  refine ((hsingle.fine (target, top)).live.of_imp fun t ht => ?_).countP_le_one
  simp only [runsLive, runs, Bool.and_eq_true] at ht ⊢
  obtain ⟨⟨⟨⟨htarget, htop⟩, hlive⟩, hclick⟩, hmonitor⟩ := ht
  exact ⟨⟨⟨⟨htarget, htop⟩, hclick⟩, hmonitor⟩, hlive⟩

/-- A stage with a script that loops under the hat of new clones. -/
def newborn : Machine Unit :=
  (Machine.addTarget (.new {} { tick := 1.0 } ()) (.stage (.ofBlocks [
    { id := "born", opcode := "control_start_as_clone", next := some "loop", isTopLevel := true },
    { id := "loop", opcode := "control_forever" }]))).2

/-- The script is started, stopped and given away, then started again and, as it is running, not a
third time. -/
theorem newborn_runs_once :
    ∃ m : Machine Unit, m.Guided ({ Library.core with } : Kit Unit) ∧
      m.threads.map (fun t => (t.id, t.isDone)) = [(1, false)] ∧
      m.threads.countP (fun t =>
        t.target == 0 && t.top == "born" && !t.isDone && !t.isClick && !t.isMonitor) ≤ 1 := by
  let kit : Kit Unit := { Library.core with }
  have hstartable : ∀ (m : Machine Unit) (opcode : String), m.threads.length ≤ 1 →
      m.Startable kit opcode := by
    intro m opcode hlength _ _ _ s _ i j t t' hij _ ht'
    have hj := (List.getElem?_eq_some_iff.mp ht').1
    omega
  have hreached : newborn.Reached kit :=
    .addTarget (.new {} { tick := 1.0 } ()) _ rfl (Sheet.ofBlocks_nodup _)
  let start : Operation := .startHats "control_start_as_clone" [] none
  have hplay : ((start.apply kit 9 newborn).bind fun p₁ => (Operation.stopAll.apply kit 0 p₁.2).bind
    fun p₂ =>
      (Operation.step.apply kit 40 p₂.2).bind fun p₃ => (start.apply kit 9 p₃.2).bind fun p₄ =>
        (start.apply kit 9 p₄.2).map fun p₅ =>
          ([p₁, p₂, p₃, p₄].map fun p => p.2.threads.length, p₅.2.threads.map fun t =>
            (t.id, t.isDone))) =
      some ([1, 1, 0, 1], [(1, false)]) := by
    decide +kernel
  obtain ⟨⟨_, m₁⟩, h₁, hplay⟩ := bind_eq_some_iff.mp hplay
  obtain ⟨⟨_, m₂⟩, h₂, hplay⟩ := bind_eq_some_iff.mp hplay
  obtain ⟨⟨_, m₃⟩, h₃, hplay⟩ := bind_eq_some_iff.mp hplay
  obtain ⟨⟨_, m₄⟩, h₄, hplay⟩ := bind_eq_some_iff.mp hplay
  obtain ⟨⟨_, m₅⟩, h₅, heq⟩ := map_eq_some_iff.mp hplay
  simp only [map_cons, map_nil, Prod.mk.injEq, cons.injEq, and_true] at heq
  obtain ⟨⟨hl₁, hl₂, hl₃, hl₄⟩, hthreads⟩ := heq
  have hm₁ : m₁.Guided kit :=
    .operate (.start hreached rfl) start (hstartable newborn _ (Nat.zero_le 1)) h₁
  have hm₂ : m₂.Guided kit := .operate hm₁ .stopAll trivial h₂
  have hm₃ : m₃.Guided kit :=
    .operate hm₂ .step (fun opcode _ => hstartable m₂ opcode (Nat.le_of_eq hl₂)) h₃
  have hm₄ : m₄.Guided kit := .operate hm₃ start (hstartable m₃ _ (hl₃ ▸ Nat.zero_le 1)) h₄
  have hm₅ : m₅.Guided kit := .operate hm₄ start (hstartable m₄ _ (Nat.le_of_eq hl₄)) h₅
  exact ⟨m₅, hm₅, hthreads, scripts_run_once rfl hm₅ 0 "born"⟩

/-- The script is stopped and started again, and its old thread is in front of the new one. Started
once more, it runs twice. -/
theorem script_runs_twice :
    ((play ({ Library.core with } : Kit Unit) [(.startHats "control_start_as_clone" [] none, 9),
      (.stopAll, 0), (.startHats "control_start_as_clone" [] none, 9),
      (.startHats "control_start_as_clone" [] none, 9)] newborn).map fun p =>
        p.2.threads.countP (fun t =>
          t.target == 0 && t.top == "born" && !t.isDone && !t.isClick && !t.isMonitor)) =
            some 2 := by
  decide +kernel

end Machine
end BlockMachine

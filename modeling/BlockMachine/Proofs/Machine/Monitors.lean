import BlockMachine.Proofs.Machine.Touches
import BlockMachine.Proofs.Number.Order

/-!
# What is told of monitors

At the end of a frame the machine tells what the threads of its monitors reported, if it is not what
it told last. What it told last is kept under the id of the block. So a machine whose monitors have
blocks of their own tells of each of them the changes in what it reported, no more and no less
(`Machine.monitors_tell_changes`); monitors of several targets whose blocks share an id take each
other's values for changes (`Machine.twins_tell_again`). NaN is told again and again, as it is not
equal to itself.

The module is about `Machine.startMonitor` and `Machine.reportValue`.

## Results

* `Machine.watched_frameLaw`: threads of monitors are those of known monitors, through all
  operations.
* `Machine.monitors_tell_changes`: what a frame tells of each monitor.
* `Machine.twins_tell_again`: two targets whose monitors share the id of a block.

Left out is how often a monitor is read: its thread may take several frames.
-/

namespace BlockMachine

open List

variable {σ : Type} {t : Thread} {block : BlockId} {fuel : Nat} {isFirst : Bool} {op : Operation}
  {x : Monitor} {v : Value}

/-! ## Readings -/

/-- The script of a thread, as a monitor. -/
def Thread.monitor (t : Thread) : Monitor := ⟨t.top, t.target⟩

/-- If it is the thread of a monitor, that is one of some monitors. -/
def Thread.Watched (xs : List Monitor) (t : Thread) : Prop :=
  t.isMonitor = true → t.isClick = false ∧ t.monitor ∈ xs

theorem Thread.Watched.of_same {xs : List Monitor} {u : Thread} (h : t.Watched xs)
    (hsame : t.Same u) :
    u.Watched xs := by
  intro hmonitor
  obtain ⟨hclick, hmem⟩ := h (hsame.isMonitor.symm.trans hmonitor)
  exact ⟨hsame.isClick.trans hclick, by rwa [Thread.monitor, hsame.top, hsame.target]⟩

/-- What a thread reported for a monitor. -/
def Thread.reading? (t : Thread) : Option Value :=
  if t.isMonitor then t.reported else none

/-- What some threads reported for a monitor, in order. -/
def Monitor.readings (x : Monitor) (ts : List Thread) : List Value :=
  (ts.filter fun t => t.monitor = x).filterMap Thread.reading?

/-- What some threads reported for monitors of a block, whatever the target. -/
def readingsOf (block : BlockId) (ts : List Thread) : List Value :=
  (ts.filter fun t => t.top = block).filterMap Thread.reading?

theorem readingsOf_append (block : BlockId) (ts us : List Thread) :
    readingsOf block (ts ++ us) = readingsOf block ts ++ readingsOf block us := by
  unfold readingsOf
  rw [filter_append, filterMap_append]

theorem readingsOf_cons_pos (ht : t.top = block) (hv : t.reading? = some v) (ts : List Thread) :
    readingsOf block (t :: ts) = v :: readingsOf block ts := by
  unfold readingsOf
  rw [filter_cons_of_pos (by simpa using ht), filterMap_cons_some hv]

theorem readingsOf_cons_neg (ht : ¬(t.top = block ∧ t.reading?.isSome)) (ts : List Thread) :
    readingsOf block (t :: ts) = readingsOf block ts := by
  unfold readingsOf
  by_cases htop : t.top = block
  · have hnone : t.reading? = none := by simpa [htop] using ht
    rw [filter_cons_of_pos (by simpa using htop), filterMap_cons_none hnone]
  · rw [filter_cons_of_neg (by simpa using htop)]

/-- The values some events tell of a block, in order. -/
def valuesOf (block : BlockId) (events : List Event) : List Value :=
  events.filterMap fun
    | .monitorUpdate b v => if b = block then some v else none
    | _ => none

theorem valuesOf_append (block : BlockId) (events events' : List Event) :
    valuesOf block (events ++ events') = valuesOf block events ++ valuesOf block events' :=
  filterMap_append

/-- Other events tell nothing of the block. -/
theorem valuesOf_append_other (events : List Event) {events' : List Event}
    (h : ∀ e ∈ events', ∀ b v, e ≠ .monitorUpdate b v) :
    valuesOf block (events ++ events') = valuesOf block events := by
  rw [valuesOf_append, append_right_eq_self]
  refine filterMap_eq_nil_iff.mpr fun e he => ?_
  have hother := h e he
  cases e with
  | monitorUpdate b v => exact absurd rfl (hother b v)
  | _ => rfl

/-- The values of a list that are not equal to the one before, given what comes before the list. -/
def changes : Option Value → List Value → List Value
  | _, [] => []
  | before, v :: vs => if before == some v then changes (some v) vs else v :: changes (some v) vs

/-- Nothing changes if all values are equal to the one before them. -/
theorem changes_eq_nil {before : Value} {vs : List Value} (h : ∀ v ∈ vs, (before == v) = true) :
    changes (some before) vs = [] := by
  induction vs generalizing before with
  | nil => rfl
  | cons v vs ih =>
    rw [forall_mem_cons] at h
    have hfirst : ((some before : Option Value) == some v) = true := h.1
    rw [changes, if_pos hfirst]
    exact ih fun w hw => (Value.beq_congr h.1 w).symm.trans (h.2 w hw)

namespace Machine

variable {m m' : Machine σ} {done past : List Thread}

/-! ## Telling values -/

/-- What is told last cannot be told from a value as far as equality goes. -/
def Stands (told last : Option Value) : Prop := ∀ v : Value, (told == some v) = (last == some v)

/-- The report of a thread that has no reading for the block. -/
theorem reportValue_other (m : Machine σ) (ht : ¬(t.top = block ∧ t.reading?.isSome)) :
    (m.reportValue t).monitorValues[block]? = m.monitorValues[block]? ∧
      valuesOf block (m.reportValue t).events = valuesOf block m.events := by
  unfold reportValue
  cases hv : t.reported with
  | none => exact ⟨rfl, rfl⟩
  | some v =>
    dsimp only
    split
    · exact ⟨rfl, valuesOf_append_other m.events (by simp)⟩
    · split
      · next htold =>
        rw [Bool.and_eq_true] at htold
        have hblock : t.top ≠ block :=
          fun h => ht ⟨h, by rw [Thread.reading?, if_pos htold.1, hv]; rfl⟩
        refine ⟨?_, ?_⟩
        · show (m.monitorValues.insert t.top v)[block]? = _
          rw [Std.TreeMap.getElem?_insert, if_neg (by simpa using hblock)]
        · show valuesOf block (m.events ++ [.monitorUpdate t.top v]) = _
          rw [valuesOf_append]
          simp [valuesOf, hblock]
      · exact ⟨rfl, rfl⟩

/-- The report of a thread that has a reading for the block. -/
theorem reportValue_reading (m : Machine σ) {last : Option Value} (hclick : t.isClick = false)
    (hv : t.reading? = some v) (hlast : Stands m.monitorValues[t.top]? last) :
    Stands (m.reportValue t).monitorValues[t.top]? (some v) ∧
      valuesOf t.top (m.reportValue t).events =
        valuesOf t.top m.events ++ if last == some v then [] else [v] := by
  obtain ⟨hmonitor, hreported⟩ : t.isMonitor = true ∧ t.reported = some v := by
    unfold Thread.reading? at hv
    split at hv
    · next hmonitor => exact ⟨hmonitor, hv⟩
    · cases hv
  unfold reportValue
  rw [hreported]
  dsimp only
  rw [if_neg (by simp [hclick]), hmonitor, Bool.true_and, bne, hlast v]
  by_cases hsame : (last == some v) = true
  · rw [if_neg (by simp [hsame]), if_pos hsame, append_nil]
    refine ⟨fun w => ?_, rfl⟩
    -- what was told last is equal to the value, and hence to the same values
    have htold := (hlast v).trans hsame
    cases hvalue : m.monitorValues[t.top]? with
    | none =>
      rw [hvalue] at htold
      cases htold
    | some u =>
      rw [hvalue] at htold
      exact Value.beq_congr (v := u) htold w
  · rw [if_pos (by simp [hsame]), if_neg hsame]
    refine ⟨fun w => ?_, ?_⟩
    · show ((m.monitorValues.insert t.top v)[t.top]? == some w) = _
      rw [Std.TreeMap.getElem?_insert_self]
    · show valuesOf t.top (m.events ++ [.monitorUpdate t.top v]) = _
      rw [valuesOf_append]
      simp [valuesOf]

/-- **Reports tell the changes.** What the reports of threads add to what is told of a block are the
changes in what the threads reported for it. -/
theorem reports_changes (block : BlockId)
    (hdone : ∀ t ∈ done, t.isMonitor = true → t.isClick = false) :
    ∀ (m : Machine σ) (last : Option Value), Stands m.monitorValues[block]? last →
      Stands (done.foldl reportValue m).monitorValues[block]?
        ((readingsOf block done).getLast?.or last) ∧
        valuesOf block (done.foldl reportValue m).events =
          valuesOf block m.events ++ changes last (readingsOf block done) := by
  induction done with
  | nil => exact fun m last hlast => ⟨hlast, (append_nil _).symm⟩
  | cons t done ih =>
    intro m last hlast
    rw [forall_mem_cons] at hdone
    rw [foldl_cons]
    by_cases ht : t.top = block ∧ t.reading?.isSome
    · obtain ⟨rfl, hv⟩ := ht
      obtain ⟨v, hv⟩ := Option.isSome_iff_exists.mp hv
      have hclick : t.isClick = false := hdone.1 (by
        by_contra hmonitor
        rw [Thread.reading?, if_neg hmonitor] at hv
        cases hv)
      obtain ⟨hstands, hvalues⟩ := reportValue_reading m hclick hv hlast
      obtain ⟨hstands', hvalues'⟩ := ih hdone.2 _ _ hstands
      rw [readingsOf_cons_pos rfl hv, getLast?_cons, Option.some_or, changes]
      refine ⟨?_, ?_⟩
      · rwa [Option.or_some] at hstands'
      · rw [hvalues', hvalues, append_assoc]
        split <;> rfl
    · obtain ⟨hstands, hvalues⟩ := reportValue_other m ht
      obtain ⟨hstands', hvalues'⟩ := ih hdone.2 (m.reportValue t) last (hstands ▸ hlast)
      rw [readingsOf_cons_neg ht]
      exact ⟨hstands', by rw [hvalues', hvalues]⟩

/-! ## Nothing is told of monitors but at the end of a frame -/

/-- Nothing was told of monitors. -/
structure Untold (m m' : Machine σ) : Prop where
  told : m'.monitorValues = m.monitorValues
  values : ∀ block, valuesOf block m'.events = valuesOf block m.events

instance : Lasting (Untold : Machine σ → Machine σ → Prop) where
  refl _ := ⟨rfl, fun _ => rfl⟩
  trans h h' := ⟨h'.told.trans h.told, fun block => (h'.values block).trans (h.values block)⟩

theorem untold_law : TargetLaw (Untold : Machine σ → Machine σ → Prop) where
  toLenient := .of_still fun h => ⟨h.monitorValues, fun _ => by rw [h.events]⟩
  tell m event hevent := by
    refine ⟨rfl, fun block => valuesOf_append_other m.events ?_⟩
    simp only [mem_singleton, forall_eq]
    rintro b v rfl
    cases hevent
  threads _ _ _ := ⟨rfl, fun _ => rfl⟩
  removeTarget m target := by
    unfold Machine.removeTarget
    split <;> exact ⟨rfl, fun _ => rfl⟩
  edgeFires m target block value := by
    unfold Machine.edgeFires
    split <;> exact ⟨rfl, fun _ => rfl⟩
  addClone h := by
    obtain ⟨t, -, -, -, -, rfl⟩ := addClone?_some h
    exact ⟨rfl, fun _ => rfl⟩
  clearEdges _ := ⟨rfl, fun _ => rfl⟩

theorem untold_reportLists (m : Machine σ) : m.Untold m.reportLists := by
  refine ⟨rfl, fun block => valuesOf_append_other m.events ?_⟩
  rintro e he b v rfl
  obtain ⟨t, -, he⟩ := mem_flatMap.mp he
  obtain ⟨x, -, hx⟩ := mem_map.mp he
  cases hx

/-! ## Threads of monitors -/

/-- The monitors are among some, and so are those that threads were started for. -/
structure Watched (xs : List Monitor) (m : Machine σ) : Prop where
  monitors : ∀ x ∈ m.monitors, x ∈ xs
  threads : ∀ t ∈ m.threads, t.Watched xs

variable {xs : List Monitor}

section

variable (h : m.Watched xs)

include h

/-- Threads may go on and leave. -/
theorem Watched.of_threads (hmonitors : ∀ x ∈ m'.monitors, x ∈ m.monitors)
    (hthreads : ∀ t' ∈ m'.threads, ∃ t ∈ m.threads, t.Same t') : m'.Watched xs where
  monitors x hx := h.monitors x (hmonitors x hx)
  threads t' ht' := by
    obtain ⟨t, ht, hsame⟩ := hthreads t' ht'
    exact (h.threads t ht).of_same hsame

theorem Watched.of_apart (hapart : m.Apart m') : m'.Watched xs :=
  h.of_threads (fun _ hx => hapart.monitors ▸ hx) fun t ht =>
    ⟨t, hapart.threads ▸ ht, Thread.Same.refl t⟩

theorem Watched.onThreads (p : Thread → Bool) : (m.onThreads p Thread.retire).Watched xs := by
  refine h.of_threads (fun _ hx => hx) fun t' ht' => ?_
  obtain ⟨t, ht, rfl⟩ := mem_map.mp ht'
  refine ⟨t, ht, ?_⟩
  split
  · exact ⟨rfl, rfl, rfl, rfl, rfl⟩
  · exact Thread.Same.refl t

theorem Watched.removeTarget (id : TargetId) : (m.removeTarget id).Watched xs := by
  unfold Machine.removeTarget
  split
  · exact h
  · refine Watched.onThreads (h.of_threads (fun x hx => mem_of_mem_filter hx) fun t ht => ?_) _
    exact ⟨t, ht, Thread.Same.refl t⟩

theorem Watched.stopAll : m.stopAll.Watched xs :=
  stopAll_induction (fun _ id hm => hm.removeTarget id) (fun _ hm => hm.onThreads _)
    (h.of_apart .of_rest)

theorem Watched.set (ht : t.Watched xs) (i : Nat) :
    { m with threads := m.threads.set i t }.Watched xs :=
  ⟨h.monitors, fun t' ht' => (mem_or_eq_of_mem_set ht').elim (h.threads t') fun heq => heq ▸ ht⟩

theorem Watched.append (ht : t.Watched xs) : { m with threads := m.threads ++ [t] }.Watched xs := by
  refine ⟨h.monitors, fun t' ht' => ?_⟩
  rcases mem_append.mp ht' with hold | hnew
  · exact h.threads t' hold
  · rw [mem_singleton.mp hnew]
    exact ht

theorem Watched.place (ht : t.Watched xs) (slot : Option Nat) : (m.place slot t).Watched xs := by
  unfold Machine.place
  split
  · split
    · exact h.set ht _
    · exact h.append ht
  · exact h.append ht

end

/-- What was watched is still watched. -/
def StaysWatched (xs : List Monitor) (m m' : Machine σ) : Prop := m.Watched xs → m'.Watched xs

instance : Lasting (StaysWatched xs : Machine σ → Machine σ → Prop) where
  refl _ hm := hm
  trans h h' hm := h' (h hm)

section Starting

variable {kit : Kit σ} {fuel : Nat}
  (hgo : Exec.Keeps (Turn.Along (StaysWatched xs)) (Turn.execute kit fuel))

include hgo

theorem spawn_watched {hasPredicate : Bool} {target : TargetId} {top : BlockId} {r : Option Thread}
    (hm : m.Watched xs)
    (h : spawn kit.toCatalog (Turn.execute kit fuel) hasPredicate target top m = some (r, m')) :
    m'.Watched xs ∧ ∀ t, r = some t → t.Watched xs := by
  obtain ⟨hwatched, hstart⟩ := spawn_started (R := StaysWatched xs)
    (fun hrest hm => hm.of_apart hrest.toApart) (fun _ _ _ hm => hm.of_apart .of_rest)
    (fun _ _ hm => ⟨hm.monitors, hm.threads⟩) hgo h
  refine ⟨hwatched hm, fun t ht => ?_⟩
  obtain ⟨sheet, hsame⟩ := hstart t ht
  have hordinary : (Thread.start m.nextThread target top sheet).Watched xs := fun h => by cases h
  exact hordinary.of_same hsame

theorem startScript_watched (opcode : String) (hat : Hat) (target : TargetId) (top : BlockId) :
    Run.Keeps (StaysWatched xs)
      (startScript kit.toCatalog (Turn.execute kit fuel) opcode hat target top) := by
  intro m r m' h hm
  rcases startScript_cases h with ⟨-, rfl⟩ | ⟨slot, t, m₁, -, hspawn, -, rfl⟩
  · exact hm
  · obtain ⟨hm₁, hnew⟩ := spawn_watched hgo hm hspawn
    cases t with
    | none => exact hm₁
    | some t => exact hm₁.place (hnew t rfl) slot

end Starting

variable {kit : Kit σ}

theorem watched_law : Law kit (StaysWatched xs) where
  toLenient := .of_still fun h hm => hm.of_apart h.toApart
  tell _ _ _ hm := hm.of_apart .of_rest
  stopAll _ hm := hm.stopAll
  stopTarget _ _ _ hm := hm.onThreads _
  removeTarget _ id hm := hm.removeTarget id
  edgeFires m target block value hm := by
    unfold Machine.edgeFires
    split
    · exact hm
    · exact ⟨hm.monitors, hm.threads⟩
  addClone hclone hm := by
    obtain ⟨t, -, -, -, -, rfl⟩ := addClone?_some hclone
    exact ⟨hm.monitors, hm.threads⟩
  startScript _ hgo := startScript_watched hgo

/-- A thread that has its turn is put back as the thread it was. -/
theorem Watched.visit (hm : m.Watched xs) {i : Nat} (h : m.visit kit fuel isFirst i = some m') :
    m'.Watched xs := by
  rcases visit_cases h with ⟨-, rfl⟩ | ⟨t, ht, hcases⟩
  · exact hm
  · have hwake := wake_like isFirst t
    have hwatched := hm.threads t (mem_of_getElem? ht)
    rcases hcases with ⟨-, rfl⟩ | ⟨-, s, hs, rfl⟩
    · exact hm.set (hwatched.of_same hwake) i
    · have hturn := turn_along (R := StaysWatched xs) watched_law.turnRule hs
      have hplaceholder :
          t.Same (wake isFirst t).placeholder := hwake.trans ⟨rfl, rfl, rfl, rfl, rfl⟩
      have hs' : s.machine.Watched xs := hturn.machine (hm.set (hwatched.of_same hplaceholder) i)
      have hback : t.Same s.thread := hwake.trans hturn.thread
      unfold putBack
      split
      · split
        · refine hs'.set (hwatched.of_same ?_) i
          split
          · exact hback.trans ⟨rfl, rfl, rfl, rfl, rfl⟩
          · exact hback.trans ⟨rfl, rfl, rfl, rfl, rfl⟩
        · exact hs'
      · exact hs'

theorem Watched.startMonitor (hm : m.Watched xs) (hx : x ∈ xs) : (m.startMonitor x).Watched xs := by
  unfold Machine.startMonitor newThread?
  dsimp only
  split
  · exact hm
  · cases m.targets[x.target]? with
    | none => exact hm
    | some t =>
      exact Watched.append (m := { m with nextThread := m.nextThread + 1 })
        ⟨hm.monitors, hm.threads⟩ fun _ => ⟨rfl, hx⟩

theorem watched_frameLaw : FrameLaw kit (StaysWatched xs) where
  toLaw := watched_law
  note _ _ _ hm := hm.of_apart .of_rest
  reportLists m hm := hm.of_apart (apart_reportLists m)
  visit h hm := hm.visit h
  takeDone m hm := by
    unfold takeDone
    rw [partition_eq_filter_filter]
    exact hm.of_threads (fun _ hx => hx) fun t ht => ⟨t, mem_of_mem_filter ht, Thread.Same.refl t⟩
  startMonitors m hm := by
    have hfold : ∀ (ys : List Monitor) (m : Machine σ), (∀ y ∈ ys, y ∈ xs) → m.Watched xs →
        (ys.foldl Machine.startMonitor m).Watched xs := by
      intro ys
      induction ys with
      | nil => exact fun m _ hm => hm
      | cons y ys ih =>
        intro m hys hm
        rw [forall_mem_cons] at hys
        exact ih _ hys.2 (hm.startMonitor hys.1)
    exact hfold _ m hm.monitors hm
  clearEdges m hm := ⟨hm.monitors, hm.threads⟩
  toggle m top target hm := by
    unfold toggle newThread?
    dsimp only
    split
    · refine hm.of_threads (fun _ hx => hx) fun t' ht' => ?_
      obtain ⟨j, hj, rfl⟩ := mem_iff_getElem.mp ht'
      rw [getElem_modify]
      refine ⟨_, getElem_mem (by simpa using hj), ?_⟩
      split
      · exact ⟨rfl, rfl, rfl, rfl, rfl⟩
      · exact Thread.Same.refl _
    · cases m.targets[target]? with
      | none => exact hm
      | some t =>
        exact Watched.append (m := { m with nextThread := m.nextThread + 1 })
          ⟨hm.monitors, hm.threads⟩ fun h => by cases h
  pushThread fuel top target m r m' h hm := by
    rcases pushThread_cases h with rfl | ⟨_, t, m₁, hspawn, rfl⟩
    · exact hm
    · obtain ⟨hm₁, hnew⟩ := spawn_watched (Turn.execute_along watched_law.rule fuel) hm hspawn
      cases t with
      | none => exact hm₁
      | some t => exact hm₁.append (hnew t rfl)

/-! ## Frames -/

/-- The threads that a pass takes out of the list. -/
theorem pass_watched {n : Nat} (hm : m.Watched xs)
    (h : pass kit fuel isFirst m = some ((n, done), m')) :
    m'.Watched xs ∧ ∀ t ∈ done, t.Watched xs := by
  have hm' := pass_along (R := StaysWatched xs) watched_frameLaw.passLaw fuel isFirst m _ m' h hm
  refine ⟨hm', fun t ht => ?_⟩
  unfold pass at h
  obtain ⟨_, m₁, hsync, h⟩ := Run.bind_some.mp h
  obtain ⟨running, m₂, hvisits, h⟩ := Run.bind_some.mp h
  obtain ⟨taken, m₃, htake, h⟩ := Run.bind_some.mp h
  obtain ⟨heq, -⟩ := Run.pure_some.mp h
  have hm₁ : m₁.Watched xs := by
    rw [← Run.modify_some.mp hsync]
    exact hm.of_apart (rest_syncClock m).toApart
  have hm₂ : m₂.Watched xs :=
    visitFrom_along (R := StaysWatched xs) watched_frameLaw.passLaw isFirst fuel 0 m₁ _
      m₂ hvisits hm₁
  have htaken : m₂.takeDone = (taken, m₃) := Option.some.inj htake
  have hdone : done = m₂.threads.filter Thread.isDone := by
    have htaken' := congrArg Prod.fst htaken
    unfold takeDone at htaken'
    rw [partition_eq_filter_filter] at htaken'
    exact (congrArg Prod.snd heq).symm.trans htaken'.symm
  rw [hdone] at ht
  exact hm₂.threads t (mem_of_mem_filter ht)

theorem passes_watched {start : Float} : ∀ {running : Nat} {m m' : Machine σ}
    {done : List Thread}, m.Watched xs → passes kit start fuel running m = some (done, m') →
    ∀ t ∈ done, t.Watched xs := by
  induction fuel with
  | zero => intro running m m' done hm h; cases h
  | succ fuel ih =>
    intro running m m' done hm h
    rw [passes] at h
    obtain ⟨goes, m₁, hgoes, h⟩ := Run.bind_some.mp h
    have hcontinues : (m.continues start running).2 = m₁ :=
      congrArg Prod.snd (Option.some.inj hgoes)
    have hm₁ : m₁.Watched xs := hcontinues ▸ hm.of_apart (rest_continues m start running).toApart
    split at h
    · obtain ⟨⟨n, first⟩, m₂, hpass, h⟩ := Run.bind_some.mp h
      obtain ⟨rest, m₃, hrest, h⟩ := Run.bind_some.mp h
      obtain ⟨rfl, -⟩ := Run.pure_some.mp h
      obtain ⟨hm₂, hfirst⟩ := pass_watched hm₁ hpass
      rw [forall_mem_append]
      exact ⟨hfirst, ih hm₂ hrest⟩
    · obtain ⟨rfl, -⟩ := Run.pure_some.mp h
      simp

theorem stepThreads_watched (hm : m.Watched xs) (h : stepThreads kit fuel m = some (done, m')) :
    ∀ t ∈ done, t.Watched xs := by
  unfold stepThreads at h
  obtain ⟨_, m₁, hfirst, h⟩ := Run.bind_some.mp h
  obtain ⟨start, m₂, hsecond, h⟩ := Run.bind_some.mp h
  rw [Run.get_andThen] at h
  have hclock : Run.Keeps (StaysWatched xs) (modifyGet readClock : Run (Machine σ) Float) :=
    Run.keeps_modifyGet fun m hm => hm.of_apart .of_rest
  have hm₂ : m₂.Watched xs := hclock _ _ _ hsecond (hclock.discarded _ _ _ hfirst hm)
  split at h
  · obtain ⟨rfl, -⟩ := Run.pure_some.mp h
    simp
  · obtain ⟨⟨n, first⟩, m₃, hpass, h⟩ := Run.bind_some.mp h
    obtain ⟨rest, m₄, hrest, h⟩ := Run.bind_some.mp h
    obtain ⟨rfl, -⟩ := Run.pure_some.mp h
    obtain ⟨hm₃, hfirst⟩ := pass_watched hm₂ hpass
    rw [forall_mem_append]
    exact ⟨hfirst, passes_watched hm₃ hrest⟩

/-- What was told last of each block is the last thing that was reported for it. -/
structure Heard (xs : List Monitor) (past : List Thread) (m : Machine σ) :
    Prop extends m.Watched xs where
  given : ∀ t ∈ past, t.Watched xs
  last : ∀ block, Stands m.monitorValues[block]? (readingsOf block past).getLast?

theorem Heard.of_untold (h : m.Heard xs past) (hm' : m'.Watched xs) (huntold : m.Untold m') :
    m'.Heard xs past :=
  { hm' with
    given := h.given
    last := fun block => by
      rw [huntold.told]
      exact h.last block }

/-- **A frame tells the changes.** -/
theorem Heard.step (hm : m.Heard xs past) (h : step kit fuel m = some (done, m')) :
    m'.Heard xs (past ++ done) ∧ ∀ block, valuesOf block m'.events =
      valuesOf block m.events ++ changes (readingsOf block past).getLast?
        (readingsOf block done) := by
  have law : FrameLaw kit (StaysWatched xs) := watched_frameLaw
  have untold : DeedLaw kit Untold := untold_law.deedLaw
  have hm' := step_along law fuel m done m' h hm.toWatched
  rw [step_eq] at h
  obtain ⟨_, m₁, hprepare, h⟩ := Run.bind_some.mp h
  obtain ⟨done', m₂, hthreads, h⟩ := Run.bind_some.mp h
  obtain ⟨_, m₃, htell, h⟩ := Run.bind_some.mp h
  obtain ⟨rfl, rfl⟩ := Run.pure_some.mp h
  have hm₁ : m₁.Watched xs :=
    prepare_along law.toLaw law.startMonitors fuel m _ m₁ hprepare hm.toWatched
  have hdone := stepThreads_watched hm₁ hthreads
  have huntold : m.Untold m₂ := Lasting.trans
    (prepare_along untold.toLaw untold.startMonitors fuel m _ m₁ hprepare)
    (stepThreads_along untold.passLaw fuel m₁ _ m₂ hthreads)
  have htold := untold_reportLists (done'.foldl reportValue m₂)
  rw [Run.modify_some.mp htell] at htold
  have hreports (block : BlockId) := reports_changes block
    (fun t ht hmonitor => (hdone t ht hmonitor).1) m₂ (readingsOf block past).getLast?
    (by rw [huntold.told]; exact hm.last block)
  refine ⟨⟨hm', forall_mem_append.mpr ⟨hm.given, hdone⟩, fun block => ?_⟩, fun block => ?_⟩
  · rw [htold.told, readingsOf_append, getLast?_append]
    exact (hreports block).1
  · rw [htold.values, (hreports block).2, huntold.values]

/-- Operations other than frames give no threads away. -/
theorem apply_eq_nil (hop : op ≠ .step) (h : op.apply kit fuel m = some (done, m')) :
    done = [] := by
  cases op with
  | step => exact absurd rfl hop
  | _ =>
    obtain ⟨_, m₁, -, h⟩ := Run.bind_some.mp h
    exact (Run.pure_some.mp h).1.symm

theorem Heard.apply (hm : m.Heard xs past) (h : op.apply kit fuel m = some (done, m')) :
    m'.Heard xs (past ++ done) := by
  by_cases hop : op = .step
  · subst hop
    exact (hm.step h).1
  · rw [apply_eq_nil hop h, append_nil]
    refine hm.of_untold (op.apply_along (R := StaysWatched xs) watched_frameLaw fuel m done m' h
      hm.toWatched) ?_
    exact op.apply_deed untold_law.deedLaw fuel (fun hstep => absurd hstep hop) m done m' h

theorem Heard.play {ops : List (Operation × Nat)} : ∀ {past done : List Thread} {m : Machine σ},
    m.Heard xs past → Machine.play kit ops m = some (done, m') → m'.Heard xs (past ++ done) := by
  induction ops with
  | nil =>
    intro past done m hm h
    obtain ⟨rfl, rfl⟩ := Run.pure_some.mp h
    rwa [append_nil]
  | cons op ops ih =>
    intro past done m hm h
    obtain ⟨first, m₁, hfirst, h⟩ := Run.bind_some.mp h
    obtain ⟨others, m₂, hothers, h⟩ := Run.bind_some.mp h
    obtain ⟨rfl, rfl⟩ := Run.pure_some.mp h
    rw [← append_assoc]
    exact ih (hm.apply hfirst) hothers

/-- Monitors are added to a machine that has no threads. -/
theorem heard_of_install {settings : Settings} {clock : Clock} {host : σ} {project : Project}
    {ids : List TargetId} (h : (Machine.new settings clock host).install? project = some (ids, m))
    (xs : List Monitor) : (xs.foldl addMonitor m).Heard xs [] := by
  have hempty : m.monitors = [] ∧ m.threads = [] ∧ m.monitorValues = ∅ := by
    refine install?_keeps (I := fun m => m.monitors = [] ∧ m.threads = [] ∧ m.monitorValues = ∅)
      (fun m t _ hm => ?_) ⟨rfl, rfl, rfl⟩ h
    unfold addTarget
    dsimp only
    split <;> exact hm
  have hadd : ∀ (ys : List Monitor) (m : Machine σ), (∀ y ∈ ys, y ∈ xs) → m.Heard xs [] →
      (ys.foldl addMonitor m).Heard xs [] := by
    intro ys
    induction ys with
    | nil => exact fun m _ hm => hm
    | cons y ys ih =>
      intro m hys hm
      rw [forall_mem_cons] at hys
      refine ih _ hys.2 ?_
      unfold addMonitor
      split
      · exact hm
      · refine
          { threads := hm.threads, given := hm.given, last := hm.last, monitors := fun x hx => ?_ }
        rcases mem_append.mp hx with hold | hnew
        · exact hm.monitors x hold
        · rw [mem_singleton.mp hnew]
          exact hys.1
  refine hadd xs m (fun _ hy => hy) ⟨⟨?_, ?_⟩, by simp, fun block v => ?_⟩
  · rw [hempty.1]
    simp
  · rw [hempty.2.1]
    simp
  · rw [hempty.2.2]
    rfl

/-- What is reported for a block is reported for its only monitor. -/
theorem readingsOf_eq {ts : List Thread} (hts : ∀ t ∈ ts, t.Watched xs)
    (hx : ∀ y ∈ xs, y.block = x.block → y = x) : readingsOf x.block ts = x.readings ts := by
  unfold readingsOf Monitor.readings
  rw [filterMap_filter, filterMap_filter]
  refine filterMap_congr fun t ht => ?_
  by_cases hmonitor : t.isMonitor = true
  · have hiff : t.top = x.block ↔ t.monitor = x :=
      ⟨fun htop => hx _ (hts t ht hmonitor).2 htop, fun heq => congrArg Monitor.block heq⟩
    simp only [hiff]
  · have hnone : t.reading? = none := if_neg hmonitor
    rw [hnone, ite_self, ite_self]

/-- **Monitors tell changes.** If the monitors have blocks of their own, a frame tells of each of
them the changes in what it reported. So nothing is told in a frame in which all of them report what
they reported last, and a monitor that reports something else is told once. -/
theorem monitors_tell_changes {settings : Settings} {clock : Clock} {host : σ} {project : Project}
    {ids : List TargetId} {m₀ m₁ : Machine σ} {ops : List (Operation × Nat)} {fuel : Nat}
    (hinstall : (Machine.new settings clock host).install? project = some (ids, m₀))
    (hblocks : ∀ x ∈ xs, ∀ y ∈ xs, x.block = y.block → x = y)
    (hplay : Machine.play kit ops (xs.foldl addMonitor m₀) = some (past, m))
    (hstep : Machine.step kit fuel m = some (done, m₁)) :
    (∀ x ∈ xs, valuesOf x.block m₁.events =
      valuesOf x.block m.events ++ changes (x.readings past).getLast? (x.readings done)) ∧
    ((∀ x ∈ xs, ∀ v ∈ x.readings done, ((x.readings past).getLast? == some v) = true) →
      ∀ block, valuesOf block m₁.events = valuesOf block m.events) ∧
    ∀ x ∈ xs, ∀ v, x.readings done = [v] → ((x.readings past).getLast? == some v) = false →
      valuesOf x.block m₁.events = valuesOf x.block m.events ++ [v] := by
  have hheard : m.Heard xs past := (heard_of_install hinstall xs).play hplay
  obtain ⟨hheard₁, hvalues⟩ := hheard.step hstep
  have hdone : ∀ t ∈ done, t.Watched xs := (forall_mem_append.mp hheard₁.given).2
  have hchanges : ∀ x ∈ xs, valuesOf x.block m₁.events =
      valuesOf x.block m.events ++ changes (x.readings past).getLast? (x.readings done) := by
    intro x hx
    have honly : ∀ y ∈ xs, y.block = x.block → y = x := fun y hy => hblocks y hy x hx
    rw [hvalues, readingsOf_eq hheard.given honly, readingsOf_eq hdone honly]
  refine ⟨hchanges, fun hsame block => ?_, fun x hx v hv hnew => ?_⟩
  · by_cases hblock : ∃ x ∈ xs, x.block = block
    · obtain ⟨x, hx, rfl⟩ := hblock
      rw [hchanges x hx]
      have hall := hsame x hx
      cases hlast : (x.readings past).getLast? with
      | none =>
        have hnone : x.readings done = [] := eq_nil_iff_forall_not_mem.mpr fun v hv => by
          have hfalse := hall v hv
          rw [hlast] at hfalse
          cases hfalse
        rw [hnone, changes, append_nil]
      | some before =>
        rw [hlast] at hall
        rw [changes_eq_nil hall, append_nil]
    · have hnone : readingsOf block done = [] := by
        refine filterMap_eq_nil_iff.mpr fun t ht => ?_
        obtain ⟨ht, htop⟩ := mem_filter.mp ht
        exact if_neg fun hmonitor =>
          hblock ⟨t.monitor, (hdone t ht hmonitor).2, of_decide_eq_true htop⟩
      rw [hvalues, hnone, changes, append_nil]
  · rw [hchanges x hx, hv, changes, if_neg (by simp [hnew]), changes]

end Machine

/-- A stage that shows the counter and counts flags, and a sprite that shows a block of its own. -/
def Project.counting : Project where
  targets := [
    .stage (.ofBlocks [
      { id := "count", opcode := "control_get_counter", isTopLevel := true },
      { id := "flag", opcode := "event_whenflagclicked", isTopLevel := true, next := some "incr" },
      { id := "incr", opcode := "control_incr_counter" }]),
    { name := "Cat", isStage := false, sheet := .ofBlocks [
      { id := "not", opcode := "operator_not", isTopLevel := true }] }]

/-- The monitors of the stage and of the sprite. -/
def Monitor.counting : List Monitor := [⟨"count", 0⟩, ⟨"not", 1⟩]

/-- Nothing is told in the second frame, and the new value of the counter once the flag was
clicked. -/
theorem counting_tells_changes :
    ∃ (ids : List TargetId) (m₀ m m₁ m₂ m₃ : Machine Unit) (past done past₂ done₂ : List Thread)
      (v : Value),
      (Machine.new {} { tick := 5.0 } ()).install? .counting = some (ids, m₀) ∧
      Machine.play { Library.core with } [(.step, 60)] (Monitor.counting.foldl .addMonitor m₀) =
        some (past, m) ∧
      Machine.step { Library.core with } 60 m = some (done, m₁) ∧
      (Monitor.counting.map fun x => (x.readings done).length) = [1, 1] ∧
      (∀ block, valuesOf block m₁.events = valuesOf block m.events) ∧
      Machine.play { Library.core with } [(.step, 60), (.step, 60), (.greenFlag, 60)]
        (Monitor.counting.foldl .addMonitor m₀) = some (past₂, m₂) ∧
      Machine.step { Library.core with } 60 m₂ = some (done₂, m₃) ∧
      (v == .number 1.0) = true ∧ valuesOf "count" m₃.events = valuesOf "count" m₂.events ++
        [v] := by
  have hrun : (((Machine.new {} { tick := 5.0 } ()).install? .counting).bind fun x =>
      (Machine.play { Library.core with } [(.step, 60)]
        (Monitor.counting.foldl .addMonitor x.2)).bind fun y =>
        (Machine.step { Library.core with } 60 y.2).bind fun z =>
          (Machine.play { Library.core with } [(.step, 60), (.step, 60), (.greenFlag, 60)]
            (Monitor.counting.foldl .addMonitor x.2)).bind fun y₂ =>
              (Machine.step { Library.core with } 60 y₂.2).map fun z₂ =>
                (Monitor.counting.map fun w => (w.readings z.1).length,
                  Monitor.counting.all fun w =>
                    (w.readings z.1).all fun v => (w.readings y.1).getLast? == some v,
                  Monitor.readings ⟨"count", 0⟩ z₂.1 == [.number 1.0],
                  (Monitor.readings ⟨"count", 0⟩ z₂.1).all fun v =>
                    (Monitor.readings ⟨"count", 0⟩ y₂.1).getLast? != some v)) =
      some ([1, 1], true, true, true) := by decide +kernel
  obtain ⟨⟨ids, m₀⟩, hinstall, hrun⟩ := Option.bind_eq_some_iff.mp hrun
  obtain ⟨⟨past, m⟩, hplay, hrun⟩ := Option.bind_eq_some_iff.mp hrun
  obtain ⟨⟨done, m₁⟩, hstep, hrun⟩ := Option.bind_eq_some_iff.mp hrun
  obtain ⟨⟨past₂, m₂⟩, hplay₂, hrun⟩ := Option.bind_eq_some_iff.mp hrun
  obtain ⟨⟨done₂, m₃⟩, hstep₂, hrun⟩ := Option.map_eq_some_iff.mp hrun
  simp only [Prod.mk.injEq] at hrun
  obtain ⟨hlengths, hsame, hnew, hlast⟩ := hrun
  have hblocks : ∀ x ∈ Monitor.counting, ∀ y ∈ Monitor.counting, x.block = y.block → x = y := by
    decide
  obtain ⟨-, hquiet, -⟩ := Machine.monitors_tell_changes hinstall hblocks hplay hstep
  obtain ⟨-, -, honce⟩ := Machine.monitors_tell_changes hinstall hblocks hplay₂ hstep₂
  obtain ⟨v, hv, hvalue⟩ : ∃ v, Monitor.readings ⟨"count", 0⟩ done₂ = [v] ∧
      (v == .number 1.0) = true := by
    match h : Monitor.readings ⟨"count", 0⟩ done₂ with
    | [] =>
      rw [h] at hnew
      cases hnew
    | [v] =>
      rw [h] at hnew
      exact ⟨v, rfl, (Bool.and_eq_true _ _ ▸ hnew).1⟩
    | v :: w :: rest =>
      rw [h] at hnew
      cases (Bool.and_eq_true _ _ ▸ hnew).2
  refine ⟨ids, m₀, m, m₁, m₂, m₃, past, done, past₂, done₂, v, hinstall, hplay, hstep,
    hlengths, hquiet ?_, hplay₂, hstep₂, hvalue, honce ⟨"count", 0⟩ (by decide) v hv ?_⟩
  · simpa only [all_eq_true] using hsame
  · rw [hv] at hlast
    simpa [bne] using hlast

/-- A stage and a sprite with reporters of the same id. -/
def Project.twins : Project where
  targets := [
    (Target.stage (.ofBlocks [
      { id := "show", opcode := "data_variable", isTopLevel := true,
        fields := Table.of [("VARIABLE", { value := .text "v", id := some "v" })] }])).addVariable
      (.scalar "v" "v" (.number 1.0)),
    ({ name := "Cat", isStage := false, sheet := .ofBlocks [
      { id := "show", opcode := "data_variable", isTopLevel := true,
        fields := Table.of [("VARIABLE", { value := .text "w", id := some "w" })] }] } :
          Target).addVariable
      (.scalar "w" "w" (.number 2.0))]

/-- Monitors of both of them. -/
def Monitor.twins : List Monitor := [⟨"show", 0⟩, ⟨"show", 1⟩]

/-- Both monitors are told again in the second frame, although they report what they reported
before. -/
theorem Machine.twins_tell_again :
    ∃ (ids : List TargetId) (m₀ m m₁ : Machine Unit) (past done : List Thread),
      (Machine.new { compilerEnabled := false } { tick := 5.0 } ()).install? .twins =
        some (ids, m₀) ∧
      Machine.play { Library.core with } [(.step, 60)] (Monitor.twins.foldl .addMonitor m₀) =
        some (past, m) ∧
      Machine.step { Library.core with } 60 m = some (done, m₁) ∧
      ((Monitor.twins.map fun x => (x.readings past, x.readings done)) ==
        [([.number 1.0], [.number 1.0]), ([.number 2.0], [.number 2.0])]) = true ∧
      (valuesOf "show" m.events == [.number 1.0, .number 2.0]) = true ∧
      (valuesOf "show" m₁.events == [.number 1.0, .number 2.0, .number 1.0, .number 2.0]) =
        true := by
  have hrun : (((Machine.new { compilerEnabled := false } { tick := 5.0 } ()).install? .twins).bind
    fun x =>
      (Machine.play { Library.core with } [(.step, 60)] (Monitor.twins.foldl .addMonitor x.2)).bind
        fun y =>
        (Machine.step { Library.core with } 60 y.2).map fun z =>
          ((Monitor.twins.map fun w => (w.readings y.1, w.readings z.1)) ==
            [([.number 1.0], [.number 1.0]), ([.number 2.0], [.number 2.0])],
            valuesOf "show" y.2.events == [.number 1.0, .number 2.0],
            valuesOf "show" z.2.events == [.number 1.0, .number 2.0, .number 1.0, .number 2.0])) =
      some (true, true, true) := by decide +kernel
  obtain ⟨⟨ids, m₀⟩, hinstall, hrun⟩ := Option.bind_eq_some_iff.mp hrun
  obtain ⟨⟨past, m⟩, hplay, hrun⟩ := Option.bind_eq_some_iff.mp hrun
  obtain ⟨⟨done, m₁⟩, hstep, hrun⟩ := Option.map_eq_some_iff.mp hrun
  simp only [Prod.mk.injEq] at hrun
  obtain ⟨hreadings, hbefore, hafter⟩ := hrun
  exact ⟨ids, m₀, m, m₁, past, done, hinstall, hplay, hstep, hreadings, hbefore, hafter⟩

end BlockMachine

import BlockMachine.Proofs.Machine.Lifetimes

/-!
# The passes of a frame

A frame makes passes over the list of threads. A pass is a walk through the places of the list, also
those that are added on the way, and each place is visited once (`Walk`); the threads that are done
are taken out after it, and the next pass walks through those that are left (`Passes`). Every frame
is made of such passes (`Machine.stepThreads_passes`). Threads keep their places in a pass, so none
is visited twice (`Walk.nodup`), and a thread that sleeps until the next frame has no further turn
in this one (`Passes.asleep`).

The module is about `Machine.step`, `Machine.stepThreads` and `Machine.pass`.

## Results

* `Walk.nodup`: one pass visits no thread twice.
* `Machine.stepThreads_passes`: a frame is made of passes.
* `frame_gives_turns_in_order`: which threads have turns in a frame, and in which order.
* `delayed_makes_no_pass`: a frame in which a redraw was requested before the first pass.

Left out is how many passes fit in a frame, which depends on the clock.
-/

namespace BlockMachine

open List Option

variable {σ : Type} {kit : Kit σ} {s : Turn σ} {isFirst : Bool} {t : Thread} {fuel : Nat}

/-- Whether a thread is due for a turn when it is visited: it is not done, and it can go on, or
sleeps and the frame has just begun, or waits for a promise that is settled. -/
def Machine.isDue (m : Machine σ) (isFirst : Bool) (t : Thread) : Bool :=
  !t.isDone &&
    match t.status with
    | .running | .yield => true
    | .yieldTick => isFirst
    | .promiseWait => t.pending.any fun p => m.promises[p.promise]?.any Promise.isSettled
    | .done => false

/-- A thread after a visit without a turn: one that sleeps is awake at the beginning of a frame, and
one that waits goes on waiting. -/
def Thread.passedOver (isFirst : Bool) (t : Thread) : Thread :=
  if t.status == .promiseWait && !t.isDone then
    { (if t.pending.isNone then { t with status := .running } else t) with warpStart := none }
  else Machine.wake isFirst t

theorem Thread.passedOver_of_waiting (hstatus : t.status = .promiseWait)
    (halive : t.isDone = false) :
    t.passedOver isFirst =
      { (if t.pending.isNone then { t with status := .running } else t) with warpStart := none } :=
  if_pos (by simp [hstatus, halive])

/-- The visit of a place. -/
structure Visit (σ : Type) where
  place : Nat
  /-- The machine when the place is visited. -/
  before : Machine σ
  /-- The thread that is found there. -/
  thread : Thread
  /-- The end of the turn that it is given, if any. -/
  turn : Option (Turn σ)
  after : Machine σ

/-- The thread in the place has a turn if it is due, and is put back after it; else it is passed
over. -/
structure Visit.Made (kit : Kit σ) (isFirst : Bool) (v : Visit σ) : Prop where
  thread : v.before.threads[v.place]? = some v.thread
  due : v.turn.isSome = v.before.isDue isFirst v.thread
  turn : ∀ s, v.turn = some s →
    (∃ fuel, v.before.turn kit fuel v.place (Machine.wake isFirst v.thread) = some s) ∧
      v.after = s.machine.putBack v.place { s.thread with warpStart := none }
  rest : v.turn = none → v.after = { v.before with
    threads := v.before.threads.set v.place (v.thread.passedOver isFirst) }

/-- The visits of the places from the `i`th on, each while it is there. -/
inductive Walk (kit : Kit σ) (isFirst : Bool) : Nat → Machine σ → List (Visit σ) → Machine σ → Prop
  | nil {i : Nat} {m : Machine σ} (h : m.threads.length ≤ i) : Walk kit isFirst i m [] m
  | cons {v : Visit σ} {visits : List (Visit σ)} {m' : Machine σ} (h : v.Made kit isFirst)
      (hrest : Walk kit isFirst (v.place + 1) v.after visits m') :
      Walk kit isFirst v.place v.before (v :: visits) m'

/-- A pass over the threads. -/
structure Pass (σ : Type) where
  first : Machine σ
  visits : List (Visit σ)
  /-- The machine after the visits, the threads that are done still in the list. -/
  last : Machine σ

/-- The threads that a pass takes out of the list. -/
def Pass.done (p : Pass σ) : List Thread := p.last.threads.filter Thread.isDone

/-- The threads that are left in the list. -/
def Pass.alive (p : Pass σ) : List Thread := p.last.threads.filter (!·.isDone)

/-- The passes of a frame, one after the other. Only the clock goes on between them. -/
inductive Passes (kit : Kit σ) : Bool → Machine σ → List (Pass σ) → Machine σ → Prop
  | nil {isFirst : Bool} {m m' : Machine σ} (h : m.Apart m') : Passes kit isFirst m [] m'
  | cons {isFirst : Bool} {m m' : Machine σ} {p : Pass σ} {passes : List (Pass σ)}
      (h : m.Apart p.first) (hwalk : Walk kit isFirst 0 p.first p.visits p.last)
      (hrest : Passes kit false { p.last with threads := p.alive } passes m') :
      Passes kit isFirst m (p :: passes) m'

/-! ## Visits -/

namespace Machine

variable {m m' : Machine σ} {isFirst : Bool} {i fuel : Nat} {t : Thread} {id : ThreadId}

theorem wake_status (t : Thread) : (wake isFirst t).status =
    if t.status = .yieldTick ∧ isFirst = true then .running else t.status := by
  unfold wake
  by_cases h : t.status = .yieldTick ∧ isFirst = true
  · simp [h]
  · rw [if_neg (by simpa using h), if_neg h]

/-- A thread that is due has a turn. -/
theorem hasTurn_of_isDue (h : m.isDue isFirst t) : hasTurn (wake isFirst t) := by
  unfold isDue at h
  unfold hasTurn
  rw [wake_status, (wake_same isFirst t).2.2.2]
  cases hstatus : t.status <;> simp_all

/-- A thread that is not due has a turn only if it waits for a promise. -/
theorem status_of_not_isDue (hdue : m.isDue isFirst t = false) (h : hasTurn (wake isFirst t)) :
    wake isFirst t = t ∧ t.status = .promiseWait ∧ t.isDone = false ∧
      ∀ p, t.pending = some p → m.promises[p.promise]?.any Promise.isSettled = false := by
  unfold isDue at hdue
  unfold hasTurn at h
  rw [wake_status, (wake_same isFirst t).2.2.2] at h
  unfold wake
  cases hstatus : t.status
  case promiseWait =>
    rw [hstatus] at hdue h
    have halive : t.isDone = false := by simpa using h
    rw [halive] at hdue
    refine ⟨rfl, rfl, halive, fun p hp => ?_⟩
    rw [hp] at hdue
    exact hdue
  all_goals simp_all

/-- Nothing happens to a thread while its promise is pending. -/
theorem turn_waiting (hstatus : t.status = .promiseWait)
    (hpending : ∀ p, t.pending = some p → m.promises[p.promise]?.any Promise.isSettled = false)
    (h : m.turn kit fuel i t = some s) : s = ⟨{ m with threads := m.threads.set i t.placeholder },
      if t.pending.isNone then { t with status := .running } else t⟩ := by
  unfold turn at h
  rw [hstatus] at h
  replace h : Turn.await kit fuel ⟨_, t⟩ = some s := h
  unfold Turn.await at h
  dsimp only at h
  cases hp : t.pending with
  | none =>
    rw [hp] at h
    cases h
    rfl
  | some p =>
    have hunsettled := hpending p hp
    rw [hp] at h
    dsimp only at h
    cases hpromise : m.promises[p.promise]? with
    | none =>
      rw [hpromise] at h
      cases h
      rfl
    | some promise =>
      rw [hpromise] at h hunsettled
      cases promise with
      | pending =>
        cases h
        rfl
      | resolved v => cases hunsettled
      | rejected reason => cases hunsettled

/-- A thread that was not stopped is put back in its place. -/
theorem putBack_placeholder {back : Thread} (hlt : i < m.threads.length) (hid : back.id = t.id)
    (hstatus : t.status ≠ .done) :
    { m with threads := m.threads.set i t.placeholder }.putBack i back =
      { m with threads := m.threads.set i back } := by
  have hdone : (t.placeholder.status == .done) = false := beq_eq_false_iff_ne.mpr hstatus
  unfold putBack
  dsimp only
  rw [getElem?_set_self hlt]
  dsimp only
  rw [if_pos (beq_iff_eq.mpr (show t.placeholder.id = back.id from hid.symm)), hdone, set_set]
  rfl

/-- A place that is there is visited as it should be. -/
theorem visit_made (hlt : i < m.threads.length) (h : m.visit kit fuel isFirst i = some m') :
    ∃ v : Visit σ, v.Made kit isFirst ∧ v.place = i ∧ v.before = m ∧ v.after = m' := by
  rcases visit_cases h with ⟨ht, -⟩ | ⟨t, ht, ⟨hturn, rfl⟩ | ⟨hturn, s, hs, rfl⟩⟩
  · exact absurd ht (getElem?_eq_getElem hlt ▸ some_ne_none _)
  · have hdue : m.isDue isFirst t = false := by
      rw [← Bool.not_eq_true]
      exact fun hdue => Bool.false_ne_true (hturn.symm.trans (hasTurn_of_isDue hdue))
    refine ⟨⟨i, m, t, none, _⟩, ⟨ht, hdue.symm, fun _ hsome => (by cases hsome), fun _ => ?_⟩, rfl,
      rfl, rfl⟩
    have hpassed : t.passedOver isFirst = wake isFirst t := by
      refine if_neg fun hwaits => Bool.false_ne_true (hturn.symm.trans ?_)
      obtain ⟨hstatus, halive⟩ := Bool.and_eq_true_iff.mp hwaits
      unfold hasTurn
      rw [wake_status, (wake_same isFirst t).2.2.2]
      simp_all
    rw [hpassed]
  · by_cases hdue : m.isDue isFirst t = true
    · refine ⟨⟨i, m, t, some s, _⟩, ⟨ht, hdue.symm, ?_, fun hnone => by cases hnone⟩, rfl, rfl, rfl⟩
      rintro _ ⟨⟩
      exact ⟨⟨fuel, hs⟩, rfl⟩
    · -- It waits for a promise, and is put back as it was.
      rw [Bool.not_eq_true] at hdue
      obtain ⟨hwake, hstatus, halive, hpending⟩ := status_of_not_isDue hdue hturn
      rw [hwake] at hs
      obtain rfl := turn_waiting hstatus hpending hs
      refine ⟨⟨i, m, t, none, _⟩, ⟨ht, hdue.symm, fun _ hsome => (by cases hsome), fun _ => ?_⟩,
        rfl, rfl, rfl⟩
      rw [Thread.passedOver_of_waiting hstatus halive]
      exact putBack_placeholder hlt (by split <;> rfl) (by simp [hstatus])

end Machine

theorem Thread.passedOver_same (isFirst : Bool) (t : Thread) :
    (t.passedOver isFirst).id = t.id ∧ (t.passedOver isFirst).target = t.target ∧
      (t.passedOver isFirst).top = t.top ∧ (t.passedOver isFirst).isDone = t.isDone := by
  by_cases hwaits : t.status = .promiseWait ∧ t.isDone = false
  · obtain ⟨hstatus, halive⟩ := hwaits
    rw [passedOver_of_waiting hstatus halive]
    unfold Thread.isDone
    rw [hstatus]
    split
    · exact ⟨rfl, rfl, rfl, rfl⟩
    · exact ⟨rfl, rfl, rfl, by rw [hstatus]⟩
  · rw [passedOver, if_neg (by simpa using hwaits)]
    exact Machine.wake_same isFirst t

namespace Visit.Made

variable {isFirst : Bool} {v : Visit σ}

section

variable (h : v.Made kit isFirst)

include h

/-- A thread that has a turn is not done. -/
theorem alive (hs : v.turn = some s) : v.thread.isDone = false := by
  have hdue := h.due
  rw [hs] at hdue
  unfold Machine.isDue at hdue
  simpa using (Bool.and_eq_true_iff.mp hdue.symm).1

/-- The turn of a visit is a moment in the life of its thread. -/
theorem happens (hs : v.turn = some s) :
    v.before.Proceeds v.after ∧
      (v.before.Tidy → s.Over v.thread.id v.place → v.after.Dead v.thread.id) := by
  obtain ⟨⟨fuel, hturn⟩, hafter⟩ := h.turn s hs
  obtain ⟨hid, htarget, htop, -⟩ := Machine.wake_same isFirst v.thread
  rw [hafter]
  exact (Machine.turn_happens h.thread (h.alive hs) hid htarget htop hturn).of_turn

/-- All threads keep their places in a visit. -/
theorem proceeds : v.before.Proceeds v.after := by
  cases hturn : v.turn with
  | some s => exact (h.happens hturn).1
  | none =>
    rw [h.rest hturn]
    obtain ⟨hid, htarget, htop, hdone⟩ := Thread.passedOver_same isFirst v.thread
    exact Machine.proceeds_set h.thread ⟨.inl ⟨hid, fun hd => hdone ▸ hd⟩, htarget, htop⟩ hid

theorem lt_length : v.place < v.before.threads.length :=
  (List.getElem?_eq_some_iff.mp h.thread).1

end

end Visit.Made

/-! ## Walks -/

theorem Machine.Proceeds.length_le {m m' : Machine σ} (h : m.Proceeds m') :
    m.threads.length ≤ m'.threads.length := by
  by_contra hlt
  obtain ⟨t', ht', -⟩ := h.slots m'.threads.length _ (getElem?_eq_getElem (Nat.not_le.mp hlt))
  simp at ht'

namespace Walk

variable {isFirst : Bool} {i : Nat} {m m' : Machine σ} {visits : List (Visit σ)}

section

variable (h : Walk kit isFirst i m visits m')

include h

theorem proceeds : m.Proceeds m' := by
  induction h with
  | nil _ => exact Lasting.refl _
  | cons hmade _ ih => exact Lasting.trans hmade.proceeds ih

/-- The places are visited in order, up to the end of the list as it is then. -/
theorem places (hi : i ≤ m.threads.length) :
    visits.map Visit.place = range' i visits.length ∧
      i + visits.length = m'.threads.length := by
  induction h with
  | nil hle => exact ⟨rfl, Nat.le_antisymm hi hle⟩
  | @cons v visits m' hmade hrest ih =>
    obtain ⟨hplaces, hlength⟩ :=
      ih (Nat.le_trans hmade.lt_length hmade.proceeds.length_le)
    refine ⟨?_, by rw [length_cons]; omega⟩
    rw [map_cons, hplaces, length_cons, range'_succ]

theorem made : ∀ v ∈ visits, v.Made kit isFirst := by
  induction h with
  | nil _ => simp
  | cons hmade _ ih => exact forall_mem_cons.mpr ⟨hmade, ih⟩

/-- Later visits find the threads in the same places, or new ones. -/
theorem reaches : ∀ v ∈ visits, m.Proceeds v.before ∧ i ≤ v.place := by
  induction h with
  | nil _ => simp
  | cons hmade _ ih =>
    refine forall_mem_cons.mpr ⟨⟨Lasting.refl _, Nat.le_refl _⟩, fun w hw => ?_⟩
    obtain ⟨hproceeds, hplace⟩ := ih w hw
    exact ⟨Lasting.trans hmade.proceeds hproceeds, Nat.le_of_succ_le hplace⟩

/-- No thread is visited twice. -/
theorem nodup (hm : m.Tidy) : (visits.map (·.thread.id)).Nodup := by
  induction h with
  | nil _ => exact nodup_nil
  | @cons v visits m' hmade hrest ih =>
    refine nodup_cons.mpr ⟨fun hmem => ?_, ih (hmade.proceeds.tidy hm)⟩
    obtain ⟨w, hw, hid⟩ := mem_map.mp hmem
    obtain ⟨hproceeds, hplace⟩ := hrest.reaches w hw
    -- The thread would have been in the later place already, besides its own.
    have hgiven : w.thread.id < v.before.nextThread :=
      hid ▸ hm.given v.thread (mem_of_getElem? hmade.thread)
    obtain ⟨t, ht, hsame, -⟩ :=
      (Lasting.trans hmade.proceeds hproceeds).origin (hrest.made w hw).thread hgiven
    have heq := hm.unique ht hmade.thread (hsame.symm.trans hid)
    omega

end

end Walk

/-! ## Sleeping threads -/

namespace Machine

variable {m m' : Machine σ} {id : ThreadId}

/-- The id has been given out, and a thread in the list that has it sleeps or is done. -/
def Asleep (m : Machine σ) (id : ThreadId) : Prop :=
  id < m.nextThread ∧ ∀ t ∈ m.threads, t.id = id → t.status = .yieldTick ∨ t.isDone

theorem Evolves.asleep (h : m.Evolves m') (hm : m.Asleep id) : m'.Asleep id := by
  refine ⟨Nat.lt_of_lt_of_le hm.1 h.next, fun t' ht' hid => ?_⟩
  obtain ⟨i, hi⟩ := mem_iff_getElem?.mp ht'
  obtain ⟨t, ht, hb, hsame⟩ := h.old hi (hid ▸ hm.1)
  have hbefore := hm.2 t (mem_of_getElem? ht) (hsame.symm.trans hid)
  cases hb with
  | same => exact hbefore
  | retired => exact .inr rfl
  | replaced hnew _ _ => exact absurd hm.1 (Nat.not_lt.mpr (hid ▸ hnew))

theorem Apart.asleep (h : m.Apart m') (hm : m.Asleep id) : m'.Asleep id :=
  h.evolves.asleep hm

/-- The other threads do not matter. -/
theorem Asleep.set (hm : m.Asleep id) {i : Nat}
    (ht : t.id = id → t.status = .yieldTick ∨ t.isDone) :
    { m with threads := m.threads.set i t }.Asleep id := by
  refine ⟨hm.1, fun t' ht' hid => ?_⟩
  rcases mem_or_eq_of_mem_set ht' with hmem | rfl
  · exact hm.2 t' hmem hid
  · exact ht hid

theorem Dead.asleep (hm : m.Dead id) : m.Asleep id :=
  ⟨hm.1, fun t ht hid => .inr (hm.2 t ht hid)⟩

theorem Asleep.not_isDue (hm : m.Asleep id) (ht : t ∈ m.threads) (hid : t.id = id) :
    m.isDue false t = false := by
  unfold isDue
  rcases hm.2 t ht hid with hstatus | hdone
  · simp [hstatus]
  · simp [hdone]

end Machine

namespace Visit.Made

variable {isFirst : Bool} {v : Visit σ} {id : ThreadId}

/-- After the first pass no turn is given to a thread that sleeps. -/
theorem turn_eq_none (h : v.Made kit false) (hasleep : v.before.Asleep v.thread.id) :
    v.turn = none := by
  have hdue := h.due
  rw [hasleep.not_isDue (mem_of_getElem? h.thread) rfl] at hdue
  simpa using hdue

/-- A thread that sleeps is not woken by a visit of another one, or after the first pass. -/
theorem asleep (h : v.Made kit isFirst) (hasleep : v.before.Asleep id)
    (hfirst : isFirst = true → v.thread.id ≠ id) : v.after.Asleep id := by
  cases hturn : v.turn with
  | none =>
    rw [h.rest hturn]
    refine hasleep.set fun hid => ?_
    rw [(Thread.passedOver_same isFirst v.thread).1] at hid
    cases isFirst with
    | true => exact absurd hid (hfirst rfl)
    | false =>
      have hstatus := hasleep.2 v.thread (mem_of_getElem? h.thread) hid
      refine hstatus.imp (fun hstatus => ?_) fun hdone => ?_
      · simp [Thread.passedOver, Machine.wake, hstatus]
      · rw [(Thread.passedOver_same false v.thread).2.2.2]
        exact hdone
  | some s =>
    obtain ⟨⟨fuel, hs⟩, hafter⟩ := h.turn s hturn
    -- The thread that has its turn is another one, also in the first pass.
    have hother : v.thread.id ≠ id := by
      cases isFirst with
      | true => exact hfirst rfl
      | false =>
        rintro rfl
        rw [h.turn_eq_none hasleep] at hturn
        cases hturn
    have hevolves := Machine.turn_evolves hs
    have hid : (Machine.wake isFirst v.thread).id = v.thread.id := (Machine.wake_same isFirst _).1
    have hplaceholder :=
      hasleep.set (i := v.place) (t := (Machine.wake isFirst v.thread).placeholder)
      fun heq => absurd (hid.symm.trans heq) hother
    have hmachine := hevolves.machine.asleep hplaceholder
    obtain ⟨slot, hslot, -⟩ := Machine.turn_slot h.lt_length hs
    rw [hafter]
    rcases Machine.putBack_eq hslot { s.thread with warpStart := none } with ⟨-, heq⟩ | ⟨-, heq⟩
    · rw [heq]
      refine hmachine.set fun heq => absurd ?_ hother
      have hback : s.thread.id = id := by
        revert heq
        split <;> exact fun heq => heq
      exact hid.symm.trans (hevolves.thread.id.symm.trans hback)
    · rw [heq]
      exact hmachine

/-- A thread that went to sleep in its turn sleeps after it, unless it was stopped or replaced. -/
theorem falls_asleep (h : v.Made kit isFirst) (hm : v.before.Tidy) (hs : v.turn = some s)
    (hstatus : s.thread.status = .yieldTick) : v.after.Asleep v.thread.id := by
  obtain ⟨⟨fuel, hturn⟩, hafter⟩ := h.turn s hs
  obtain ⟨hproceeds, hover⟩ := h.happens hs
  by_cases hend : s.Over v.thread.id v.place
  · exact (hover hm hend).asleep
  · have hid := (Machine.wake_same isFirst v.thread).1
    obtain ⟨slot, hslot, -⟩ := Machine.turn_slot h.lt_length hturn
    have hevolves := Machine.turn_evolves hturn
    have hback : s.thread.id = v.thread.id := hevolves.thread.id.trans hid
    have hslotId : slot.id = v.thread.id := by
      by_contra hne
      exact hend (.inr ⟨slot, hslot, .inl hne⟩)
    have hslotStatus : slot.status ≠ .done := fun hdone =>
      hend (.inr ⟨slot, hslot, .inr hdone⟩)
    have hput : v.after = { s.machine with
        threads := s.machine.threads.set v.place { s.thread with warpStart := none } } := by
      rw [hafter]
      rcases Machine.putBack_eq hslot { s.thread with warpStart := none } with ⟨-, heq⟩ | ⟨hne, -⟩
      · rw [heq, if_neg fun hdone => hslotStatus (beq_iff_eq.mp hdone)]
      · exact absurd (hslotId.trans hback.symm) hne
    have hafterTidy := hproceeds.tidy hm
    have hmem : { s.thread with warpStart := none } ∈ v.after.threads := by
      rw [hput]
      exact mem_of_getElem?
        (getElem?_set_self (List.getElem?_eq_some_iff.mp hslot).1)
    refine ⟨Nat.lt_of_lt_of_le (hm.given _ (mem_of_getElem? h.thread)) hproceeds.next,
      fun t ht heq => .inl ?_⟩
    rw [hafterTidy.eq_of_id ht hmem (heq.trans hback.symm)]
    exact hstatus

end Visit.Made

namespace Walk

variable {isFirst : Bool} {i : Nat} {m m' : Machine σ} {visits : List (Visit σ)} {id : ThreadId}

/-- A thread that sleeps is not woken in a walk, unless it is visited in the first pass. -/
theorem asleep (h : Walk kit isFirst i m visits m') (hasleep : m.Asleep id)
    (hfirst : isFirst = true → ∀ v ∈ visits, v.thread.id ≠ id) :
    m'.Asleep id ∧ (isFirst = false → ∀ v ∈ visits, v.thread.id = id → v.turn = none) := by
  induction h with
  | nil _ => exact ⟨hasleep, by simp⟩
  | cons hmade _ ih =>
    have hafter := hmade.asleep hasleep fun htrue => hfirst htrue _ mem_cons_self
    obtain ⟨hlast, hrest⟩ := ih hafter fun htrue v hv => hfirst htrue v (mem_cons_of_mem _ hv)
    refine ⟨hlast, fun hfalse => forall_mem_cons.mpr ⟨fun hid => ?_, hrest hfalse⟩⟩
    subst hfalse hid
    exact hmade.turn_eq_none hasleep

/-- A thread that goes to sleep in a walk sleeps at its end. -/
theorem falls_asleep (h : Walk kit isFirst i m visits m') (hm : m.Tidy) {v : Visit σ}
    (hv : v ∈ visits) (hs : v.turn = some s) (hstatus : s.thread.status = .yieldTick) :
    m'.Asleep v.thread.id := by
  induction h with
  | nil _ => cases hv
  | @cons w visits m' hmade hrest ih =>
    rcases mem_cons.mp hv with rfl | hv
    · refine (hrest.asleep (hmade.falls_asleep hm hs hstatus) fun _ w hw hid => ?_).1
      have hnodup := (Walk.cons hmade hrest).nodup hm
      exact (nodup_cons.mp hnodup).1 (mem_map.mpr ⟨w, hw, hid⟩)
    · exact ih (hmade.proceeds.tidy hm) hv

end Walk

/-! ## Passes -/

theorem Machine.Tidy.sublist {m : Machine σ} (h : m.Tidy) {threads : List Thread}
    (hthreads : threads.Sublist m.threads) : { m with threads }.Tidy :=
  ⟨h.nodup.sublist (hthreads.map _), fun t ht => h.given t (hthreads.subset ht)⟩

theorem Pass.alive_sublist (p : Pass σ) : p.alive.Sublist p.last.threads :=
  filter_sublist

namespace Passes

variable {isFirst : Bool} {m m' : Machine σ} {passes : List (Pass σ)} {id : ThreadId}

theorem walks (h : Passes kit isFirst m passes m') : ∀ (k : Nat) (p : Pass σ), passes[k]? = some p →
    Walk kit (isFirst && k == 0) 0 p.first p.visits p.last := by
  induction h with
  | nil _ => simp
  | cons _ hwalk _ ih =>
    intro k p hp
    cases k with
    | zero =>
      cases hp
      simpa using hwalk
    | succ k => simpa using ih k p hp

theorem tidy (h : Passes kit isFirst m passes m') (hm : m.Tidy) : ∀ p ∈ passes, p.first.Tidy := by
  induction h with
  | nil _ => simp
  | @cons _ _ _ p _ hapart hwalk _ ih =>
    have hfirst := hapart.evolves.tidy hm
    exact forall_mem_cons.mpr
      ⟨hfirst, ih ((hwalk.proceeds.tidy hfirst).sublist p.alive_sublist)⟩

/-- The next pass has the threads that are left, in their order, and so has the end. -/
theorem alive (h : Passes kit isFirst m passes m') :
    (∀ p, passes.head? = some p → p.first.threads = m.threads) ∧
      passes.IsChain (fun p q => q.first.threads = p.alive) ∧
      m'.threads = (passes.getLast?.map Pass.alive).getD m.threads := by
  induction h with
  | nil hapart => exact ⟨by simp, .nil, hapart.threads⟩
  | @cons _ _ _ p passes hapart hwalk _ ih =>
    obtain ⟨hhead, hchain, hlast⟩ := ih
    refine ⟨?_, ?_, ?_⟩
    · rintro _ ⟨⟩
      exact hapart.threads
    · cases passes with
      | nil => exact .singleton _
      | cons q passes => exact .cons_cons (hhead q rfl) hchain
    · rw [hlast]
      cases passes with
      | nil => rfl
      | cons q passes =>
        rw [getLast?_cons_cons, getLast?_cons]
        rfl

/-- After the first pass, what sleeps has no turn. -/
theorem asleep (h : Passes kit false m passes m') (hasleep : m.Asleep id) :
    ∀ v ∈ passes.flatMap Pass.visits, v.thread.id = id → v.turn = none := by
  generalize hfirst : false = isFirst at h
  induction h with
  | nil _ => simp
  | @cons _ _ _ p passes hapart hwalk _ ih =>
    subst hfirst
    obtain ⟨hlast, hnone⟩ := hwalk.asleep (hapart.asleep hasleep) (by simp)
    rw [flatMap_cons]
    refine forall_mem_append.mpr ⟨hnone rfl, ih ⟨hlast.1, fun t ht => ?_⟩ rfl⟩
    exact hlast.2 t (p.alive_sublist.subset ht)

/-- Who goes to sleep in the turn of one visit has no turn in a later one. -/
def Rests (v w : Visit σ) : Prop :=
  ∀ s, v.turn = some s → s.thread.status = .yieldTick → w.thread.id = v.thread.id → w.turn = none

theorem rests (h : Passes kit isFirst m passes m') (hm : m.Tidy) :
    (passes.flatMap Pass.visits).Pairwise Rests := by
  induction h with
  | nil _ => exact .nil
  | @cons _ _ _ p passes hapart hwalk hrest ih =>
    have hfirst := hapart.evolves.tidy hm
    have halive := (hwalk.proceeds.tidy hfirst).sublist p.alive_sublist
    rw [flatMap_cons]
    refine pairwise_append.mpr ⟨?_, ih halive, fun v hv w hw s hs hstatus => ?_⟩
    · -- No thread is visited twice in one pass.
      refine (pairwise_map.mp (hwalk.nodup hfirst)).imp fun hne s _ _ hid => ?_
      exact absurd hid.symm hne
    · have hlast := hwalk.falls_asleep hfirst hv hs hstatus
      exact hrest.asleep ⟨hlast.1, fun t ht => hlast.2 t (p.alive_sublist.subset ht)⟩ w hw

end Passes

/-! ## Frames -/

namespace Machine

open Run

variable {m m' : Machine σ} {done : List Thread}

/-- The visits of the places of the list are a walk. -/
theorem visitFrom_walk (fuel : Nat) : ∀ (i : Nat) (m m' : Machine σ) (n : Nat),
    visitFrom kit isFirst fuel i m = some (n, m') → ∃ visits, Walk kit isFirst i m visits m' := by
  induction fuel with
  | zero => intro i m m' n h; cases h
  | succ fuel ih =>
    intro i m m' n h
    rw [visitFrom] at h
    dsimp only at h
    by_cases hlt : i < m.threads.length
    · rw [if_pos hlt] at h
      obtain ⟨m₁, hvisit, h⟩ := bind_eq_some_iff.mp h
      obtain ⟨⟨n', m₂⟩, hrest, h⟩ := bind_eq_some_iff.mp h
      cases h
      obtain ⟨v, hmade, rfl, rfl, rfl⟩ := visit_made hlt hvisit
      obtain ⟨visits, hwalk⟩ := ih _ _ _ _ hrest
      exact ⟨v :: visits, .cons hmade hwalk⟩
    · rw [if_neg hlt] at h
      cases h
      exact ⟨[], .nil (Nat.not_lt.mp hlt)⟩

theorem pass_walk {n : Nat} (h : pass kit fuel isFirst m = some ((n, done), m')) :
    ∃ p : Pass σ, m.Apart p.first ∧ Walk kit isFirst 0 p.first p.visits p.last ∧ done = p.done ∧
      m' = { p.last with threads := p.alive } := by
  obtain ⟨u, m₁, hsync, h⟩ := bind_some.mp h
  obtain ⟨running, m₂, hvisit, h⟩ := bind_some.mp h
  obtain ⟨taken, m₃, htake, h⟩ := bind_some.mp h
  obtain ⟨heq, rfl⟩ := pure_some.mp h
  cases heq
  obtain ⟨visits, hwalk⟩ := visitFrom_walk fuel _ _ _ _ hvisit
  have htake := modifyGet_some.mp htake
  unfold takeDone at htake
  rw [partition_eq_filter_filter] at htake
  cases htake
  exact ⟨⟨m₁, visits, m₂⟩, modify_some.mp hsync ▸ (rest_syncClock m).toApart, hwalk, rfl, rfl⟩

theorem passes_walk {start : Float} (fuel : Nat) : ∀ (running : Nat) (m m' : Machine σ)
    (done : List Thread), passes kit start fuel running m = some (done, m') →
      ∃ passes, Passes kit false m passes m' ∧ done = passes.flatMap Pass.done := by
  induction fuel with
  | zero => intro running m m' done h; cases h
  | succ fuel ih =>
    intro running m m' done h
    rw [passes] at h
    obtain ⟨goes, m₁, hgoes, h⟩ := bind_some.mp h
    have hapart : m.Apart m₁ := by
      have := (rest_continues m start running).toApart
      rwa [modifyGet_some.mp hgoes] at this
    cases goes with
    | false =>
      obtain ⟨rfl, rfl⟩ := pure_some.mp h
      exact ⟨[], .nil hapart, rfl⟩
    | true =>
      obtain ⟨⟨n, taken⟩, m₂, hpass, h⟩ := bind_some.mp h
      obtain ⟨rest, m₃, hrest, h⟩ := bind_some.mp h
      obtain ⟨rfl, rfl⟩ := pure_some.mp h
      obtain ⟨p, hfirst, hwalk, rfl, rfl⟩ := pass_walk hpass
      obtain ⟨passes, hpasses, rfl⟩ := ih _ _ _ _ hrest
      exact ⟨p :: passes, .cons (Lasting.trans hapart hfirst) hwalk hpasses,
        flatMap_cons.symm⟩

/-- **A frame is made of passes.** There is one at all if there are threads, and no redraw was
requested or that does not matter. -/
theorem stepThreads_passes (h : stepThreads kit fuel m = some (done, m')) :
    ∃ passes, Passes kit true m passes m' ∧ done = passes.flatMap Pass.done ∧
      (passes ≠ [] ↔ m.threads ≠ [] ∧ (m.settings.turboMode ∨ m.redraw = false)) := by
  obtain ⟨u, m₁, hfirst, h⟩ := bind_some.mp h
  obtain ⟨start, m₂, hsecond, h⟩ := bind_some.mp h
  rw [get_andThen] at h
  obtain ⟨time, hfirst⟩ := discard_some.mp hfirst
  have hapart : m.Apart m₂ ∧ m₂.redraw = m.redraw := by
    cases modifyGet_some.mp hfirst
    cases modifyGet_some.mp hsecond
    exact ⟨.of_rest, rfl⟩
  rw [hapart.1.threads, hapart.1.settings, hapart.2] at h
  by_cases hstop : (m.threads.isEmpty || (m.redraw && !m.settings.turboMode)) = true
  · rw [if_pos hstop] at h
    obtain ⟨rfl, rfl⟩ := pure_some.mp h
    refine ⟨[], .nil hapart.1, rfl, by simp, fun ⟨hthreads, hredraw⟩ => ?_⟩
    rcases hredraw with hredraw | hredraw <;> simp_all
  · rw [if_neg hstop] at h
    obtain ⟨⟨n, taken⟩, m₃, hpass, h⟩ := bind_some.mp h
    obtain ⟨rest, m₄, hrest, h⟩ := bind_some.mp h
    obtain ⟨rfl, rfl⟩ := pure_some.mp h
    obtain ⟨p, hstart, hwalk, rfl, rfl⟩ := pass_walk hpass
    obtain ⟨passes, hpasses, rfl⟩ := passes_walk _ _ _ _ _ hrest
    refine ⟨p :: passes, .cons (Lasting.trans hapart.1 hstart) hwalk hpasses,
      flatMap_cons.symm, fun _ => ?_, fun _ => by simp⟩
    cases hredraw : m.redraw <;> simp_all

end Machine

/-- **A frame gives turns in order.** Whatever a machine with threads does in a frame, once hats are
polled and monitors started, is done in passes over its threads, and so that
* there is at least one pass, unless a redraw was requested by then and that matters;
* a pass visits all places of the list in order, up to the last one that it has at the end;
* the thread that is found in a place has one turn if it is due, and none if it is not;
* no thread is visited twice in a pass;
* a thread that went to sleep in its turn has no further turn in the frame;
* the threads that are done are given away and those that are left go to the next pass, each in the
  order of the list. -/
theorem frame_gives_turns_in_order {fuel : Nat} {m m' : Machine σ} {done : List Thread}
    (hm : m.Tidy) (hthreads : m.threads ≠ []) (h : Machine.step kit fuel m = some (done, m')) :
    ∃ (ready finish : Machine σ) (passes : List (Pass σ)),
      Machine.prepare kit fuel m = some ((), ready) ∧ Passes kit true ready passes finish ∧
      m' = (done.foldl Machine.reportValue finish).reportLists ∧
      (passes ≠ [] ↔ m.settings.turboMode ∨ ready.redraw = false) ∧
      (∀ p ∈ passes, p.visits.map Visit.place = List.range p.last.threads.length) ∧
      (∀ (k : Nat) (p : Pass σ), passes[k]? = some p → ∀ v ∈ p.visits,
        v.turn.isSome = v.before.isDue (k == 0) v.thread) ∧
      (∀ p ∈ passes, (p.visits.map (·.thread.id)).Nodup) ∧
      (passes.flatMap Pass.visits).Pairwise Passes.Rests ∧
      done = passes.flatMap Pass.done ∧ passes.IsChain (fun p q => q.first.threads = p.alive) ∧
      m'.threads = (passes.getLast?.map Pass.alive).getD ready.threads := by
  rw [Machine.step_eq] at h
  obtain ⟨u, ready, hprepare, h⟩ := Run.bind_some.mp h
  obtain ⟨taken, finish, hstep, h⟩ := Run.bind_some.mp h
  obtain ⟨u', m₁, hreport, h⟩ := Run.bind_some.mp h
  obtain ⟨rfl, rfl⟩ := Run.pure_some.mp h
  have hm' := Run.modify_some.mp hreport
  have hevolves := Machine.prepare_along (Machine.evolves_law kit)
    (fun m => Machine.startMonitors_along Machine.evolves_startMonitor m.monitors m) fuel
    _ _ _ hprepare
  have hlaw : Machine.FrameLaw kit Machine.SameSettings := Machine.sameSettings_law.frameLaw
  have hsettings : ready.settings = m.settings :=
    Machine.prepare_along hlaw.toLaw hlaw.startMonitors fuel _ _ _ hprepare
  have hready : ready.threads ≠ [] := by
    rw [← length_pos_iff] at hthreads ⊢
    exact Nat.lt_of_lt_of_le hthreads hevolves.proceeds.length_le
  have htidy := hevolves.tidy hm
  obtain ⟨passes, hpasses, hdone, hsome⟩ := Machine.stepThreads_passes hstep
  obtain ⟨-, hchain, hlast⟩ := hpasses.alive
  have hwalk : ∀ p ∈ passes, ∃ isFirst, Walk kit isFirst 0 p.first p.visits p.last := by
    intro p hp
    obtain ⟨k, hk⟩ := mem_iff_getElem?.mp hp
    exact ⟨_, hpasses.walks k p hk⟩
  refine ⟨ready, finish, passes, hprepare, hpasses, hm'.symm, ?_, fun p hp => ?_,
    fun k p hp v hv => ?_, fun p hp => ?_, hpasses.rests htidy, hdone, hchain, ?_⟩
  · rw [hsome, hsettings]
    exact and_iff_right hready
  · obtain ⟨isFirst, hwalk⟩ := hwalk p hp
    obtain ⟨hplaces, hlength⟩ := hwalk.places (Nat.zero_le _)
    rw [hplaces, range_eq_range', ← hlength, Nat.zero_add]
  · simpa using ((hpasses.walks k p hp).made v hv).due
  · obtain ⟨isFirst, hwalk⟩ := hwalk p hp
    exact hwalk.nodup (hpasses.tidy htidy p hp)
  · rw [← hm', (Machine.apart_report finish _).threads]
    exact hlast

/-- A script that waits in a loop, and one that sends a message to a third and waits for it. -/
def Sheet.messenger : Sheet :=
  .ofBlocks [
    { id := "loop", opcode := "control_forever", isTopLevel := true },
    { id := "send", opcode := "event_broadcastandwait", isTopLevel := true,
      fields := Table.of [("BROADCAST_INPUT", { value := .text "news" })] },
    { id := "hear", opcode := "event_whenbroadcastreceived", isTopLevel := true,
      fields := Table.of [("BROADCAST_OPTION", { value := .text "News" })] }]

/-- A stage whose first two scripts are running. -/
def Machine.messenger : Machine Unit :=
  let m := (Machine.addTarget { clock := { tick := 5.0 }, host := () } (.stage .messenger)).2
  { m with
    threads := [.start 0 0 "loop" .messenger, .start 1 0 "send" .messenger]
    nextThread := 2 }

/-- The third script is started in the first pass and done in it, and then the second one goes
on. -/
theorem messenger_gives_turns_in_order :
    ∃ (done : List Thread) (m' : Machine Unit) (passes : List (Pass Unit)),
      Machine.step { Library.core with } 60 Machine.messenger = some (done, m') ∧
      done.map Thread.id = [2, 1] ∧ passes ≠ [] ∧
      (∀ p ∈ passes, p.visits.map Visit.place = List.range p.last.threads.length) ∧
      (∀ p ∈ passes, (p.visits.map (·.thread.id)).Nodup) ∧ done = passes.flatMap Pass.done := by
  have hstep : ((Machine.step { Library.core with } 60 Machine.messenger).map fun p =>
      p.1.map Thread.id) = some [2, 1] := by decide +kernel
  have hready : ((Machine.prepare { Library.core with } 60 Machine.messenger).map (·.2.redraw)) =
      some false := by decide +kernel
  obtain ⟨⟨done, m'⟩, h, hids⟩ := map_eq_some_iff.mp hstep
  have htidy : Machine.messenger.Tidy := ⟨by decide +kernel, by decide +kernel⟩
  obtain ⟨ready, -, passes, hprepare, -, -, hsome, hplaces, -, hnodup, -, hdone, -⟩ :=
    frame_gives_turns_in_order htidy (by decide +kernel) h
  rw [hprepare] at hready
  exact ⟨done, m', passes, h, hids, hsome.mpr (.inr (Option.some.inj hready)), hplaces,
    hnodup, hdone⟩

/-- A script that can go on, and a hat that waits for a moment before it watches the timer. -/
def Sheet.delayed : Sheet :=
  .ofBlocks [
    { id := "loop", opcode := "control_forever", isTopLevel := true },
    { id := "hat", opcode := "event_whengreaterthan", isTopLevel := true,
      fields := Table.of [("WHENGREATERTHANMENU", { value := .text "TIMER" })],
      inputs := Table.of [("VALUE", { block := some "wait" })] },
    { id := "wait", opcode := "control_wait" }]

def Machine.delayed : Machine Unit :=
  let m := (Machine.addTarget { clock := { tick := 5.0 }, host := () } (.stage .delayed)).2
  { m with threads := [.start 0 0 "loop" .delayed], nextThread := 1 }

/-- Polling the hat requests a redraw, and no pass is made in that frame: the script that can go on
is still before its first block. -/
theorem delayed_makes_no_pass :
    Machine.delayed.threads.map (fun t => (t.status, t.stack.length, t.block?)) =
      [(.running, 1, some "loop")] ∧
    ((Machine.step { Library.core with } 60 Machine.delayed).map fun p =>
      (p.1.length, p.2.threads.map fun t => (t.status, t.stack.length, t.block?))) =
      some (0, [(.running, 1, some "loop")]) := by
  exact ⟨by decide +kernel, by decide +kernel⟩

end BlockMachine

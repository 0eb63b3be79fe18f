import BlockMachine.Proofs.Machine.Operations

/-!
# The lives of threads

A thread gets an id of its own and a place in the list when it is started. What can happen in a
moment is said once (`Happens`): threads go on in their places, are done, or give their places to
new threads of the same script; only threads that are not done have turns; and a sweep takes exactly
the threads that are done. Every operation is made of such moments (`Chronicle.play_tells`), and so
whatever holds along them holds of the life of every thread.

The module is about `Machine.step`, `Machine.visit`, `Machine.putBack` and the operations of a host.

## Results

* `Chronicle.play_follows`: keeping a chronicle changes nothing.
* `Happens`: what one moment does to the list; `Chronicle.play_tells`: whole runs.
* `threads_live_once`: no thread is lost, duplicated or resurrected.

Left out is what threads do with variables and targets.
-/

namespace BlockMachine

open List Option

variable {σ α β : Type} {s : Turn σ} {f : α → Run (Chronicle σ) β} {x : Run (Chronicle σ) α}
  {t t' : Thread} {i : Nat}

/-- The thread in a place afterwards: the same one, done if it was done, or a new one of the same
script. Ids from `next` on are new. -/
structure Thread.Holds (next : ThreadId) (t t' : Thread) : Prop where
  id : t'.id = t.id ∧ (t.isDone → t'.isDone) ∨ next ≤ t'.id
  target : t'.target = t.target
  top : t'.top = t.top

theorem Thread.Becomes.holds {next : ThreadId} (h : t.Becomes next t') : t.Holds next t' := by
  cases h with
  | same => exact ⟨.inl ⟨rfl, fun h => h⟩, rfl, rfl⟩
  | retired => exact ⟨.inl ⟨rfl, fun _ => rfl⟩, rfl, rfl⟩
  | replaced hid htarget htop => exact ⟨.inr hid, htarget, htop⟩

theorem Thread.Holds.trans {next next' : ThreadId} {t'' : Thread} (h : t.Holds next t')
    (hle : next ≤ next') (h' : t'.Holds next' t'') : t.Holds next t'' := by
  refine ⟨?_, h'.target.trans h.target, h'.top.trans h.top⟩
  rcases h'.id with ⟨hid', hdone'⟩ | hnew
  · rcases h.id with ⟨hid, hdone⟩ | hnew
    · exact .inl ⟨hid'.trans hid, fun hd => hdone' (hdone hd)⟩
    · exact .inr (hid' ▸ hnew)
  · exact .inr (Nat.le_trans hle hnew)

namespace Machine

variable {m m' : Machine σ} {i j : Nat} {t t' : Thread} {id : ThreadId}

/-- All threads have kept their places or given them to new ones of the same script. -/
structure Proceeds (m m' : Machine σ) : Prop where
  next : m.nextThread ≤ m'.nextThread
  slots : ∀ (i : Nat) (t : Thread), m.threads[i]? = some t →
    ∃ t', m'.threads[i]? = some t' ∧ t.Holds m.nextThread t'
  added : ∀ (i : Nat) (t : Thread), m'.threads[i]? = some t → m.threads[i]? = none →
    m.nextThread ≤ t.id
  tidy : m.Tidy → m'.Tidy

theorem Evolves.proceeds (h : m.Evolves m') : m.Proceeds m' where
  next := h.next
  slots i t ht := by
    obtain ⟨t', ht', hb⟩ := h.slots i t ht
    exact ⟨t', ht', hb.holds⟩
  added := h.added
  tidy := h.tidy

/-- A thread with an id that was given out before was there before, in the same place. -/
theorem Proceeds.origin (h : m.Proceeds m') (ht' : m'.threads[i]? = some t')
    (hid : t'.id < m.nextThread) :
    ∃ t, m.threads[i]? = some t ∧ t'.id = t.id ∧ (t.isDone → t'.isDone) ∧ t'.target = t.target ∧
      t'.top = t.top := by
  cases ht : m.threads[i]? with
  | none => exact absurd hid (Nat.not_lt.mpr (h.added i t' ht' ht))
  | some t =>
    obtain ⟨t₁, ht₁, hholds⟩ := h.slots i t ht
    rw [ht'] at ht₁
    cases ht₁
    rcases hholds.id with ⟨hsame, hdone⟩ | hle
    · exact ⟨t, rfl, hsame, hdone, hholds.target, hholds.top⟩
    · exact absurd hid (Nat.not_lt.mpr hle)

instance : Lasting (Proceeds : Machine σ → Machine σ → Prop) where
  refl m := Evolves.proceeds (Lasting.refl m)
  trans {m m' m''} h h' := by
    refine ⟨Nat.le_trans h.next h'.next, fun i t ht => ?_, fun i t ht hnone => ?_,
      fun hm => h'.tidy (h.tidy hm)⟩
    · obtain ⟨t₁, ht₁, hholds⟩ := h.slots i t ht
      obtain ⟨t₂, ht₂, hholds'⟩ := h'.slots i t₁ ht₁
      exact ⟨t₂, ht₂, hholds.trans h.next hholds'⟩
    · by_cases hid : t.id < m'.nextThread
      · obtain ⟨t₁, ht₁, hsame, -⟩ := h'.origin ht hid
        rw [hsame]
        exact h.added i t₁ ht₁ hnone
      · exact Nat.le_trans h.next (Nat.not_lt.mp hid)

/-- The id has been given out, and no thread in the list that has it can go on. -/
def Dead (m : Machine σ) (id : ThreadId) : Prop :=
  id < m.nextThread ∧ ∀ t ∈ m.threads, t.id = id → t.isDone

theorem Proceeds.dead (h : m.Proceeds m') (hdead : m.Dead id) : m'.Dead id := by
  refine ⟨Nat.lt_of_lt_of_le hdead.1 h.next, fun t' ht' hid => ?_⟩
  obtain ⟨i, hi⟩ := mem_iff_getElem?.mp ht'
  obtain ⟨t, ht, hsame, hdone, -, -⟩ := h.origin hi (hid ▸ hdead.1)
  exact hdone (hdead.2 t (mem_of_getElem? ht) (hsame.symm.trans hid))

/-! ## Ids -/

theorem Tidy.unique (h : m.Tidy) (hi : m.threads[i]? = some t) (hj : m.threads[j]? = some t')
    (hid : t.id = t'.id) : i = j := by
  have hmap : (m.threads.map Thread.id)[i]? = (m.threads.map Thread.id)[j]? := by
    rw [getElem?_map, getElem?_map, hi, hj, map_some, map_some, hid]
  refine (getElem?_inj ?_ h.nodup).mp hmap
  rw [length_map]
  exact (List.getElem?_eq_some_iff.mp hi).1

theorem Tidy.eq_of_id (h : m.Tidy) (ht : t ∈ m.threads) (ht' : t' ∈ m.threads)
    (hid : t.id = t'.id) : t = t' := by
  obtain ⟨i, hi⟩ := mem_iff_getElem?.mp ht
  obtain ⟨j, hj⟩ := mem_iff_getElem?.mp ht'
  obtain rfl := h.unique hi hj hid
  rw [hi] at hj
  exact Option.some.inj hj

/-- A thread whose place was given to another one is gone for good. -/
theorem Proceeds.dead_of_replaced (h : m.Proceeds m') (hm : m.Tidy) (ht : m.threads[i]? = some t)
    (ht' : m'.threads[i]? = some t') (hne : t'.id ≠ t.id) : m'.Dead t.id := by
  have hgiven := hm.given t (mem_of_getElem? ht)
  refine ⟨Nat.lt_of_lt_of_le hgiven h.next, fun t₁ ht₁ hid => ?_⟩
  -- A thread with its id would have been in its place before, and would be there still.
  obtain ⟨j, hj⟩ := mem_iff_getElem?.mp ht₁
  obtain ⟨t₀, ht₀, hsame, -⟩ := h.origin hj (hid ▸ hgiven)
  obtain rfl := hm.unique ht₀ ht (hsame.symm.trans hid)
  rw [ht'] at hj
  cases hj
  exact absurd hid hne

/-- A place may be given to another state of its thread. -/
theorem Tidy.set (h : m.Tidy) (hi : m.threads[i]? = some t) (hid : t'.id = t.id) :
    { m with threads := m.threads.set i t' }.Tidy := by
  have hids : (m.threads.set i t').map Thread.id = m.threads.map Thread.id := by
    refine ext_getElem? fun k => ?_
    by_cases hk : i = k
    · subst hk
      rw [getElem?_map, getElem?_map,
        getElem?_set_self (List.getElem?_eq_some_iff.mp hi).1, hi, map_some,
        map_some, hid]
    · rw [getElem?_map, getElem?_map, getElem?_set_ne hk]
  refine ⟨hids ▸ h.nodup, fun t₁ ht₁ => ?_⟩
  rcases mem_or_eq_of_mem_set ht₁ with hmem | rfl
  · exact h.given t₁ hmem
  · rw [hid]
    exact h.given t (mem_of_getElem? hi)

/-- A thread that changes in its place. -/
theorem proceeds_set (ht : m.threads[i]? = some t) (hholds : t.Holds m.nextThread t')
    (hid : t'.id = t.id) : m.Proceeds { m with threads := m.threads.set i t' } := by
  refine ⟨Nat.le_refl _, fun j t₁ ht₁ => ?_, fun j t₁ ht₁ hnone => ?_, fun hm => hm.set ht hid⟩
  · by_cases hj : j = i
    · subst hj
      rw [ht] at ht₁
      cases ht₁
      exact ⟨t', getElem?_set_self (List.getElem?_eq_some_iff.mp ht).1, hholds⟩
    · exact ⟨t₁, (getElem?_set_ne (Ne.symm hj)).trans ht₁, (Thread.Becomes.same).holds⟩
  · have hj : j ≠ i := by
      rintro rfl
      rw [ht] at hnone
      cases hnone
    rw [getElem?_set_ne (Ne.symm hj), hnone] at ht₁
    cases ht₁

end Machine

/-! ## Turns -/

/-- At the end of its turn the thread is done, or its place was stopped or given to another one. -/
def Turn.Over (s : Turn σ) (id : ThreadId) (i : Nat) : Prop :=
  s.thread.isDone ∨
    ∃ slot, s.machine.threads[i]? = some slot ∧ (slot.id ≠ id ∨ slot.status = .done)

/-- What happens in a moment. Threads go on in their places; a thread that has its turn is not done,
and it cannot go on after a turn in which it was stopped; a sweep takes the threads that are
done. -/
inductive Happens (m : Machine σ) : Moment σ → Prop
  | other {m' : Machine σ} (h : m.Proceeds m') : Happens m ⟨.other, m'⟩
  | turn {m' : Machine σ} {i : Nat} {t : Thread} {s : Turn σ} (ht : m.threads[i]? = some t)
      (halive : t.isDone = false) (h : m.Proceeds m')
      (hover : m.Tidy → s.Over t.id i → m'.Dead t.id) : Happens m ⟨.turn t.id i s, m'⟩
  | give {m' : Machine σ} (hnext : m'.nextThread = m.nextThread)
      (hthreads : m'.threads = m.threads.filter (!·.isDone)) :
      Happens m ⟨.give (m.threads.filter Thread.isDone), m'⟩

theorem Happens.of_turn {m m' : Machine σ} {id : ThreadId} (h : Happens m ⟨.turn id i s, m'⟩) :
    m.Proceeds m' ∧ (m.Tidy → s.Over id i → m'.Dead id) := by
  generalize hnow : (⟨.turn id i s, m'⟩ : Moment σ) = now at h
  cases h with
  | turn _ _ hproceeds hover =>
    cases hnow
    exact ⟨hproceeds, hover⟩
  | other _ => cases hnow
  | give _ _ => cases hnow

namespace Machine

variable {m m' : Machine σ} {i j : Nat} {t t' slot : Thread} {id : ThreadId} {kit : Kit σ}
  {fuel : Nat}

theorem wake_same (isFirst : Bool) (t : Thread) :
    (wake isFirst t).id = t.id ∧ (wake isFirst t).target = t.target ∧
      (wake isFirst t).top = t.top ∧ (wake isFirst t).isDone = t.isDone := by
  unfold wake
  split
  · rename_i h
    simp only [Bool.and_eq_true, beq_iff_eq] at h
    refine ⟨rfl, rfl, rfl, ?_⟩
    unfold Thread.isDone
    rw [h.1]
    rfl
  · exact ⟨rfl, rfl, rfl, rfl⟩

theorem wake_like (isFirst : Bool) (t : Thread) : t.Same (wake isFirst t) := by
  unfold wake
  split <;> exact ⟨rfl, rfl, rfl, rfl, rfl⟩

theorem turn_evolves (h : m.turn kit fuel i t = some s) :
    Turn.Evolves ⟨{ m with threads := m.threads.set i t.placeholder }, t⟩ s :=
  turn_along (evolves_law kit).turnRule h

/-- What is in the place of a thread at the end of its turn: its own place, which may have been
stopped, or a new thread. -/
theorem turn_slot (hlt : i < m.threads.length) (h : m.turn kit fuel i t = some s) :
    ∃ slot, s.machine.threads[i]? = some slot ∧ (slot.id = t.id ∨ m.nextThread ≤ slot.id) ∧
      slot.target = t.target ∧ slot.top = t.top := by
  obtain ⟨slot, hslot, hb⟩ := (turn_evolves h).machine.slots i t.placeholder
    (getElem?_set_self hlt)
  exact ⟨slot, hslot, hb.id_eq_or_le, hb.script.1, hb.script.2⟩

/-- The thread is put back where it was, or its place belongs to another one now. -/
theorem putBack_eq (hslot : s.machine.threads[i]? = some slot) (t : Thread) :
    slot.id = t.id ∧ s.machine.putBack i t =
        { s.machine with
          threads := s.machine.threads.set i (if slot.status == .done then t.retire else t) } ∨
      slot.id ≠ t.id ∧ s.machine.putBack i t = s.machine := by
  unfold putBack
  rw [hslot]
  dsimp only
  by_cases hid : slot.id = t.id
  · exact .inl ⟨hid, if_pos (by rw [hid]; exact beq_self_eq_true t.id)⟩
  · exact .inr ⟨hid, if_neg (by simpa using hid)⟩

section GiveTurn

variable {s : Turn σ} {t₀ : Thread}

/-- Outside of the place of the thread a turn only does what any thread may do. -/
theorem turn_elsewhere (h : m.turn kit fuel i t = some s) (hj : j ≠ i) :
    (∀ t, m.threads[j]? = some t →
      ∃ t', s.machine.threads[j]? = some t' ∧ t.Holds m.nextThread t') ∧
    ∀ t, s.machine.threads[j]? = some t → m.threads[j]? = none → m.nextThread ≤ t.id := by
  have hset : (m.threads.set i t.placeholder)[j]? = m.threads[j]? := getElem?_set_ne hj.symm
  refine ⟨fun t' ht' => ?_, fun t' ht' hnone => ?_⟩
  · obtain ⟨t'', ht'', hb⟩ := (turn_evolves h).machine.slots j t' (hset.trans ht')
    exact ⟨t'', ht'', hb.holds⟩
  · exact (turn_evolves h).machine.added j t' ht' (hset.trans hnone)

theorem turn_tidy (ht₀ : m.threads[i]? = some t₀) (hid : t.id = t₀.id)
    (h : m.turn kit fuel i t = some s) (htidy : m.Tidy) : s.machine.Tidy :=
  (turn_evolves h).machine.tidy (htidy.set ht₀ hid)

variable (ht₀ : m.threads[i]? = some t₀) (halive : t₀.isDone = false) (hid : t.id = t₀.id)
  (htarget : t.target = t₀.target) (htop : t.top = t₀.top) (h : m.turn kit fuel i t = some s)

include ht₀ halive hid htarget htop h

omit htarget htop in
/-- The thread is put back into its place in some state. -/
theorem turn_returns (hslot : s.machine.threads[i]? = some slot)
    (hsame : slot.id = t₀.id) (back : Thread)
    (hback : back.id = t₀.id) (hscript : back.target = t₀.target ∧ back.top = t₀.top) :
    m.Proceeds { s.machine with threads := s.machine.threads.set i back } ∧
      (m.Tidy → back.isDone →
        { s.machine with threads := s.machine.threads.set i back }.Dead t₀.id) := by
  have hlt := (List.getElem?_eq_some_iff.mp hslot).1
  have htidy : m.Tidy → { s.machine with threads := s.machine.threads.set i back }.Tidy :=
    fun htidy => (turn_tidy ht₀ hid h htidy).set hslot (hback.trans hsame.symm)
  refine ⟨⟨(turn_evolves h).machine.next, fun j t₁ ht₁ => ?_, fun j t₁ ht₁ hnone => ?_, htidy⟩,
    fun hm hdone => ⟨?_, fun t' ht' hid' => ?_⟩⟩
  · by_cases hj : j = i
    · subst hj
      rw [ht₀] at ht₁
      cases ht₁
      refine ⟨back, getElem?_set_self hlt, .inl ⟨hback, fun hd => ?_⟩, hscript.1, hscript.2⟩
      rw [halive] at hd
      cases hd
    · obtain ⟨t', ht', hholds⟩ := (turn_elsewhere h hj).1 t₁ ht₁
      exact ⟨t', (getElem?_set_ne (Ne.symm hj)).trans ht', hholds⟩
  · have hj : j ≠ i := by
      rintro rfl
      rw [ht₀] at hnone
      cases hnone
    rw [getElem?_set_ne (Ne.symm hj)] at ht₁
    exact (turn_elsewhere h hj).2 t₁ ht₁ hnone
  · exact Nat.lt_of_lt_of_le (hm.given t₀ (mem_of_getElem? ht₀)) (turn_evolves h).machine.next
  · have hmem : back ∈ s.machine.threads.set i back :=
      mem_of_getElem? (getElem?_set_self hlt)
    rw [(htidy hm).eq_of_id ht' hmem (hid'.trans hback.symm)]
    exact hdone

omit halive in
/-- The place was given to another thread, and the list stays as it is. -/
theorem turn_replaced (hslot : s.machine.threads[i]? = some slot) (hother : slot.id ≠ t₀.id) :
    m.Proceeds s.machine := by
  refine ⟨(turn_evolves h).machine.next, fun j t₁ ht₁ => ?_, fun j t₁ ht₁ hnone => ?_,
    turn_tidy ht₀ hid h⟩
  · by_cases hj : j = i
    · subst hj
      rw [ht₀] at ht₁
      cases ht₁
      obtain ⟨slot', hslot', hids, hstarget, hstop⟩ :=
        turn_slot (List.getElem?_eq_some_iff.mp ht₀).1 h
      rw [hslot] at hslot'
      cases hslot'
      refine ⟨slot, hslot, .inr ?_, hstarget.trans htarget, hstop.trans htop⟩
      exact hids.resolve_left fun heq => hother (heq.trans hid)
    · exact (turn_elsewhere h hj).1 t₁ ht₁
  · have hj : j ≠ i := by
      rintro rfl
      rw [ht₀] at hnone
      cases hnone
    exact (turn_elsewhere h hj).2 t₁ ht₁ hnone

/-- **The turn of a thread in its place**: the thread goes on there unless it was stopped or
replaced. -/
theorem turn_happens :
    Happens m ⟨.turn t₀.id i s, s.machine.putBack i { s.thread with warpStart := none }⟩ := by
  obtain ⟨slot, hslot, -⟩ := turn_slot (List.getElem?_eq_some_iff.mp ht₀).1 h
  have hevolves := turn_evolves h
  have hback : s.thread.id = t₀.id := hevolves.thread.id.trans hid
  have hscript : s.thread.target = t₀.target ∧ s.thread.top = t₀.top :=
    ⟨hevolves.thread.target.trans htarget, hevolves.thread.top.trans htop⟩
  rcases putBack_eq hslot { s.thread with warpStart := none } with ⟨hsame, heq⟩ | ⟨hother, heq⟩
  · rw [heq]
    have hreturns := turn_returns ht₀ halive hid h hslot (hsame.trans hback)
      (if slot.status == .done then { s.thread with warpStart := none }.retire
        else { s.thread with warpStart := none })
      (by split <;> exact hback) (by split <;> exact hscript)
    refine .turn ht₀ halive hreturns.1 fun hm hover => hreturns.2 hm ?_
    rcases hover with hdone | ⟨slot', hslot', hcase⟩
    · split
      · rfl
      · exact hdone
    · rw [hslot] at hslot'
      cases hslot'
      rcases hcase with hne | hdone
      · exact absurd (hsame.trans hback) hne
      · rw [hdone]
        rfl
  · rw [heq]
    have hne : slot.id ≠ t₀.id := fun heq => hother (heq.trans hback.symm)
    have hproceeds := turn_replaced ht₀ hid htarget htop h hslot hne
    exact .turn ht₀ halive hproceeds fun hm _ => hproceeds.dead_of_replaced hm ht₀ hslot hne

end GiveTurn

/-- A visit of a place is a moment. -/
theorem visit_happens {isFirst : Bool} (h : m.visit kit fuel isFirst i = some m') :
    Happens m ⟨m.visitDeed kit fuel isFirst i, m'⟩ := by
  unfold visitDeed
  rcases visit_cases h with ⟨ht, rfl⟩ | ⟨t, ht, hcases⟩
  all_goals rw [ht]
  · exact .other (Lasting.refl m' : m'.Evolves m').proceeds
  · obtain ⟨hid, htarget, htop, hdone⟩ := wake_same isFirst t
    dsimp only
    rcases hcases with ⟨hturn, rfl⟩ | ⟨hturn, s, hs, rfl⟩
    · rw [hturn]
      exact .other (proceeds_set ht ⟨.inl ⟨hid, fun hd => hdone ▸ hd⟩, htarget, htop⟩ hid)
    · rw [if_pos hturn, hs]
      have halive : t.isDone = false := by
        rw [← hdone]
        simpa using (Bool.and_eq_true_iff.mp hturn).2
      exact turn_happens ht halive hid htarget htop hs

/-! ## Operations -/

open Run

/-- A new thread that is put in the list at once. -/
theorem evolves_append (m : Machine σ) (t : Thread) (hid : t.id = m.nextThread) :
    m.Evolves { m with nextThread := m.nextThread + 1, threads := m.threads ++ [t] } := by
  have hspawned : Spawned m t.target t.top t { m with nextThread := m.nextThread + 1 } :=
    .of_evolves { m with nextThread := m.nextThread + 1 } rfl rfl (Lasting.refl _) hid rfl rfl
  exact hspawned.append

theorem evolves_startMonitor (m : Machine σ) (monitor : Monitor) :
    m.Evolves (m.startMonitor monitor) := by
  unfold startMonitor
  dsimp only
  split
  · exact Lasting.refl m
  · unfold newThread?
    cases m.targets[monitor.target]? with
    | none => exact Lasting.refl m
    | some target => exact evolves_append m _ rfl

theorem evolves_toggle (m : Machine σ) (top : BlockId) (target : TargetId) :
    m.Evolves (m.toggle top target).2 := by
  unfold toggle
  dsimp only
  split
  · rename_i i hfind
    refine ⟨Nat.le_refl _, fun j t ht => ?_, fun j t ht hnone => ?_, fun hm => ?_⟩
    · rw [getElem?_modify, ht]
      refine ⟨if i = j then t.retire else t, rfl, ?_⟩
      split
      · exact .retired
      · exact .same
    · rw [getElem?_modify, hnone] at ht
      cases ht
    · obtain ⟨hlt, -⟩ := findIdx?_eq_some_iff_getElem.mp hfind
      rw [modify_eq_set_getElem?]
      rw [getElem?_eq_getElem hlt]
      exact hm.set (getElem?_eq_getElem hlt) rfl
  · unfold newThread?
    cases m.targets[target]? with
    | none => exact Lasting.refl m
    | some target' => exact evolves_append m _ rfl

theorem greenFlag_evolves (kit : Kit σ) (fuel : Nat) : Keeps Evolves (greenFlag kit fuel) := by
  refine (keeps_modify fun m => ?_).andThen fun _ =>
    (startHats_evolves kit fuel _ _ _).discarded
  exact Lasting.trans (evolves_stopAll m) (.of_eq rfl rfl)

theorem pushThread_evolves (kit : Kit σ) (fuel : Nat) (top : BlockId) (target : TargetId) :
    Keeps Evolves (pushThread kit fuel top target) := by
  intro m r m' h
  rcases pushThread_cases h with rfl | ⟨_, t, m₁, hspawn, rfl⟩
  · exact Lasting.refl m'
  · obtain ⟨hevolves, hspawned⟩ := spawn_spawned (Turn.execute_evolves kit fuel) hspawn
    cases t with
    | none => exact hevolves
    | some t => exact (hspawned t rfl).append

/-- No operation but a step gives threads away, and all of them keep the threads in their places. -/
theorem apply_evolves (kit : Kit σ) (fuel : Nat) (op : Operation) (h : op ≠ .step) :
    Keeps Evolves (op.apply kit fuel) := by
  cases op
  case step => exact absurd rfl h
  case startHats opcode fields only =>
    refine Keeps.andThen ?_ fun _ => keeps_pure _
    exact (startHats_evolves kit fuel opcode fields only).discarded
  case greenFlag => exact (greenFlag_evolves kit fuel).andThen fun _ => keeps_pure _
  case stopAll => exact (keeps_modify evolves_stopAll).andThen fun _ => keeps_pure _
  case toggle top target =>
    refine Keeps.andThen ?_ fun _ => keeps_pure _
    exact (keeps_modifyGet fun m => evolves_toggle m top target).discarded
  case pushThread top target =>
    exact (pushThread_evolves kit fuel top target).discarded.andThen fun _ => keeps_pure _
  case createClone source =>
    refine Keeps.andThen ?_ fun _ => keeps_pure _
    exact (createClone_evolves kit fuel source).discarded
  case removeTarget target =>
    exact (keeps_modify fun m => evolves_removeTarget m target).andThen fun _ => keeps_pure _
  case settle promise outcome =>
    exact (keeps_modify fun m => .of_eq rfl rfl).andThen fun _ => keeps_pure _

end Machine

/-! ## The past of a machine -/

/-- Moments that lead from one machine to another. -/
inductive Past : Machine σ → List (Moment σ) → Machine σ → Prop
  | nil (m : Machine σ) : Past m [] m
  | cons {m m' : Machine σ} {now : Moment σ} {moments : List (Moment σ)} (h : Happens m now)
      (hrest : Past now.machine moments m') : Past m (now :: moments) m'

/-- The threads that were given away in some moments. -/
def givenIn (moments : List (Moment σ)) : List Thread :=
  moments.flatMap (·.deed.given)

/-- A story of moments: it holds of the moments of an operation if it holds of single ones. -/
structure Story (kit : Kit σ) (S : Machine σ → List (Moment σ) → Machine σ → Prop) : Prop where
  nil : ∀ m, S m [] m
  append : ∀ {m m₁ m₂ l l'}, S m l m₁ → S m₁ l' m₂ → S m (l ++ l') m₂
  visit : ∀ {m m' fuel isFirst i}, m.visit kit fuel isFirst i = some m' →
    S m [⟨m.visitDeed kit fuel isFirst i, m'⟩] m'
  give : ∀ m : Machine σ, S m [⟨.give (m.threads.filter Thread.isDone),
    { m with threads := m.threads.filter (!·.isDone) }⟩]
      { m with threads := m.threads.filter (!·.isDone) }
  other : ∀ {m m'}, m.Evolves m' → S m [⟨.other, m'⟩] m'

theorem past_append {m m₁ m₂ : Machine σ} {l l' : List (Moment σ)} (h : Past m l m₁)
    (h' : Past m₁ l' m₂) : Past m (l ++ l') m₂ := by
  induction h with
  | nil => exact h'
  | cons hnow _ ih => exact .cons hnow (ih h')

theorem past_story (kit : Kit σ) :
    Story kit (Past : Machine σ → List (Moment σ) → Machine σ → Prop) where
  nil := .nil
  append := past_append
  visit h := .cons (Machine.visit_happens h) (.nil _)
  give _ := .cons (.give rfl rfl) (.nil _)
  other h := .cons (.other h.proceeds) (.nil _)

namespace Chronicle

variable {S : Machine σ → List (Moment σ) → Machine σ → Prop}

/-- What the chronicle notes is such a story, and something is true of the result and of the threads
that were given away. -/
def Tells (S : Machine σ → List (Moment σ) → Machine σ → Prop) (x : Run (Chronicle σ) α)
    (P : α → List Thread → Prop) : Prop :=
  ∀ c a c', x c = some (a, c') → ∃ moments, c'.moments = c.moments ++ moments ∧
    S c.machine moments c'.machine ∧ P a (givenIn moments)

variable {P : α → List Thread → Prop} {Q : α → β → List Thread → Prop} {R : β → List Thread → Prop}

theorem record_tells {deed : Machine σ → α → Deed σ} {x : Run (Machine σ) α}
    (h : ∀ m a m', x m = some (a, m') → S m [⟨deed m a, m'⟩] m' ∧ P a (deed m a).given) :
    Tells S (record deed x) P := by
  intro c a c' hx
  obtain ⟨⟨b, m⟩, hm, hx⟩ := bind_eq_some_iff.mp hx
  cases hx
  obtain ⟨htold, hP⟩ := h c.machine a m hm
  refine ⟨_, rfl, htold, ?_⟩
  unfold givenIn
  rw [flatMap_cons, flatMap_nil, append_nil]
  exact hP

variable {kit : Kit σ} (story : Story kit S)

include story

theorem tells_pure {a : α} (h : P a []) : Tells S (pure a : Run (Chronicle σ) α) P := by
  intro c b c' hx
  obtain ⟨rfl, rfl⟩ := Run.pure_some.mp hx
  exact ⟨[], (append_nil _).symm, story.nil _, h⟩

theorem quietly_tells {x : Run (Machine σ) α} (hx : Run.Keeps Machine.Evolves x) :
    Tells S (quietly x) fun _ given => given = [] :=
  record_tells fun m a m' h => ⟨story.other (hx m a m' h), rfl⟩

theorem Tells.andThen (hx : Tells S x P) (hf : ∀ a, Tells S (f a) (Q a))
    (h : ∀ a b l l', P a l → Q a b l' → R b (l ++ l')) : Tells S (x >>= f) R := by
  intro c b c' hc
  obtain ⟨a, c₁, hxa, hfb⟩ := Run.bind_some.mp hc
  obtain ⟨l, hl, hpast, hP⟩ := hx c a c₁ hxa
  obtain ⟨l', hl', hpast', hQ⟩ := hf a c₁ b c' hfb
  refine ⟨l ++ l', ?_, story.append hpast hpast', ?_⟩
  · rw [hl', hl, append_assoc]
  · unfold givenIn
    rw [flatMap_append]
    exact h a b _ _ hP hQ

/-- First something that gives no thread away. -/
theorem Tells.after (hx : Tells S x fun _ given => given = []) (hf : ∀ a, Tells S (f a) R) :
    Tells S (x >>= f) R :=
  hx.andThen story hf fun _ _ _ _ hl hR => hl ▸ hR

theorem visitFrom_tells (isFirst : Bool) (fuel : Nat) : ∀ i,
    Tells S (visitFrom kit isFirst fuel i) fun _ given => given = [] := by
  induction fuel with
  | zero => intro i c a c' h; cases h
  | succ fuel ih =>
    intro i c a c' h
    rw [visitFrom] at h
    dsimp only at h
    split at h
    · obtain ⟨⟨u, c₁⟩, hvisit, h⟩ := bind_eq_some_iff.mp h
      obtain ⟨⟨n, c₂⟩, hrest, h⟩ := bind_eq_some_iff.mp h
      cases h
      have hfirst : Tells S (record (fun m _ => m.visitDeed kit fuel isFirst i)
          (fun m => (m.visit kit fuel isFirst i).map ((), ·))) fun _ given => given = [] := by
        refine record_tells fun m u m' hm => ?_
        obtain ⟨m₁, hm₁, heq⟩ := map_eq_some_iff.mp hm
        cases heq
        refine ⟨story.visit hm₁, ?_⟩
        unfold Machine.visitDeed
        split
        · rfl
        · split
          · split <;> rfl
          · rfl
      obtain ⟨l, hl, hpast, hgiven⟩ := hfirst c u c₁ hvisit
      obtain ⟨l', hl', hpast', hgiven'⟩ := ih (i + 1) c₁ n c₂ hrest
      refine ⟨l ++ l', by rw [hl', hl, append_assoc], story.append hpast hpast', ?_⟩
      unfold givenIn at *
      rw [flatMap_append, hgiven, hgiven']
      rfl
    · cases h
      exact ⟨[], (append_nil _).symm, story.nil _, rfl⟩

theorem takeDone_tells : Tells S (record (fun _ done => .give done) (modifyGet Machine.takeDone) :
    Run (Chronicle σ) (List Thread)) fun done given => given = done := by
  refine record_tells fun m done m' h => ⟨?_, rfl⟩
  have hdone := Run.modifyGet_some.mp h
  unfold Machine.takeDone at hdone
  rw [partition_eq_filter_filter] at hdone
  cases hdone
  exact story.give m

theorem pass_tells (fuel : Nat) (isFirst : Bool) :
    Tells S (pass kit fuel isFirst) fun p given => given = p.2 := by
  have hsync : ∀ m : Machine σ, m.Evolves m.syncClock := fun m => .of_eq rfl rfl
  refine (quietly_tells story (Run.keeps_modify hsync)).after story fun _ =>
    (visitFrom_tells story isFirst fuel 0).after story fun running => ?_
  refine (takeDone_tells story).andThen story (Q := fun done p given => p.2 = done ∧ given = [])
    (fun done => tells_pure story ⟨rfl, rfl⟩) ?_
  rintro done p l l' rfl ⟨hp, rfl⟩
  rw [hp, append_nil]

theorem passes_tells (start : Float) (fuel : Nat) : ∀ running,
    Tells S (passes kit start fuel running) fun done given => given = done := by
  induction fuel with
  | zero => intro running c a c' h; cases h
  | succ fuel ih =>
    intro running
    rw [passes]
    refine (quietly_tells story (Run.keeps_modifyGet fun m => ?_)).after story fun goes => ?_
    · unfold Machine.continues
      split
      · exact Lasting.refl m
      · exact .of_eq rfl rfl
    cases goes with
    | false => exact tells_pure story rfl
    | true =>
      refine (pass_tells story fuel false).andThen story
        (Q := fun p done given => done = p.2 ++ given)
        (fun p => ?_) ?_
      · refine (ih p.1).andThen story (Q := fun rest done given => done = p.2 ++ rest ∧ given = [])
          (fun rest => tells_pure story ⟨rfl, rfl⟩) ?_
        rintro rest done l l' rfl ⟨hdone, rfl⟩
        rw [hdone, append_nil]
      · rintro p done l l' rfl rfl
        rfl

theorem stepThreads_tells (fuel : Nat) :
    Tells S (stepThreads kit fuel) fun done given => given = done := by
  have hclock : ∀ m : Machine σ, m.Evolves m.readClock.2 := fun m => .of_eq rfl rfl
  refine (quietly_tells story (Run.keeps_modifyGet hclock).discarded).after story fun _ =>
    (quietly_tells story (Run.keeps_modifyGet hclock)).after story fun start =>
    (quietly_tells story Run.keeps_get).after story fun m => ?_
  split
  · exact tells_pure story rfl
  refine (pass_tells story fuel true).andThen story (Q := fun p done given => done = p.2 ++ given)
    (fun p => ?_) ?_
  · refine (passes_tells story start fuel p.1).andThen story
      (Q := fun rest done given => done = p.2 ++ rest ∧ given = [])
        (fun rest => tells_pure story ⟨rfl, rfl⟩) ?_
    rintro rest done l l' rfl ⟨hdone, rfl⟩
    rw [hdone, append_nil]
  · rintro p done l l' rfl rfl
    rfl

theorem step_tells (fuel : Nat) : Tells S (step kit fuel) fun done given => given = done := by
  have hsync : ∀ m : Machine σ, m.Evolves { m.syncClock with redraw := false } :=
    fun m => .of_eq rfl rfl
  have hmonitors := Machine.startMonitors_along (Machine.evolves_startMonitor (σ := σ))
  refine (quietly_tells story (Run.keeps_modify hsync)).after story fun _ =>
    (quietly_tells story (Machine.pollHats_along (Machine.evolves_law kit) fuel _)).after
      story fun _ =>
    (quietly_tells story (Run.keeps_modify fun m => hmonitors m.monitors m)).after story fun _ => ?_
  refine (stepThreads_tells story fuel).andThen story
    (Q := fun done result given => result = done ∧ given = []) (fun done => ?_) ?_
  · exact (quietly_tells story
      (Run.keeps_modify fun m => (Machine.apart_report m done).evolves)).after story fun _ =>
      tells_pure story ⟨rfl, rfl⟩
  · rintro done result l l' rfl ⟨rfl, rfl⟩
    exact append_nil _

theorem apply_tells (fuel : Nat) (op : Operation) :
    Tells S (apply kit fuel op) fun done given => given = done := by
  by_cases hstep : op = .step
  · subst hstep
    exact step_tells story fuel
  · have hquiet : apply kit fuel op = quietly (op.apply kit fuel) := by
      cases op
      case step => exact absurd rfl hstep
      all_goals rfl
    have hnothing : ∀ m done m', op.apply kit fuel m = some (done, m') → done = [] := by
      intro m done m' h
      cases op
      case step => exact absurd rfl hstep
      all_goals
        obtain ⟨_, _, _, h⟩ := Run.bind_some.mp h
        exact (Run.pure_some.mp h).1.symm
    rw [hquiet]
    refine record_tells fun m done m' h => ⟨?_, (hnothing m done m' h).symm⟩
    exact story.other (Machine.apply_evolves kit fuel op hstep m done m' h)

/-- **Every operation is made of moments.** -/
theorem play_story (ops : List (Operation × Nat)) :
    Tells S (play kit ops) fun done given => given = done := by
  induction ops with
  | nil => exact tells_pure story rfl
  | cons op ops ih =>
    refine (apply_tells story op.2 op.1).andThen story
      (Q := fun done all given => all = done ++ given)
      (fun done => ?_) ?_
    · refine ih.andThen story (Q := fun rest all given => all = done ++ rest ∧ given = [])
        (fun rest => tells_pure story ⟨rfl, rfl⟩) ?_
      rintro rest all l l' rfl ⟨hall, rfl⟩
      rw [hall, append_nil]
    · rintro done all l l' rfl rfl
      rfl

omit story

theorem play_tells (kit : Kit σ) (ops : List (Operation × Nat)) :
    Tells Past (play kit ops) fun done given => given = done :=
  play_story (past_story kit) ops

end Chronicle

/-! ## Lives -/

namespace Happens

variable {m : Machine σ} {now : Moment σ} {id : ThreadId}

section

variable (h : Happens m now)

include h

theorem next : m.nextThread ≤ now.machine.nextThread := by
  cases h with
  | other h => exact h.next
  | turn _ _ h _ => exact h.next
  | give hnext _ => exact Nat.le_of_eq hnext.symm

theorem tidy (hm : m.Tidy) : now.machine.Tidy := by
  cases h with
  | other h => exact h.tidy hm
  | turn _ _ h _ => exact h.tidy hm
  | give hnext hthreads =>
    refine ⟨?_, fun t ht => ?_⟩
    · rw [hthreads]
      exact hm.nodup.sublist (filter_sublist.map _)
    · rw [hthreads] at ht
      rw [hnext]
      exact hm.given t (mem_filter.mp ht).1

/-- What is dead has no turn and stays dead. -/
theorem dead (hdead : m.Dead id) : now.machine.Dead id ∧ ∀ i s, now.deed ≠ .turn id i s := by
  cases h with
  | other h => exact ⟨h.dead hdead, fun _ _ heq => by cases heq⟩
  | turn ht halive h _ =>
    refine ⟨h.dead hdead, fun i s heq => ?_⟩
    cases heq
    rw [hdead.2 _ (mem_of_getElem? ht) rfl] at halive
    cases halive
  | give hnext hthreads =>
    refine ⟨⟨by rw [hnext]; exact hdead.1, fun t ht => ?_⟩, fun _ _ heq => by cases heq⟩
    rw [hthreads] at ht
    exact hdead.2 t (mem_filter.mp ht).1

/-- A thread with an id that was given out before was there before. -/
theorem origin (ht : t ∈ now.machine.threads) (hid : t.id < m.nextThread) :
    ∃ t₀ ∈ m.threads, t₀.id = t.id ∧ t₀.target = t.target ∧ t₀.top = t.top := by
  have hproceeds : m.Proceeds now.machine →
      ∃ t₀ ∈ m.threads, t₀.id = t.id ∧ t₀.target = t.target ∧ t₀.top = t.top := by
    intro h
    obtain ⟨i, hi⟩ := mem_iff_getElem?.mp ht
    obtain ⟨t₀, ht₀, hsame, -, htarget, htop⟩ := h.origin hi hid
    exact ⟨t₀, mem_of_getElem? ht₀, hsame.symm, htarget.symm, htop.symm⟩
  cases h with
  | other h => exact hproceeds h
  | turn _ _ h _ => exact hproceeds h
  | give _ hthreads =>
    rw [hthreads] at ht
    exact ⟨t, (mem_filter.mp ht).1, rfl, rfl, rfl⟩

/-- A thread leaves the list by being given away, or it keeps its place, or a new thread of the same
script has the place. -/
theorem stays (hm : m.Tidy) (ht : m.threads[i]? = some t) :
    (∃ done, now.deed = .give done ∧ (t ∈ done ∨ t ∈ now.machine.threads)) ∨
      ∃ t', now.machine.threads[i]? = some t' ∧ t'.target = t.target ∧ t'.top = t.top ∧
        (t'.id = t.id ∨ m.nextThread ≤ t'.id ∧ now.machine.Dead t.id) := by
  have hproceeds : m.Proceeds now.machine → ∃ t', now.machine.threads[i]? = some t' ∧
      t'.target = t.target ∧ t'.top = t.top ∧
        (t'.id = t.id ∨ m.nextThread ≤ t'.id ∧ now.machine.Dead t.id) := by
    intro h
    obtain ⟨t', ht', hholds⟩ := h.slots i t ht
    refine ⟨t', ht', hholds.target, hholds.top, hholds.id.imp And.left fun hle => ⟨hle, ?_⟩⟩
    refine h.dead_of_replaced hm ht ht' fun heq => ?_
    exact Nat.lt_irrefl _ (Nat.lt_of_lt_of_le (heq ▸ hm.given t (mem_of_getElem? ht)) hle)
  cases h with
  | other h => exact .inr (hproceeds h)
  | turn _ _ h _ => exact .inr (hproceeds h)
  | give _ hthreads =>
    refine .inl ⟨_, rfl, ?_⟩
    have hmem := mem_of_getElem? ht
    rw [hthreads]
    by_cases hdone : t.isDone
    · exact .inl (mem_filter.mpr ⟨hmem, hdone⟩)
    · exact .inr (mem_filter.mpr ⟨hmem, by simpa using hdone⟩)

/-- The threads that are given away were in the list, each once, and are not in it any more. -/
theorem given (hm : m.Tidy) :
    (now.deed.given.map Thread.id).Nodup ∧
      ∀ t ∈ now.deed.given, t ∈ m.threads ∧ ∀ t' ∈ now.machine.threads, t'.id ≠ t.id := by
  cases h with
  | other _ => exact ⟨nodup_nil, fun _ ht => by cases ht⟩
  | turn _ _ _ _ => exact ⟨nodup_nil, fun _ ht => by cases ht⟩
  | give _ hthreads =>
    refine ⟨hm.nodup.sublist (filter_sublist.map _), fun t ht => ?_⟩
    obtain ⟨hmem, hdone⟩ := mem_filter.mp ht
    refine ⟨hmem, fun t' ht' hid => ?_⟩
    rw [hthreads] at ht'
    obtain ⟨hmem', halive⟩ := mem_filter.mp ht'
    rw [hm.eq_of_id hmem' hmem hid, hdone] at halive
    cases halive

end

end Happens

namespace Past

variable {m m' : Machine σ} {moments : List (Moment σ)} {id : ThreadId}

theorem tidy (h : Past m moments m') (hm : m.Tidy) : ∀ now ∈ moments, now.machine.Tidy := by
  induction h with
  | nil => simp
  | cons hnow _ ih =>
    exact forall_mem_cons.mpr ⟨hnow.tidy hm, ih (hnow.tidy hm)⟩

/-- What comes after a moment begins with the machine as it is then. -/
theorem after {earlier later : List (Moment σ)} {now : Moment σ}
    (h : Past m (earlier ++ now :: later) m') : Past now.machine later m' := by
  induction earlier generalizing m with
  | nil =>
    cases h with
    | cons _ hrest => exact hrest
  | cons first earlier ih =>
    cases h with
    | cons _ hrest => exact ih hrest

section

variable (h : Past m moments m')

include h

/-- What is dead has no turn any more, and never goes on. -/
theorem dead (hdead : m.Dead id) :
    ∀ now ∈ moments, now.machine.Dead id ∧ ∀ i s, now.deed ≠ .turn id i s := by
  induction h with
  | nil => simp
  | cons hnow _ ih =>
    have hfirst := hnow.dead hdead
    exact forall_mem_cons.mpr ⟨hfirst, ih hfirst.1⟩

/-- No thread comes back: one with an id that was given out before was there all the time. -/
theorem origin : ∀ now ∈ moments, ∀ t ∈ now.machine.threads,
    t.id < m.nextThread →
      ∃ t₀ ∈ m.threads, t₀.id = t.id ∧ t₀.target = t.target ∧ t₀.top = t.top := by
  induction h with
  | nil => simp
  | cons hnow _ ih =>
    refine forall_mem_cons.mpr ⟨fun t ht hid => hnow.origin ht hid, fun now hmem t ht hid => ?_⟩
    obtain ⟨t₁, ht₁, hid₁, htarget₁, htop₁⟩ :=
      ih now hmem t ht (Nat.lt_of_lt_of_le hid hnow.next)
    obtain ⟨t₀, ht₀, hid₀, htarget₀, htop₀⟩ := hnow.origin ht₁ (hid₁ ▸ hid)
    exact ⟨t₀, ht₀, hid₀.trans hid₁, htarget₀.trans htarget₁, htop₀.trans htop₁⟩

/-- No thread is given away twice. -/
theorem given (hm : m.Tidy) :
    ((givenIn moments).map Thread.id).Nodup ∧
      ∀ t ∈ givenIn moments, t.id < m.nextThread → ∃ t₀ ∈ m.threads, t₀.id = t.id := by
  induction h with
  | nil => exact ⟨nodup_nil, by simp [givenIn]⟩
  | @cons m m' now moments hnow hrest ih =>
    obtain ⟨hnodup, horigin⟩ := ih (hnow.tidy hm)
    obtain ⟨hfirst, hgone⟩ := hnow.given hm
    have hsplit : givenIn (now :: moments) = now.deed.given ++ givenIn moments :=
      flatMap_cons
    rw [hsplit]
    refine ⟨?_, fun t ht hid => ?_⟩
    · rw [map_append]
      refine nodup_append.mpr ⟨hfirst, hnodup, fun id hid id' hid' heq => ?_⟩
      obtain ⟨t, ht, rfl⟩ := mem_map.mp hid
      obtain ⟨t', ht', rfl⟩ := mem_map.mp hid'
      obtain ⟨hmem, hout⟩ := hgone t ht
      -- A thread given away later was in the list after this sweep.
      have hlt : t'.id < now.machine.nextThread :=
        Nat.lt_of_lt_of_le (heq ▸ hm.given t hmem) hnow.next
      obtain ⟨t₀, ht₀, hid₀⟩ := horigin t' ht' hlt
      exact hout t₀ ht₀ (hid₀.trans heq.symm)
    · rcases mem_append.mp ht with ht | ht
      · exact ⟨t, (hgone t ht).1, rfl⟩
      · obtain ⟨t₁, ht₁, hid₁⟩ := horigin t ht (Nat.lt_of_lt_of_le hid hnow.next)
        obtain ⟨t₀, ht₀, hid₀, -⟩ := hnow.origin ht₁ (hid₁ ▸ hid)
        exact ⟨t₀, ht₀, hid₀.trans hid₁⟩

theorem tidy_last (hm : m.Tidy) : m'.Tidy := by
  induction h with
  | nil => exact hm
  | cons hnow _ ih => exact ih (hnow.tidy hm)

/-- Each moment happens to a machine with threads in order. -/
theorem happens (hm : m.Tidy) : ∀ now ∈ moments,
    ∃ m₀ : Machine σ, m₀.Tidy ∧ Happens m₀ now := by
  induction h with
  | nil => simp
  | cons hnow _ ih => exact forall_mem_cons.mpr ⟨⟨_, hm, hnow⟩, ih (hnow.tidy hm)⟩

end

end Past

/-- **No thread is lost, duplicated or resurrected.** Take any operations on a machine that has no
threads yet, and the chronicle of what it does. Then at each moment
* the threads in the list have different ids;
* a thread that was in the list is still in its place, or is given away or kept by a sweep, or its
  place has a new thread of the same script, and it is dead;
* no thread is given away twice;
* a thread that was stopped in its turn, by itself or through its place, or whose place was given
  away then, is dead;
* what is dead stays dead and is given no turn any more, and a thread in the list whose id was given
  out before was in the list then. -/
theorem threads_live_once {kit : Kit σ} {start m : Machine σ} {ops : List (Operation × Nat)}
    {returned : List Thread} (hstart : start.threads = [])
    (h : Machine.play kit ops start = some (returned, m)) :
    ∃ c : Chronicle σ, Chronicle.play kit ops { machine := start } = some (returned, c) ∧
      c.machine = m ∧ (m.threads.map Thread.id).Nodup ∧
      (∀ now ∈ c.moments, (now.machine.threads.map Thread.id).Nodup) ∧
      (∀ earlier before now later, c.moments = earlier ++ before :: now :: later →
        ∀ (i : Nat) (t : Thread), before.machine.threads[i]? = some t →
          (∃ done, now.deed = .give done ∧ (t ∈ done ∨ t ∈ now.machine.threads)) ∨
          ∃ t', now.machine.threads[i]? = some t' ∧ t'.target = t.target ∧ t'.top = t.top ∧
            (t'.id = t.id ∨ before.machine.nextThread ≤ t'.id ∧ now.machine.Dead t.id)) ∧
      returned = givenIn c.moments ∧ (returned.map Thread.id).Nodup ∧
      (∀ now ∈ c.moments, ∀ id i s, now.deed = .turn id i s → s.Over id i → now.machine.Dead id) ∧
      ∀ earlier now later, c.moments = earlier ++ now :: later → ∀ next ∈ later,
        (∀ id, now.machine.Dead id → next.machine.Dead id ∧ ∀ i s, next.deed ≠ .turn id i s) ∧
        ∀ t ∈ next.machine.threads, t.id < now.machine.nextThread →
          ∃ t₀ ∈ now.machine.threads, t₀.id = t.id ∧ t₀.target = t.target ∧ t₀.top = t.top := by
  have hfollows := Chronicle.play_follows kit ops { machine := start }
  rw [h] at hfollows
  obtain ⟨⟨returned', c⟩, hplay, heq⟩ := map_eq_some_iff.mp hfollows
  cases heq
  obtain ⟨moments, hmoments, hpast, rfl⟩ := Chronicle.play_tells kit ops _ _ _ hplay
  have hc : c.moments = moments := hmoments
  have htidy : start.Tidy := ⟨by rw [hstart]; exact nodup_nil, by rw [hstart]; simp⟩
  refine ⟨c, hplay, rfl, (hpast.tidy_last htidy).nodup, ?_⟩
  rw [hc]
  refine ⟨fun now hnow => (hpast.tidy htidy now hnow).nodup, ?_, rfl, (hpast.given htidy).1, ?_, ?_⟩
  · rintro earlier before now later rfl i t ht
    have hbefore : before.machine.Tidy := hpast.tidy htidy before (by simp)
    cases hpast.after with
    | cons hnow _ => exact hnow.stays hbefore ht
  · intro now hnow id i s hdeed hover
    obtain ⟨m₀, htidy₀, hhappens⟩ := hpast.happens htidy now hnow
    cases hhappens with
    | turn _ _ _ hdead =>
      cases hdeed
      exact hdead htidy₀ hover
    | other _ => cases hdeed
    | give _ _ => cases hdeed
  · rintro earlier now later rfl next hnext
    exact ⟨fun id hdead => hpast.after.dead hdead next hnext, hpast.after.origin next hnext⟩

/-- A stage with a script that waits in a loop. -/
def Machine.looping : Machine Unit :=
  (Machine.addTarget { clock := { tick := 1.0 }, host := () } (.stage (.ofBlocks [
    { id := "hat", opcode := "event_whenflagclicked", next := some "loop", isTopLevel := true },
    { id := "loop", opcode := "control_forever" }]))).2

/-- The script is started, started afresh, stopped, and given away once. -/
theorem looping_threads_live_once :
    ∃ (returned : List Thread) (m : Machine Unit) (c : Chronicle Unit),
      Machine.play { Library.core with }
        [(.greenFlag, 20), (.step, 40), (.greenFlag, 20), (.stopAll, 0), (.step, 40), (.step, 40)]
        Machine.looping = some (returned, m) ∧
      returned.map Thread.id = [1] ∧ c.machine = m ∧ returned = givenIn c.moments ∧
      ∀ now ∈ c.moments, (now.machine.threads.map Thread.id).Nodup := by
  have hplay : ((Machine.play { Library.core with }
      [(.greenFlag, 20), (.step, 40), (.greenFlag, 20), (.stopAll, 0), (.step, 40), (.step, 40)]
      Machine.looping).map fun p => p.1.map Thread.id) = some [1] := by decide +kernel
  obtain ⟨⟨returned, m⟩, h, hids⟩ := map_eq_some_iff.mp hplay
  obtain ⟨c, -, hm, -, hnodup, -, hgiven, -⟩ := threads_live_once rfl h
  exact ⟨returned, m, c, h, hids, hm, hgiven, hnodup⟩

end BlockMachine

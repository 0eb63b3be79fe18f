import BlockMachine.Proofs.Machine.Lifetimes
import BlockMachine.Proofs.Turn.Broadcast

/-!
# Waiting for receivers

A broadcast that waits goes on when the threads that it started are gone, and not before. What one
visit of the block does is said by `Stop.Leads.visits`. Here it is followed through the stops of a
turn (`Trail.revisits`), from turn to turn of the thread (`Machine.turn_revisits`), and through
whatever happens to the list of threads in between (`Course.revisits`).

This is so for a block with reporters in its inputs. They are run again on every visit, and one that
is no reporter can take the thread elsewhere (`impatient_goes_on_early`).

## Results

* `Stop.Leads.revisits`, `Trail.revisits`, `Machine.turn_revisits`, `Course.revisits`: a thread
  bides at the block from stop to stop, through a turn, and through a run.
* `broadcast_waits_for_receivers`: the block from its first visit to its last one.
* `impatient_goes_on_early`: an input that takes the thread elsewhere.

Left out is whether the receivers ever end.
-/

namespace BlockMachine

open List

variable {σ : Type} {kit : Kit σ} {ids : List ThreadId} {post : Post} {y : Stop σ}
  {coded goes : Bool} {later stops : List (Stop σ)} {t : Thread} {s : Turn σ} {m : Machine σ}
  {fuel : Nat}

/-! ## Within a turn -/

/-- One of the threads is left after each of the stops. -/
def Awaited (ids : List ThreadId) (stops : List (Stop σ)) : Prop :=
  ∀ z ∈ stops, ids.any z.after.machine.hasThread

/-- The stop is at the post and starts no thread. -/
def Stop.Revisits (kit : Kit σ) (ids : List ThreadId) (post : Post) (y : Stop σ) : Prop :=
  y.Postpones kit (some ids) post ∨ y.Visits kit (some ids) ids post

/-- A stop is made at the post as long as one of the threads is left after every stop before it. -/
def RevisitsUntil (kit : Kit σ) (ids : List ThreadId) (post : Post) (stops : List (Stop σ)) :
    Prop :=
  ∀ first y last, stops = first ++ y :: last → Awaited ids first → y.Revisits kit ids post

theorem revisitsUntil_nil : RevisitsUntil kit ids post [] := by
  intro first y last h
  simp at h

theorem revisitsUntil_cons (hy : y.Revisits kit ids post)
    (h : ids.any y.after.machine.hasThread → RevisitsUntil kit ids post stops) :
    RevisitsUntil kit ids post (y :: stops) := by
  intro first z last hstops hawaited
  cases first with
  | nil =>
    cases (cons.inj hstops).1
    exact hy
  | cons x first =>
    obtain ⟨rfl, hrest⟩ := cons.inj hstops
    obtain ⟨hx, hfirst⟩ := forall_mem_cons.mp hawaited
    exact h hx first z last hrest hfirst

theorem Stop.Leads.isAlive (h : y.Leads kit coded goes) : y.before.thread.status ≠ .done := by
  cases h with
  | block hready | blockFails hready =>
    intro hdone
    simp [Thread.isReady, hdone] at hready
  | instr hrun | instrFails hrun => simp [hrun]

/-- A thread that bides at the post makes its next stop there. -/
theorem Stop.Leads.revisits (hkit : kit.Broadcasts) (h : y.Leads kit coded goes)
    (hbides : y.before.thread.Bides kit (some ids) post) :
    y.Revisits kit ids post ∧
      (ids.any y.after.machine.hasThread → y.onward.thread.Bides kit (some ids) post) := by
  rcases hbides with hdone | hstands
  · exact absurd hdone h.isAlive
  · rcases h.visits hkit hstands with hpostpones | ⟨ids', hvisits⟩
    · exact ⟨.inl hpostpones, fun _ => hpostpones.bides⟩
    · obtain rfl : ids' = ids := by
        cases hvisits.sends
        rfl
      exact ⟨.inr hvisits, hvisits.left⟩

theorem Thread.Stands.startWarp (h : s.thread.Stands kit (some ids) post) :
    s.startWarp.thread.Stands kit (some ids) post := by
  unfold Turn.startWarp
  split
  · exact h.of_stack rfl rfl fun hwaits => ⟨hwaits, rfl⟩
  · exact h

theorem Thread.Bides.entered (coded : Bool) (h : s.thread.Bides kit (some ids) post) :
    (s.entered coded).thread.Bides kit (some ids) post := by
  cases coded with
  | true => exact h
  | false =>
    refine h.imp (fun hdone => ?_) fun hstands => hstands.startWarp
    show s.startWarp.thread.status = .done
    unfold Turn.startWarp
    split <;> exact hdone

/-- **A thread bides at the post from stop to stop.** -/
theorem Trail.revisits (hkit : kit.Broadcasts) {s' : Turn σ} (h : Trail kit coded s stops s')
    (hs : s.thread.Bides kit (some ids) post) :
    RevisitsUntil kit ids post stops ∧
      (Awaited ids stops → s'.thread.Bides kit (some ids) post) := by
  induction h with
  | @idle s s' _ hend =>
    refine ⟨revisitsUntil_nil, fun _ => ?_⟩
    rcases hend with rfl | rfl
    · exact hs
    · exact .inl rfl
  | @last s y hstart hleads =>
    obtain ⟨hy, honward⟩ := hleads.revisits hkit (hstart ▸ hs.entered coded)
    exact ⟨revisitsUntil_cons hy fun _ => revisitsUntil_nil,
      fun hawaited => honward (hawaited y mem_cons_self)⟩
  | @more s s' y stops hstart hleads _ ih =>
    obtain ⟨hy, honward⟩ := hleads.revisits hkit (hstart ▸ hs.entered coded)
    refine ⟨revisitsUntil_cons hy fun hany => (ih (honward hany)).1, fun hawaited => ?_⟩
    obtain ⟨hany, hrest⟩ := forall_mem_cons.mp hawaited
    exact (ih (honward hany)).2 hrest

namespace Turn

variable {s s' : Turn σ} {fuel : Nat}

/-- So it does in a turn that goes on where it was left. -/
theorem step_revisits (hkit : kit.Broadcasts) (hready : s.thread.isReady)
    (hs : s.thread.Bides kit (some ids) post) (h : s.step kit fuel = some s') :
    RevisitsUntil kit ids post (s.stepStops kit fuel) ∧
      (Awaited ids (s.stepStops kit fuel) → s'.thread.Bides kit (some ids) post) := by
  rcases hs with hdone | hstands
  · simp [Thread.isReady, hdone] at hready
  cases post with
  | block id rest =>
    obtain ⟨upper, f, hat⟩ := hstands
    have hblock : s.thread.block?.isSome := by
      rw [Option.isSome_iff_exists]
      cases upper with
      | nil => exact ⟨id, (block?_of_stack hat.stack).trans hat.block⟩
      | cons u upper =>
        obtain ⟨-, id', -, hu, -⟩ := hat.hanging.frames u mem_cons_self
        exact ⟨id', (block?_of_stack hat.stack).trans hu⟩
    exact (step_trail_of_block hready hat.cursor? hblock h).revisits hkit (.inr ⟨upper, f, hat⟩)
  | instr script pc rest =>
    have hresumed : s.resumed.thread.Stands kit (some ids) (.instr script pc rest) := by
      unfold resumed
      dsimp only
      split
      · exact hstands.startWarp.of_stack rfl rfl fun hwaits => by cases hwaits
      · exact hstands.startWarp
    obtain ⟨f, c, hat⟩ := hstands
    have hcursor : s.thread.cursor?.isSome := by rw [hat.cursor.cursor?]; rfl
    exact (step_trail_of_code hcursor h).revisits hkit (.inr hresumed)

/-- A reporter in an input that has its value, or has to go without it, is left. -/
theorem awaken_bides (hwaits : s.thread.status = .promiseWait)
    (hs : s.thread.Bides kit (some ids) post) :
    (s.awaken kit).2.thread.Bides kit (some ids) post := by
  rcases hs with hdone | hstands
  · rw [hwaits] at hdone
    cases hdone
  cases post with
  | instr script pc rest =>
    obtain ⟨f, c, hat⟩ := hstands
    exact absurd hwaits hat.status
  | block id rest =>
  obtain ⟨upper, f, hat⟩ := hstands
  obtain ⟨hupper, hwaiter⟩ := hat.pending hwaits
  obtain ⟨u, upper, rfl⟩ := exists_cons_of_ne_nil hupper
  obtain ⟨g, rest', hbelow⟩ : ∃ g rest', upper ++ f :: rest = g :: rest' :=
    exists_cons_of_ne_nil (by simp)
  have hstack : s.thread.stack = u :: g :: rest' := by rw [hat.stack, cons_append, hbelow]
  have hwaiting : g.waiting.isSome :=
    (hat.pop hbelow rfl rfl
      (show ({ s.thread with stack := g :: rest', status := .running } : Thread).sheet = _ from rfl)
      rfl (by simp)).1
  -- The frame below is at the post or waits for the reporter on top.
  have hpop : ∀ {t : Thread} {g' : Frame}, g'.bare = g.bare → g'.waiting = g.waiting →
      t.sheet = s.thread.sheet → t.stack = g' :: rest' → t.status = .running →
        t.Bides kit (some ids) (.block id rest) := by
    intro t g' hbare hwaiting hsheet ht hrun
    exact .inr (hat.pop hbelow hbare hwaiting hsheet ht (by simp [hrun])).2
  have hawake : Thread.Stands kit (some ids) s.thread (.block id rest) := ⟨_, f, hat⟩
  refine awaken_induction (P := (·.thread.Bides kit (some ids) (.block id rest))) (.inr hawake)
    (.inr (hawake.of_stack rfl rfl fun hstatus => by cases hstatus)) (fun pending v hpending => ?_)
    fun pending hpending => ?_
  · have hreporter : (s.thread.stack[1]?.bind Frame.waiting).isSome := by
      rw [hstack]
      exact hwaiting
    have hreport : (({ s.thread with pending := none, status := .running } : Thread).report v).pop =
        { s.thread with
          pending := none, status := .running, stack := g.takeReport v :: rest' } := by
      unfold Thread.report Thread.pop
      rw [hstack]
      rfl
    rw [hwaiter pending hpending]
    unfold settle
    dsimp only
    rw [if_pos hreporter, hreport]
    exact hpop (g.takeReport_bare v) (g.takeReport_waiting v) rfl rfl rfl
  · have hforgo : endIfEmpty ({ s.thread with pending := none, status := .running } : Thread).pop =
        { s.thread with pending := none, status := .running, stack := g :: rest' } := by
      unfold Thread.pop
      rw [hstack]
      rfl
    rw [hwaiter pending hpending]
    unfold forgo
    dsimp only
    rw [hforgo]
    exact hpop rfl rfl rfl rfl rfl

theorem await_revisits (hkit : kit.Broadcasts) (hwaits : s.thread.status = .promiseWait)
    (hs : s.thread.Bides kit (some ids) post) (h : s.await kit fuel = some s') :
    RevisitsUntil kit ids post (s.awaitStops kit fuel) ∧
      (Awaited ids (s.awaitStops kit fuel) → s'.thread.Bides kit (some ids) post) := by
  have hs₁ : (s.awaken kit).2.thread.Bides kit (some ids) post := awaken_bides hwaits hs
  rw [await_eq] at h
  rw [awaitStops_eq]
  split at h
  · rename_i hgoes
    rw [if_pos hgoes]
    exact step_revisits hkit (awaken_isReady hgoes) hs₁ h
  · rename_i hstays
    rw [if_neg hstays]
    cases h
    exact ⟨revisitsUntil_nil, fun _ => hs₁⟩

end Turn

/-- The stops of a turn of the thread. -/
theorem Machine.turn_revisits {i : Nat} (hkit : kit.Broadcasts) (hturn : hasTurn t)
    (ht : t.Bides kit (some ids) post) (h : m.turn kit fuel i t = some s) :
    RevisitsUntil kit ids post (m.turnStops kit fuel i t) ∧
      (Awaited ids (m.turnStops kit fuel i t) → s.thread.Bides kit (some ids) post) := by
  unfold turn at h
  unfold turnStops
  dsimp only at h ⊢
  by_cases hwaits : t.status = .promiseWait
  · rw [if_pos (by simp [hwaits])] at h ⊢
    exact Turn.await_revisits hkit hwaits ht h
  · rw [if_neg (by simpa using hwaits)] at h ⊢
    refine Turn.step_revisits hkit ?_ ht h
    unfold hasTurn at hturn
    unfold Thread.isReady
    simp_all

/-! ## From turn to turn -/

/-- The stops that are made in a visit of a place. -/
def Machine.visitStops (kit : Kit σ) (fuel : Nat) (isFirst : Bool) (i : Nat) (m : Machine σ) :
    List (Stop σ) :=
  match m.threads[i]? with
  | none => []
  | some t => if hasTurn (wake isFirst t) then m.turnStops kit fuel i (wake isFirst t) else []

/-- What happens in a moment, with the stops that are made then. -/
inductive Occurs (kit : Kit σ) (m : Machine σ) : Moment σ → List (Stop σ) → Prop
  | visit {m' : Machine σ} {fuel i : Nat} {isFirst : Bool}
      (h : m.visit kit fuel isFirst i = some m') :
      Occurs kit m ⟨m.visitDeed kit fuel isFirst i, m'⟩ (m.visitStops kit fuel isFirst i)
  | give : Occurs kit m ⟨.give (m.threads.filter Thread.isDone),
      { m with threads := m.threads.filter (!·.isDone) }⟩ []
  | other {m' : Machine σ} (h : m.Evolves m') : Occurs kit m ⟨.other, m'⟩ []

/-- Moments that lead from one machine to another, with all stops that are made. -/
inductive Course (kit : Kit σ) : Machine σ → List (Moment σ) → List (Stop σ) → Machine σ → Prop
  | nil (m : Machine σ) : Course kit m [] [] m
  | cons {m m' : Machine σ} {now : Moment σ} {moments : List (Moment σ)}
      {stops later : List (Stop σ)} (h : Occurs kit m now stops)
      (hrest : Course kit now.machine moments later m') :
      Course kit m (now :: moments) (stops ++ later) m'

theorem Course.append {m₁ m₂ : Machine σ} {l l' : List (Moment σ)} {stops' : List (Stop σ)}
    (h : Course kit m l stops m₁) (h' : Course kit m₁ l' stops' m₂) :
    Course kit m (l ++ l') (stops ++ stops') m₂ := by
  induction h with
  | nil => exact h'
  | cons hnow _ ih =>
    rw [append_assoc]
    exact .cons hnow (ih h')

theorem Occurs.course {now : Moment σ} (h : Occurs kit m now stops) :
    Course kit m [now] stops now.machine := by
  have hcourse := Course.cons h (.nil _)
  rwa [append_nil] at hcourse

/-- Every operation has its stops. -/
theorem course_story (kit : Kit σ) :
    Story kit fun m moments m' => ∃ stops, Course kit m moments stops m' where
  nil m := ⟨[], .nil m⟩
  append := fun ⟨stops, h⟩ ⟨stops', h'⟩ => ⟨stops ++ stops', h.append h'⟩
  visit h := ⟨_, (Occurs.visit h).course⟩
  give _ := ⟨_, Occurs.give.course⟩
  other h := ⟨_, (Occurs.other h).course⟩

namespace Machine

variable {m m' : Machine σ} {id : ThreadId} {i j : Nat} {t' : Thread}

/-- Of the ids that were given out, those in the list afterwards were in it before. -/
structure Sheds (m m' : Machine σ) : Prop where
  next : m.nextThread ≤ m'.nextThread
  left : ∀ id, id < m.nextThread → m'.hasThread id → m.hasThread id

instance : Lasting (Sheds : Machine σ → Machine σ → Prop) where
  refl _ := ⟨Nat.le_refl _, fun _ _ h => h⟩
  trans h h' := ⟨Nat.le_trans h.next h'.next, fun id hid hhas =>
    h.left id hid (h'.left id (Nat.lt_of_lt_of_le hid h.next) hhas)⟩

theorem hasThread_iff : m.hasThread id ↔ ∃ t ∈ m.threads, t.id = id := by
  unfold hasThread
  rw [any_eq_true]
  simp

theorem Sheds.any (h : m.Sheds m') (hgiven : ∀ id ∈ ids, id < m.nextThread)
    (hany : ids.any m'.hasThread) : ids.any m.hasThread := by
  obtain ⟨id, hid, hhas⟩ := any_eq_true.mp hany
  exact any_eq_true.mpr ⟨id, hid, h.left id (hgiven id hid) hhas⟩

theorem Evolves.sheds (h : m.Evolves m') : m.Sheds m' := by
  refine ⟨h.next, fun id hid hhas => ?_⟩
  obtain ⟨t', ht', rfl⟩ := hasThread_iff.mp hhas
  obtain ⟨i, hi⟩ := mem_iff_getElem?.mp ht'
  obtain ⟨t, ht, -, hsame⟩ := h.old hi hid
  exact hasThread_iff.mpr ⟨t, mem_of_getElem? ht, hsame.symm⟩

/-- A place is given to another state of its thread. -/
theorem sheds_set (ht : m.threads[i]? = some t) (hid : t'.id = t.id) :
    m.Sheds { m with threads := m.threads.set i t' } := by
  refine ⟨Nat.le_refl _, fun id _ hhas => hasThread_iff.mpr ?_⟩
  obtain ⟨t₁, ht₁, rfl⟩ := hasThread_iff.mp hhas
  rcases mem_or_eq_of_mem_set ht₁ with hmem | rfl
  · exact ⟨t₁, hmem, rfl⟩
  · exact ⟨t, mem_of_getElem? ht, hid.symm⟩

theorem sheds_putBack (m : Machine σ) (i : Nat) (t : Thread) : m.Sheds (m.putBack i t) := by
  unfold putBack
  split
  · rename_i slot hslot
    split
    · rename_i hid
      refine sheds_set hslot ?_
      split <;> exact (beq_iff_eq.mp hid).symm
    · exact Lasting.refl m
  · exact Lasting.refl m

/-- A visit of a place with its stops. -/
theorem visit_stops {isFirst : Bool} (h : m.visit kit fuel isFirst i = some m') :
    (m.visitStops kit fuel isFirst i = [] ∧ (m' = m ∨ ∃ t, m.threads[i]? = some t ∧
        m' = { m with threads := m.threads.set i (wake isFirst t) })) ∨
      ∃ t s, m.threads[i]? = some t ∧ hasTurn (wake isFirst t) ∧
        m.turn kit fuel i (wake isFirst t) = some s ∧
        m' = s.machine.putBack i { s.thread with warpStart := none } ∧
        m.visitStops kit fuel isFirst i = m.turnStops kit fuel i (wake isFirst t) := by
  unfold visitStops
  rcases visit_cases h with ⟨ht, rfl⟩ | ⟨t, ht, ⟨hturn, rfl⟩ | ⟨hturn, s, hs, rfl⟩⟩
  all_goals rw [ht]
  · exact .inl ⟨rfl, .inl rfl⟩
  · exact .inl ⟨if_neg (Bool.not_eq_true _ ▸ hturn), .inr ⟨t, rfl, rfl⟩⟩
  · exact .inr ⟨t, s, rfl, hturn, hs, rfl, if_pos hturn⟩

section Turn

variable {t t₀ : Thread} {s : Turn σ} {fuel : Nat}

/-- The list of threads loses given ids only, from stop to stop of a turn. -/
theorem turnStops_shed (ht₀ : m.threads[i]? = some t₀) (hid : t.id = t₀.id) (hturn : hasTurn t)
    (h : m.turn kit fuel i t = some s) :
    (∀ y ∈ m.turnStops kit fuel i t, y.before.thread.id = t.id ∧ m.Sheds y.before.machine ∧
        y.before.machine.Sheds y.after.machine ∧ y.after.machine.Sheds s.machine) ∧
      (m.turnStops kit fuel i t).Pairwise fun z y => z.after.machine.Sheds y.before.machine := by
  have hset : m.Sheds { m with threads := m.threads.set i t.placeholder } := sheds_set ht₀ hid
  rcases turn_trail hturn h with hnone | ⟨coded, s₁, hstart, htrail⟩
  · rw [hnone]
    exact ⟨forall_mem_nil _, .nil⟩
  · obtain ⟨-, hstops, hpairwise⟩ := htrail.pairwise
    refine ⟨fun y hy => ?_, hpairwise.imp fun h => h.machine.sheds⟩
    obtain ⟨hbefore, hstop, hafter⟩ := hstops y hy
    have hevolves := Lasting.trans hstart hbefore
    exact ⟨hevolves.thread.id, Lasting.trans hset hevolves.machine.sheds, hstop.machine.sheds,
      hafter.machine.sheds⟩

/-- A thread that is in the list at the end of a turn, with an id that was given out before, is in
the place of the thread that had the turn, or was in its place before. -/
theorem turn_old (ht₀ : m.threads[i]? = some t₀) (h : m.turn kit fuel i t = some s)
    (ht' : s.machine.threads[j]? = some t') (hgiven : t'.id < m.nextThread) :
    (j = i ∧ t'.id = t.id) ∨
      (j ≠ i ∧ ∃ t₁, m.threads[j]? = some t₁ ∧ t₁.Becomes m.nextThread t' ∧ t'.id = t₁.id) := by
  obtain ⟨t₁, ht₁, hbecomes, hsame⟩ := (turn_evolves h).machine.old ht' hgiven
  by_cases hj : j = i
  · subst hj
    have hlt := (List.getElem?_eq_some_iff.mp ht₀).1
    cases (getElem?_set_self hlt).symm.trans ht₁
    exact .inl ⟨rfl, hsame⟩
  · exact .inr ⟨hj, t₁, (getElem?_set_ne (Ne.symm hj)).symm.trans ht₁, hbecomes, hsame⟩

theorem putBack_mem (h : t' ∈ (m.putBack i t).threads) :
    t' ∈ m.threads ∨ t' = t ∨ t' = t.retire := by
  unfold putBack at h
  split at h
  · split at h
    · refine (mem_or_eq_of_mem_set h).imp_right fun heq => ?_
      split at heq
      · exact .inr heq
      · exact .inl heq
    · exact .inl h
  · exact .inl h

end Turn

/-- Every thread in the list that has the id bides at the post. -/
def Bidden (kit : Kit σ) (ids : List ThreadId) (post : Post) (id : ThreadId) (m : Machine σ) :
    Prop :=
  ∀ t ∈ m.threads, t.id = id → t.Bides kit (some ids) post

theorem becomes_bides {next : ThreadId} (h : t.Becomes next t') (hid : t'.id < next)
    (ht : t.Bides kit (some ids) post) : t'.Bides kit (some ids) post := by
  cases h with
  | same => exact ht
  | retired => exact .inl rfl
  | replaced hnew => exact absurd hid (Nat.not_lt.mpr hnew)

theorem Evolves.bidden (h : m.Evolves m') (hid : id < m.nextThread)
    (hm : m.Bidden kit ids post id) :
    m'.Bidden kit ids post id := by
  rintro t' ht' rfl
  obtain ⟨i, hi⟩ := mem_iff_getElem?.mp ht'
  obtain ⟨t, ht, hbecomes, hsame⟩ := h.old hi hid
  exact becomes_bides hbecomes hid (hm t (mem_of_getElem? ht) hsame.symm)

section PutBack

variable {t t₀ : Thread} {s : Turn σ} {fuel : Nat} (hm : m.Tidy) (ht₀ : m.threads[i]? = some t₀)
  (hid : t.id = t₀.id) (h : m.turn kit fuel i t = some s)

include hm ht₀ hid h

/-- The thread that had its turn is in no other place. -/
theorem turn_unique (ht' : s.machine.threads[j]? = some t') (hsame : t'.id = t.id) : j = i := by
  have hgiven : t'.id < m.nextThread := by
    rw [hsame, hid]
    exact hm.given t₀ (mem_of_getElem? ht₀)
  rcases turn_old ht₀ h ht' hgiven with ⟨hj, -⟩ | ⟨-, t₁, ht₁, -, hold⟩
  · exact hj
  · exact hm.unique ht₁ ht₀ (hold.symm.trans (hsame.trans hid))

/-- After its own turn the thread bides as the turn left it. -/
theorem bidden_own (hs : s.thread.Bides kit (some ids) post) :
    (s.machine.putBack i { s.thread with warpStart := none }).Bidden kit ids post t.id := by
  obtain ⟨slot, hslot, -⟩ := turn_slot (List.getElem?_eq_some_iff.mp ht₀).1 h
  have hback : { s.thread with warpStart := none }.Bides kit (some ids) post :=
    hs.imp_right fun hstands => hstands.of_stack rfl rfl fun hwaits => ⟨hwaits, rfl⟩
  intro t' ht' hsame
  obtain ⟨j, hj⟩ := mem_iff_getElem?.mp ht'
  rcases putBack_eq hslot { s.thread with warpStart := none } with ⟨-, heq⟩ | ⟨hother, heq⟩
  · rw [heq] at hj
    by_cases hji : j = i
    · subst hji
      cases (getElem?_set_self (List.getElem?_eq_some_iff.mp hslot).1).symm.trans hj
      split
      · exact .inl rfl
      · exact hback
    · exact absurd (turn_unique hm ht₀ hid h ((getElem?_set_ne (Ne.symm hji)).symm.trans hj) hsame)
        hji
  · rw [heq] at hj
    cases turn_unique hm ht₀ hid h hj hsame
    cases hslot.symm.trans hj
    exact absurd (hsame.trans (turn_evolves h).thread.id.symm) hother

omit hid hm in
/-- After the turn of another thread the thread bides as before. -/
theorem bidden_other (hgiven : id < m.nextThread) (hother : t.id ≠ id)
    (hbidden : m.Bidden kit ids post id) :
    (s.machine.putBack i { s.thread with warpStart := none }).Bidden kit ids post id := by
  rintro t' ht' rfl
  have hthread : s.thread.id = t.id := (turn_evolves h).thread.id
  rcases putBack_mem ht' with hmem | rfl | rfl
  · obtain ⟨j, hj⟩ := mem_iff_getElem?.mp hmem
    rcases turn_old ht₀ h hj hgiven with ⟨-, hsame⟩ | ⟨-, t₁, ht₁, hbecomes, hsame⟩
    · exact absurd hsame.symm hother
    · exact becomes_bides hbecomes hgiven (hbidden t₁ (mem_of_getElem? ht₁) hsame.symm)
  · exact absurd hthread.symm hother
  · exact absurd hthread.symm hother

end PutBack
end Machine

theorem Thread.Bides.wake (isFirst : Bool) (h : t.Bides kit (some ids) post) :
    (Machine.wake isFirst t).Bides kit (some ids) post := by
  unfold Machine.wake
  split
  · rename_i hsleeps
    refine .inr ((h.resolve_left fun hdone => ?_).of_stack rfl rfl fun hwaits => by cases hwaits)
    simp [hdone] at hsleeps
  · exact h

/-! ## Stops of one thread -/

/-- The stops that a thread makes. -/
def stopsOf (id : ThreadId) (stops : List (Stop σ)) : List (Stop σ) :=
  stops.filter (·.before.thread.id == id)

theorem stopsOf_append (id : ThreadId) (stops later : List (Stop σ)) :
    stopsOf id (stops ++ later) = stopsOf id stops ++ stopsOf id later :=
  filter_append ..

theorem stopsOf_self {id : ThreadId} (h : ∀ y ∈ stops, y.before.thread.id = id) :
    stopsOf id stops = stops :=
  filter_eq_self.mpr fun y hy => beq_iff_eq.mpr (h y hy)

theorem stopsOf_other {id id' : ThreadId} (h : ∀ y ∈ stops, y.before.thread.id = id')
    (hne : id' ≠ id) :
    stopsOf id stops = [] :=
  filter_eq_nil_iff.mpr fun y hy => by simp [h y hy, hne]

theorem revisitsUntil_append (h : RevisitsUntil kit ids post stops)
    (hlater : Awaited ids stops → RevisitsUntil kit ids post later) :
    RevisitsUntil kit ids post (stops ++ later) := by
  induction stops with
  | nil => exact hlater (forall_mem_nil _)
  | cons y stops ih =>
    refine revisitsUntil_cons (h [] y stops rfl (forall_mem_nil _)) fun hany => ?_
    refine ih (fun first z last hstops hawaited => ?_) fun hawaited => ?_
    · exact h (y :: first) z last (hstops ▸ rfl) (forall_mem_cons.mpr ⟨hany, hawaited⟩)
    · exact hlater (forall_mem_cons.mpr ⟨hany, hawaited⟩)

section Occurs

variable {m m' : Machine σ} {now : Moment σ} {moments : List (Moment σ)}
  {stops earlier : List (Stop σ)} {id : ThreadId} {x : Stop σ}

theorem Occurs.happens (h : Occurs kit m now stops) : Happens m now := by
  cases h with
  | visit h => exact Machine.visit_happens h
  | give => exact .give rfl rfl
  | other h => exact .other h.proceeds

/-- The list of threads loses given ids only, from stop to stop. -/
theorem Occurs.sheds (h : Occurs kit m now stops) : m.Sheds now.machine ∧
    (∀ y ∈ stops, m.Sheds y.before.machine ∧ y.before.machine.Sheds y.after.machine ∧
        y.after.machine.Sheds now.machine) ∧
      stops.Pairwise fun z y => z.after.machine.Sheds y.before.machine := by
  cases h with
  | @visit m' fuel i isFirst h =>
    rcases Machine.visit_stops h with ⟨hstops, hm'⟩ | ⟨t, s, ht, hturn, hs, rfl, hstops⟩
    · rw [hstops]
      refine ⟨?_, forall_mem_nil _, .nil⟩
      rcases hm' with rfl | ⟨t, ht, rfl⟩
      · exact Lasting.refl _
      · exact Machine.sheds_set ht (Machine.wake_same isFirst t).1
    · rw [hstops]
      have hid := (Machine.wake_same isFirst t).1
      have hset : m.Sheds
          { m with threads := m.threads.set i (Machine.wake isFirst t).placeholder } :=
        Machine.sheds_set ht hid
      have hback := Machine.sheds_putBack s.machine i { s.thread with warpStart := none }
      obtain ⟨hall, hpairwise⟩ := Machine.turnStops_shed ht hid hturn hs
      refine ⟨?_, fun y hy => ?_, hpairwise⟩
      rotate_left
      · obtain ⟨-, hbefore, hstop, hafter⟩ := hall y hy
        exact ⟨hbefore, hstop, Lasting.trans hafter hback⟩
      exact Lasting.trans hset (Lasting.trans (Machine.turn_evolves hs).machine.sheds hback)
  | give =>
    refine ⟨⟨Nat.le_refl _, fun id _ hhas => ?_⟩, forall_mem_nil _, .nil⟩
    obtain ⟨t, ht, hid⟩ := Machine.hasThread_iff.mp hhas
    exact Machine.hasThread_iff.mpr ⟨t, (mem_filter.mp ht).1, hid⟩
  | other h => exact ⟨h.sheds, forall_mem_nil _, .nil⟩

theorem Course.sheds (h : Course kit m moments stops m') : m.Sheds m' ∧
    (∀ y ∈ stops, m.Sheds y.before.machine ∧ y.before.machine.Sheds y.after.machine ∧
        y.after.machine.Sheds m') ∧
      stops.Pairwise fun z y => z.after.machine.Sheds y.before.machine := by
  induction h with
  | nil m => exact ⟨Lasting.refl m, forall_mem_nil _, .nil⟩
  | cons hnow _ ih =>
    obtain ⟨hsheds, hstops, hpairwise⟩ := hnow.sheds
    obtain ⟨hsheds', hstops', hpairwise'⟩ := ih
    refine ⟨Lasting.trans hsheds hsheds', fun y hy => ?_, pairwise_append.mpr
      ⟨hpairwise, hpairwise', fun z hz y hy => Lasting.trans (hstops z hz).2.2 (hstops' y hy).1⟩⟩
    rcases mem_append.mp hy with hy | hy
    · obtain ⟨hbefore, hstop, hafter⟩ := hstops y hy
      exact ⟨hbefore, hstop, Lasting.trans hafter hsheds'⟩
    · exact ⟨Lasting.trans hsheds (hstops' y hy).1, (hstops' y hy).2⟩

/-- A thread that bides at the post makes its stops there, whatever happens in the moment. -/
theorem Occurs.revisits (hkit : kit.Broadcasts) (h : Occurs kit m now stops) (hm : m.Tidy)
    (hgiven : id < m.nextThread) (hbidden : m.Bidden kit ids post id) :
    RevisitsUntil kit ids post (stopsOf id stops) ∧
      (Awaited ids (stopsOf id stops) → now.machine.Bidden kit ids post id) := by
  cases h with
  | @visit m' fuel i isFirst h =>
    rcases Machine.visit_stops h with ⟨hstops, hm'⟩ | ⟨t, s, ht, hturn, hs, rfl, hstops⟩
    · rw [hstops]
      refine ⟨revisitsUntil_nil, fun _ => ?_⟩
      rcases hm' with rfl | ⟨t, ht, rfl⟩
      · exact hbidden
      · intro t' ht' hid
        rcases mem_or_eq_of_mem_set ht' with hmem | rfl
        · exact hbidden t' hmem hid
        · have hold := (Machine.wake_same isFirst t).1.symm.trans hid
          exact (hbidden t (mem_of_getElem? ht) hold).wake isFirst
    · rw [hstops]
      have hwake := (Machine.wake_same isFirst t).1
      have hof := fun y hy => ((Machine.turnStops_shed ht hwake hturn hs).1 y hy).1
      by_cases hid : (Machine.wake isFirst t).id = id
      · subst hid
        have hbides := (hbidden t (mem_of_getElem? ht) hwake.symm).wake isFirst
        obtain ⟨hrevisits, hend⟩ := Machine.turn_revisits hkit hturn hbides hs
        rw [stopsOf_self hof]
        exact ⟨hrevisits, fun hawaited => Machine.bidden_own hm ht hwake hs (hend hawaited)⟩
      · rw [stopsOf_other hof hid]
        exact ⟨revisitsUntil_nil, fun _ => Machine.bidden_other ht hs hgiven hid hbidden⟩
  | give =>
    exact ⟨revisitsUntil_nil, fun _ t ht hid => hbidden t (mem_filter.mp ht).1 hid⟩
  | other h => exact ⟨revisitsUntil_nil, fun _ => h.bidden hgiven hbidden⟩

/-- **A thread bides at the post through all that happens.** -/
theorem Course.revisits (hkit : kit.Broadcasts) (h : Course kit m moments stops m') (hm : m.Tidy)
    (hgiven : id < m.nextThread) (hbidden : m.Bidden kit ids post id) :
    RevisitsUntil kit ids post (stopsOf id stops) := by
  induction h with
  | nil => exact revisitsUntil_nil
  | cons hnow _ ih =>
    obtain ⟨hfirst, hnext⟩ := hnow.revisits hkit hm hgiven hbidden
    rw [stopsOf_append]
    refine revisitsUntil_append hfirst fun hawaited => ?_
    exact ih (hnow.happens.tidy hm) (Nat.lt_of_lt_of_le hgiven hnow.happens.next) (hnext hawaited)

/-- A stop is made in one of the moments. -/
theorem Course.split (h : Course kit m moments stops m') (hm : m.Tidy)
    (hstops : stops = earlier ++ x :: later) :
    ∃ m₀ now first last moments' later', m₀.Tidy ∧ Occurs kit m₀ now (first ++ x :: last) ∧
      Course kit now.machine moments' later' m' ∧ later = last ++ later' := by
  induction h generalizing earlier with
  | nil => simp at hstops
  | @cons m m' now moments stops rest hnow hrest ih =>
    rcases append_eq_append_iff.mp hstops with ⟨middle, rfl, hlater⟩ | ⟨middle, hfirst, hlater⟩
    · exact ih (hnow.happens.tidy hm) hlater
    · cases middle with
      | nil => exact ih (hnow.happens.tidy hm) (show rest = [] ++ x :: later from hlater.symm)
      | cons z last =>
        obtain ⟨rfl, rfl⟩ := cons.inj hlater
        exact ⟨m, now, earlier, last, moments, rest, hm, hfirst ▸ hnow, hrest, rfl⟩

theorem Occurs.of_stop (h : Occurs kit m now stops) (hx : x ∈ stops) :
    ∃ fuel i t₀ t s, m.threads[i]? = some t₀ ∧ t.id = t₀.id ∧ Machine.hasTurn t ∧
      m.turn kit fuel i t = some s ∧
      now.machine = s.machine.putBack i { s.thread with warpStart := none } ∧
      stops = m.turnStops kit fuel i t := by
  cases h with
  | @visit m' fuel i isFirst h =>
    rcases Machine.visit_stops h with ⟨hstops, -⟩ | ⟨t, s, ht, hturn, hs, rfl, hstops⟩
    · rw [hstops] at hx
      cases hx
    · exact ⟨fuel, i, t, _, s, ht, (Machine.wake_same isFirst t).1, hturn, hs, rfl, hstops⟩
  | give => cases hx
  | other => cases hx

/-- After a visit that starts threads, the thread makes its stops at the post until they are
gone. -/
theorem Course.waits (hkit : kit.Broadcasts) (h : Course kit m moments stops m') (hm : m.Tidy)
    (hstops : stops = earlier ++ x :: later) (hstands : x.before.thread.Stands kit none post) :
    x.Postpones kit none post ∨ ∃ ids, x.Visits kit none ids post ∧
      (ids.any x.after.machine.hasThread →
        RevisitsUntil kit ids post (stopsOf x.before.thread.id later)) := by
  obtain ⟨m₀, now, first, last, moments', later', hm₀, hnow, hrest, rfl⟩ := h.split hm hstops
  obtain ⟨fuel, i, t₀, t, s, ht₀, hid, hturn, hs, hmachine, hturnStops⟩ :=
    hnow.of_stop (x := x) (by simp)
  have hof := fun y hy => ((Machine.turnStops_shed ht₀ hid hturn hs).1 y hy).1
  rw [← hturnStops] at hof
  have hxid := hof x (by simp)
  rcases Machine.turn_trail hturn hs with hnone | ⟨coded, s₁, -, htrail⟩
  · rw [hnone] at hturnStops
    simp at hturnStops
  obtain ⟨goes, hleads, hafter⟩ := htrail.after hturnStops.symm
  rcases hleads.visits hkit hstands with hpostpones | ⟨ids, hvisits⟩
  · exact .inl hpostpones
  refine .inr ⟨ids, hvisits, fun hany => ?_⟩
  have hlast : RevisitsUntil kit ids post last ∧
      (Awaited ids last → s.thread.Bides kit (some ids) post) := by
    rcases hafter with ⟨-, rfl, rfl⟩ | ⟨-, hlast⟩
    · exact ⟨revisitsUntil_nil, fun _ => hvisits.left hany⟩
    · exact hlast.revisits hkit (hvisits.left hany)
  rw [stopsOf_append, hxid, stopsOf_self fun y hy => hof y (by simp [hy])]
  refine revisitsUntil_append hlast.1 fun hawaited => ?_
  refine hrest.revisits hkit (hnow.happens.tidy hm₀) ?_ ?_
  · rw [hid]
    exact Nat.lt_of_lt_of_le (hm₀.given t₀ (mem_of_getElem? ht₀)) hnow.happens.next
  · rw [hmachine]
    exact Machine.bidden_own hm₀ ht₀ hid hs (hlast.2 hawaited)

/-- As long as one of the threads is in the list it has been there since they were started. -/
theorem Course.waits_while_listed (h : Course kit m moments stops m')
    (hstops : stops = earlier ++ x :: later) (hgiven : ∀ id ∈ ids, id < x.after.machine.nextThread)
    (hwaits : ids.any x.after.machine.hasThread → RevisitsUntil kit ids post (stopsOf id later))
    (hy : y ∈ stopsOf id later) (hany : ids.any y.before.machine.hasThread) :
    y.Revisits kit ids post := by
  obtain ⟨-, hstop, hpairwise⟩ := h.sheds
  rw [hstops] at hpairwise hstop
  obtain ⟨hx, hlater⟩ := pairwise_cons.mp (pairwise_append.mp hpairwise).2.1
  obtain ⟨first, last, hsplit⟩ := append_of_mem hy
  refine hwaits ((hx y (mem_filter.mp hy).1).any hgiven hany) first y last hsplit fun z hz => ?_
  -- A stop of the thread in between has seen the same thread in the list.
  have hbetween : z.after.machine.Sheds y.before.machine := by
    have hown : (first ++ y :: last).Pairwise fun z y => z.after.machine.Sheds y.before.machine :=
      hsplit ▸ hlater.filter _
    exact (pairwise_append.mp hown).2.2 z hz y mem_cons_self
  have hzlater : z ∈ later := by
    have hmem : z ∈ stopsOf id later := by
      rw [hsplit]
      exact mem_append_left _ hz
    exact (mem_filter.mp hmem).1
  have hnext : x.after.machine.nextThread ≤ z.after.machine.nextThread :=
    Nat.le_trans (hx z hzlater).next (hstop z (by simp [hzlater])).2.1.next
  exact hbetween.any (fun id hid => Nat.lt_of_lt_of_le (hgiven id hid) hnext) hany

end Occurs

/-- **A broadcast that waits goes on when its receivers are gone, and starts them once.** Take any
operations on a machine that has no threads yet, and the stops of all turns. When a thread stops at
the block, whether it is interpreted or compiled, and has started no receivers there yet, then an
input has no value yet or ends the thread, or the scripts that receive the message are started, and
those are all the new threads. From then on
* a stop that the same thread makes while one of the receivers is in the list is at the block, with
  the frames below as they were, and starts no thread;
* so is every stop up to the one that finds none of them in the list, which leaves the block. -/
theorem broadcast_waits_for_receivers (hkit : kit.Broadcasts) {start m : Machine σ}
    {ops : List (Operation × Nat)} {returned : List Thread} (hstart : start.threads = [])
    (h : Machine.play kit ops start = some (returned, m)) :
    ∃ c : Chronicle σ, Chronicle.play kit ops { machine := start } = some (returned, c) ∧
      c.machine = m ∧
      (∃ stops, Course kit start c.moments stops m) ∧
      ∀ stops, Course kit start c.moments stops m → ∀ earlier x later post,
        stops = earlier ++ x :: later → x.before.thread.Stands kit none post →
          x.Postpones kit none post ∨ ∃ ids, x.Visits kit none ids post ∧
            x.before.machine.Adds ids x.after.machine ∧
            (∀ y ∈ stopsOf x.before.thread.id later, ids.any y.before.machine.hasThread →
              y.Revisits kit ids post) ∧
            (ids.any x.after.machine.hasThread →
              RevisitsUntil kit ids post (stopsOf x.before.thread.id later)) := by
  have hfollows := Chronicle.play_follows kit ops { machine := start }
  rw [h] at hfollows
  obtain ⟨⟨a, c⟩, hc, heq⟩ := Option.map_eq_some_iff.mp hfollows
  cases heq
  obtain ⟨moments, hmoments, hcourse, -⟩ := Chronicle.play_story (course_story kit) ops _ _ _ hc
  cases hmoments
  have htidy : start.Tidy := by
    refine ⟨?_, ?_⟩ <;> simp [hstart]
  refine ⟨c, hc, rfl, hcourse, fun stops hstops earlier x later post hsplit hstands => ?_⟩
  rcases hstops.waits hkit htidy hsplit hstands with hpostpones | ⟨ids, hvisits, hwaits⟩
  · exact .inl hpostpones
  · have hadds := hvisits.sends.adds hkit.received
    refine .inr ⟨ids, hvisits, hadds, fun y hy hany => ?_, hwaits⟩
    exact hstops.waits_while_listed hsplit (fun id hid => (hadds.fresh id hid).2) hwaits hy hany

/-- The blocks of the library. -/
abbrev Kit.plain : Kit Unit := { Library.core with }

/-- A script that sends a message and waits, and one that receives the message and runs on. -/
def Machine.patient : Machine Unit :=
  (Machine.addTarget
    { settings := { compilerEnabled := false, workTimeRatio := 0.0 }, clock := {}, host := () }
    (.stage (.ofBlocks [
      { id := "hat", opcode := "event_whenflagclicked", next := some "wait", isTopLevel := true },
      { id := "wait", opcode := "event_broadcastandwait" },
      { id := "told", opcode := "event_whenbroadcastreceived", next := some "loop",
        isTopLevel := true, fields := Table.of [("BROADCAST_OPTION", { value := .text "" })] },
      { id := "loop", opcode := "control_forever" }]))).2

/-- In the first turn of the script its thread comes to the block and remembers no threads there. -/
theorem patient_stands : ∃ (m : Machine Unit) (x : Stop Unit),
    (Machine.play .plain [(.greenFlag, 20)] Machine.patient).map Prod.snd = some m ∧
      x ∈ m.visitStops .plain 40 true 0 ∧
        x.before.thread.Stands .plain none (.block "wait" []) := by
  have hplay : ((Machine.play .plain [(.greenFlag, 20)] Machine.patient).map fun p =>
      (p.2.visitStops .plain 40 true 0).map fun x =>
        (x.before.thread.stack.map fun f => (f.block, f.code.isNone && f.scratch.started.isNone),
          x.before.thread.status == .running && (x.before.thread.sheet.block? "wait").any fun b =>
            b.opcode == Library.Messages.waiting && b.inputs.isEmpty)) =
      some [([(some "hat", true)], true), ([(some "wait", true)], true)] := by
    decide +kernel
  obtain ⟨⟨_, m⟩, h, hstops⟩ := Option.map_eq_some_iff.mp hplay
  obtain ⟨x₀, l, hvisit, -, hl⟩ := map_eq_cons_iff.mp hstops
  obtain ⟨x, l', rfl, hx, -⟩ := map_eq_cons_iff.mp hl
  simp only [Prod.mk.injEq, Bool.and_eq_true, beq_iff_eq, Option.any_eq_true] at hx
  obtain ⟨hstack, hstatus, b, hb, hopcode, hinputs⟩ := hx
  obtain ⟨f, rest, hthread, hf, hrest⟩ := map_eq_cons_iff.mp hstack
  obtain rfl := map_eq_nil_iff.mp hrest
  simp only [Prod.mk.injEq, Bool.and_eq_true, Option.isNone_iff_eq_none] at hf
  obtain ⟨hblock, hcode, hstarted⟩ := hf
  refine ⟨m, x, by rw [h]; rfl, by rw [hvisit]; simp, [], f, ⟨b, hb, hopcode, ?_⟩, hthread,
    hblock, hcode, hstarted, ⟨forall_mem_nil _, forall_mem_nil _⟩, fun hne => absurd rfl hne,
    fun hwaits => ?_⟩
  · intro name input _ hinput
    rw [Block.inputBlock?, Std.TreeMap.getElem?_of_isEmpty hinputs] at hinput
    cases hinput
  · rw [hstatus] at hwaits
    cases hwaits

/-- The script starts the receiver and waits for it, step after step. -/
theorem patient_waits_for_receivers :
    ∃ (returned : List Thread) (m : Machine Unit) (c : Chronicle Unit) (stops : List (Stop Unit)),
      Machine.play .plain [(.greenFlag, 20), (.step, 60), (.step, 60)] Machine.patient =
        some (returned, m) ∧
      m.threads.map (fun t => (t.id, t.block?, t.frame?.bind (·.scratch.started))) =
        [(0, some "wait", some [1]), (1, some "loop", none)] ∧
      (∃ m₁ x, (Machine.play .plain [(.greenFlag, 20)] Machine.patient).map Prod.snd = some m₁ ∧
        x ∈ m₁.visitStops .plain 40 true 0 ∧
          x.before.thread.Stands .plain none (.block "wait" [])) ∧
      c.machine = m ∧ Course .plain Machine.patient c.moments stops m ∧
      ∀ earlier x later, stops = earlier ++ x :: later →
        x.before.thread.Stands .plain none (.block "wait" []) →
          x.Postpones .plain none (.block "wait" []) ∨
            ∃ ids, ∀ y ∈ stopsOf x.before.thread.id later, ids.any y.before.machine.hasThread →
              y.Revisits .plain ids (.block "wait" []) := by
  have hplay : ((Machine.play .plain [(.greenFlag, 20), (.step, 60), (.step, 60)]
    Machine.patient).map
      fun p => p.2.threads.map fun t => (t.id, t.block?, t.frame?.bind (·.scratch.started))) =
      some [(0, some "wait", some [1]), (1, some "loop", none)] := by decide +kernel
  obtain ⟨⟨returned, m⟩, h, hthreads⟩ := Option.map_eq_some_iff.mp hplay
  obtain ⟨c, -, hm, ⟨stops, hstops⟩, hwaits⟩ := broadcast_waits_for_receivers ⟨rfl, rfl⟩ rfl h
  refine ⟨returned, m, c, stops, h, hthreads, patient_stands, hm, hstops,
    fun earlier x later hsplit hstands => ?_⟩
  refine (hwaits stops hstops earlier x later _ hsplit hstands).imp_right ?_
  rintro ⟨ids, -, -, hrevisits, -⟩
  exact ⟨ids, hrevisits⟩

/-- A script that calls a procedure whose broadcast waits. The block in the input of the broadcast
stops the procedure when the counter is not zero, and the receiver counts and runs on. -/
def Machine.impatient : Machine Unit :=
  (Machine.addTarget
    { settings := { compilerEnabled := false, workTimeRatio := 0.0 }, clock := {}, host := () }
    (.stage (.ofBlocks [
      { id := "hat", opcode := "event_whenflagclicked", next := some "call", isTopLevel := true },
      { id := "call", opcode := "procedures_call", next := some "later",
        mutation := some { proccode := some "tell" } },
      { id := "later", opcode := "control_forever" },
      { id := "definition", opcode := "procedures_definition", next := some "wait",
        inputs := Table.of [("custom_block", { block := some "prototype" })], isTopLevel := true },
      { id := "prototype", opcode := "procedures_prototype",
        mutation := some { proccode := some "tell" } },
      { id := "wait", opcode := "event_broadcastandwait",
        inputs := Table.of [("BROADCAST_INPUT", { block := some "if" })] },
      { id := "if", opcode := "control_if",
        inputs := Table.of [("CONDITION", { block := some "count" }),
          ("SUBSTACK", { block := some "stop" })] },
      { id := "count", opcode := "control_get_counter" },
      { id := "stop", opcode := "control_stop",
        fields := Table.of [("STOP_OPTION", { value := .text "this script" })] },
      { id := "told", opcode := "event_whenbroadcastreceived", next := some "add",
        isTopLevel := true, fields := Table.of [("BROADCAST_OPTION", { value := .text "0" })] },
      { id := "add", opcode := "control_incr_counter", next := some "loop" },
      { id := "loop", opcode := "control_forever" }]))).2

/-- An input with a branch: the receiver is still in the list, and its sender has gone on. -/
theorem impatient_goes_on_early :
    let places (m : Machine Unit) := m.threads.map fun t =>
      (t.id, t.block?, t.frame?.bind (·.scratch.started))
    (Machine.play .plain [(.greenFlag, 20), (.step, 60)] Machine.impatient).map
      (fun p => places p.2) =
        some [(0, some "wait", some [1]), (1, some "loop", none)] ∧
      (Machine.play .plain [(.greenFlag, 20), (.step, 60), (.step, 60)] Machine.impatient).map
        (fun p => places p.2) = some [(0, some "later", none), (1, some "loop", none)] := by
  constructor <;> decide +kernel

end BlockMachine

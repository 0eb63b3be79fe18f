import BlockMachine.Proofs.Machine.Chronicle
import BlockMachine.Proofs.Turn.Stack
import BlockMachine.Proofs.Turn.Tick

/-!
# The stops of a turn

A turn runs blocks, or the instructions that they were compiled to, one after the other. Each of
them is a stop, with the state before and the state after it; the reporters in the inputs of a block
are run within its stop. `Machine.turnStops` lists the stops of a turn, and `Trail` says how one
leads to the next: an argument about what happens from stop to stop is made once for both executors
(`step_trail`, `turn_trail`).
-/

namespace BlockMachine

open List

variable {σ : Type} {kit : Kit σ} {t : Thread}

/-- A block or an instruction is run. `onward` is the state in which the turn goes on then, or
ends. -/
structure Stop (σ : Type) where
  before : Turn σ
  after : Turn σ
  onward : Turn σ

namespace Turn

open Exec

/-- The blocks that the interpreter runs. -/
def interpretStops (kit : Kit σ) : Nat → Turn σ → List (Stop σ)
  | 0, _ => []
  | fuel + 1, s =>
    match s.thread.block? with
    | none => []
    | some current =>
      match execute kit fuel s.startWarp with
      | none => []
      | some (.error e, s₁) => [⟨s.startWarp, s₁, s₁.fail e⟩]
      | some (.ok (), s₁) =>
        let (goes, s₂) := afterBlock s.startWarp.thread current s₁
        ⟨s.startWarp, s₁, s₂⟩ :: if goes then interpretStops kit fuel s₂ else []

/-- The instructions that are run. -/
def codeStops (kit : Kit σ) : Nat → Turn σ → List (Stop σ)
  | 0, _ => []
  | fuel + 1, s =>
    if s.thread.status != .running then []
    else
      match s.thread.cursor? with
      | none => []
      | some c =>
        match tick kit fuel c s with
        | none => []
        | some (.ok .go, s₁) => ⟨s, s₁, s₁⟩ :: codeStops kit fuel s₁
        | some (.ok .pause, s₁) => [⟨s, s₁, s₁⟩]
        | some (.error e, s₁) => [⟨s, s₁, s₁.fail e⟩]

/-- The stops of a turn in which no promise is waited for. -/
def stepStops (kit : Kit σ) (fuel : Nat) (s : Turn σ) : List (Stop σ) :=
  if s.thread.cursor?.isSome then codeStops kit fuel s.resumed
  else
    let (goes, s) := if s.thread.block?.isNone then s.unwind else (true, s)
    if goes then interpretStops kit fuel s else []

/-- The stops of a turn for which a promise was waited for. -/
def awaitStops (kit : Kit σ) (fuel : Nat) (s : Turn σ) : List (Stop σ) :=
  match s.thread.pending with
  | none => []
  | some pending =>
    let awake := { s with thread := { s.thread with pending := none, status := .running } }
    let go (s : Turn σ) : List (Stop σ) :=
      if s.thread.status == .running && !s.thread.isDone then s.stepStops kit fuel else []
    match s.machine.promises[pending.promise]? with
    | some (.resolved v) => go (awake.settle kit.toCatalog v pending.waiter)
    | some (.rejected _) => go (awake.forgo pending.waiter)
    | _ => []

end Turn

/-- The stops of the turn of a thread in its place. -/
def Machine.turnStops (kit : Kit σ) (fuel i : Nat) (t : Thread) (m : Machine σ) : List (Stop σ) :=
  let s : Turn σ := { machine := { m with threads := m.threads.set i t.placeholder }, thread := t }
  if t.status == .promiseWait then s.awaitStops kit fuel else s.stepStops kit fuel

/-! ## From stop to stop -/

/-- Whether the thread can go on at once. -/
def Thread.isReady (t : Thread) : Bool :=
  t.status == .running || t.status == .yield

/-- How a turn goes on after a stop, and whether there may be another one. With `coded`, compiled
code is run. -/
inductive Stop.Leads (kit : Kit σ) (y : Stop σ) : Bool → Bool → Prop
  | block {fuel : Nat} {current : BlockId} (hready : y.before.thread.isReady)
      (hblock : y.before.thread.block? = some current)
      (h : Turn.execute kit fuel y.before = some (.ok (), y.after))
      (honward : y.onward = (Turn.afterBlock y.before.thread current y.after).2) :
      Leads kit y false (Turn.afterBlock y.before.thread current y.after).1
  | blockFails {fuel : Nat} {current : BlockId} {e : BlockError} (hready : y.before.thread.isReady)
      (hblock : y.before.thread.block? = some current)
      (h : Turn.execute kit fuel y.before = some (.error e, y.after))
      (honward : y.onward = y.after.fail e) :
      Leads kit y false false
  | instr {fuel : Nat} {c : Cursor} {flow : Turn.Flow} (hrun : y.before.thread.status = .running)
      (hcursor : y.before.thread.cursor? = some c)
      (h : Turn.tick kit fuel c y.before = some (.ok flow, y.after))
      (honward : y.onward = y.after) :
      Leads kit y true (flow == .go)
  | instrFails {fuel : Nat} {c : Cursor} {e : BlockError} (hrun : y.before.thread.status = .running)
      (hcursor : y.before.thread.cursor? = some c)
      (h : Turn.tick kit fuel c y.before = some (.error e, y.after))
      (honward : y.onward = y.after.fail e) :
      Leads kit y true false

/-- No stop can be made from here. -/
def Turn.Idle (coded : Bool) (s : Turn σ) : Prop :=
  if coded then s.thread.status ≠ .running ∨ s.thread.cursor? = none else s.thread.block? = none

/-- The state of a stop, when the turn has come there. -/
def Turn.entered (coded : Bool) (s : Turn σ) : Turn σ :=
  if coded then s else s.startWarp

/-- Stops one after the other, up to the end of a turn. A thread that has nowhere to go may end. -/
inductive Trail (kit : Kit σ) (coded : Bool) : Turn σ → List (Stop σ) → Turn σ → Prop
  | idle {s s' : Turn σ} (h : s.Idle coded)
      (hend : s' = s ∨ s' = { s with thread := s.thread.retire }) :
      Trail kit coded s [] s'
  | last {s : Turn σ} {y : Stop σ} (hstart : y.before = s.entered coded)
      (h : y.Leads kit coded false) : Trail kit coded s [y] y.onward
  | more {s s' : Turn σ} {y : Stop σ} {stops : List (Stop σ)} (hstart : y.before = s.entered coded)
      (h : y.Leads kit coded true) (hrest : Trail kit coded y.onward stops s') :
      Trail kit coded s (y :: stops) s'

namespace Turn

open Exec

variable {kit : Kit σ} {s s' : Turn σ} {fuel : Nat}

theorem startWarp_isReady (s : Turn σ) : s.startWarp.thread.isReady = s.thread.isReady := by
  unfold startWarp
  split <;> rfl

theorem startWarp_block? (s : Turn σ) : s.startWarp.thread.block? = s.thread.block? := by
  unfold startWarp
  split <;> rfl

/-- What follows a block does not depend on the time. -/
theorem afterBlock_startWarp (s s₁ : Turn σ) (current : BlockId) :
    afterBlock s.startWarp.thread current s₁ = afterBlock s.thread current s₁ := by
  unfold startWarp
  split <;> rfl

/-- A thread that goes on after its finished frames are dropped has the status that it had. -/
theorem unwind_status (h : s.unwind.1 = true) : s.unwind.2.thread.status = s.thread.status := by
  have hplace : s.thread.unwind.1 ≠ .finished → s.thread.unwind.2.status = s.thread.status := by
    unfold Thread.unwind
    cases s.thread.stack with
    | nil => exact fun hplace => absurd rfl hplace
    | cons top rest => exact fun hplace => if_neg (by simpa using hplace)
  unfold unwind at h ⊢
  rcases hp : s.thread.unwind with ⟨place, t⟩
  rw [hp] at h hplace
  cases place with
  | finished => cases h
  | waiting => cases h
  | ready => exact hplace (by simp)
  | looped =>
    show (goesOn _).2.thread.status = _
    rw [goesOn_thread]
    exact hplace (by simp)

theorem placed_isReady (hready : s.thread.isReady) (h : s.placed.1 = true) :
    s.placed.2.thread.isReady := by
  unfold placed at h ⊢
  split at h
  · rename_i hnone
    rw [if_pos hnone]
    unfold Thread.isReady
    rwa [unwind_status h]
  · rename_i hsome
    rwa [if_neg hsome]

/-- The interpreter goes on only with a thread that is running. -/
theorem afterBlock_isReady {current : BlockId} (h : (afterBlock t current s).1 = true) :
    (afterBlock t current s).2.thread.isReady := by
  have hrunning : (afterBlock t current s).2.thread.status = .running := by
    unfold afterBlock at h ⊢
    cases hstatus : s.thread.status
    case promiseWait | yieldTick | done =>
      rw [hstatus] at h
      cases h
    case yield =>
      dsimp only
      split
      · rw [warpExpired_thread]
      · rfl
    case running =>
      rw [hstatus] at h
      refine (unwind_status h).trans ?_
      dsimp only
      split <;> exact hstatus
  simp [Thread.isReady, hrunning]

theorem interpret_trail (fuel : Nat) : ∀ (s : Turn σ) (q : Except BlockError Unit × Turn σ),
    s.thread.isReady → interpret kit fuel s = some q →
      Trail kit false s (interpretStops kit fuel s) (finish q) := by
  induction fuel with
  | zero => intro s q _ h; cases h
  | succ fuel ih =>
    intro s q hready h
    rw [interpretStops]
    cases hblock : s.thread.block? with
    | none =>
      rw [interpret_nowhere hblock] at h
      cases h
      exact .idle hblock (.inl rfl)
    | some current =>
      have hentered := (startWarp_block? s).trans hblock
      have hready' := (startWarp_isReady s).trans hready
      dsimp only
      cases hexecute : execute kit fuel s.startWarp with
      | none =>
        rw [interpret_outOfFuel hblock hexecute] at h
        cases h
      | some p =>
        obtain ⟨r, s₁⟩ := p
        cases r with
        | error e =>
          rw [interpret_failed hblock hexecute] at h
          cases h
          have hleads := Stop.Leads.blockFails (y := ⟨s.startWarp, s₁, s₁.fail e⟩) hready' hentered
            hexecute rfl
          exact .last (y := ⟨s.startWarp, s₁, s₁.fail e⟩) rfl hleads
        | ok u =>
          rw [interpret_succ hblock hexecute] at h
          have hleads := Stop.Leads.block
            (y := ⟨s.startWarp, s₁, (afterBlock s.startWarp.thread current s₁).2⟩) hready' hentered
              hexecute rfl
          dsimp only at hleads ⊢
          rw [afterBlock_startWarp] at hleads ⊢
          cases hgoes : (afterBlock s.thread current s₁).1 with
          | true =>
            rw [hgoes] at h hleads
            exact .more rfl hleads (ih _ _ (afterBlock_isReady hgoes) h)
          | false =>
            rw [hgoes] at h hleads
            cases h
            exact .last (y := ⟨s.startWarp, s₁, (afterBlock s.thread current s₁).2⟩) rfl hleads

theorem code_trail (fuel : Nat) : ∀ (s : Turn σ) (q : Except BlockError Unit × Turn σ),
    runCode kit fuel s = some q → Trail kit true s (codeStops kit fuel s) (finish q) := by
  induction fuel with
  | zero => intro s q h; cases h
  | succ fuel ih =>
    intro s q h
    rw [codeStops]
    rw [runCode_succ, getThread_andThen] at h
    by_cases hrun : s.thread.status = .running
    · rw [if_neg (by simp [hrun])] at h ⊢
      cases hcursor : s.thread.cursor? with
      | none =>
        rw [hcursor] at h
        cases h
        exact .idle (.inr hcursor) (.inr rfl)
      | some c =>
        rw [hcursor] at h
        dsimp only at h ⊢
        rcases htick : tick kit fuel c s with _ | ⟨_ | _ | _, s₁⟩
        · rw [andThen_none htick] at h
          cases h
        · rw [andThen_error htick] at h
          cases h
          exact .last (y := ⟨s, s₁, s₁.fail _⟩) rfl (.instrFails hrun hcursor htick rfl)
        · rw [andThen_ok htick] at h
          have hleads := Stop.Leads.instr (y := ⟨s, s₁, s₁⟩) hrun hcursor htick rfl
          exact .more rfl hleads (ih _ _ h)
        · rw [andThen_ok htick] at h
          cases h
          have hleads := Stop.Leads.instr (y := ⟨s, s₁, s₁⟩) hrun hcursor htick rfl
          exact .last (y := ⟨s, s₁, s₁⟩) rfl hleads
    · rw [if_pos (by simpa using hrun)] at h ⊢
      cases h
      exact .idle (.inl hrun) (.inl rfl)

/-- A turn goes on in compiled code from the instruction where it was left. -/
theorem step_trail_of_code (hcursor : s.thread.cursor?.isSome) (h : s.step kit fuel = some s') :
    Trail kit true s.resumed (s.stepStops kit fuel) s' := by
  rw [step_eq, resume_coded hcursor] at h
  obtain ⟨q, hq, rfl⟩ := Option.map_eq_some_iff.mp h
  rw [stepStops, if_pos hcursor]
  exact code_trail fuel _ q hq

/-- A turn goes on with the block where it was left. -/
theorem step_trail_of_block (hready : s.thread.isReady) (hcursor : s.thread.cursor? = none)
    (hblock : s.thread.block?.isSome) (h : s.step kit fuel = some s') :
    Trail kit false s (s.stepStops kit
      fuel) s' := by
  have hsome : ¬ s.thread.block?.isNone := by simpa [Option.ne_none_iff_isSome] using hblock
  rw [step_eq, resume_interpreted hcursor, placed, if_neg hsome] at h
  obtain ⟨q, hq, rfl⟩ := Option.map_eq_some_iff.mp h
  rw [stepStops, if_neg (by simp [hcursor]), if_neg hsome]
  exact interpret_trail fuel _ q hready hq

/-- Every turn makes its stops one after the other. -/
theorem step_trail (hready : s.thread.isReady) (h : s.step kit fuel = some s') :
    s.stepStops kit fuel = [] ∨
    ∃ coded s₁, s.Evolves s₁ ∧ Trail kit coded s₁ (s.stepStops kit fuel) s' := by
  by_cases hcursor : s.thread.cursor?.isSome
  · exact .inr ⟨true, s.resumed, along_resumed Machine.evolves_lenient.lax s,
      step_trail_of_code hcursor h⟩
  · rw [step_eq, resume_interpreted (by simpa using hcursor)] at h
    obtain ⟨q, hq, rfl⟩ := Option.map_eq_some_iff.mp h
    have hstops : s.stepStops kit fuel = if s.placed.1 then interpretStops kit fuel s.placed.2
        else [] := by
      rw [stepStops, if_neg hcursor]
      rfl
    have hplaced := along_placed Machine.evolves_lenient.lax s
    rw [hstops]
    split at hq
    · rename_i hgoes
      rw [if_pos hgoes]
      exact .inr ⟨false, s.placed.2, hplaced, interpret_trail fuel _ q
        (placed_isReady hready hgoes) hq⟩
    · rename_i hstays
      rw [if_neg hstays]
      exact .inl rfl

theorem awaitStops_eq (kit : Kit σ) (fuel : Nat) (s : Turn σ) :
    s.awaitStops kit fuel = if (s.awaken kit).1 then (s.awaken kit).2.stepStops kit fuel
      else [] := by
  unfold awaitStops awaken
  cases s.thread.pending with
  | none => rfl
  | some pending =>
    rcases hp : s.machine.promises[pending.promise]? with _ | _ | _ | _ <;> simp only [hp] <;> rfl

theorem awaken_isReady (h : (s.awaken kit).1 = true) : (s.awaken kit).2.thread.isReady := by
  unfold Thread.isReady
  rw [awaken_status h]
  rfl

/-- So does a turn for which a promise was waited for. -/
theorem await_trail (h : s.await kit fuel = some s') : s.awaitStops kit fuel = [] ∨
    ∃ coded s₁, s.Evolves s₁ ∧ Trail kit coded s₁ (s.awaitStops kit fuel) s' := by
  rw [await_eq] at h
  rw [awaitStops_eq]
  split at h
  · rename_i hgoes
    rw [if_pos hgoes]
    refine (step_trail (awaken_isReady hgoes) h).imp id ?_
    rintro ⟨coded, s₁, hevolves, htrail⟩
    exact ⟨coded, s₁, Lasting.trans
      (along_awaken Machine.evolves_lenient.lax (Machine.evolves_law kit).rule.notes kit s)
      hevolves, htrail⟩
  · rename_i hstays
    rw [if_neg hstays]
    exact .inl rfl

theorem tick_evolves {c : Cursor} : Keeps Evolves (tick kit fuel c) := by
  unfold tick
  cases c.instr? with
  | some i =>
    exact runInstr_along (Machine.evolves_law kit).rule fuel c.pc i fun option _ =>
      runStop_along (Machine.evolves_law kit).turnRule fuel c.pc option
  | none => exact finishFrame_lax Machine.evolves_lenient.lax

theorem fail_evolves (s : Turn σ) (e : BlockError) : s.Evolves (s.fail e) :=
  ⟨.of_eq rfl rfl, rfl, rfl, rfl, rfl, rfl⟩

theorem afterBlock_evolves (t : Thread) (current : BlockId) (s : Turn σ) :
    s.Evolves (afterBlock t current s).2 :=
  along_afterBlock Machine.evolves_lenient.lax t current s

end Turn

theorem Stop.Leads.evolves {y : Stop σ} {coded goes : Bool} (h : y.Leads kit coded goes) :
    y.before.Evolves y.after ∧ y.after.Evolves y.onward := by
  cases h with
  | block _ _ h honward =>
    exact ⟨Turn.execute_evolves kit _ _ _ _ h, honward ▸ Turn.afterBlock_evolves _ _ _⟩
  | blockFails _ _ h honward =>
    exact ⟨Turn.execute_evolves kit _ _ _ _ h, honward ▸ Turn.fail_evolves _ _⟩
  | instr _ _ h honward => exact ⟨Turn.tick_evolves _ _ _ h, honward ▸ Lasting.refl _⟩
  | instrFails _ _ h honward => exact ⟨Turn.tick_evolves _ _ _ h, honward ▸ Turn.fail_evolves _ _⟩

namespace Trail

variable {kit : Kit σ} {coded : Bool} {s s' : Turn σ} {stops : List (Stop σ)}

theorem evolves_entered (coded : Bool) (s : Turn σ) : s.Evolves (s.entered coded) := by
  cases coded with
  | true => exact Lasting.refl s
  | false => exact Turn.along_startWarp Machine.evolves_lenient.lax s

/-- The list of threads evolves from stop to stop. -/
theorem pairwise (h : Trail kit coded s stops s') :
    s.Evolves s' ∧
      (∀ y ∈ stops, s.Evolves y.before ∧ y.before.Evolves y.after ∧ y.after.Evolves s') ∧
      stops.Pairwise fun z y => z.after.Evolves y.before := by
  induction h with
  | @idle s s' _ hend =>
    refine ⟨?_, by simp, .nil⟩
    rcases hend with rfl | rfl
    · exact Lasting.refl s'
    · exact ⟨Lasting.refl s.machine, rfl, rfl, rfl, rfl, rfl⟩
  | @last s y hstart hleads =>
    obtain ⟨hstop, hrest⟩ := hleads.evolves
    have hbefore : s.Evolves y.before := hstart ▸ evolves_entered coded s
    exact ⟨Lasting.trans hbefore
      (Lasting.trans hstop hrest), by simpa using ⟨hbefore, hstop, hrest⟩, pairwise_singleton _ _⟩
  | @more s s' y stops hstart hleads _ ih =>
    obtain ⟨hstop, hrest⟩ := hleads.evolves
    obtain ⟨hend, hstops, hpairwise⟩ := ih
    have hbefore : s.Evolves y.before := hstart ▸ evolves_entered coded s
    have honward : s.Evolves y.onward := Lasting.trans hbefore (Lasting.trans hstop hrest)
    refine ⟨Lasting.trans honward hend, forall_mem_cons.mpr
      ⟨⟨hbefore, hstop, Lasting.trans hrest hend⟩,
        fun z hz => ⟨Lasting.trans honward (hstops z hz).1, (hstops z hz).2⟩⟩, pairwise_cons.mpr
      ⟨fun z hz => Lasting.trans hrest (hstops z hz).1, hpairwise⟩⟩

/-- What follows a stop of a turn. -/
theorem after {first : List (Stop σ)} {x : Stop σ} {last : List (Stop σ)}
    (h : Trail kit coded s stops s') (hstops : stops = first ++ x :: last) :
    ∃ goes, x.Leads kit coded goes ∧
      (goes = false ∧ last = [] ∧ x.onward = s' ∨ goes = true ∧
        Trail kit coded x.onward last s') := by
  induction h generalizing first with
  | idle => simp at hstops
  | @last s y hstart hleads =>
    obtain ⟨rfl, rfl, rfl⟩ : first = [] ∧ y = x ∧ last = [] := by
      cases first <;> simp_all
    exact ⟨false, hleads, .inl ⟨rfl, rfl, rfl⟩⟩
  | @more s s' y stops hstart hleads hrest ih =>
    cases first with
    | nil =>
      obtain ⟨rfl, rfl⟩ := cons.inj hstops
      exact ⟨true, hleads, .inr ⟨rfl, hrest⟩⟩
    | cons z first => exact ih (cons.inj hstops).2

end Trail

/-- The stops of a turn in a place are made one after the other. -/
theorem Machine.turn_trail {m : Machine σ} {fuel i : Nat} {s : Turn σ} (hturn : hasTurn t)
    (h : m.turn kit fuel i t = some s) : m.turnStops kit fuel i t = [] ∨
      ∃ coded s₁, Turn.Evolves ⟨{ m with threads := m.threads.set i t.placeholder }, t⟩ s₁ ∧
        Trail kit coded s₁ (m.turnStops kit fuel i t) s := by
  unfold turn at h
  unfold turnStops
  dsimp only at h ⊢
  by_cases hwaits : t.status = .promiseWait
  · rw [if_pos (by simp [hwaits])] at h ⊢
    exact Turn.await_trail h
  · rw [if_neg (by simpa using hwaits)] at h ⊢
    refine Turn.step_trail ?_ h
    unfold hasTurn at hturn
    unfold Thread.isReady
    simp_all

end BlockMachine

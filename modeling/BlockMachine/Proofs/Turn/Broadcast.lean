import BlockMachine.Proofs.Turn.Reckon
import BlockMachine.Proofs.Turn.Stops

/-!
# A broadcast that waits

The block starts the scripts that receive its message on the first visit, remembers their threads,
and is visited again until none of them is left in the list (`Call.run_broadcast`). What it
remembers is kept in the frame of the block or with the instruction that calls it, so a thread that
stands at the block is found there with the same memory after the visit, unless none of the threads
is left. A visit in the interpreter (`Turn.execute_visits`, `Turn.execute_reports`) and one in
compiled code (`Turn.tick_visits`) are brought together in `Stop.Leads.visits`.
-/

namespace BlockMachine

open List

variable {σ : Type}

open Library

variable {upper : List Frame} {ids : List ThreadId} {t : Thread} {fields : List (String × String)}
  {memory : Option (List ThreadId)} {r : Except BlockError Reported} {scratch : Scratch}
  {args : Args}

/-! ## Starting hats -/

namespace Machine

open Run

variable {catalog : Catalog σ} {predicate : Exec (Turn σ) Unit} {opcode : String}
  {m m' m₁ : Machine σ}

/-- Every thread in the list was there before or is one of those, which have new ids. -/
structure Adds (m : Machine σ) (ids : List ThreadId) (m' : Machine σ) : Prop where
  threads : ∀ t ∈ m'.threads, t ∈ m.threads ∨ t.id ∈ ids
  fresh : ∀ id ∈ ids, m.nextThread ≤ id ∧ id < m'.nextThread
  next : m.nextThread ≤ m'.nextThread

theorem adds_none (h : m'.threads = m.threads) (hnext : m.nextThread ≤ m'.nextThread) :
    m.Adds [] m' :=
  ⟨fun _ ht => .inl (h ▸ ht), forall_mem_nil _, hnext⟩

theorem Adds.trans {ids' : List ThreadId} (h : m.Adds ids m₁) (h' : m₁.Adds ids' m') :
    m.Adds (ids ++ ids') m' := by
  refine ⟨fun t ht => ?_, fun id hid => ?_, Nat.le_trans h.next h'.next⟩
  · rcases h'.threads t ht with ht₁ | hid
    · exact (h.threads t ht₁).imp id fun hid => mem_append_left _ hid
    · exact .inr (mem_append_right _ hid)
  · rcases mem_append.mp hid with hid | hid
    · exact ⟨(h.fresh id hid).1, Nat.lt_of_lt_of_le (h.fresh id hid).2 h'.next⟩
    · exact ⟨Nat.le_trans h.next (h'.fresh id hid).1, (h'.fresh id hid).2⟩

theorem place_threads (m : Machine σ) (slot : Option Nat) (t : Thread) :
    ∀ t' ∈ (m.place slot t).threads, t' ∈ m.threads ∨ t' = t := by
  have happend : ∀ t' ∈ m.threads ++ [t], t' ∈ m.threads ∨ t' = t := fun t' ht' =>
    (mem_append.mp ht').imp id mem_singleton.mp
  unfold place
  split
  · split
    · exact fun t' ht' => mem_or_eq_of_mem_set ht'
    · exact happend
  · exact happend

theorem place_nextThread (m : Machine σ) (slot : Option Nat) (t : Thread) :
    (m.place slot t).nextThread = m.nextThread := by
  unfold place
  split
  · split <;> rfl
  · rfl

section

variable (hpredicate : catalog.hasPrimitive opcode = false)
  (hgo : Exec.Keeps Turn.Evolves predicate) {hat : Hat}

include hpredicate hgo

/-- A script without a predicate is started by placing its thread. -/
theorem startScript_adds {target : TargetId} {top : BlockId} {id : Option ThreadId}
    (h : startScript catalog predicate opcode hat target top m = some (id, m')) :
    m.Adds id.toList m' := by
  rcases startScript_cases h with ⟨rfl, rfl⟩ | ⟨slot, t, m₁, -, hspawn, rfl, rfl⟩
  · exact adds_none rfl (Nat.le_refl _)
  · rw [hpredicate] at hspawn
    obtain ⟨hevolves, hspawned⟩ := spawn_spawned hgo hspawn
    have hm₁ : m₁.threads = m.threads := by
      rcases spawn_cases hspawn with ⟨-, rfl⟩ | ⟨_, _, _, -, ⟨hasked, -⟩ | ⟨-, rfl, -⟩⟩
      · rfl
      · cases hasked
      · rfl
    cases t with
    | none => exact adds_none hm₁ hevolves.next
    | some t =>
      have hnext := place_nextThread m₁ slot t
      rw [Option.elim_some]
      refine ⟨fun t' ht' => ?_, fun id hid => ?_, ?_⟩
      · rcases place_threads m₁ slot t t' ht' with hmem | rfl
        · exact .inl (hm₁ ▸ hmem)
        · exact .inr (mem_singleton_self _)
      · rw [mem_singleton.mp hid, hnext]
        exact ⟨(hspawned t rfl).new, (hspawned t rfl).given⟩
      · rw [hnext]
        exact hevolves.next

theorem startScripts_adds (scripts : List (TargetId × BlockId)) :
    ∀ {m m' : Machine σ} {ids : List ThreadId},
      startScripts catalog predicate opcode hat scripts m = some (ids, m') → m.Adds ids m' := by
  induction scripts with
  | nil =>
    intro m m' ids h
    obtain ⟨rfl, rfl⟩ := pure_some.mp h
    exact adds_none rfl (Nat.le_refl _)
  | cons script scripts ih =>
    intro m m' ids h
    obtain ⟨first, m₁, hfirst, h⟩ := bind_some.mp h
    obtain ⟨others, m₂, hothers, h⟩ := bind_some.mp h
    obtain ⟨rfl, rfl⟩ := pure_some.mp h
    exact (startScript_adds hpredicate hgo hfirst).trans (ih hothers)

theorem startOn_adds (targets : List TargetId) :
    ∀ {m m' : Machine σ} {ids : List ThreadId},
      startOn catalog predicate opcode hat fields targets m = some (ids, m') → m.Adds ids m' := by
  induction targets with
  | nil =>
    intro m m' ids h
    obtain ⟨rfl, rfl⟩ := pure_some.mp h
    exact adds_none rfl (Nat.le_refl _)
  | cons target targets ih =>
    intro m m' ids h
    rw [startOn, get_andThen] at h
    obtain ⟨first, m₁, hfirst, h⟩ := bind_some.mp h
    obtain ⟨others, m₂, hothers, h⟩ := bind_some.mp h
    obtain ⟨rfl, rfl⟩ := pure_some.mp h
    exact (startScripts_adds hpredicate hgo _ hfirst).trans (ih hothers)

/-- **The new threads are those that were started.** -/
theorem startHats_adds {only : Option TargetId}
    (h : startHats catalog predicate opcode fields only m = some (ids, m')) : m.Adds ids m' := by
  unfold startHats at h
  cases hhat : catalog.hats[opcode]? with
  | none =>
    rw [hhat] at h
    obtain ⟨rfl, rfl⟩ := pure_some.mp h
    exact adds_none rfl (Nat.le_refl _)
  | some hat =>
    rw [hhat] at h
    exact startOn_adds hpredicate hgo _ h

end

/-- The list of threads is the same, and no id was given out. -/
def SameThreads (m m' : Machine σ) : Prop :=
  m'.threads = m.threads ∧ m'.nextThread = m.nextThread

theorem SameThreads.trans (h : m.SameThreads m₁) (h' : m₁.SameThreads m') : m.SameThreads m' :=
  ⟨h'.1.trans h.1, h'.2.trans h.2⟩

theorem Apart.sameThreads (h : m.Apart m') : m.SameThreads m' :=
  ⟨h.threads, h.nextThread⟩

/-- A visit of the block starts the scripts that receive its message, unless it remembers the
threads that were started. -/
inductive Sends (kit : Kit σ) (m : Machine σ) :
    Option (List ThreadId) → List ThreadId → Machine σ → Prop
  | first {fuel : Nat} {message : String} {ids : List ThreadId} {m₀ m₁ m' : Machine σ}
      (hbefore : m.SameThreads m₀)
      (h : startHats kit.toCatalog (Turn.execute kit fuel) Messages.received
        [("BROADCAST_OPTION", message)]
        none m₀ = some (ids, m₁))
      (hafter : m₁.SameThreads m') : Sends kit m none ids m'
  | again {ids : List ThreadId} {m' : Machine σ} (h : m.SameThreads m') :
      Sends kit m (some ids) ids m'

variable {kit : Kit σ}

theorem Sends.before (h : m.Sends kit memory ids m₁) (hsame : m₁.SameThreads m') :
    m.Sends kit memory ids m' := by
  cases h with
  | first hbefore h hafter => exact .first hbefore h (hafter.trans hsame)
  | again h => exact .again (h.trans hsame)

theorem Sends.after (h : m₁.Sends kit memory ids m') (hsame : m.SameThreads m₁) :
    m.Sends kit memory ids m' := by
  cases h with
  | first hbefore h hafter => exact .first (hsame.trans hbefore) h hafter
  | again h => exact .again (hsame.trans h)

/-- The first visit adds the threads that it remembers then. -/
theorem Sends.adds (hreceived : kit.hasPrimitive Messages.received = false)
    (h : m.Sends kit none ids m') :
    m.Adds ids m' := by
  cases h with
  | first hbefore h hafter =>
    obtain ⟨hthreads, hfresh, hnext⟩ := startHats_adds hreceived (Turn.execute_evolves kit _) h
    rw [← hafter.1, ← hafter.2, hbefore.1, hbefore.2] at *
    exact ⟨hthreads, hfresh, hnext⟩

end Machine

/-! ## The primitive -/

namespace Call

open Exec

variable {kit : Kit σ} {predicate : Exec (Turn σ) Unit} {mode : Mode} {c c' : Call σ}

/-- The call after it has looked for the threads. -/
def awaiting (c : Call σ) (ids : List ThreadId) : Call σ :=
  if ids.any c.machine.hasThread then
    { c with thread := { c.thread with
        status := if ids.all c.machine.isWaiting then .yieldTick else .yield } }
  else c

theorem run_anyThread (c : Call σ) (ids : List ThreadId) :
    run kit predicate mode (Messages.anyThread Action.hasThread ids) c =
      some (.ok (ids.any c.machine.hasThread), c) := by
  induction ids with
  | nil => rfl
  | cons id ids ih =>
    rw [Messages.anyThread, run_bind, any_cons]
    show run kit predicate mode (if c.machine.hasThread id then _ else _) c = _
    cases c.machine.hasThread id with
    | true => rfl
    | false => exact ih

theorem run_allThreads (c : Call σ) (ids : List ThreadId) :
    run kit predicate mode (Messages.allThreads Action.isWaiting ids) c =
      some (.ok (ids.all c.machine.isWaiting), c) := by
  induction ids with
  | nil => rfl
  | cons id ids ih =>
    rw [Messages.allThreads, run_bind, all_cons]
    show run kit predicate mode (if c.machine.isWaiting id then _ else _) c = _
    cases c.machine.isWaiting id with
    | true => exact ih
    | false => rfl

/-- Waiting is giving way as long as one of the threads is left. -/
theorem run_await (c : Call σ) (ids : List ThreadId) :
    run kit predicate mode (Messages.await ids) c = some (.ok .nothing, c.awaiting ids) := by
  unfold Messages.await awaiting
  rw [run_bind, andThen_ok (run_anyThread c ids)]
  cases ids.any c.machine.hasThread with
  | false => rfl
  | true =>
    dsimp only
    rw [if_pos rfl, run_bind, andThen_ok (run_allThreads c ids), if_pos rfl]
    cases ids.all c.machine.isWaiting <;> rfl

/-- A later visit looks for the threads that are remembered. -/
theorem run_broadcast_again (hstarted : c.scratch.started = some ids) (args : Args) :
    run kit predicate mode (Messages.broadcastAndWait args) c =
      some (.ok .nothing, c.awaiting ids) := by
  unfold Messages.broadcastAndWait
  rw [run_bind]
  show run kit predicate mode _ c = _
  rw [hstarted]
  exact run_await c ids

theorem run_send (c : Call σ) (args : Args) :
    run kit predicate mode (Messages.send args) c =
      (Machine.startHats kit.toCatalog predicate Messages.received
        [("BROADCAST_OPTION", args.text "BROADCAST_INPUT")] none c.machine).map
        fun p => (.ok p.1, { c with machine := p.2 }) := by
  show (onMachine _ >>= fun ids => pure ids : Exec (Call σ) (List ThreadId)) c = _
  rw [bind_pure]
  unfold onMachine
  show (Machine.startHats _ _ _ _ _ _ >>= _) = _
  cases Machine.startHats kit.toCatalog predicate Messages.received
    [("BROADCAST_OPTION", args.text "BROADCAST_INPUT")] none c.machine <;> rfl

/-- The first visit starts the receivers, and looks for them at once. -/
theorem run_broadcast_first (hstarted : c.scratch.started = none)
    (h : run kit predicate mode (Messages.broadcastAndWait args) c = some (r, c')) :
    ∃ ids m, Machine.startHats kit.toCatalog predicate Messages.received
        [("BROADCAST_OPTION", args.text "BROADCAST_INPUT")] none c.machine = some (ids, m) ∧
      r = .ok .nothing ∧ c' = if ids.isEmpty then { c with machine := m } else
        awaiting { c with machine := m, scratch := { c.scratch with started := some ids } }
          ids := by
  unfold Messages.broadcastAndWait at h
  rw [run_bind] at h
  replace h : run kit predicate mode _ c = _ := h
  rw [hstarted] at h
  dsimp only at h
  rw [run_bind] at h
  cases hsend : Machine.startHats kit.toCatalog predicate Messages.received
      [("BROADCAST_OPTION", args.text "BROADCAST_INPUT")] none c.machine with
  | none =>
    rw [andThen_none (by rw [run_send, hsend]; rfl)] at h
    cases h
  | some p =>
    obtain ⟨ids, m⟩ := p
    have hrun : run kit predicate mode (Messages.send args) c =
        some (.ok ids, { c with machine := m }) := by
      rw [run_send, hsend]
      rfl
    rw [andThen_ok hrun] at h
    refine ⟨ids, m, rfl, ?_⟩
    cases hempty : ids.isEmpty with
    | true =>
      rw [hempty] at h
      cases h
      exact ⟨rfl, rfl⟩
    | false =>
      rw [hempty] at h
      have hawait := @run_await σ kit predicate mode
        { c with machine := m, scratch := { c.scratch with started := some ids } } ids
      replace h : run kit predicate mode (Messages.await ids) _ = some (r, c') := h
      rw [hawait] at h
      cases h
      exact ⟨rfl, rfl⟩

/-- What a visit does: it starts the threads or remembers them, and gives way as long as one of them
is left. -/
structure Sent (kit : Kit σ) (c : Call σ) (ids : List ThreadId) (c' : Call σ) : Prop where
  sends : c.machine.Sends kit c.scratch.started ids c'.machine
  left : ids.any c'.machine.hasThread → c'.scratch.started = some ids ∧
    ∃ status, (status = .yield ∨ status = .yieldTick) ∧ c'.thread = { c.thread with status }
  gone : ids.any c'.machine.hasThread = false → c'.thread = c.thread
  branch : c'.branch = c.branch
  leaves : c'.leaves = c.leaves

theorem awaiting_machine (c : Call σ) (ids : List ThreadId) :
    (c.awaiting ids).machine = c.machine := by
  unfold awaiting
  split <;> rfl

theorem sent_awaiting {c₁ : Call σ} (hthread : c₁.thread = c.thread)
    (hbranch : c₁.branch = c.branch) (hleaves : c₁.leaves = c.leaves)
    (hstarted : c₁.scratch.started = some ids)
    (hsends : c.machine.Sends kit c.scratch.started ids c₁.machine) :
    Sent kit c ids (c₁.awaiting ids) := by
  have hmachine := awaiting_machine c₁ ids
  refine ⟨hmachine ▸ hsends, fun hleft => ?_, fun hgone => ?_, ?_, ?_⟩
  · rw [hmachine] at hleft
    unfold awaiting
    rw [if_pos hleft]
    refine ⟨hstarted, _, ?_, by rw [hthread]⟩
    split
    · exact .inr rfl
    · exact .inl rfl
  · rw [hmachine] at hgone
    unfold awaiting
    rw [if_neg (by simp [hgone])]
    exact hthread
  all_goals
    unfold awaiting
    split <;> assumption

/-- **A visit of a broadcast that waits.** -/
theorem run_broadcast {fuel : Nat}
    (h : run kit (Turn.execute kit fuel) mode (Messages.broadcastAndWait args) c = some (r, c')) :
    r = .ok .nothing ∧ ∃ ids, Sent kit c ids c' := by
  cases hstarted : c.scratch.started with
  | some ids =>
    rw [run_broadcast_again hstarted] at h
    cases h
    refine ⟨rfl, ids, sent_awaiting rfl rfl rfl hstarted ?_⟩
    rw [hstarted]
    exact .again ⟨rfl, rfl⟩
  | none =>
    obtain ⟨ids, m, hstart, rfl, rfl⟩ := run_broadcast_first hstarted h
    have hsends : c.machine.Sends kit c.scratch.started ids m :=
      hstarted ▸ .first ⟨rfl, rfl⟩ hstart ⟨rfl, rfl⟩
    refine ⟨rfl, ids, ?_⟩
    split
    · rename_i hempty
      obtain rfl := List.isEmpty_iff.mp hempty
      exact ⟨hsends, fun hleft => (by cases hleft), fun _ => rfl, rfl, rfl⟩
    · exact sent_awaiting rfl rfl rfl rfl hsends

end Call

/-! ## Where the block is run -/

/-- The block that starts the receivers of a message and waits for them. -/
def Library.Messages.waiting : String := "event_broadcastandwait"

/-- The block does what it should, and the hat of the receivers has no predicate. -/
structure Kit.Broadcasts (kit : Kit σ) : Prop where
  primitive : kit.primitive? Messages.waiting = some Messages.broadcastAndWait
  received : kit.hasPrimitive Messages.received = false

/-- A place in a script, with the frames below: a block, or an instruction of compiled code. -/
inductive Post where
  | block (id : BlockId) (rest : List Frame)
  | instr (script : Script) (pc : Nat) (rest : List Frame)

/-- The block starts receivers and waits for them, and has reporters in its inputs. -/
def Sheet.Waits (kit : Kit σ) (sheet : Sheet) (id : BlockId) : Prop :=
  ∃ b, sheet.block? id = some b ∧ b.opcode = Messages.waiting ∧ b.Reckoned kit (·.isMild) true sheet

namespace Thread

variable {f : Frame} {t' : Thread} {id : BlockId} {rest : List Frame}

/-- The thread is at the block, whose frame remembers the threads that it started. Frames of
reporters in its inputs may be on top. -/
structure AtBlock (kit : Kit σ) (id : BlockId) (rest : List Frame) (memory : Option (List ThreadId))
    (upper : List Frame) (f : Frame) (t : Thread) : Prop where
  waits : t.sheet.Waits kit id
  stack : t.stack = upper ++ f :: rest
  block : f.block = some id
  code : f.code = none
  memory : f.scratch.started = memory
  hanging : Hanging kit (·.isMild) true t.sheet upper
  waiting : upper ≠ [] → f.waiting.isSome
  pending : t.status = .promiseWait → upper ≠ [] ∧ ∀ q, t.pending = some q → q.waiter = .block false

/-- The thread is at an instruction that calls the block and remembers the threads that it
started. -/
structure AtInstr (script : Script) (pc : Nat) (rest : List Frame) (memory : Option (List ThreadId))
    (f : Frame) (c : Cursor) (t : Thread) : Prop where
  cursor : t.At f c rest
  block : f.block = none
  script_eq : c.script = script
  pc_eq : c.pc = pc
  instr : ∃ call, c.instr? = some (.primitive call) ∧ call.opcode = Messages.waiting
  memory : c.scratches[pc]?.bind Scratch.started = memory
  status : t.status ≠ .promiseWait

/-- The thread is at the post, with that memory. -/
def Stands (kit : Kit σ) (memory : Option (List ThreadId)) (t : Thread) : Post → Prop
  | .block id rest => ∃ upper f, t.AtBlock kit id rest memory upper f
  | .instr script pc rest => ∃ f c, t.AtInstr script pc rest memory f c

variable {kit : Kit σ} {memory : Option (List ThreadId)} {t : Thread} {post : Post}

/-- A thread stands where it stands, whatever else is told of it, unless it is made to wait. -/
theorem Stands.of_stack (h : t.Stands kit memory post) (hsheet : t'.sheet = t.sheet)
    (hstack : t'.stack = t.stack)
    (hwaits : t'.status = .promiseWait → t.status = .promiseWait ∧ t'.pending = t.pending) :
    t'.Stands kit memory post := by
  cases post with
  | block id rest =>
    obtain ⟨upper, f, h⟩ := h
    refine ⟨upper, f, hsheet ▸ h.waits, hstack.trans h.stack, h.block, h.code, h.memory,
      hsheet ▸ h.hanging, h.waiting, fun hstatus => ?_⟩
    obtain ⟨hbefore, hpending⟩ := hwaits hstatus
    exact hpending ▸ h.pending hbefore
  | instr script pc rest =>
    obtain ⟨f, c, h⟩ := h
    exact ⟨f, c, ⟨hstack.trans h.cursor.stack, h.cursor.code⟩, h.block, h.script_eq, h.pc_eq,
      h.instr, h.memory, fun hstatus => h.status (hwaits hstatus).1⟩

/-- The innermost frame of a thread at the block is interpreted. -/
theorem AtBlock.cursor? (h : t.AtBlock kit id rest memory upper f) : t.cursor? = none := by
  unfold Thread.cursor? Thread.frame?
  rw [h.stack]
  cases upper with
  | nil => exact h.code
  | cons u upper => exact (h.hanging.frames u mem_cons_self).1

/-- When the innermost reporter is left, the frame below may have taken a value. -/
theorem AtBlock.pop {rest' : List Frame} {g g' u : Frame}
    (h : t.AtBlock kit id rest memory (u :: upper) f) (hbelow : upper ++ f :: rest = g :: rest')
    (hbare : g'.bare = g.bare) (hwaiting : g'.waiting = g.waiting) (hsheet : t'.sheet = t.sheet)
    (hstack : t'.stack = g' :: rest') (hstatus : t'.status ≠ .promiseWait) :
    g'.waiting.isSome ∧ ∃ upper' f', t'.AtBlock kit id rest memory upper' f' := by
  have hblock : g'.block = g.block := (congrArg Frame.block hbare :)
  have hcode : g'.code = g.code := (congrArg Frame.code hbare :)
  have hscratch : g'.scratch = g.scratch := (congrArg Frame.scratch hbare :)
  have hidle : ∀ {q : Prop}, t'.status = .promiseWait → q := fun hwaits => absurd hwaits hstatus
  rw [hwaiting]
  cases upper with
  | nil =>
    obtain ⟨rfl, rfl⟩ := cons.inj hbelow
    exact ⟨h.waiting (cons_ne_nil u []), [], g', hsheet ▸ h.waits, hstack, hblock.trans h.block,
      hcode.trans h.code, (congrArg Scratch.started hscratch).trans h.memory,
      ⟨forall_mem_nil _, forall_mem_nil _⟩, fun hne => absurd rfl hne, hidle⟩
  | cons v upper =>
    obtain ⟨rfl, rfl⟩ := cons.inj hbelow
    obtain ⟨hframe, hframes⟩ := forall_mem_cons.mp (forall_mem_cons.mp h.hanging.frames).2
    refine ⟨h.hanging.waiting v mem_cons_self, g' :: upper, f, hsheet ▸ h.waits, hstack, h.block,
      h.code, h.memory, hsheet ▸ ⟨forall_mem_cons.mpr ⟨?_, hframes⟩, ?_⟩, fun _ => ?_, hidle⟩
    · rwa [hblock, hcode]
    · exact fun w hw => h.hanging.waiting w (mem_cons_of_mem v hw)
    · exact h.waiting (cons_ne_nil u _)

/-- Frames of reporters that wait may be on top. -/
theorem AtBlock.stack_on {on : List Frame} (h : t.AtBlock kit id rest memory upper f)
    (hon : Hanging kit (·.isMild) true t.sheet on) (hne : on ≠ [])
    (hhead : ∀ g ∈ t.stack.head?, g.waiting.isSome) (hsheet : t'.sheet = t.sheet)
    (hstack : t'.stack = on ++ t.stack)
    (hpending : t'.status = .promiseWait → ∀ q, t'.pending = some q → q.waiter = .block false) :
    t'.AtBlock kit id rest memory (on ++ upper) f := by
  rw [h.stack] at hhead
  refine ⟨hsheet ▸ h.waits, ?_, h.block, h.code, h.memory, hsheet ▸ hon.append hne h.hanging ?_,
    fun _ => ?_, fun hwaits => ⟨?_, hpending hwaits⟩⟩
  · rw [hstack, h.stack, append_assoc]
  · cases upper with
    | nil => exact fun g hg => by cases hg
    | cons u upper => exact hhead
  · cases upper with
    | nil => exact hhead f rfl
    | cons u upper => exact h.waiting (cons_ne_nil u upper)
  · exact fun hnil => hne (append_eq_nil_iff.mp hnil).1

/-- The thread is at the post with that memory, or it is done. -/
def Bides (kit : Kit σ) (memory : Option (List ThreadId)) (post : Post) (t : Thread) : Prop :=
  t.status = .done ∨ t.Stands kit memory post

end Thread

/-! ## A visit in the interpreter -/

namespace Turn

open Exec

variable {kit : Kit σ} {s s' : Turn σ} {f top : Frame} {rest : List Frame} {fuel : Nat}
  {id current : BlockId} {memory : Option (List ThreadId)} {r : Except BlockError Unit}

/-- The block was not called: running its inputs failed, or ended the thread, or an input is waited
for. -/
structure Postponed (kit : Kit σ) (memory : Option (List ThreadId)) (post : Post)
    (r : Except BlockError Unit) (s s' : Turn σ) : Prop where
  same : s.machine.SameThreads s'.machine
  bides : r = .ok () → s'.thread.status ≠ .running ∧ s'.thread.Bides kit memory post

/-- The block was called, and gives way as long as one of the threads is left. -/
structure Called (kit : Kit σ) (memory : Option (List ThreadId)) (id : BlockId) (rest : List Frame)
    (ids : List ThreadId) (s s' : Turn σ) : Prop where
  sends : s.machine.Sends kit memory ids s'.machine
  left : ids.any s'.machine.hasThread →
    s'.thread.status ≠ .running ∧ s'.thread.Stands kit (some ids) (.block id rest)
  gone : ids.any s'.machine.hasThread = false →
    ∃ f, f.block = some id ∧ s'.thread = { s.thread with stack := f :: rest }

theorem ready_of_isReady (hready : s.thread.isReady)
    (htarget : s.machine.targets.contains s.thread.target = true) : s.Ready s.thread.sheet :=
  ⟨rfl, htarget, by simpa [Thread.isReady] using hready⟩

/-- A visit of the block itself. -/
theorem execute_visits (hkit : kit.Broadcasts) (hat : s.thread.AtBlock kit id rest memory [] f)
    (hready : s.thread.isReady) (h : execute kit fuel s = some (r, s')) :
    Postponed kit memory (.block id rest) r s s' ∨
      ∃ ids, r = .ok () ∧ Called kit memory id rest ids s s' := by
  obtain ⟨b, hb, hopcode, hinputs⟩ := hat.waits
  have hstack : s.thread.stack = f :: rest := hat.stack
  cases fuel with
  | zero => cases h
  | succ fuel =>
  by_cases htarget : s.machine.targets.contains s.thread.target = true
  · have hprimitive : kit.primitive? b.opcode = some Messages.broadcastAndWait :=
      hopcode ▸ hkit.primitive
    rw [execute_primitive htarget ((block?_of_stack hstack).trans hat.block) hb hprimitive] at h
    rcases runBlock_gathers (Call.mild_reckoning kit) (fun name input hslot hinput =>
      (hinputs name input hslot hinput).execute_looks (Call.mild_reckoning kit) fuel)
      (ready_of_isReady hready htarget) hstack h with
      ⟨e, rfl, hapart⟩ | ⟨rfl, hapart, f', hbare, hwaiting, -, upper, q, hupper, hhanging, hs'⟩ |
      ⟨args, s₁, f₁, hapart, hs₁, hbare, h⟩
    · exact .inl ⟨hapart.sameThreads, fun hr => by cases hr⟩
    · refine .inl ⟨hapart.sameThreads, fun _ => ⟨by rw [hs']; simp, .inr ⟨upper, f', ?_⟩⟩⟩
      rw [hs']
      refine ⟨hat.waits, rfl, (congrArg Frame.block hbare).trans hat.block,
        (congrArg Frame.code hbare).trans hat.code, ?_, hhanging, fun _ => hwaiting, fun _ =>
          ⟨hupper, ?_⟩⟩
      · exact (congrArg (fun f : Frame => f.scratch.started) hbare).trans hat.memory
      · rintro _ ⟨⟩
        rfl
    · have hscratch : f₁.scratch = f.scratch := (congrArg Frame.scratch hbare :)
      have hframe : (s₁.thread.frame?.map Frame.scratch).getD {} = f.scratch := by
        rw [hs₁, ← hscratch]
        rfl
      rcases bind_some.mp h with ⟨e, hcall, rfl⟩ | ⟨reported, s₂, hcall, h⟩
      · obtain ⟨⟨r₁, c⟩, hrun, hcall⟩ := Option.bind_eq_some_iff.mp hcall
        obtain ⟨rfl, -⟩ := Call.run_broadcast hrun
        cases hcall
      · obtain ⟨⟨r₁, c⟩, hrun, hcall⟩ := Option.bind_eq_some_iff.mp hcall
        obtain ⟨rfl, ids, hsent⟩ := Call.run_broadcast hrun
        cases hcall
        obtain ⟨rfl, rfl⟩ := pure_some.mp h
        rw [hframe] at hsent
        have hblock : f₁.block = some id :=
          (congrArg Frame.block hbare).trans hat.block
        -- The frame keeps what the block remembers.
        have hback : ∀ {t : Thread}, c.thread = { t with stack := f₁ :: rest } →
            c.thread.onDepth (rest.length + 1) ({ · with scratch := c.scratch }) =
              { t with stack := { f₁ with scratch := c.scratch } :: rest } := by
          intro t hc
          rw [hc]
          exact Thread.onDepth_below t [] rest f₁ ({ · with scratch := c.scratch })
        refine .inr ⟨ids, rfl, ?_, fun hleft => ?_, fun hgone => ?_⟩
        · rw [← hat.memory]
          exact hsent.sends.after hapart.sameThreads
        · obtain ⟨hstarted, status, hstatus, hthread⟩ := hsent.left hleft
          have hc : c.thread = { { s.thread with status } with stack := f₁ :: rest } := by
            rw [hthread]
            show { s₁.thread with status } = _
            rw [hs₁]
          dsimp only
          rw [hback hc]
          refine ⟨by rcases hstatus with rfl | rfl <;> simp, [], { f₁ with scratch := c.scratch },
            hat.waits, rfl, hblock, (congrArg Frame.code hbare).trans hat.code, hstarted,
            hat.hanging, fun hne => absurd rfl hne, fun hwaits => ?_⟩
          rcases hstatus with rfl | rfl <;> cases hwaits
        · have hc : c.thread = { s.thread with stack := f₁ :: rest } := (hsent.gone hgone).trans hs₁
          exact ⟨{ f₁ with scratch := c.scratch }, hblock, hback hc⟩
  · rw [execute_lost (Bool.eq_false_iff.mpr htarget)] at h
    cases h
    exact .inl ⟨⟨rfl, rfl⟩, fun _ => ⟨by simp [Thread.retire], .inl rfl⟩⟩

/-- After a block that gives way, waits or ends its thread, the thread is where the block left
it. -/
theorem afterBlock_waits (t : Thread) (current : BlockId) (h : s.thread.status ≠ .running) :
    (afterBlock t current s).2.thread =
      if s.thread.status = .yield then { s.thread with status := .running } else s.thread := by
  unfold afterBlock
  cases hstatus : s.thread.status
  case running => exact absurd hstatus h
  case promiseWait | yieldTick | done => rfl
  case yield =>
    dsimp only
    rw [if_pos rfl]
    split
    · rw [warpExpired_thread]
    · rfl

theorem afterBlock_bides {post : Post} (t : Thread) (current : BlockId)
    (hstatus : s.thread.status ≠ .running) (h : s.thread.Bides kit memory post) :
    (afterBlock t current s).2.thread.Bides kit memory post := by
  rw [afterBlock_waits t current hstatus]
  split
  · rename_i hyield
    rcases h with hdone | hstands
    · rw [hyield] at hdone
      cases hdone
    · exact .inr (hstands.of_stack rfl rfl fun hwaits => by cases hwaits)
  · exact h

/-- After a block that is done the innermost frame goes on to the next one. -/
theorem afterBlock_goes (hthread : s.thread = { t with stack := top :: rest })
    (hdepth : t.depth = rest.length + 1) (hrun : t.status = .running)
    (hblock : top.block = some current) :
    (afterBlock t current s).2.thread = { t with stack := top :: rest }.goNext.unwind.2 := by
  rw [afterBlock_done (by rw [hthread, ← hrun]) (by rw [hthread, hdepth]; rfl)
    (by rw [hthread]; exact hblock), unwind_thread, hthread]

/-- After a reporter in an input the thread is there still, or at what waits for the value. -/
theorem afterBlock_reported {g : Frame} (hthread : s.thread = { t with stack := top :: g :: rest })
    (hdepth : t.depth = rest.length + 2) (hready : t.isReady) (hblock : top.block = some current)
    (hnext : t.sheet.next? current = none) (hwaiting : g.waiting.isSome) :
    (afterBlock t current s).2.thread = { t with stack := top :: g :: rest, status := .running } ∨
      (afterBlock t current s).2.thread = { t with stack := g :: rest, status := .running } := by
  have hready : t.status = .running ∨ t.status = .yield := by simpa [Thread.isReady] using hready
  have hstatus : s.thread.status = t.status := by rw [hthread]
  rcases hready with hrun | hyield
  · right
    have hnothing : { t with stack := top :: g :: rest }.goNext =
        { t with stack := top.moveTo none :: g :: rest } := by
      simp [Thread.goNext, Thread.onFrame, Thread.block?, Thread.frame?, hblock, hnext]
    have hfrom : unwindFrom t.sheet (top.moveTo none) (g :: rest) =
        (if g.isLoop then .looped else .waiting, g :: rest) := by
      rw [unwindFrom, if_neg (by simp [Frame.moveTo]), if_pos hwaiting]
      split <;> rfl
    rw [afterBlock_goes hthread hdepth hrun hblock, hnothing, ← hrun]
    unfold Thread.unwind
    dsimp only
    rw [hfrom]
    by_cases hloop : g.isLoop = true
    · rw [if_pos hloop]
      rfl
    · rw [if_neg hloop]
      rfl
  · left
    rw [hyield] at hstatus
    rw [afterBlock_waits t current (by simp [hstatus]), if_pos hstatus, hthread]

/-- A visit of a reporter in an input of the block. -/
theorem execute_reports {u : Frame} (hat : s.thread.AtBlock kit id rest memory (u :: upper) f)
    (hready : s.thread.isReady) (hblock : s.thread.block? = some current)
    (h : execute kit fuel s = some (r, s')) :
    s.machine.SameThreads s'.machine ∧ (r = .ok () →
      (afterBlock s.thread current s').2.thread.Bides kit memory (.block id rest)) := by
  by_cases htarget : s.machine.targets.contains s.thread.target = true
  · obtain ⟨hcode, id', b, hu, hb, hhas, htree⟩ := hat.hanging.frames u mem_cons_self
    obtain rfl : id' = current := by
      rw [block?_of_stack hat.stack] at hblock
      exact Option.some.inj (hu.symm.trans hblock)
    obtain ⟨g, rest', hbelow⟩ : ∃ g rest', upper ++ f :: rest = g :: rest' :=
      exists_cons_of_ne_nil (by simp)
    have hstack : s.thread.stack = u :: g :: rest' := by rw [hat.stack, cons_append, hbelow]
    obtain ⟨hapart, hlooks⟩ := htree.execute_looks (Call.mild_reckoning kit) fuel s u g rest'
      (ready_of_isReady hready htarget) hstack hu hcode r s' h
    refine ⟨hapart.sameThreads, fun hr => .inr ?_⟩
    rcases hlooks () hr with ⟨top, g', hs', hbare, hwaiting, hplace, hcode'⟩ |
      ⟨-, on, q, hne, hon, hs'⟩
    · obtain ⟨hwaits, upper', f', hpopped⟩ := hat.pop hbelow hbare hwaiting
        (show ({ s.thread with stack := g' :: rest', status := .running } : Thread).sheet =
          _ from rfl) rfl
        (by simp)
      have hdepth : s.thread.depth = rest'.length + 2 := by
        unfold Thread.depth
        rw [hstack]
        rfl
      rcases afterBlock_reported hs' hdepth hready (hplace.trans hu) (htree.next? hb hhas)
        hwaits with hend | hend
      · have hon : Hanging kit (·.isMild) true s.thread.sheet [top] :=
          .single (hcode'.trans hcode) (hplace.trans hu) hb hhas htree
        rw [hend]
        refine ⟨[top] ++ upper', f', hpopped.stack_on hon (cons_ne_nil _ _) ?_ rfl rfl
          (fun h => by cases h)⟩
        rintro _ ⟨⟩
        exact hwaits
      · rw [hend]
        exact ⟨upper', f', hpopped⟩
    · obtain ⟨hwaits, upper', f', hpopped⟩ := hat.pop hbelow rfl rfl
        (show ({ s.thread with stack := g :: rest', status := .running } : Thread).sheet =
          _ from rfl) rfl
        (by simp)
      have hstatus : s'.thread.status = .promiseWait := by rw [hs']
      rw [afterBlock_waits _ _ (by simp [hstatus]), if_neg (by simp [hstatus]), hs']
      refine ⟨on ++ upper', f', hpopped.stack_on hon hne ?_ rfl rfl ?_⟩
      · rintro _ ⟨⟩
        exact hwaits
      · rintro - _ ⟨⟩
        rfl
  · cases fuel with
    | zero => cases h
    | succ fuel =>
      rw [execute_lost (Bool.eq_false_iff.mpr htarget)] at h
      cases h
      exact ⟨⟨rfl, rfl⟩, fun _ => .inl rfl⟩

/-! ## A visit in compiled code -/

variable {c : Cursor} {call : PrimitiveCall Script} {predicate : Exec (Turn σ) Unit} {args : Args}

/-- The instruction keeps what the block remembers. -/
theorem stands_saved {status : Status} (hat : t.AtInstr c.script c.pc rest memory f c)
    (hstatus : status ≠ .promiseWait) (hstarted : scratch.started = some ids) :
    ({ t with status }.onCursor fun c' =>
      { c' with scratches := c'.scratches.insert c.pc scratch }).Stands kit (some ids)
        (.instr c.script c.pc rest) := by
  have hcursor : { t with status }.At f c rest := ⟨hat.cursor.stack, hat.cursor.code⟩
  refine ⟨_, _, hcursor.onCursor fun c' =>
    { c' with scratches := c'.scratches.insert c.pc scratch }, hat.block, rfl, rfl, hat.instr,
    ?_, hstatus⟩
  rw [Std.TreeMap.getElem?_insert_self]
  exact hstarted

/-- Looking whether there is time left changes the clock only. -/
theorem warpExpired_same (warp : Bool) (s : Turn σ) :
    (if warp then s.warpExpired else (true, s)).2.thread = s.thread ∧
      s.machine.SameThreads (if warp then s.warpExpired else (true, s)).2.machine := by
  split
  · unfold warpExpired
    split <;> exact ⟨rfl, rfl, rfl⟩
  · exact ⟨rfl, rfl, rfl⟩

/-- The thread is at the instruction after the one of the post, with nothing remembered there. -/
def Passed (t : Thread) (script : Script) (pc : Nat) (rest : List Frame) : Prop :=
  ∃ f c, t.At f c rest ∧ c.script = script ∧ c.pc = pc + 1 ∧ c.scratches[pc]? = none

/-- The instruction was run, and is not left as long as one of the threads is. -/
structure Ticks (kit : Kit σ) (memory : Option (List ThreadId)) (script : Script) (pc : Nat)
    (rest : List Frame) (ids : List ThreadId) (s s' : Turn σ) : Prop where
  sends : s.machine.Sends kit memory ids s'.machine
  left : ids.any s'.machine.hasThread → s'.thread.Stands kit (some ids) (.instr script pc rest)
  gone : ids.any s'.machine.hasThread = false → Passed s'.thread script pc rest

/-- One call of the primitive: it is called again at once, or the instruction was run. -/
theorem callOnce_ticks {r : Except BlockError After}
    (hat : s.thread.AtInstr c.script c.pc rest none f c) (hrun : s.thread.status = .running)
    (hforgot : c.scratches[c.pc]? = none)
    (h : callOnce kit (execute kit fuel) call c.pc Messages.broadcastAndWait args
      s.thread.depth scratch s =
      some (r, s'))
    :
    ∃ ids, (∃ scratch', r = .ok (.again scratch') ∧ scratch'.started = some ids ∧
      s'.thread = s.thread ∧
        s.machine.Sends kit scratch.started ids s'.machine) ∨
      ∃ flow, r = .ok (.flow flow) ∧ Ticks kit scratch.started c.script c.pc rest ids s s' := by
  rw [callOnce, getThread_andThen] at h
  rcases bind_some.mp h with ⟨e, hx, rfl⟩ | ⟨⟨reported, result⟩, s₁, hx, h⟩
  · obtain ⟨r₀, result, hcall, hr, -⟩ := run_some hx
    obtain ⟨rfl, -⟩ := Call.run_broadcast hcall
    cases hr
  · obtain ⟨r₀, result', hcall, hr, rfl⟩ := run_some hx
    obtain ⟨rfl, ids, hsent⟩ := Call.run_broadcast hcall
    cases hr
    have hsends : s.machine.Sends kit scratch.started ids result.machine := hsent.sends
    refine ⟨ids, ?_⟩
    dsimp only at h
    rw [getThread_andThen] at h
    cases hleft : ids.any result.machine.hasThread with
    | false =>
      -- The thread goes on behind the block.
      have hthread : result.thread = s.thread := hsent.gone hleft
      rw [hthread, hrun, if_neg (by simp), if_neg (by rw [hsent.leaves]; simp), hsent.branch] at h
      have hadvance : r = .ok (.flow .go) ∧
          s' = ⟨result.machine, s.thread.onCursor Cursor.advance⟩ := by
        rw [← hthread]
        cases hdest : call.dest <;> rw [hdest] at h <;> cases h <;> exact ⟨rfl, rfl⟩
      obtain ⟨rfl, rfl⟩ := hadvance
      refine .inr ⟨_, rfl, hsends, fun hany => ?_, fun _ => ?_⟩
      · rw [hleft] at hany
        cases hany
      · exact ⟨_, _, hat.cursor.onCursor Cursor.advance, rfl, rfl, hforgot⟩
    | true =>
      obtain ⟨hstarted, status, hstatus, hthread⟩ := hsent.left hleft
      replace hthread : result.thread = { s.thread with status } := hthread
      have hdepth : ¬ (result.thread.status == .done || result.thread.depth < s.thread.depth) := by
        rw [hthread]
        rcases hstatus with rfl | rfl <;> simp [Thread.depth]
      have hstays : ∀ {m : Machine σ}, result.machine.SameThreads m →
          ¬ ids.any m.hasThread = false := by
        intro m hsame
        unfold Machine.hasThread
        rw [hsame.1]
        exact Bool.not_eq_false _ ▸ hleft
      rw [if_neg hdepth, if_neg (by rw [hsent.leaves]; simp)] at h
      rcases hstatus with rfl | rfl
      · rw [if_pos (by rw [hthread]; rfl), onThread_andThen, get_andThen, set_andThen] at h
        have hback : { result.thread with status := .running } = s.thread := by
          rw [hthread, ← hrun]
        rw [hback] at h
        have hexpired := warpExpired_same s.thread.isWarp ⟨result.machine, s.thread⟩
        rcases hq : (if s.thread.isWarp then warpExpired ⟨result.machine, s.thread⟩ else
          (true, ⟨result.machine, s.thread⟩)) with ⟨expired, s₂⟩
        rw [hq] at h hexpired
        obtain ⟨hthread₂, hsame⟩ := hexpired
        cases expired with
        | true =>
          cases h
          refine .inr ⟨_, rfl, hsends.before hsame, fun _ => ?_,
            fun hgone => absurd hgone (hstays hsame)⟩
          dsimp only
          rw [hthread₂]
          exact stands_saved hat (by simp [hrun]) hstarted
        | false =>
          cases h
          exact .inl ⟨_, rfl, hstarted, hthread₂, hsends.before hsame⟩
      · rw [if_neg (by rw [hthread]; simp), if_pos (by rw [hthread]; rfl)] at h
        cases h
        refine .inr ⟨_, rfl, hsends, fun _ => ?_, fun hgone => absurd hgone (hstays ⟨rfl, rfl⟩)⟩
        dsimp only
        rw [hthread]
        exact stands_saved hat (by simp) hstarted

/-- The calls of a turn start the threads once. -/
theorem callAgain_ticks {r : Except BlockError Flow} (hforgot : c.scratches[c.pc]? = none)
    (tries : Nat) :
    ∀ (scratch : Scratch) (s : Turn σ), s.thread.AtInstr c.script c.pc rest none f c →
      s.thread.status = .running →
      callAgain kit (execute kit fuel) call c.pc Messages.broadcastAndWait args s.thread.depth
        tries scratch s = some (r, s') →
      ∃ ids flow, r = .ok flow ∧ Ticks kit scratch.started c.script c.pc rest ids s s' := by
  induction tries with
  | zero => intro scratch s _ _ h; cases h
  | succ tries ih =>
    intro scratch s hat hrun h
    rw [callAgain] at h
    rcases bind_some.mp h with ⟨e, honce, rfl⟩ | ⟨after, s₁, honce, h⟩
    · obtain ⟨ids, ⟨_, hr, -⟩ | ⟨_, hr, -⟩⟩ := callOnce_ticks hat hrun hforgot honce <;> cases hr
    · obtain ⟨ids, ⟨scratch', hr, hstarted, hthread, hsends⟩ | ⟨flow, hr, hticks⟩⟩ :=
        callOnce_ticks hat hrun hforgot honce
      · cases hr
        rw [← hthread] at hat hrun h
        obtain ⟨ids', flow, rfl, hagain, hleft, hgone⟩ := ih scratch' s₁ hat hrun h
        rw [hstarted] at hagain
        cases hagain with
        | again hsame => exact ⟨ids, flow, rfl, hsends.before hsame, hleft, hgone⟩
      · cases hr
        obtain ⟨rfl, rfl⟩ := pure_some.mp h
        exact ⟨ids, flow, rfl, hticks⟩

/-- A visit of the instruction that calls the block. -/
theorem tick_visits {r : Except BlockError Flow} (hkit : kit.Broadcasts)
    (hat : s.thread.AtInstr c.script c.pc rest memory f c) (hrun : s.thread.status = .running)
    (h : tick kit fuel c s = some (r, s')) :
    ((∃ e, r = .error e) ∧ s.machine.SameThreads s'.machine) ∨
      ∃ ids flow, r = .ok flow ∧ Ticks kit memory c.script c.pc rest ids s s' := by
  obtain ⟨call, hinstr, hopcode⟩ := hat.instr
  have hcall : callPrimitive kit fuel call c.pc s = some (r, s') := by
    unfold tick at h
    rw [hinstr] at h
    exact h
  unfold callPrimitive at hcall
  rw [hopcode, hkit.primitive] at hcall
  rcases bind_some.mp hcall with ⟨e, hargs, rfl⟩ | ⟨values, s₁, hargs, hcall⟩
  · exact .inl ⟨⟨e, rfl⟩, (evalArgs_aside call.args _ _ _ hargs).machine.toApart.sameThreads⟩
  · obtain ⟨hthread, haside⟩ := evalArgs_aside call.args _ _ _ hargs
    rw [getThread_andThen, onThread_andThen, hthread, hat.cursor.cursor?] at hcall
    have hstarted : ((some c >>= (·.scratches[c.pc]?)).getD {}).started = memory := by
      rw [← hat.memory]
      show (c.scratches[c.pc]?.getD {}).started = _
      cases c.scratches[c.pc]? <;> rfl
    -- While the block is called, the instruction remembers nothing.
    have hforgot : (c.scratches.erase c.pc)[c.pc]? = none := Std.TreeMap.getElem?_erase_self
    generalize ht :
      (s.thread.onCursor fun c' => { c' with scratches := c'.scratches.erase c.pc }) = t at hcall
    have hcursor := ht ▸ hat.cursor.onCursor fun c' =>
        { c' with scratches := c'.scratches.erase c.pc }
    have hdepth : s.thread.depth = t.depth := by
      unfold Thread.depth
      rw [hat.cursor.stack, hcursor.stack]
      rfl
    have hstatus : t.status = s.thread.status := by rw [← ht]; rfl
    have hat' : t.AtInstr c.script c.pc rest none _ _ :=
      ⟨hcursor, hat.block, rfl, rfl, hat.instr, by rw [hforgot]; rfl, hstatus ▸ hat.status⟩
    rw [hdepth] at hcall
    obtain ⟨ids, flow, rfl, hticks⟩ :=
      callAgain_ticks (c := { c with scratches := c.scratches.erase c.pc })
      hforgot fuel _ ⟨s₁.machine, t⟩ hat' (hstatus.trans hrun) hcall
    obtain ⟨hsends, hleft, hgone⟩ := hticks
    rw [hstarted] at hsends
    exact .inr ⟨ids, flow, rfl, hsends.after haside.toApart.sameThreads, hleft, hgone⟩

end Turn

/-! ## Visits -/

namespace Stop

/-- The block of the post is left: the innermost frame goes on to the next block, or the cursor to
the next instruction, and nothing is remembered there. -/
def Leaves (y : Stop σ) : Post → Prop
  | .block id rest => ∃ f, f.block = some id ∧
      y.onward.thread = { y.before.thread with stack := f :: rest }.goNext.unwind.2
  | .instr script pc rest => Turn.Passed y.onward.thread script pc rest

/-- The block of the post was not called, and the thread bides there. -/
structure Postpones (kit : Kit σ) (memory : Option (List ThreadId)) (post : Post) (y : Stop σ) :
    Prop where
  stands : y.before.thread.Stands kit memory post
  same : y.before.machine.SameThreads y.after.machine
  bides : y.onward.thread.Bides kit memory post

/-- The block of the post was called. As long as one of the threads is left the thread bides there,
and when none is, it goes on. -/
structure Visits (kit : Kit σ) (memory : Option (List ThreadId)) (ids : List ThreadId) (post : Post)
    (y : Stop σ) : Prop where
  stands : y.before.thread.Stands kit memory post
  sends : y.before.machine.Sends kit memory ids y.after.machine
  left : ids.any y.after.machine.hasThread → y.onward.thread.Bides kit (some ids) post
  gone : ids.any y.after.machine.hasThread = false → y.before.thread.status = .running →
    y.Leaves post

variable {kit : Kit σ} {y : Stop σ} {coded goes : Bool} {memory : Option (List ThreadId)}
  {post : Post}

/-- **A stop at the block starts the threads once and does not leave it before they are gone.** -/
theorem Leads.visits (hkit : kit.Broadcasts) (h : y.Leads kit coded goes)
    (hstands : y.before.thread.Stands kit memory post) :
    y.Postpones kit memory post ∨ ∃ ids, y.Visits kit memory ids post := by
  have hstands' := hstands
  cases post with
  | block id rest =>
    obtain ⟨upper, f, hat⟩ := hstands
    cases h with
    | instr _ hcursor | instrFails _ hcursor =>
      rw [hat.cursor?] at hcursor
      cases hcursor
    | blockFails hready hblock h honward =>
      left
      cases upper with
      | nil =>
        rcases Turn.execute_visits hkit hat hready h with hpostponed | ⟨_, hr, -⟩
        · exact ⟨hstands', hpostponed.same, .inl (by rw [honward]; rfl)⟩
        · cases hr
      | cons u upper =>
        exact ⟨hstands', (Turn.execute_reports hat hready hblock h).1, .inl (by rw [honward]; rfl)⟩
    | @block fuel current hready hblock h honward =>
      cases upper with
      | nil =>
        rcases Turn.execute_visits hkit hat hready h with hpostponed | ⟨ids, -, hcalled⟩
        · obtain ⟨hstatus, hbides⟩ := hpostponed.bides rfl
          exact .inl ⟨hstands', hpostponed.same, honward ▸ Turn.afterBlock_bides _ _ hstatus hbides⟩
        · refine .inr ⟨ids, hstands', hcalled.sends, fun hany => ?_, fun hgone hrun => ?_⟩
          · obtain ⟨hstatus, hat'⟩ := hcalled.left hany
            exact honward ▸ Turn.afterBlock_bides _ _ hstatus (.inr hat')
          · obtain ⟨f', hf', hthread⟩ := hcalled.gone hgone
            have hdepth : y.before.thread.depth = rest.length + 1 := by
              unfold Thread.depth
              rw [hat.stack]
              rfl
            have hcurrent : f'.block = some current := by
              rw [hf', ← hat.block, ← hblock]
              exact (Turn.block?_of_stack hat.stack).symm
            exact ⟨f', hf', honward ▸ Turn.afterBlock_goes hthread hdepth hrun hcurrent⟩
      | cons u upper =>
        obtain ⟨hsame, hbides⟩ := Turn.execute_reports hat hready hblock h
        exact .inl ⟨hstands', hsame, honward ▸ hbides rfl⟩
  | instr script pc rest =>
    obtain ⟨f, c, hat⟩ := hstands
    obtain rfl := hat.script_eq
    obtain rfl := hat.pc_eq
    cases h with
    | block _ hblock | blockFails _ hblock =>
      rw [Turn.block?_of_stack hat.cursor.stack, hat.block] at hblock
      cases hblock
    | instr hrun hcursor h honward =>
      cases hat.cursor.cursor?.symm.trans hcursor
      obtain ⟨⟨_, hr⟩, -⟩ | ⟨ids, _, -, hticks⟩ := Turn.tick_visits hkit hat hrun h
      · cases hr
      · exact .inr ⟨ids, hstands', hticks.sends, fun hany => .inr (honward ▸ hticks.left hany),
          fun hgone _ => show Turn.Passed y.onward.thread _ _ _ from honward ▸ hticks.gone hgone⟩
    | instrFails hrun hcursor h honward =>
      cases hat.cursor.cursor?.symm.trans hcursor
      obtain ⟨-, hsame⟩ | ⟨_, _, hr, -⟩ := Turn.tick_visits hkit hat hrun h
      · exact .inl ⟨hstands', hsame, .inl (by rw [honward]; rfl)⟩
      · cases hr

end Stop
end BlockMachine

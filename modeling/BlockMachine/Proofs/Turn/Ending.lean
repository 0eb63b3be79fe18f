import BlockMachine.Proofs.Turn.Advance
import BlockMachine.Proofs.Turn.Running

/-!
# Turns of compiled code end

With enough fuel a turn of compiled code ends, and more fuel makes no difference (`Turn.Ends`).
Between two readings of the clock that find time left, code goes forward: a jump back and a call
that could go round stand right behind a yield, where the turn ends or the clock is read. So the
argument has three layers: an induction on the readings left (`Turn.Elapses`), one on the stack of
frames below the innermost one, and one on the scripts that the innermost frame may enter without a
yield (`Script.Under`) and on what is left of its code.

The module is about `Turn.runCode` and `Turn.step`.

## Results

* `compiled_turns_end`: every turn of compiled code.
* `calling_turns_end`: a loop that calls a procedure in warp mode which calls itself.

Left out are turns of the interpreter, and kits with other blocks than the core ones.
-/

namespace BlockMachine

open Option

variable {b s : Script} {i : Instr Script} {p : Program} {n : Nat}

namespace Turn

open Exec

variable {σ : Type} {kit : Kit σ} {s s' : Turn σ} {f : Frame} {c : Cursor} {rest : List Frame}

/-- With enough fuel the computation ends, whatever the fuel. -/
def Eventually {S α : Type} (x : Nat → Exec S α) (s : S) (q : Except BlockError α × S) : Prop :=
  ∃ N, ∀ fuel ≥ N, x fuel s = some q

/-- The turn of compiled code ends. -/
def Ends (kit : Kit σ) (s : Turn σ) : Prop :=
  ∃ q, Eventually (runCode kit) s q

/-! ## One instruction ends -/

theorem onThread_total (f : Thread → Thread) : Total (onThread f : Exec (Turn σ) Unit) :=
  fun _ => rfl

theorem onMachine_total (f : Machine σ → Machine σ) : Total (onMachine f : Exec (Turn σ) Unit) :=
  fun _ => rfl

theorem yieldPoint_total : Total (yieldPoint : Exec (Turn σ) Flow) := fun _ => rfl

theorem advance_total : Total (advance : Exec (Turn σ) Flow) := fun _ => rfl

theorem jumpTo_total (target : Nat) : Total (jumpTo target : Exec (Turn σ) Flow) := fun _ => rfl

theorem setLocal_total (slot : Nat) (v : Value) : Total (setLocal slot v : Exec (Turn σ) Unit) :=
  fun _ => rfl

theorem finishFrame_total : Total (finishFrame : Exec (Turn σ) Flow) := by
  refine getThread_total.andThen fun t => (onThread_total _).andThen fun _ =>
    getThread_total.andThen fun t' => ?_
  split
  · exact total_pure _
  · split
    · exact yieldPoint_total
    · exact total_pure _

theorem wait_total (duration : Expr) (pc : Nat) :
    Total (wait duration pc : Exec (Turn σ) Flow) := by
  refine Total.andThen (fun _ => rfl) fun s => getThread_total.andThen fun t => ?_
  dsimp only
  split
  · exact (eval_total duration).andThen fun v => (onThread_total _).andThen fun _ =>
      (onMachine_total _).andThen fun _ => yieldPoint_total
  · split
    · exact (onThread_total _).andThen fun _ => total_pure _
    · exact yieldPoint_total

theorem call_total (key : ProcedureKey) (args : List (String × Expr)) :
    Total (call key args : Exec (Turn σ) Flow) := by
  refine (evalArgs_total args).andThen fun values => advance_total.mapped.andThen fun _ =>
    getThread_total.andThen fun t => ?_
  split
  · exact total_pure _
  · exact (onThread_total _).andThen fun _ => Total.andThen (fun _ => rfl) fun _ => total_pure _

theorem enterFragment_total (call : PrimitiveCall Script) (pc : Nat) (scratch : Scratch) (n : Nat)
    (isLoop : Bool) : Total (enterFragment call pc scratch n isLoop : Exec (Turn σ) Flow) := by
  unfold enterFragment
  cases isLoop with
  | true =>
    refine (onThread_total _).andThen fun _ => ?_
    cases if n == 0 then none else (call.branches[n - 1]?).join with
    | some body => exact (onThread_total _).andThen fun _ => total_pure _
    | none => exact yieldPoint_total
  | false =>
    refine advance_total.mapped.andThen fun _ => ?_
    cases if n == 0 then none else (call.branches[n - 1]?).join with
    | some body => exact (onThread_total _).andThen fun _ => total_pure _
    | none => exact total_pure _

/-- Instructions other than calls of primitives need no fuel. -/
theorem runInstr_total (hi : ∀ call, i ≠ .primitive call) (fuel pc : Nat) :
    Total (runInstr kit fuel pc i) := by
  cases i
  case primitive call => exact absurd rfl (hi call)
  case stop option =>
    cases option
    · exact (onMachine_total _).andThen fun _ => (onThread_total _).andThen fun _ => total_pure _
    · exact (onThread_total _).andThen fun _ => total_pure _
    · exact getThread_total.andThen fun _ => (onMachine_total _).andThen fun _ => advance_total
  case setVariable | changeVariable | addToList | deleteOfList =>
    exact (eval_total _).andThen fun _ => getThread_total.andThen fun _ =>
      (service_total _).andThen fun _ => advance_total
  case clearList =>
    exact getThread_total.andThen fun _ => (service_total _).andThen fun _ => advance_total
  case insertAtList | replaceInList =>
    exact (eval_total _).andThen fun _ => (eval_total _).andThen fun _ =>
      getThread_total.andThen fun _ => (service_total _).andThen fun _ => advance_total
  case store | repeatInit =>
    exact (eval_total _).andThen fun _ => (setLocal_total _ _).andThen fun _ => advance_total
  case jump => exact jumpTo_total _
  case jumpUnless =>
    refine (eval_total _).andThen fun _ => ?_
    split
    · exact advance_total
    · exact jumpTo_total _
  case jumpIf =>
    refine (eval_total _).andThen fun _ => ?_
    split
    · exact jumpTo_total _
    · exact advance_total
  case repeatTest =>
    refine getThread_total.andThen fun _ => ?_
    dsimp only
    split
    · exact (setLocal_total _ _).andThen fun _ => advance_total
    · exact jumpTo_total _
  case yield => exact advance_total.mapped.andThen fun _ => total_pure _
  case yieldIfNeeded => exact advance_total.mapped.andThen fun _ => yieldPoint_total
  case yieldTick =>
    exact advance_total.mapped.andThen fun _ => (onThread_total _).andThen fun _ => total_pure _
  case wait => exact wait_total _ _
  case call => exact call_total _ _
  case nop => exact advance_total

section Primitives

variable {call : PrimitiveCall Script} {pc depth : Nat} {primitive : Primitive σ} {args : Args}

theorem callOnce_same (h : (primitive args).Quiet kit.toCatalog)
    (predicate predicate' : Exec (Turn σ) Unit) (scratch : Scratch) :
    callOnce kit predicate call pc primitive args depth scratch =
      callOnce kit predicate' call pc primitive args depth scratch := by
  unfold callOnce
  refine congrArg _ (funext fun t => ?_)
  dsimp only
  rw [(Call.run_quiet kit t.isWarp h).same predicate predicate']

theorem callOnce_total (h : (primitive args).Quiet kit.toCatalog) (predicate : Exec (Turn σ) Unit)
    (scratch : Scratch) : Total (callOnce kit predicate call pc primitive args depth scratch) := by
  refine getThread_total.andThen fun t₀ => Total.andThen (fun s => ?_) fun q => ?_
  · obtain ⟨q, hq⟩ := isSome_iff_exists.mp
      ((Call.run_quiet kit t₀.isWarp h).total predicate { s with scratch })
    show (Call.run kit predicate (.compiled t₀.isWarp) (primitive args) { s with scratch } >>=
      fun q =>
      some (q.1.map (·, q.2), q.2.toTurn)).isSome
    rw [hq]
    rfl
  · obtain ⟨reported, result⟩ := q
    refine getThread_total.andThen fun t => ?_
    have hsave : Total (do
        saveScratch pc result.scratch
        return .flow .pause : Exec (Turn σ) After) :=
      (onThread_total _).andThen fun _ => total_pure _
    dsimp only
    split
    · exact total_pure _
    split
    · exact (onThread_total _).andThen fun _ => total_pure _
    cases reported
    case promise =>
      exact (onThread_total _).andThen fun _ => advance_total.mapped.andThen fun _ => total_pure _
    all_goals
      dsimp only
      split
      · exact (onThread_total _).andThen fun _ => Total.andThen (fun _ => rfl) fun s =>
          Total.andThen (fun _ => rfl) fun _ => total_ite hsave (total_pure _)
      split
      · exact hsave
      cases result.branch with
      | some b => exact (enterFragment_total call pc _ _ _).mapped
      | none =>
        cases call.dest with
        | none => exact advance_total.mapped
        | some dest =>
          first
          | exact advance_total.mapped
          | exact (setLocal_total dest _).andThen fun _ => advance_total.mapped

/-- A primitive is called again only as long as there is time left. -/
theorem callAgain_ends (hquiet : kit.toCatalog.Quiet)
    (hprim : kit.primitive? call.opcode = some primitive) (n : Nat) :
    ∀ {s : Turn σ} {f : Frame} {c : Cursor} {scratch : Scratch}, s.thread.At f c rest →
      s.thread.status = .running → c.instr? = some (.primitive call) → s.Elapses n →
      ∃ N q, ∀ predicate, ∀ fuel ≥ N,
        callAgain kit predicate call c.pc primitive args s.thread.depth fuel scratch s =
          some q := by
  induction n using Nat.strongRecOn with
  | ind n ih =>
    intro s f c scratch hat hrun hi hn
    have hq := hquiet _ _ hprim args
    have htotal : Total (callOnce kit outOfFuel call c.pc primitive args s.thread.depth scratch) :=
      callOnce_total hq outOfFuel scratch
    obtain ⟨⟨r, s₁⟩, honce⟩ := isSome_iff_exists.mp (htotal s)
    have hsame : ∀ predicate,
        callOnce kit predicate call c.pc primitive args s.thread.depth scratch s = some (r, s₁) :=
      fun predicate => callOnce_same hq predicate outOfFuel scratch ▸ honce
    have hafter := callOnce_after hat hrun hi hprim honce
    rcases r with e | ⟨scratch' | flow⟩
    · refine ⟨1, (.error e, s₁), fun predicate fuel hfuel => ?_⟩
      obtain ⟨fuel, rfl⟩ := Nat.exists_eq_add_of_le' hfuel
      exact bind_some.mpr (.inl ⟨e, hsame predicate, rfl⟩)
    · obtain ⟨hrun₁, hspends, f₁, c₁, hholds⟩ := hafter
      obtain ⟨n', hlt, hn'⟩ := hspends hquiet n hn
      obtain ⟨N, q, hN⟩ : ∃ N q, ∀ predicate, ∀ fuel ≥ N, callAgain kit predicate call c₁.pc
          primitive args s₁.thread.depth fuel scratch' s₁ = some q :=
        ih n' hlt hholds.place hrun₁ (hholds.instr?.trans hi) hn'
      have hdepth : s₁.thread.depth = s.thread.depth := by
        unfold Thread.depth
        rw [hat.stack, hholds.place.stack]
        rfl
      rw [hdepth, hholds.cursor.2.2.2] at hN
      refine ⟨N + 1, q, fun predicate fuel hfuel => ?_⟩
      obtain ⟨fuel, rfl⟩ := Nat.exists_eq_add_of_le' hfuel
      exact bind_some.mpr (.inr ⟨_, s₁, hsame predicate, hN predicate (fuel + N) (by omega)⟩)
    · refine ⟨1, (.ok flow, s₁), fun predicate fuel hfuel => ?_⟩
      obtain ⟨fuel, rfl⟩ := Nat.exists_eq_add_of_le' hfuel
      exact bind_some.mpr (.inr ⟨_, s₁, hsame predicate, rfl⟩)

end Primitives

theorem callPrimitive_ends {call : PrimitiveCall Script} (hquiet : kit.toCatalog.Quiet)
    (hat : s.thread.At f c rest) (hrun : s.thread.status = .running)
    (hi : c.instr? = some (.primitive call)) (hn : s.Elapses n) :
    ∃ q, Eventually (fun fuel => callPrimitive kit fuel call c.pc) s q := by
  unfold callPrimitive
  cases hprim : kit.primitive? call.opcode with
  | none => exact ⟨_, 0, fun _ _ => rfl⟩
  | some primitive =>
    obtain ⟨⟨r, s₁⟩, hargs⟩ := isSome_iff_exists.mp (evalArgs_total call.args s)
    have haside := evalArgs_aside _ _ _ _ hargs
    cases r with
    | error e => exact ⟨(.error e, s₁), 0, fun fuel _ => bind_some.mpr (.inl ⟨e, hargs, rfl⟩)⟩
    | ok values =>
      have hat₁ : s₁.thread.At f c rest := haside.thread ▸ hat
      obtain ⟨n', -, hn'⟩ := haside.within n hn
      have hnext := hat₁.onCursor fun c' => { c' with scratches := c'.scratches.erase c.pc }
      have hrun₁ : s₁.thread.status = .running := haside.thread ▸ hrun
      have hdepth : s₁.thread.depth = (s₁.thread.onCursor fun c' =>
          { c' with scratches := c'.scratches.erase c.pc }).depth := by
        unfold Thread.depth
        rw [hat₁.stack, hnext.stack]
        rfl
      obtain ⟨N, q, hN⟩ := callAgain_ends
        (s := { s₁ with
          thread := s₁.thread.onCursor fun c' =>
            { c' with scratches := c'.scratches.erase c.pc } }) hquiet hprim n' hnext hrun₁ hi hn'
      rw [← hdepth] at hN
      exact ⟨q, N, fun fuel hfuel => bind_some.mpr (.inr ⟨values, s₁, hargs, hN _ fuel hfuel⟩)⟩

theorem runInstr_fuel (hi : ∀ call, i ≠ .primitive call) (fuel fuel' pc : Nat) :
    runInstr kit fuel pc i = runInstr kit fuel' pc i := by
  cases i
  case primitive call => exact absurd rfl (hi call)
  case stop option => cases option <;> rfl
  all_goals rfl

/-- One instruction ends, if the time does. -/
theorem tick_ends (hquiet : kit.toCatalog.Quiet) (hat : s.thread.At f c rest)
    (hrun : s.thread.status = .running) (hn : s.Elapses n) :
    ∃ q, Eventually (fun fuel => tick kit fuel c) s q := by
  unfold tick
  cases hi : c.instr? with
  | none =>
    obtain ⟨q, hq⟩ := isSome_iff_exists.mp (finishFrame_total s)
    exact ⟨q, 0, fun _ _ => hq⟩
  | some i =>
    by_cases hprim : ∃ call, i = .primitive call
    · obtain ⟨call, rfl⟩ := hprim
      exact callPrimitive_ends hquiet hat hrun hi hn
    · have hother : ∀ call, i ≠ .primitive call := fun call h => hprim ⟨call, h⟩
      obtain ⟨q, hq⟩ := isSome_iff_exists.mp (runInstr_total hother 0 c.pc s)
      refine ⟨q, 0, fun fuel _ => ?_⟩
      show runInstr kit fuel c.pc i s = some q
      rw [runInstr_fuel hother fuel 0]
      exact hq

/-! ## What a turn needs to end -/

/-- A thread that does not run is left alone. -/
theorem ends_of_stopped (h : s.thread.status ≠ .running) : Ends kit s := by
  refine ⟨(.ok (), s), 1, fun fuel hfuel => ?_⟩
  obtain ⟨fuel, rfl⟩ := Nat.exists_eq_add_of_le' hfuel
  rw [runCode_succ, getThread_andThen, if_pos (by simpa using h)]
  rfl

/-- A turn ends if its first instruction does, and what follows it if the turn goes on. -/
theorem ends_of_tick {r : Except BlockError Flow} (hat : s.thread.At f c rest)
    (hrun : s.thread.status = .running) (h : Eventually (fun fuel => tick kit fuel c) s (r, s'))
    (hgo : r = .ok .go → Ends kit s') : Ends kit s := by
  obtain ⟨N, hN⟩ := h
  rcases r with e | _ | _
  · refine ⟨(.error e, s'), N + 1, fun fuel hfuel => ?_⟩
    obtain ⟨fuel, rfl⟩ := Nat.exists_eq_add_of_le' hfuel
    exact runCode_error hat hrun (hN (fuel + N) (by omega))
  · obtain ⟨q, N', hN'⟩ := hgo rfl
    refine ⟨q, N + N' + 1, fun fuel hfuel => ?_⟩
    obtain ⟨fuel, rfl⟩ := Nat.exists_eq_add_of_le' hfuel
    rw [← Nat.add_assoc, runCode_go hat hrun (hN _ (by omega))]
    exact hN' _ (by omega)
  · refine ⟨(.ok (), s'), N + 1, fun fuel hfuel => ?_⟩
    obtain ⟨fuel, rfl⟩ := Nat.exists_eq_add_of_le' hfuel
    exact runCode_pause hat hrun (hN (fuel + N) (by omega))

end Turn

/-! ## Scripts that are entered without a yield -/

namespace Script

/-- The first script may be entered from the second one without a yield: it is a branch of one of
its blocks, or the body of a procedure that it calls at once. -/
def Under (p : Program) (b s : Script) : Prop :=
  (∃ i ∈ s.code.toList, b ∈ i.branches) ∨
    ∃ key, s.CallsAtOnce key ∧ p.procedures.lookup key = some b

theorem Good.acc {known : ProcedureKey → Prop} (h : s.Good known)
    (hcalls : ∀ key b, s.CallsAtOnce key → p.procedures.lookup key = some b → Acc (Under p) b) :
    Acc (Under p) s := by
  induction h with
  | intro _ _ _ ih =>
    refine Acc.intro _ fun b hb => ?_
    rcases hb with ⟨i, hi, hb⟩ | ⟨key, hkey, hbody⟩
    · exact ih i hi b hb fun key b' hk => hcalls key b' (.branch hi hb hk)
    · exact hcalls key b hkey hbody

end Script

/-- The scripts of a sound program are not entered in circles without a yield. -/
theorem Program.Sound.acc (hp : p.Sound) (hs : p.Contains s) : Acc (Script.Under p) s := by
  have hbodies : ∀ key b, p.procedures.lookup key = some b → Acc (Script.Under p) b := by
    intro key
    induction key using hp.ordered.induction with
    | _ key ih =>
      intro b hb
      exact (hp.bodies key b hb).2.acc fun key' b' hcall hb' => ih key' ⟨b, hb, hcall⟩ b' hb'
  induction hs with
  | script => exact hp.script.acc fun key b _ hb => hbodies key b hb
  | body h => exact hbodies _ _ h
  | branch _ hi hb ih => exact ih.inv (.inl ⟨_, hi, hb⟩)

/-! ## Frames -/

theorem Script.behindYield_zero (s : Script) : ¬ s.BehindYield 0 := by
  simp [Script.BehindYield]

/-- Only what comes next after a yield stands behind one. -/
theorem Cursor.not_behindYield_succ {c : Cursor} (hi : c.instr? = some i) (hy : i.isYield = false) :
    ¬ c.script.BehindYield (c.pc + 1) := by
  unfold Script.BehindYield
  rw [List.take_add_one, instr?_toList hi]
  simp [hy]

theorem Instr.not_yield_of_callee {key : ProcedureKey} (h : i.callee? = some key) :
    i.isYield = false := by
  cases i <;> first | rfl | cases h

theorem Instr.not_yield_of_branch (h : b ∈ i.branches) : i.isYield = false := by
  cases i <;> first | rfl | cases h

namespace Turn

variable {σ : Type} {kit : Kit σ} {p : Program} {n : Nat} {f f' : Frame} {c : Cursor}
  {rest : List Frame}

/-- Every thread with these frames and no more than `n` readings left comes to the end of its
turn. -/
def Finishes (kit : Kit σ) (p : Program) (n : Nat) (stack : List Frame) : Prop :=
  ∀ s : Turn σ, s.thread.Coded p → s.thread.stack = stack → (∃ n' ≤ n, s.Elapses n') → Ends kit s

/-- What may be run after the frame comes to the end of its turn. A loop comes back to its block
only after a yield. -/
structure Leaves (kit : Kit σ) (p : Program) (n : Nat) (f : Frame) (c : Cursor)
    (rest : List Frame) :
    Prop where
  popped : c.kind ≠ .branch true → Finishes kit p n rest
  dropped : Finishes kit p n (dropProcedure (f :: rest))

/-- Running the script comes to the end of the turn or of the script, from every place that is not
behind a yield. -/
def Runs (kit : Kit σ) (p : Program) (n : Nat) (b : Script) : Prop :=
  ∀ {f : Frame} {c : Cursor} {rest : List Frame}, f.code = some c → c.script = b →
    ¬ b.BehindYield c.pc → Leaves kit p n f c rest → Finishes kit p n (f :: rest)

theorem Leaves.moved {pc : Nat} {c' : Cursor} (h : Leaves kit p n f c rest) (hf : f.code = some c)
    (hm : f.Moved c pc f') (hc' : f'.code = some c') : Leaves kit p n f' c' rest := by
  refine ⟨fun hk => h.popped ?_, dropProcedure_moved hf hm ▸ h.dropped⟩
  obtain ⟨-, c₁, hc₁, -, hkind, -, -⟩ := hm
  rw [hc'] at hc₁
  cases hc₁
  exact hkind ▸ hk

section Frames

variable (hp : p.Sound) (hquiet : kit.toCatalog.Quiet)
  (hless : ∀ n' < n, ∀ stack, Finishes kit p n' stack)

include hp hquiet hless

/-- **A frame comes to the end of the turn** if what its instruction leads to does. Behind a yield
the instruction may lead back, or into any body. -/
theorem finishes_frame (hf : f.code = some c) (hleaves : Leaves kit p n f c rest)
    (hnext : ∀ {f' pc}, f.Moved c pc f' → pc ≤ c.script.code.size →
      ¬ c.script.BehindYield pc → c.pc < pc ∧
      c.pc < c.script.code.size ∨ c.script.BehindYield c.pc → Finishes kit p n (f' :: rest))
    (henter : ∀ b, p.Contains b → b.Under p c.script ∨ c.script.BehindYield c.pc → Runs kit p n b) :
    Finishes kit p n (f :: rest) := by
  intro s hs hstack ⟨n', hle, hn'⟩
  by_cases hrun : s.thread.status = .running
  swap
  · exact ends_of_stopped hrun
  have hat : s.thread.At f c rest := ⟨hstack, hf⟩
  obtain ⟨⟨r, s'⟩, htick⟩ := tick_ends hquiet hat hrun hn'
  refine ends_of_tick hat hrun htick ?_
  rintro rfl
  obtain ⟨N, hN⟩ := htick
  have hticked := tick_shift hat hrun (hN N (Nat.le_refl N))
  have hs' := hticked.coded hp hs hat
  have hscript := (hs.head hat).script
  -- What is left of the time, where the instruction has taken none of it.
  have htime : (kit.toCatalog.Quiet → s.Within s') → ∃ n₁ ≤ n, s'.Elapses n₁ := by
    intro ht
    obtain ⟨n₁, hle₁, hn₁⟩ := ht hquiet n' hn'
    exact ⟨n₁, Nat.le_trans hle₁ hle, hn₁⟩
  have hsucc : ∀ {i f'}, c.instr? = some i → i.isYield = false → f.Moved c (c.pc + 1) f' →
      Finishes kit p n (f' :: rest) := fun hi hy hm =>
    hnext hm (instr?_lt hi) (Cursor.not_behindYield_succ hi hy)
      (.inl ⟨Nat.lt_succ_self _, instr?_lt hi⟩)
  cases hticked.shift with
  | ended _ hst => exact ends_of_stopped hst
  | halted hr _ => exact absurd rfl hr
  | spent _ ht =>
    obtain ⟨n₁, hlt, hn₁⟩ := ht hquiet n' hn'
    exact hless n₁ (by omega) _ s' hs' rfl ⟨n₁, Nat.le_refl _, hn₁⟩
  | moved hi hpc hstack' hm ht =>
    refine (?_ : Finishes kit p n _) s' hs' hstack' (htime ht)
    rcases hpc with ⟨rfl, hy⟩ | htarget
    · exact hsucc hi hy hm
    · obtain ⟨hle, hland⟩ := hp.lands hscript (instr?_toList hi) htarget
      refine hnext hm hle hland ?_
      rcases Nat.lt_or_ge c.pc _ with hlt | hge
      · exact .inl ⟨hlt, instr?_lt hi⟩
      · exact .inr (hp.back hscript (instr?_toList hi) htarget hge)
  | called hi hkey hprogram hbody hstack' hm hg _ ht =>
    rw [hs.program] at hprogram
    cases hprogram
    refine (?_ : Finishes kit p n _) s' hs' hstack' (htime ht)
    have hreturn := hsucc hi (Instr.not_yield_of_callee hkey) hm
    refine henter _ (.body hbody) ?_ hg rfl (Script.behindYield_zero _) ⟨fun _ => hreturn, ?_⟩
    · by_cases hbehind : c.script.BehindYield c.pc
      · exact .inr hbehind
      · exact .inl (.inr ⟨_, .here (instr?_toList hi) hkey (Bool.eq_false_iff.mpr hbehind), hbody⟩)
    · unfold dropProcedure
      rw [hg]
      exact hreturn
  | branched hi hb hstack' hm hg hw ht =>
    rename_i isLoop
    refine (?_ : Finishes kit p n _) s' hs' hstack' (htime ht)
    refine henter _ (.branch hscript (instr?_mem hi) hb) (.inl (.inl ⟨_, instr?_mem hi, hb⟩)) hg rfl
      (Script.behindYield_zero _) ⟨fun hk => ?_, ?_⟩
    · cases isLoop with
      | true => exact absurd rfl hk
      | false => exact hsucc hi (Instr.not_yield_of_branch hb) hm
    · rw [dropProcedure, hg]
      show Finishes kit p n (dropProcedure (_ :: rest))
      rw [dropProcedure_moved hf hm]
      exact hleaves.dropped
  | popped _ hk hstack' _ ht => exact hleaves.popped hk s' hs' hstack' (htime ht)
  | left hstack' _ ht => exact hleaves.dropped s' hs' hstack' (htime ht)

/-- Without a yield code only goes forward, and into the scripts under it. -/
theorem runs_of_under (hb : p.Contains b) (hunder : ∀ b', p.Contains b' → b'.Under p b →
    Runs kit p n b') :
    Runs kit p n b := by
  intro f c rest hf hc hpc hleaves
  subst hc
  -- Every step without a yield comes nearer to the end of the code.
  induction hk : c.script.code.size - c.pc using Nat.strongRecOn generalizing f c with
  | ind k ih =>
    refine finishes_frame hp hquiet hless hf hleaves (fun hm hle hland hcase => ?_)
      fun b' hb' hcase =>
      hunder b' hb' (hcase.resolve_right hpc)
    obtain ⟨-, c', hc', hscript, -, -, rfl⟩ := id hm
    have hforward := hcase.resolve_right hpc
    refine ih (c'.script.code.size - c'.pc) ?_ hc' (hleaves.moved hf hm hc') ?_ ?_ ?_ rfl
    all_goals rw [hscript]
    · omega
    · exact hb
    · exact hunder
    · exact hland

theorem runs (hb : p.Contains b) : Runs kit p n b := by
  induction hp.acc hb with
  | intro b _ ih => exact runs_of_under hp hquiet hless hb fun b' hb' h => ih b' h hb'

theorem finishes_stack : ∀ stack : List Frame, (∀ f ∈ stack, ∃ c, f.Coded p c) →
    Finishes kit p n stack ∧ Finishes kit p n (dropProcedure stack) := by
  intro stack
  induction stack with
  | nil =>
    have hnil : Finishes kit p n [] := fun s hs hstack _ => ends_of_stopped (hs.running hstack)
    exact fun _ => ⟨hnil, hnil⟩
  | cons f rest ih =>
    intro hframes
    obtain ⟨⟨c, hf⟩, hrest⟩ := List.forall_mem_cons.mp hframes
    obtain ⟨hpopped, hdropped⟩ := ih hrest
    have hdrop : Finishes kit p n (dropProcedure (f :: rest)) := by
      unfold dropProcedure
      split
      · exact hpopped
      · exact hdropped
    have hleaves : Leaves kit p n f c rest := ⟨fun _ => hpopped, hdrop⟩
    refine ⟨finishes_frame hp hquiet hless hf.code hleaves (fun hm _ hland _ => ?_) fun b hb _ =>
      runs hp hquiet hless hb, hdrop⟩
    obtain ⟨-, c', hc', hscript, -, -, rfl⟩ := id hm
    exact runs hp hquiet hless hf.script hc' hscript hland (hleaves.moved hf.code hm hc')

end Frames

/-- **Every turn of compiled code ends**, if the time that it may take does. -/
theorem ends {s : Turn σ} (hp : p.Sound) (hquiet : kit.toCatalog.Quiet) (hs : s.thread.Coded p)
    (hn : s.Elapses n) : Ends kit s := by
  have hall : ∀ n stack, Finishes kit p n stack := by
    intro n
    induction n using Nat.strongRecOn with
    | ind n ih =>
      intro stack s hs hstack hn
      exact (finishes_stack hp hquiet ih stack (hstack ▸ hs.frames)).1 s hs hstack hn
  exact hall n _ s hs rfl ⟨n, Nat.le_refl n, hn⟩

/-- So does the turn as a whole, which begins with measuring the time. -/
theorem step_ends {s : Turn σ} (hp : p.Sound) (hquiet : kit.toCatalog.Quiet)
    (hs : p.Reaches kit s.thread) (halive : s.thread.isDone = false) (hn : s.Elapses n) :
    ∃ N s', ∀ fuel ≥ N, s.step kit fuel = some s' := by
  obtain ⟨f, rest, hstack⟩ := List.exists_cons_of_ne_nil (stack_of_alive halive)
  obtain ⟨c, hc⟩ := (hs.coded hp).frames f (by rw [hstack]; exact List.mem_cons_self)
  have hat : s.thread.At f c rest := ⟨hstack, hc.code⟩
  have hreach : p.Reaches kit s.resumed.thread := by
    have hwarp := hs.startWarp s.machine
    show p.Reaches kit (if _ then _ else _)
    split
    · refine hwarp.wake ?_
      rw [startWarp_thread]
      exact halive
    · exact hwarp
  obtain ⟨n', -, hn'⟩ : ∃ n' ≤ n, s.resumed.Elapses n' := by
    obtain ⟨n', hle, hn'⟩ := startWarp_within s n hn
    refine ⟨n', hle, ?_⟩
    unfold Elapses at hn' ⊢
    have hsame : s.resumed.thread.warpStart = s.startWarp.thread.warpStart := by
      show (if _ then _ else _ : Thread).warpStart = _
      split <;> rfl
    rw [hsame]
    exact hn'
  obtain ⟨⟨r, s'⟩, N, hN⟩ := ends hp hquiet (hreach.coded hp) hn'
  have hresume : ∀ fuel ≥ N, resume kit fuel s = some (r, s') := by
    intro fuel hfuel
    rw [resume_coded (by rw [hat.cursor?]; rfl)]
    exact hN fuel hfuel
  refine ⟨N, r.casesOn s'.fail fun _ => s', fun fuel hfuel => ?_⟩
  rw [step, hresume fuel hfuel]
  cases r <;> rfl

end Turn

/-! ## Every turn ends -/

/-- A clock that moves by a tenth of a second at each reading. -/
def Clock.tenths : Clock := { tick := 100.0 }

theorem Clock.tenths_after : ∀ n < 8,
    Number.rational? (Number.parts (Clock.tenths.after n).time) = some (100 * n : ℚ) := by
  decide +kernel

theorem Clock.tenths_moves {n : Nat} (h : n < 7) : (Clock.tenths.after n).Moves 100 := by
  intro q hq
  rw [tenths_after n (by omega), Option.some.injEq] at hq
  refine .inr ⟨_, by rw [← after_succ, tenths_after (n + 1) (by omega)], ?_⟩
  rw [← hq]
  push_cast
  linarith

/-- The budget is used up with the seventh reading. -/
theorem Turn.tenths_advances {σ : Type} {s : Turn σ} (hclock : s.machine.clock = .tenths)
    (hsettings : s.machine.settings = {}) (hstart : s.thread.warpStart = none) :
    s.machine.settings.warpTime.isFinite = true ∧ s.machine.clock.time.isFinite = true ∧
      s.began.isFinite = true ∧ s.Advances 100 := by
  have helapses : s.Elapses 5 := by
    unfold Elapses
    rw [hstart, hclock, hsettings]
    decide +kernel
  unfold began Advances
  rw [hstart, hclock, hsettings]
  refine ⟨by decide +kernel, by decide +kernel, by decide +kernel, fun n hleft => ?_⟩
  have hn : n < 5 := by
    by_contra hlate
    exact hleft 5 (by omega) helapses
  exact Clock.tenths_moves (by omega)

end BlockMachine

import BlockMachine.Proofs.Library.Requests
import BlockMachine.Proofs.Machine.Access
import BlockMachine.Proofs.Machine.Places
import BlockMachine.Proofs.Turn.Interpret

/-!
# What a thread does by itself

Whatever a thread does in its turn without regard to others, it changes itself, reads the time and
asks devices, creates variables that it does not find and writes the ones it is told to. A relation
between turns that holds along the first three (`Turn.Lax`) holds along the evaluation of
expressions (`Turn.eval_lax`) and along all instructions that neither write nor call primitives;
along those that do, if it holds along what they write (`Turn.runInstr_lax`). The same goes for the
requests of primitives (`Call.perform_near`).
-/

namespace BlockMachine

variable {σ α β : Type} {x : Thread → Service σ α} {m : Machine σ} {s : Turn σ}

namespace Turn

/-- What a relation between turns says of the machines while the thread stays as it is. -/
def Under (Q : Turn σ → Turn σ → Prop) (t : Thread) (m m' : Machine σ) : Prop := Q ⟨m, t⟩ ⟨m', t⟩

instance {Q : Turn σ → Turn σ → Prop} [Lasting Q] (t : Thread) : Lasting (Under Q t) where
  refl m := Lasting.refl (R := Q) ⟨m, t⟩
  trans h h' := Lasting.trans (R := Q) h h'

/-- A relation between turns that holds along changes of the thread, its script and target apart,
and along what reading variables may do. -/
structure Lax (Q : Turn σ → Turn σ → Prop) : Prop where
  thread : ∀ {s : Turn σ} {t : Thread}, s.thread.Same t → Q s { s with thread := t }
  reads : ∀ t : Thread, Machine.Reads t.target (Under Q t)

/-- The relation holds along writes through a reference. -/
def Writes (Q : Turn σ → Turn σ → Prop) (ref : VarRef) : Prop :=
  ∀ t : Thread, Machine.Writes t.target ref (Under Q t)

/-- The relation holds along noting the answers of the hats of the target. -/
def Notes (Q : Turn σ → Turn σ → Prop) : Prop := ∀ (s : Turn σ) (block : BlockId) (value : Bool),
  Q s { s with machine := (s.machine.edgeFires s.thread.target block value).2 }

theorem Lax.rest {Q : Turn σ → Turn σ → Prop} (lax : Lax Q) (h : s.machine.Rest m) :
    Q s { s with machine := m } :=
  (lax.reads s.thread).rest h

open Exec

variable {Q : Turn σ → Turn σ → Prop} [Lasting Q]

/-! ## Threads -/

theorem getThread_lax : Keeps Q (getThread : Exec (Turn σ) Thread) :=
  keeps_get.andThen fun _ => keeps_pure _

omit [Lasting Q] in
/-- A service that is given the thread of the turn. -/
theorem serviceOf_lax (hx : ∀ t, Service.Keeps (Under Q t) (x t)) :
    Keeps Q (do service (x (← getThread)) : Exec (Turn σ) α) := by
  intro s r s' h
  cases h
  exact hx s.thread s.machine

theorem serviceOf_andThen_lax {k : α → Exec (Turn σ) β} (hx : ∀ t, Service.Keeps (Under Q t) (x t))
    (hk : ∀ a, Keeps Q (k a)) : Keeps Q (do let a ← service (x (← getThread)); k a) := by
  have hassoc : (do let a ← service (x (← getThread)); k a : Exec (Turn σ) β) =
      (do service (x (← getThread))) >>= k := by
    rw [bind_assoc]
  rw [hassoc]
  exact (serviceOf_lax hx).andThen hk

omit [Lasting Q] in
theorem service_lax {x : Service σ α} (hx : ∀ t, Service.Keeps (Under Q t) x) :
    Keeps Q (service x) := by
  intro s r s' h
  cases h
  exact hx s.thread s.machine

variable (lax : Lax Q)

include lax

omit [Lasting Q] in
theorem onThread_lax {f : Thread → Thread} (hf : ∀ t : Thread, t.Same (f t)) :
    Keeps Q (onThread f : Exec (Turn σ) Unit) :=
  keeps_modify fun s => lax.thread (hf s.thread)

theorem readTime_lax {t : Thread} (hm : s.machine.Rest m) (ht : s.thread.Same t) : Q s ⟨m, t⟩ :=
  Lasting.trans (lax.rest hm) (lax.thread (s := { s with machine := m }) ht)

theorem along_startWarp (s : Turn σ) : Q s s.startWarp := by
  unfold startWarp
  split
  · exact readTime_lax lax .of_rest ⟨rfl, rfl, rfl, rfl, rfl⟩
  · exact Lasting.refl s

theorem along_warpExpired (s : Turn σ) : Q s s.warpExpired.2 := by
  unfold warpExpired
  cases s.thread.warpStart with
  | none => exact Lasting.refl s
  | some start => exact lax.rest .of_rest

theorem along_goesOn (s : Turn σ) : Q s s.goesOn.2 := by
  unfold goesOn
  split
  · exact along_warpExpired lax s
  · exact Lasting.refl s

theorem along_enterBranch (s : Turn σ) (n : Nat) (isLoop : Bool) :
    Q s (s.enterBranch n isLoop) := by
  unfold enterBranch
  split
  · exact Lasting.refl s
  · exact lax.thread ⟨rfl, rfl, rfl, rfl, rfl⟩

theorem along_enterProcedure (s : Turn σ) (proccode : String) :
    Q s (s.enterProcedure proccode) := by
  unfold enterProcedure
  cases s.thread.sheet.definition? proccode with
  | none => exact Lasting.refl s
  | some definition =>
    dsimp only
    -- The frame of the procedure is entered; then the time may be read.
    have hpush : Q s { s with thread := s.thread.push (some definition) } :=
      lax.thread ⟨rfl, rfl, rfl, rfl, rfl⟩
    have hread : Q s (if (s.thread.push (some definition)).isWarp then
        ({ s with thread := s.thread.push (some definition) } : Turn σ).warpExpired
        else (false, { s with thread := s.thread.push (some definition) })).2 := by
      split
      · exact Lasting.trans hpush (along_warpExpired lax _)
      · exact hpush
    generalize (if (s.thread.push (some definition)).isWarp then _ else _) = p at hread ⊢
    obtain ⟨expired, s₂⟩ := p
    refine Lasting.trans hread ?_
    have hyield : Q s₂ { s₂ with thread := { s₂.thread with status := .yield } } :=
      lax.thread ⟨rfl, rfl, rfl, rfl, rfl⟩
    have hrecursive : ∀ isRecursive : Bool, Q s₂ (if isRecursive then
        { s₂ with thread := { s₂.thread with status := .yield } } else s₂) := by
      intro isRecursive
      cases isRecursive with
      | true => exact hyield
      | false => exact Lasting.refl s₂
    dsimp only
    split
    · exact hyield
    · split
      · split
        · exact lax.thread ⟨rfl, rfl, rfl, rfl, rfl⟩
        · exact hrecursive _
      · exact hrecursive _

theorem along_unwind (s : Turn σ) : Q s s.unwind.2 := by
  have hthread : Q s { s with thread := s.thread.unwind.2 } := by
    unfold Thread.unwind
    cases s.thread.stack with
    | nil => exact lax.thread ⟨rfl, rfl, rfl, rfl, rfl⟩
    | cons top rest => exact lax.thread ⟨rfl, rfl, rfl, rfl, rfl⟩
  unfold unwind
  dsimp only
  split
  · exact hthread
  · exact Lasting.trans hthread (along_goesOn lax _)
  · exact hthread
  · exact hthread

theorem along_placed (s : Turn σ) : Q s s.placed.2 :=
  placed_induction (along_unwind lax s) (Lasting.refl s)

theorem along_resumed (s : Turn σ) : Q s s.resumed := by
  refine Lasting.trans (along_startWarp lax s) (lax.thread ?_)
  split <;> exact ⟨rfl, rfl, rfl, rfl, rfl⟩

theorem runLiteral_lax (catalog : Catalog σ) (b : Block) : Keeps Q (runLiteral catalog b) := by
  unfold runLiteral
  split
  · exact keeps_pure _
  cases b.soleField? with
  | none => exact keeps_pure _
  | some f =>
    refine onThread_lax lax fun t => ?_
    unfold Thread.report
    split <;> exact ⟨rfl, rfl, rfl, rfl, rfl⟩

omit lax

end Turn

/-! ## Requests -/

namespace Call

open Exec

variable {kit : Kit σ} {Q : Turn σ → Turn σ → Prop} [Lasting Q]

/-- The relation holds between the turns of the calls. -/
def On (Q : Turn σ → Turn σ → Prop) (c c' : Call σ) : Prop := Q c.toTurn c'.toTurn

instance : Lasting (On Q : Call σ → Call σ → Prop) where
  refl c := Lasting.refl c.toTurn
  trans h h' := Lasting.trans (R := Q) h h'

omit [Lasting Q] in
theorem service_on {x : Service σ α} (hx : ∀ t, Service.Keeps (Turn.Under Q t) x) :
    Keeps (On Q) (service x) :=
  keeps_service fun c => hx c.thread c.machine

omit [Lasting Q] in
/-- A service that is given the target of the call. -/
theorem serviceOf_on {x : TargetId → Service σ α}
    (hx : ∀ t : Thread, Service.Keeps (Turn.Under Q t) (x t.target)) :
    Keeps (On Q) (do service (x (← read (·.thread.target))) : Exec (Call σ) α) := by
  intro c r c' h
  cases h
  exact hx c.thread c.machine

/-- A request that does not reach beyond its thread keeps what holds along what it writes. -/
theorem perform_near (lax : Turn.Lax Q) (predicate : Exec (Turn σ) Unit) (mode : Mode)
    {r : Request σ} (h : r.isFar = false) (hwrites : ∀ ref, r.writes? = some ref →
      Turn.Writes Q ref) :
    Keeps (On Q) (perform kit predicate mode r) := by
  have hthread : ∀ {f : Thread → Thread}, (∀ t : Thread, t.Same (f t)) →
      Keeps (On Q) (onThread f : Exec (Call σ) Unit) := fun hf =>
    keeps_onThread fun c => lax.thread (hf c.thread)
  have hmachine : ∀ {f : Turn σ → Machine σ}, (∀ s : Turn σ, s.machine.Rest (f s)) →
      Keeps (On Q) (onTurn fun s => { s with machine := f s } : Exec (Call σ) Unit) := fun hf =>
    keeps_onTurn fun c => lax.rest (hf c.toTurn)
  cases r
  case stopAll | stopOthers | removeTarget | startHats | createClone => cases h
  -- What depends on the executor that makes the call.
  case isWarp =>
    cases mode <;> rw [perform]
    · exact keeps_read _
    · exact keeps_pure _
  case startBranch n isLoop =>
    cases mode <;> rw [perform]
    · exact keeps_onTurn fun c => Turn.along_enterBranch lax c.toTurn n isLoop
    · exact keeps_modify fun c => Lasting.refl c.toTurn
  case startProcedure proccode =>
    cases mode <;> rw [perform]
    · exact keeps_onTurn fun c => Turn.along_enterProcedure lax c.toTurn proccode
    · exact keeps_pure _
  case stopScript =>
    cases mode <;> rw [perform]
    · exact hthread fun t => ⟨rfl, rfl, rfl, rfl, rfl⟩
    · exact keeps_modify fun c => Lasting.refl c.toTurn
  all_goals rw [perform]
  case scratch | now | threadId | targetId | param | signature | targetNamed | isClone
    | hasThread | isWaiting | counter | host => exact keeps_read _
  case setScratch => exact keeps_modify fun c => Lasting.refl c.toTurn
  case yield | yieldTick | stopThread | bindParams =>
    exact hthread fun t => ⟨rfl, rfl, rfl, rfl, rfl⟩
  case requestRedraw | setCounter | advanceClock | setHost => exact hmachine fun s => .of_rest
  case draw =>
    exact keeps_onMachine fun c _ _ h => by cases h; exact lax.rest (Machine.rest_draw c.machine)
  case openPromise => exact keeps_onMachine fun c _ _ h => by cases h; exact lax.rest .of_rest
  case query => exact service_on fun t => Machine.query_keeps (lax.reads t) kit _ _ _
  case readVariable => exact serviceOf_on fun t => Machine.readVariable_keeps (lax.reads t) _
  case setVariable =>
    exact serviceOf_on fun t => Machine.setVariable_keeps (lax.reads t) (hwrites _ rfl t) kit _
  case readList => exact serviceOf_on fun t => Machine.readList_keeps (lax.reads t) _
  case editList =>
    exact serviceOf_on fun t => Machine.editList_keeps (lax.reads t) (hwrites _ rfl t) _

end Call

namespace Turn

open Exec

variable {kit : Kit σ} {Q : Turn σ → Turn σ → Prop} [Lasting Q] (lax : Lax Q)

include lax

/-! ## Expressions -/

theorem eval_lax (e : Expr) : Keeps Q (eval e : Exec (Turn σ) Value) := by
  refine Expr.eval_induction keeps_pure Keeps.andThen ?_ ?_ ?_ ?_ ?_ ?_ e
  · exact fun _ => getThread_lax.andThen fun _ => keeps_pure _
  · exact fun _ => getThread_lax.andThen fun _ => keeps_pure _
  · exact fun ref => serviceOf_lax fun t => Machine.readVariable_keeps (lax.reads t) ref
  · exact fun ref => serviceOf_lax fun t => Machine.readList_keeps (lax.reads t) ref
  · exact (service_lax fun t => Machine.queryClock_keeps (lax.reads t) _).andThen fun _ =>
      keeps_pure _
  · exact service_lax fun t => Machine.draw_keeps (lax.reads t)

theorem evalArgs_lax (args : List (String × Expr)) :
    Keeps Q (evalArgs args : Exec (Turn σ) (List (String × Value))) := by
  induction args with
  | nil => exact keeps_pure _
  | cons a args ih => exact (eval_lax lax a.2).andThen fun _ => ih.andThen fun _ => keeps_pure _

/-! ## Instructions -/

omit [Lasting Q] in
theorem onCursor_lax (f : Cursor → Cursor) :
    Keeps Q (onThread (·.onCursor f) : Exec (Turn σ) Unit) :=
  onThread_lax lax fun _ => ⟨rfl, rfl, rfl, rfl, rfl⟩

theorem yieldPoint_lax : Keeps Q (yieldPoint : Exec (Turn σ) Flow) := by
  intro s r s' h
  rw [yieldPoint, get_andThen] at h
  have hgoes := along_goesOn lax s
  rcases hp : s.goesOn with ⟨goes, s₁⟩
  rw [hp] at h hgoes
  cases h
  exact hgoes

theorem advance_lax : Keeps Q (advance : Exec (Turn σ) Flow) :=
  (onCursor_lax lax _).andThen fun _ => keeps_pure _

theorem jumpTo_lax (target : Nat) : Keeps Q (jumpTo target : Exec (Turn σ) Flow) :=
  (onCursor_lax lax _).andThen fun _ => keeps_pure _

omit [Lasting Q] in
theorem setLocal_lax (slot : Nat) (v : Value) : Keeps Q (setLocal slot v : Exec (Turn σ) Unit) :=
  onCursor_lax lax _

omit [Lasting Q] lax in
theorem endIfEmpty_same {t t' : Thread} (h : t.Same t') : t.Same (endIfEmpty t') := by
  refine h.trans ?_
  unfold endIfEmpty
  split <;> exact ⟨rfl, rfl, rfl, rfl, rfl⟩

omit [Lasting Q] in
theorem leaveScript_lax : Keeps Q (onThread leaveScript : Exec (Turn σ) Unit) :=
  onThread_lax lax fun t => endIfEmpty_same (t := t) ⟨rfl, rfl, rfl, rfl, rfl⟩

theorem finishFrame_lax : Keeps Q (finishFrame : Exec (Turn σ) Flow) := by
  unfold finishFrame
  refine getThread_lax.andThen fun t => Keeps.andThen ?_ fun _ =>
    getThread_lax.andThen fun t' => ?_
  · exact onThread_lax lax fun t => endIfEmpty_same (t := t) ⟨rfl, rfl, rfl, rfl, rfl⟩
  split
  · exact keeps_pure _
  split
  · exact yieldPoint_lax lax
  · exact keeps_pure _

theorem wait_lax (duration : Expr) (pc : Nat) :
    Keeps Q (wait duration pc : Exec (Turn σ) Flow) := by
  unfold wait
  refine keeps_get.andThen fun s => getThread_lax.andThen fun t => ?_
  cases t.cursor? >>= (·.scratches[pc]?) with
  | none =>
    refine (eval_lax lax duration).andThen fun v => (onCursor_lax lax _).andThen fun _ => ?_
    refine Keeps.andThen ?_ fun _ => yieldPoint_lax lax
    exact keeps_modify fun s => lax.rest .of_rest
  | some scratch =>
    dsimp only
    split
    · exact (onCursor_lax lax _).andThen fun _ => keeps_pure _
    · exact yieldPoint_lax lax

theorem call_lax (key : ProcedureKey) (args : List (String × Expr)) :
    Keeps Q (call key args : Exec (Turn σ) Flow) := by
  unfold call
  refine (evalArgs_lax lax args).andThen fun values =>
    (advance_lax lax).discarded.andThen fun _ => getThread_lax.andThen fun t => ?_
  cases t.program.bind (·.procedures.lookup key) with
  | none => exact keeps_pure _
  | some body =>
    refine (onThread_lax lax (by intro t; exact ⟨rfl, rfl, rfl, rfl, rfl⟩)).andThen fun _ => ?_
    exact (keeps_modify (along_startWarp lax)).andThen fun _ => keeps_pure _

theorem enterFragment_lax (c : PrimitiveCall Script) (pc : Nat) (scratch : Scratch) (n : Nat)
    (isLoop : Bool) : Keeps Q (enterFragment c pc scratch n isLoop : Exec (Turn σ) Flow) := by
  have hbody : ∀ body kind, Keeps Q (do
      onThread (·.enter body kind)
      return .go : Exec (Turn σ) Flow) := fun body kind =>
    (onThread_lax lax (by intro t; exact ⟨rfl, rfl, rfl, rfl, rfl⟩)).andThen fun _ => keeps_pure _
  unfold enterFragment
  cases isLoop with
  | true =>
    refine (onCursor_lax lax _).andThen fun _ => ?_
    cases if n == 0 then none else (c.branches[n - 1]?).join with
    | some body => exact hbody body _
    | none => exact yieldPoint_lax lax
  | false =>
    refine (advance_lax lax).discarded.andThen fun _ => ?_
    cases if n == 0 then none else (c.branches[n - 1]?).join with
    | some body => exact hbody body _
    | none => exact keeps_pure _

section Primitives

variable {predicate : Exec (Turn σ) Unit} {primitive : Primitive σ} {args : Args}
  (hrun : ∀ warp, Keeps (Call.On Q) (Call.run kit predicate (.compiled warp) (primitive args)))

include hrun

theorem callOnce_lax (c : PrimitiveCall Script) (pc depth : Nat) (scratch : Scratch) :
    Keeps Q (callOnce kit predicate c pc primitive args depth scratch) := by
  unfold callOnce
  refine getThread_lax.andThen fun t₀ => Keeps.andThen ?_ fun q => ?_
  · intro s r s' h
    obtain ⟨⟨r₁, c₁⟩, hcalled, h⟩ := Option.bind_eq_some_iff.mp h
    have hcall : Q s c₁.toTurn := hrun _ _ _ _ hcalled
    cases h
    exact hcall
  obtain ⟨reported, result⟩ := q
  have hsave : Keeps Q (do
      saveScratch pc result.scratch
      return .flow .pause : Exec (Turn σ) After) :=
    (onCursor_lax lax _).andThen fun _ => keeps_pure _
  have hread : ∀ s : Turn σ, Q s (if t₀.isWarp then s.warpExpired else (true, s)).2 := by
    intro s
    split
    · exact along_warpExpired lax s
    · exact Lasting.refl s
  refine getThread_lax.andThen fun t => ?_
  dsimp only
  split
  · exact keeps_pure _
  split
  · exact (leaveScript_lax lax).andThen fun _ => keeps_pure _
  cases reported
  case promise =>
    refine (onThread_lax lax (by intro t; exact ⟨rfl, rfl, rfl, rfl, rfl⟩)).andThen fun _ => ?_
    exact (advance_lax lax).discarded.andThen fun _ => keeps_pure _
  all_goals
    dsimp only
    split
    · refine (onThread_lax lax (by intro t; exact ⟨rfl, rfl, rfl, rfl, rfl⟩)).andThen fun _ => ?_
      intro s r s' h
      rw [get_andThen] at h
      have hs := hread s
      rcases hp : (if t₀.isWarp then s.warpExpired else (true, s)) with ⟨expired, s₁⟩
      rw [hp] at h hs
      dsimp only at h
      rw [set_andThen] at h
      refine Lasting.trans hs ?_
      cases expired with
      | true => exact hsave s₁ r s' h
      | false => exact keeps_pure _ s₁ r s' h
    split
    · exact hsave
    cases result.branch with
    | some b => exact (enterFragment_lax lax c pc _ _ _).mapped
    | none =>
      dsimp only
      split
      · exact (setLocal_lax lax _ _).andThen fun _ => (advance_lax lax).mapped
      · exact (advance_lax lax).mapped

theorem callAgain_lax (c : PrimitiveCall Script) (pc depth tries : Nat) : ∀ scratch,
    Keeps Q (callAgain kit predicate c pc primitive args depth tries scratch) := by
  induction tries with
  | zero => intro scratch s r s' h; cases h
  | succ tries ih =>
    intro scratch
    refine (callOnce_lax lax hrun c pc depth scratch).andThen fun after => ?_
    cases after with
    | again scratch' => exact ih scratch'
    | flow f => exact keeps_pure _

end Primitives

theorem callPrimitive_lax {fuel : Nat} {c : PrimitiveCall Script} (pc : Nat)
    (hrun : ∀ primitive, kit.primitive? c.opcode = some primitive →
      ∀ (values : List (String × Value)) (warp :
      Bool), Keeps (Call.On Q)
        (Call.run kit (execute kit fuel) (.compiled warp) (primitive (values.foldl (fun
      args (name, v) => args.insert name v) (Args.ofFields c.opcode c.mutation c.fields)))))
    : Keeps Q (callPrimitive kit fuel c pc) := by
  unfold callPrimitive
  cases hprimitive : kit.primitive? c.opcode with
  | none => exact advance_lax lax
  | some primitive =>
    exact (evalArgs_lax lax c.args).andThen fun values =>
      getThread_lax.andThen fun t => (onCursor_lax lax _).andThen fun _ =>
      callAgain_lax lax (hrun primitive hprimitive values) c pc _ fuel _

omit lax

end Turn

/-- The reference that an instruction writes through. -/
def Instr.writes? : Instr Script → Option VarRef
  | .setVariable ref _ | .changeVariable ref _ | .addToList ref _ | .deleteOfList ref _
  | .clearList ref
  | .insertAtList ref _ _ | .replaceInList ref _ _ => some ref
  | _ => none

namespace Turn

open Exec

variable {kit : Kit σ} {Q : Turn σ → Turn σ → Prop} [Lasting Q] (lax : Lax Q)

include lax

/-- An instruction keeps what holds along what it writes, calls or stops. -/
theorem runInstr_lax (fuel pc : Nat) (i : Instr Script)
    (hwrites : ∀ ref, i.writes? = some ref → Writes Q ref) (hprimitive : ∀ c, i = .primitive c →
      Keeps Q (callPrimitive kit fuel c pc))
    (hstop : ∀ option, i = .stop option → Keeps Q (runInstr kit fuel pc (.stop option))) :
    Keeps Q (runInstr kit fuel pc i) := by
  have hedit : ∀ list edit, i.writes? = some list → Keeps Q (do
      service (Machine.editList (← getThread).target list edit)
      advance : Exec (Turn σ) Flow) := fun list edit hlist =>
    serviceOf_andThen_lax
      (fun t => Machine.editList_keeps (lax.reads t) (hwrites list hlist t) edit)
      fun _ => advance_lax lax
  cases i
  case setVariable var value =>
    exact (eval_lax lax value).andThen fun v => serviceOf_andThen_lax
      (fun t => Machine.setVariable_keeps (lax.reads t) (hwrites var rfl t) kit v) fun _ =>
        advance_lax lax
  case changeVariable var amount =>
    exact (eval_lax lax amount).andThen fun v => serviceOf_andThen_lax
      (fun t => Machine.changeVariable_keeps (lax.reads t) (hwrites var rfl t) kit _) fun _ =>
        advance_lax lax
  case addToList list item => exact (eval_lax lax item).andThen fun v => hedit list (.add v) rfl
  case deleteOfList list index =>
    exact (eval_lax lax index).andThen fun v => hedit list (.delete v) rfl
  case clearList list => exact hedit list .clear rfl
  case insertAtList list index item =>
    exact (eval_lax lax index).andThen fun v => (eval_lax lax item).andThen fun v' =>
      hedit list (.insert v v') rfl
  case replaceInList list index item =>
    exact (eval_lax lax index).andThen fun v => (eval_lax lax item).andThen fun v' =>
      hedit list (.replace v v') rfl
  case store slot value =>
    exact (eval_lax lax value).andThen fun v => (setLocal_lax lax slot v).andThen fun _ =>
      advance_lax lax
  case jump target => exact jumpTo_lax lax target
  case jumpUnless condition target =>
    refine (eval_lax lax condition).andThen fun v => ?_
    split
    · exact advance_lax lax
    · exact jumpTo_lax lax target
  case jumpIf condition target =>
    refine (eval_lax lax condition).andThen fun v => ?_
    split
    · exact jumpTo_lax lax target
    · exact advance_lax lax
  case repeatInit slot times =>
    exact (eval_lax lax times).andThen fun v => (setLocal_lax lax slot _).andThen fun _ =>
      advance_lax lax
  case repeatTest slot exit =>
    refine getThread_lax.andThen fun t => ?_
    dsimp only
    split
    · exact (setLocal_lax lax slot _).andThen fun _ => advance_lax lax
    · exact jumpTo_lax lax exit
  case yield => exact (advance_lax lax).discarded.andThen fun _ => keeps_pure _
  case yieldIfNeeded => exact (advance_lax lax).discarded.andThen fun _ => yieldPoint_lax lax
  case yieldTick =>
    refine (advance_lax lax).discarded.andThen fun _ => Keeps.andThen ?_ fun _ => keeps_pure _
    exact onThread_lax lax fun t => ⟨rfl, rfl, rfl, rfl, rfl⟩
  case wait duration => exact wait_lax lax duration pc
  case call key args => exact call_lax lax key args
  case primitive c => exact hprimitive c rfl
  case stop option => exact hstop option rfl
  case nop => exact advance_lax lax

/-! ## Between blocks and turns -/

/-- What the interpreter does after a block. -/
theorem along_afterBlock (t : Thread) (current : BlockId) (s : Turn σ) :
    Q s (afterBlock t current s).2 := by
  unfold afterBlock
  cases s.thread.status
  case promiseWait | yieldTick | done => exact Lasting.refl s
  case yield =>
    have hrun : Q s { s with thread := { s.thread with status := .running } } :=
      lax.thread ⟨rfl, rfl, rfl, rfl, rfl⟩
    dsimp only
    split
    · exact Lasting.trans hrun (along_warpExpired lax _)
    · exact hrun
  case running =>
    refine Lasting.trans (lax.thread ?_) (along_unwind lax _)
    split <;> exact ⟨rfl, rfl, rfl, rfl, rfl⟩

omit [Lasting Q] in
theorem along_forgo (s : Turn σ) (waiter : Waiter) : Q s (s.forgo waiter) := by
  cases waiter with
  | code dest => exact lax.thread ⟨rfl, rfl, rfl, rfl, rfl⟩
  | block isHat => exact lax.thread (endIfEmpty_same ⟨rfl, rfl, rfl, rfl, rfl⟩)

variable (notes : Notes Q)

include notes

theorem along_reportHat (s : Turn σ) (catalog : Catalog σ) (block : BlockId) (opcode : String)
    (v : Value) :
    Q s (s.reportHat catalog block opcode v).2 := by
  have hretire : ∀ (fires : Bool) (s : Turn σ),
      Q s { s with thread := if fires then s.thread else s.thread.retire } := by
    intro fires s
    cases fires <;> exact lax.thread ⟨rfl, rfl, rfl, rfl, rfl⟩
  have hnote : Q s { s with machine := (if catalog.isEdge opcode then
      if s.thread.isClick then (true, s.machine)
      else s.machine.edgeFires s.thread.target block v.toBool
      else (v.toBool, s.machine)).2 } := by
    split
    · split
      · exact Lasting.refl s
      · exact notes s block _
    · exact Lasting.refl s
  exact Lasting.trans hnote (hretire _ _)

theorem takeReport_lax (catalog : Catalog σ) (block : BlockId) (opcode : String) (r : Reported) :
    Keeps Q (takeReport catalog block opcode r) := by
  cases r with
  | nothing => exact keeps_pure _
  | promise promise =>
    rw [takeReport]
    exact onThread_lax lax (by intro t; exact ⟨rfl, rfl, rfl, rfl, rfl⟩)
  | value v =>
    rw [takeReport]
    split
    · exact keeps_modify fun s => along_reportHat lax notes s catalog block opcode v
    · refine onThread_lax lax fun t => ?_
      unfold Thread.report
      split <;> exact ⟨rfl, rfl, rfl, rfl, rfl⟩

theorem along_settle (s : Turn σ) (catalog : Catalog σ) (v : Value) (waiter : Waiter) :
    Q s (s.settle catalog v waiter) := by
  have hreport : s.thread.Same (s.thread.report v) := by
    unfold Thread.report
    split <;> exact ⟨rfl, rfl, rfl, rfl, rfl⟩
  cases waiter with
  | code dest =>
    cases dest with
    | none => exact Lasting.refl s
    | some slot => exact lax.thread ⟨rfl, rfl, rfl, rfl, rfl⟩
  | block isHat =>
    cases isHat with
    | true =>
      rw [settle]
      cases s.thread.block? with
      | none => exact Lasting.refl s
      | some block =>
        have hhat := along_reportHat lax notes s catalog block
          ((s.thread.sheet.opcode? block).getD "") v
        rcases hp : s.reportHat catalog block ((s.thread.sheet.opcode? block).getD "") v with
          ⟨fires, s₁⟩
        rw [hp] at hhat
        dsimp only
        rw [hp]
        split
        · exact Lasting.trans hhat (lax.thread (Thread.same_leaveHat s₁.thread))
        · exact hhat
    | false =>
      rw [settle]
      split
      · exact lax.thread (hreport.trans ⟨rfl, rfl, rfl, rfl, rfl⟩)
      · refine Lasting.trans ?_ (along_unwind lax _)
        exact lax.thread (hreport.trans ⟨rfl, rfl, rfl, rfl, rfl⟩)

theorem along_awaken (kit : Kit σ) (s : Turn σ) : Q s (s.awaken kit).2 := by
  have hawake : Q s { s with thread := { s.thread with pending := none, status := .running } } :=
    lax.thread ⟨rfl, rfl, rfl, rfl, rfl⟩
  exact awaken_induction (Lasting.refl s) (lax.thread ⟨rfl, rfl, rfl, rfl, rfl⟩)
    (fun _ _ _ => Lasting.trans hawake (along_settle lax notes _ _ _ _))
    fun _ _ => Lasting.trans hawake (along_forgo lax _ _)

end Turn
end BlockMachine

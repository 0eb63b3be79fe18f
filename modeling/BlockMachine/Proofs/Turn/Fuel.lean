import BlockMachine.Proofs.Turn.Interpret

/-!
# More fuel keeps the answer

A computation goes *further* than another one if it ends in the same way wherever the other one
ends. Fuel is used up in three places only: by blocks inside blocks, from block to block and from
instruction to instruction. All else goes further when these do, so a turn that has ended with some
fuel ends in the same way with more (`Turn.visit_further`).
-/

namespace BlockMachine

open Option

variable {S α β : Type}

/-! ## Computations that go further -/

/-- The second computation ends wherever the first one does, and in the same way. -/
def Run.Further (x y : Run S α) : Prop :=
  ∀ s p, x s = some p → y s = some p

/-- The second computation ends wherever the first one does, and in the same way. -/
def Exec.Further (x y : Exec S α) : Prop :=
  ∀ s p, x s = some p → y s = some p

namespace Run

theorem Further.refl (x : Run S α) : Further x x := fun _ _ h => h

theorem Further.andThen {x y : Run S α} {f g : α → Run S β} (hx : Further x y)
    (hf : ∀ a, Further (f a) (g a)) : Further (x >>= f) (y >>= g) := by
  rintro s ⟨b, s'⟩ h
  obtain ⟨a, s₁, hxa, hfa⟩ := bind_some.mp h
  exact bind_some.mpr ⟨a, s₁, hx _ _ hxa, hf a _ _ hfa⟩

theorem Further.discarded {x y : Run S α} (hx : Further x y) :
    Further (discard x : Run S PUnit) (discard y) := by
  rintro s ⟨b, s'⟩ h
  obtain ⟨a, hxa⟩ := discard_some.mp h
  exact discard_some.mpr ⟨a, hx _ _ hxa⟩

end Run

namespace Exec

theorem Further.refl (x : Exec S α) : Further x x := fun _ _ h => h

theorem Further.andThen {x y : Exec S α} {f g : α → Exec S β} (hx : Further x y)
    (hf : ∀ a, Further (f a) (g a)) : Further (x >>= f) (y >>= g) := by
  rintro s ⟨r, s'⟩ h
  rcases bind_some.mp h with ⟨e, hxe, hr⟩ | ⟨a, s₁, hxa, hfa⟩
  · exact bind_some.mpr (.inl ⟨e, hx _ _ hxe, hr⟩)
  · exact bind_some.mpr (.inr ⟨a, s₁, hx _ _ hxa, hf a _ _ hfa⟩)

/-- What follows a computation goes further. -/
theorem Further.after (x : Exec S α) {f g : α → Exec S β} (hf : ∀ a, Further (f a) (g a)) :
    Further (x >>= f) (x >>= g) :=
  (Further.refl x).andThen hf

theorem Further.discarded {x y : Exec S α} (hx : Further x y) :
    Further (discard x : Exec S PUnit) (discard y) := by
  rintro s ⟨r, s'⟩ h
  obtain ⟨a, hxa, ha⟩ := discard_some.mp h
  exact discard_some.mpr ⟨a, hx _ _ hxa, ha⟩

theorem Further.outOfFuel (y : Exec S α) : Further outOfFuel y := by
  intro s p h
  cases h

end Exec

variable {σ : Type} {go go' : Exec (Turn σ) Unit} {fuel : Nat}

/-! ## Starting scripts -/

namespace Machine

open Run

section

variable (catalog : Catalog σ) (h : Exec.Further go go')

include h

theorem askPredicate_further (t : Thread) : Further (askPredicate go t) (askPredicate go' t) := by
  intro m p hp
  obtain ⟨q, hq, hp⟩ := bind_eq_some_iff.mp hp
  exact bind_eq_some_iff.mpr ⟨q, h _ _ hq, hp⟩

theorem spawn_further (hasPredicate : Bool) (target : TargetId) (top : BlockId) :
    Further (spawn catalog go hasPredicate target top)
      (spawn catalog go' hasPredicate target top) := by
  refine (Further.refl _).andThen fun m => ?_
  cases m.newThread? target top with
  | none => exact .refl _
  | some p =>
    refine (Further.refl _).andThen fun _ => ?_
    cases hasPredicate with
    | false => exact .refl _
    | true => exact askPredicate_further h _

variable (opcode : String) (hat : Hat)

theorem startScript_further (target : TargetId) (top : BlockId) :
    Further (startScript catalog go opcode hat target top)
      (startScript catalog go' opcode hat target top) := by
  refine (Further.refl _).andThen fun m => ?_
  cases m.slotFor hat target top with
  | none => exact .refl _
  | some slot => exact (spawn_further catalog h _ _ _).andThen fun _ => .refl _

theorem startHats_further (fields : List (String × String)) (only : Option TargetId) :
    Further (startHats catalog go opcode fields only) (startHats catalog go' opcode fields only) :=
  startHats_induction (P := fun x => Further (x go) (x go')) (fun _ => .refl _)
    (.refl _) Further.andThen (startScript_further catalog h opcode) fields only

theorem createClone_further (source : TargetId) :
    Further (createClone catalog go source) (createClone catalog go' source) := by
  refine (Further.refl _).andThen fun m => ?_
  cases m.addClone? source with
  | none => exact .refl _
  | some p =>
    exact (Further.refl _).andThen fun _ =>
      (startHats_further catalog h _ _ _).discarded.andThen fun _ => .refl _

end

end Machine

/-! ## Primitives -/

namespace Call

open Exec

theorem onMachine_further {x y : Run (Machine σ) α} (h : Run.Further x y) :
    Further (onMachine x) (onMachine y) := by
  intro c p hp
  obtain ⟨q, hq, hp⟩ := bind_eq_some_iff.mp hp
  exact bind_eq_some_iff.mpr ⟨q, h _ _ hq, hp⟩

theorem perform_further (kit : Kit σ) (h : Further go go') (mode : Mode) (r : Request σ) :
    Further (perform kit go mode r) (perform kit go' mode r) := by
  cases r
  case startHats opcode fields => exact onMachine_further (Machine.startHats_further _ h _ _ _)
  case createClone source => exact (onMachine_further (Machine.createClone_further _ h _)).discarded
  all_goals exact .refl _

theorem run_further (kit : Kit σ) (h : Further go go') (mode : Mode) (a : Action σ α) :
    Further (run kit go mode a) (run kit go' mode a) := by
  induction a with
  | done a => exact .refl _
  | fail e => exact .refl _
  | ask r next ih => exact (perform_further kit h mode r).andThen ih

end Call

/-! ## Blocks and instructions -/

namespace Turn

open Exec

variable {kit : Kit σ}

theorem evalInputs_further (h : Further go go') (b : Block) (depth : Nat) (reported : Table Value)
    (args : Args) (names : List String) :
    Further (evalInputs go b depth reported args names)
      (evalInputs go' b depth reported args names) := by
  induction names generalizing args with
  | nil => exact .refl _
  | cons name names ih =>
    rw [evalInputs, evalInputs]
    by_cases hslot : isStackSlot name = true
    · rw [if_pos hslot, if_pos hslot]
      exact ih args
    · rw [if_neg hslot, if_neg hslot]
      cases reported[name]? with
      | some v => exact ih _
      | none =>
        cases b.inputBlock? name with
        | none => exact ih _
        | some input =>
          refine .after _ fun _ => h.andThen fun _ => .after _ fun t => ?_
          dsimp only
          split
          · exact .refl _
          · split
            · exact .refl _
            · exact .after _ fun _ => ih _

theorem callBlock_further (h : Further go go') (depth : Nat) (primitive : Primitive σ)
    (args : Args) :
    Further (callBlock kit go depth primitive args) (callBlock kit go' depth primitive args) := by
  intro s p hp
  obtain ⟨q, hq, hp⟩ := bind_eq_some_iff.mp hp
  exact bind_eq_some_iff.mpr ⟨q, Call.run_further kit h _ _ _ _ hq, hp⟩

theorem runBlock_further (h : Further go go') (b : Block) (primitive : Primitive σ) :
    Further (runBlock kit go b primitive) (runBlock kit go' b primitive) := by
  refine .after _ fun t => .after _ fun _ =>
    (evalInputs_further h b _ _ _ _).andThen fun args => ?_
  cases args with
  | none => exact .refl _
  | some args => exact (callBlock_further h _ _ _).andThen fun _ => .refl _

theorem execute_further (kit : Kit σ) (fuel : Nat) :
    Further (execute kit fuel) (execute kit (fuel + 1)) := by
  induction fuel with
  | zero => exact .outOfFuel _
  | succ fuel ih =>
    rw [execute, execute]
    refine .after _ fun s => ?_
    split
    · exact .refl _
    · cases s.thread.block? with
      | none => exact .refl _
      | some id =>
        dsimp only
        cases s.thread.sheet.block? id with
        | none => exact .refl _
        | some b =>
          dsimp only
          cases kit.primitive? b.opcode with
          | none => exact .refl _
          | some primitive => exact runBlock_further ih b primitive

theorem interpret_further (kit : Kit σ) (fuel : Nat) :
    Further (interpret kit fuel) (interpret kit (fuel + 1)) := by
  induction fuel with
  | zero => exact .outOfFuel _
  | succ fuel ih =>
    rw [interpret, interpret]
    refine .after _ fun t => ?_
    cases t.block? with
    | none => exact .refl _
    | some current =>
      refine .after _ fun t => .after _ fun _ => (execute_further kit fuel).andThen fun _ =>
        .after _ fun t' => ?_
      cases t'.status
      case promiseWait | yieldTick | done => exact .refl _
      case yield =>
        refine .after _ fun _ => .after _ fun s => ?_
        obtain ⟨expired, s⟩ := if t.isWarp then s.warpExpired else (true, s)
        refine .after _ fun _ => ?_
        cases expired with
        | true => exact .refl _
        | false => exact ih
      case running =>
        refine .after _ fun _ => .after _ fun s => ?_
        obtain ⟨goes, s⟩ := s.unwind
        refine .after _ fun _ => ?_
        cases goes with
        | true => exact ih
        | false => exact .refl _

theorem callOnce_further (h : Further go go') (c : PrimitiveCall Script) (pc : Nat)
    (primitive : Primitive σ) (args : Args) (depth : Nat) (scratch : Scratch) :
    Further (callOnce kit go c pc primitive args depth scratch)
      (callOnce kit go' c pc primitive args depth scratch) := by
  refine .after _ fun t => Further.andThen ?_ fun _ => .refl _
  intro s p hp
  obtain ⟨q, hq, hp⟩ := bind_eq_some_iff.mp hp
  exact bind_eq_some_iff.mpr ⟨q, Call.run_further kit h _ _ _ _ hq, hp⟩

theorem callAgain_further (h : Further go go') (c : PrimitiveCall Script) (pc : Nat)
    (primitive : Primitive σ) (args : Args) (depth fuel : Nat) (scratch : Scratch) :
    Further (callAgain kit go c pc primitive args depth fuel scratch)
      (callAgain kit go' c pc primitive args depth (fuel + 1) scratch) := by
  induction fuel generalizing scratch with
  | zero => exact .outOfFuel _
  | succ fuel ih =>
    rw [callAgain, callAgain]
    refine (callOnce_further h _ _ _ _ _ _).andThen fun after => ?_
    cases after with
    | again scratch => exact ih scratch
    | flow f => exact .refl _

theorem runInstr_further (kit : Kit σ) (fuel pc : Nat) (i : Instr Script) :
    Further (runInstr kit fuel pc i) (runInstr kit (fuel + 1) pc i) := by
  cases i
  case primitive c =>
    show Further (callPrimitive kit fuel c pc) (callPrimitive kit (fuel + 1) c pc)
    unfold callPrimitive
    cases kit.primitive? c.opcode with
    | none => exact .refl _
    | some primitive =>
      exact .after _ fun values => .after _ fun t => .after _ fun _ =>
        callAgain_further (execute_further kit fuel) _ _ _ _ _ _ _
  case stop option => cases option <;> exact .refl _
  all_goals exact .refl _

theorem runCode_further (kit : Kit σ) (fuel : Nat) :
    Further (runCode kit fuel) (runCode kit (fuel + 1)) := by
  induction fuel with
  | zero => exact .outOfFuel _
  | succ fuel ih =>
    rw [runCode, runCode]
    refine .after _ fun t => ?_
    split
    · exact .refl _
    · cases t.cursor? with
      | none => exact .refl _
      | some c =>
        dsimp only
        cases c.instr? with
        | none =>
          refine .after _ fun flow => ?_
          cases flow with
          | go => exact ih
          | pause => exact .refl _
        | some i =>
          refine (runInstr_further kit fuel c.pc i).andThen fun flow => ?_
          cases flow with
          | go => exact ih
          | pause => exact .refl _

theorem resume_further (kit : Kit σ) (fuel : Nat) :
    Further (resume kit fuel) (resume kit (fuel + 1)) := by
  refine .after _ fun t => ?_
  split
  · exact .after _ fun _ => .after _ fun _ => runCode_further kit fuel
  · refine .after _ fun s => ?_
    obtain ⟨goes, s⟩ := if t.block?.isNone then s.unwind else (true, s)
    refine .after _ fun _ => ?_
    cases goes with
    | true => exact interpret_further kit fuel
    | false => exact .refl _

variable {s s' : Turn σ}

theorem step_further (h : s.step kit fuel = some s') : s.step kit (fuel + 1) = some s' := by
  obtain ⟨q, hq, h⟩ := bind_eq_some_iff.mp h
  exact bind_eq_some_iff.mpr ⟨q, resume_further kit fuel _ _ hq, h⟩

theorem await_further (h : s.await kit fuel = some s') : s.await kit (fuel + 1) = some s' := by
  rw [await_eq] at h ⊢
  split
  · rename_i hgoes
    rw [if_pos hgoes] at h
    exact step_further h
  · rename_i hstays
    rwa [if_neg hstays] at h

/-- The turn of a visited thread. -/
def visit (kit : Kit σ) (fuel : Nat) (s : Turn σ) : Option (Turn σ) :=
  if s.thread.status == .promiseWait then s.await kit fuel else s.step kit fuel

theorem visit_further (h : s.visit kit fuel = some s') (k : Nat) :
    s.visit kit (fuel + k) = some s' := by
  induction k with
  | zero => exact h
  | succ k ih =>
    unfold visit at ih ⊢
    split at ih
    · rename_i hwait
      rw [if_pos hwait]
      exact await_further ih
    · rename_i hwait
      rw [if_neg hwait]
      exact step_further ih

/-- However much fuel a turn was given, it ends in one way. -/
theorem visit_unique {s'' : Turn σ} {fuel' : Nat} (h : s.visit kit fuel = some s')
    (h' : s.visit kit fuel' = some s'') : s' = s'' := by
  have hmore := visit_further h fuel'
  rw [Nat.add_comm, visit_further h' fuel] at hmore
  exact Option.some.inj hmore.symm

end Turn
end BlockMachine

import BlockMachine.Proofs.Turn.Law
import BlockMachine.Proofs.Turn.Quiet

/-!
# Removing the own target

The predicate of a hat is asked on a thread that is not in the list yet, and what the blocks in it
do may remove the target of that thread. A primitive is loyal when it ends its thread as soon as it
removes targets, and asks no other predicates meanwhile. With loyal primitives a thread whose
predicate was asked is done or its target is still there (`Turn.execute_grounded`). The core blocks
are loyal (`Library.core_loyal`).
-/

namespace BlockMachine

open Option

variable {σ α β : Type} {go : Exec (Turn σ) Unit} {b : Block}

/-! ## Loyal actions -/

/-- The request stops no thread and removes no target. -/
def Request.Harmless (catalog : Catalog σ) : Request σ → Prop
  | .stopAll | .stopThread | .removeTarget => False
  | r => r.Quiet catalog

/-- The action ends its thread if it removes targets, and that is the last thing it does. -/
inductive Action.Loyal (catalog : Catalog σ) : Action σ Reported → Prop
  | done (r : Reported) : Loyal catalog (.done r)
  | fail (e : BlockError) : Loyal catalog (.fail e)
  | ask {r : Request σ} {next : r.Answer → Action σ Reported} (hr : r.Harmless catalog)
      (hnext : ∀ answer, Loyal catalog (next answer)) : Loyal catalog (.ask r next)
  | stopAll : Loyal catalog (.ask .stopAll fun _ => .done .nothing)
  | stopThread : Loyal catalog (.ask .stopThread fun _ => .done .nothing)
  | removeTarget :
      Loyal catalog (.ask .removeTarget fun _ => .ask .stopThread fun _ => .done .nothing)

/-- All primitives of the catalog are loyal. -/
def Catalog.Loyal (catalog : Catalog σ) : Prop :=
  ∀ opcode primitive, catalog.primitive? opcode = some primitive →
    ∀ args, (primitive args).Loyal catalog

/-! ## Targets that stay -/

namespace Machine

/-- No target was removed. -/
def Retains (m m' : Machine σ) : Prop := ∀ id, id ∈ m.targets → id ∈ m'.targets

instance : Lasting (Retains : Machine σ → Machine σ → Prop) where
  refl _ _ h := h
  trans h h' id hid := h' id (h id hid)

variable {m m' : Machine σ}

theorem Apart.retains (h : m.Apart m') : m.Retains m' := by
  intro id hid
  have hbare := congrArg Option.isSome (h.targets id)
  rw [isSome_map, isSome_map] at hbare
  rw [Std.TreeMap.mem_iff_isSome_getElem?] at hid ⊢
  rw [hbare]
  exact hid

theorem retains_lenient : Lenient (Retains : Machine σ → Machine σ → Prop) :=
  .of_still fun h => h.toApart.retains

theorem retains_addClone? {source id : TargetId} (h : m.addClone? source = some (id, m')) :
    m.Retains m' := by
  obtain ⟨t, -, -, -, -, rfl⟩ := addClone?_some h
  exact fun id hid => Std.TreeMap.mem_insert.mpr (.inr hid)

open Run

variable {kit : Kit σ} {predicate : Exec (Turn σ) Unit} {opcode : String}

/-- Starting a script whose hat has no predicate changes the threads and compiles the script. -/
theorem startScript_unasked {R : Machine σ → Machine σ → Prop} [Lasting R]
    (hrest : ∀ {m m'}, m.Rest m' → R m m')
    (hthreads : ∀ m threads nextThread, R m { m with threads, nextThread })
    (h : kit.hasPrimitive opcode = false) (hat : Hat) (target : TargetId) (top : BlockId) :
    Keeps R (startScript kit.toCatalog predicate opcode hat target top) := by
  unfold startScript
  refine keeps_get.andThen fun m => ?_
  cases m.slotFor hat target top with
  | none => exact keeps_pure _
  | some slot =>
    refine Keeps.andThen (fun m r m' hspawn => ?_) fun t => ?_
    · rcases spawn_cases hspawn with ⟨-, rfl⟩ | ⟨_, _, memos, -, ⟨hasked, -⟩ | ⟨-, rfl, -⟩⟩
      · exact Lasting.refl _
      · cases h.symm.trans hasked
      · exact Lasting.trans (hthreads m m.threads (m.nextThread + 1)) (hrest .of_rest)
    · cases t with
      | none => exact keeps_pure _
      | some t =>
        refine (keeps_modify fun m => ?_).andThen fun _ => keeps_pure _
        unfold place
        split
        · split <;> exact hthreads m _ m.nextThread
        · exact hthreads m _ m.nextThread

theorem startScript_retains (h : kit.hasPrimitive opcode = false) (hat : Hat) (target : TargetId)
    (top : BlockId) : Keeps Retains (startScript kit.toCatalog predicate opcode hat target top) :=
  startScript_unasked (fun h => h.toApart.retains) (fun _ _ _ _ hid => hid) h hat target top

end Machine

/-! ## Asking predicates -/

/-- The target of the thread is there. -/
def Turn.Founded (s : Turn σ) : Prop := s.thread.target ∈ s.machine.targets

/-- The thread is done, or its target is there. -/
def Turn.Grounded (s : Turn σ) : Prop := s.thread.status = .done ∨ s.Founded

theorem Turn.Along.founded {s s' : Turn σ} (h : s.Along Machine.Retains s') (hs : s.Founded) :
    s'.Founded := by
  unfold Founded at *
  rw [h.thread.target]
  exact h.machine _ hs

namespace Call

open Exec

variable {kit : Kit σ} {predicate : Exec (Turn σ) Unit} {c c' : Call σ}

theorem perform_retains {r : Request σ} (h : r.Harmless kit.toCatalog) :
    Keeps (Along Machine.Retains) (perform kit predicate .interpreted r) := by
  cases hfar : r.isFar with
  | false =>
    exact perform_near Machine.retains_lenient.lax _ _ hfar fun ref _ =>
      Machine.retains_lenient.turnWrites ref
  | true =>
    cases r
    case stopAll | removeTarget => exact h.elim
    case stopOthers =>
      rw [perform]
      exact keeps_onTurn fun c => Turn.along_of_machine fun _ h => h
    case startHats =>
      rw [perform]
      exact onMachine_along (Machine.startHats_along (Machine.startScript_retains h) _ _)
    case createClone source =>
      rw [perform]
      exact (onMachine_along (Machine.createClone_along Machine.retains_addClone?
        (Machine.startScript_retains h) source)).discarded
    all_goals cases hfar

/-- A loyal action leaves the target where it is, or the thread is done and nothing is reported. -/
theorem run_loyal {a : Action σ Reported} (ha : a.Loyal kit.toCatalog) {r : Reported}
    (hc : c.toTurn.Founded) (h : run kit predicate .interpreted a c = some (.ok r, c')) :
    c'.toTurn.Founded ∨ c'.thread.status = .done ∧ r = .nothing := by
  induction ha generalizing c with
  | done r =>
    obtain ⟨-, rfl⟩ := pure_some.mp h
    exact .inl hc
  | fail e =>
    obtain ⟨hr, -⟩ := throw_some.mp h
    cases hr
  | ask hr _ ih =>
    obtain ⟨answer, c₁, hperform, hrest⟩ := bind_ok.mp h
    exact ih answer (Turn.Along.founded (perform_retains hr c _ c₁ hperform) hc) hrest
  | stopAll =>
    cases h
    exact .inr ⟨rfl, rfl⟩
  | stopThread =>
    cases h
    exact .inr ⟨rfl, rfl⟩
  | removeTarget =>
    cases h
    exact .inr ⟨rfl, rfl⟩

end Call

namespace Turn

open Exec

variable {kit : Kit σ} {s s' : Turn σ}

theorem founded_of_target {t : Thread} (hs : s.Founded) (h : t.target = s.thread.target) :
    Founded { s with thread := t } := by
  unfold Founded at *
  rwa [h]

theorem Grounded.founded (hs : s.Grounded) (h : s.thread.status ≠ .done) : s.Founded :=
  hs.resolve_left h

theorem evalInputs_founded {depth : Nat} {reported : Table Value}
    (hgo : ∀ s s', go s = some (.ok (), s') → s'.Grounded) {names : List String} {args : Args}
    {r : Option Args} (hs : s.Founded)
    (h : evalInputs go b depth reported args names s = some (.ok r, s')) :
    s'.Grounded ∧ (r.isSome → s'.Founded) := by
  refine evalInputs_induction (fun _ => .inr) (fun _ _ _ _ _ hrun => hgo _ _ hrun) ?_
    (fun s _ hground _ halive => founded_of_target (hground.founded halive) rfl) hs h
  intro s values hground hwait
  refine .inr (founded_of_target (hground.founded (by rw [hwait]; decide)) ?_)
  unfold Thread.onDepth
  split <;> rfl

theorem retains_notes : Notes (Along (Machine.Retains : Machine σ → Machine σ → Prop)) := by
  intro s block value
  refine along_of_machine ?_
  unfold Machine.edgeFires
  cases s.machine.targets[s.thread.target]? with
  | none => exact Lasting.refl _
  | some t => exact fun id hid => Std.TreeMap.mem_insert.mpr (.inr hid)

theorem runBlock_grounded {primitive : Primitive σ}
    (hprimitive : ∀ args, (primitive args).Loyal kit.toCatalog)
    (hgo : ∀ s s', go s = some (.ok (), s') → s'.Grounded) (hs : s.Founded)
    (h : runBlock kit go b primitive s = some (.ok (), s')) : s'.Grounded := by
  unfold runBlock at h
  rw [getThread_andThen, onThread_andThen] at h
  obtain ⟨args, s₁, hinputs, h⟩ := bind_ok.mp h
  have hclear : Founded
      { s with thread := s.thread.onFrame ({ · with reported := ∅, waiting := none }) } :=
    founded_of_target hs rfl
  obtain ⟨hground, hfounded⟩ := evalInputs_founded hgo hclear hinputs
  cases args with
  | none =>
    obtain ⟨-, rfl⟩ := pure_some.mp h
    exact hground
  | some args =>
    obtain ⟨r, s₂, hcall, h⟩ := bind_ok.mp h
    obtain ⟨⟨r₁, c⟩, hrun, hcall⟩ := bind_eq_some_iff.mp hcall
    cases hcall
    have hsame : (c.thread.onDepth s.thread.depth ({ · with scratch := c.scratch })).target =
        c.thread.target ∧
        (c.thread.onDepth s.thread.depth ({ · with scratch := c.scratch })).status =
          c.thread.status := by
      unfold Thread.onDepth
      split <;> exact ⟨rfl, rfl⟩
    rcases Call.run_loyal (hprimitive args) (hfounded rfl) hrun with hc | ⟨hdone, rfl⟩
    · have hreport := takeReport_lax Machine.retains_lenient.lax retains_notes _ _ _ _ _ _ _ h
      exact .inr (hreport.founded (founded_of_target hc hsame.1))
    · obtain ⟨-, rfl⟩ := pure_some.mp h
      exact .inl (hsame.2.trans hdone)

/-- **After a block was run the thread is done, or its target is there.** -/
theorem execute_grounded (hkit : kit.Loyal) (fuel : Nat) :
    ∀ s s', execute kit fuel s = some (.ok (), s') → s'.Grounded := by
  induction fuel with
  | zero => intro s s' h; cases h
  | succ fuel ih =>
    intro s s' h
    rcases execute_cases
      h with ⟨-, rfl⟩ | ⟨htarget, ⟨-, rfl⟩ | ⟨id, b, -, -, ⟨-, h⟩ | ⟨primitive, hprimitive, h⟩⟩⟩
    · exact .inl rfl
    · exact .inr (Std.TreeMap.mem_iff_contains.mpr htarget)
    · exact .inr ((runLiteral_lax Machine.retains_lenient.lax _ b _ _ _ h).founded
        (Std.TreeMap.mem_iff_contains.mpr htarget))
    · exact runBlock_grounded (hkit b.opcode primitive hprimitive) ih
        (Std.TreeMap.mem_iff_contains.mpr htarget) h

end Turn

/-! ## The core blocks -/

/-- **The core blocks are loyal.** -/
theorem Library.core_loyal : (core : Catalog σ).Loyal := by
  intro opcode primitive h args
  have hlight : ∀ {r : Request σ}, r.IsLight → r.Harmless core := by
    intro r hr
    cases r
    case stopAll | stopThread | removeTarget => exact hr.elim
    all_goals exact hr.isCore.quiet
  have hcore := core_requests h args
  generalize primitive args = a at hcore ⊢
  induction hcore with
  | done r => exact .done r
  | fail e => exact .fail e
  | ask hr _ _ ih => exact .ask (hlight hr) ih
  | @move r hr _ =>
    cases r
    case stopAll => exact .stopAll
    case startBranch | startProcedure | stopScript => exact .ask trivial fun _ => .done _
    all_goals cases hr
  | removeTarget _ => exact .removeTarget

end BlockMachine

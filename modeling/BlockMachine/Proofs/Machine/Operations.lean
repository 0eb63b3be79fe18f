import BlockMachine.Proofs.Machine.Chronicle

/-!
# What operations keep

A relation between machines holds along every operation (`Operation.apply_along`) if it is a law of
the kit and holds along the visits of threads and what else a frame, a flag or a click does.
-/

namespace BlockMachine

variable {σ : Type} {R : Machine σ → Machine σ → Prop} {kit : Kit σ}

/-- A relation between machines that holds along the passes over the threads. -/
structure Machine.PassLaw (kit : Kit σ) (R : Machine σ → Machine σ → Prop) : Prop where
  rest : ∀ {m m'}, m.Rest m' → R m m'
  visit : ∀ {fuel isFirst i m m'}, m.visit kit fuel isFirst i = some m' → R m m'
  takeDone : ∀ m, R m m.takeDone.2

/-- A relation between machines that holds along whatever an operation does, the reports at the end
of a frame apart. -/
structure Machine.DeedLaw (kit : Kit σ) (R : Machine σ → Machine σ → Prop) : Prop
    extends Machine.Law kit R where
  visit : ∀ {fuel isFirst i m m'}, m.visit kit fuel isFirst i = some m' → R m m'
  takeDone : ∀ m, R m m.takeDone.2
  startMonitors : ∀ m, R m (m.monitors.foldl startMonitor m)
  clearEdges : ∀ m, R m { m with targets := m.targets.map fun _ t => t.clearEdges }
  toggle : ∀ m top target, R m (m.toggle top target).2
  pushThread : ∀ fuel top target, Run.Keeps R (pushThread kit fuel top target)

/-- A relation between machines that holds along whatever an operation does. -/
structure Machine.FrameLaw (kit : Kit σ) (R : Machine σ → Machine σ → Prop) : Prop
    extends Machine.DeedLaw kit R where
  note : ∀ m block v,
    R m ({ m with monitorValues := m.monitorValues.insert block v }.emit (.monitorUpdate block v))
  reportLists : ∀ m, R m m.reportLists

theorem Machine.DeedLaw.passLaw (law : Machine.DeedLaw kit R) : Machine.PassLaw kit R :=
  ⟨law.rest, law.visit, law.takeDone⟩

namespace Machine

open Run

theorem rest_syncClock (m : Machine σ) : m.Rest m.syncClock := .of_rest

theorem apart_reportLists (m : Machine σ) : m.Apart m.reportLists := by
  refine ⟨rfl, rfl, rfl, rfl, rfl, rfl, rfl, rfl, fun id => ?_⟩
  unfold reportLists
  rw [Std.TreeMap.getElem?_map, Option.map_map]
  rfl

theorem rest_continues (m : Machine σ) (start : Float) (running : Nat) :
    m.Rest (m.continues start running).2 := by
  unfold continues
  split
  · exact Lasting.refl m
  · exact .of_rest

/-- What a frame begins with: hats are polled and the threads of monitors are started. -/
def prepare (kit : Kit σ) (fuel : Nat) : Run (Machine σ) Unit := do
  modify fun m => { m.syncClock with redraw := false }
  pollHats kit fuel kit.edgeHats
  modify fun m => m.monitors.foldl startMonitor m

theorem step_eq (kit : Kit σ) (fuel : Nat) : step kit fuel = (do
    prepare kit fuel
    let done ← stepThreads kit fuel
    modify fun m => (done.foldl reportValue m).reportLists
    return done) := by
  unfold step prepare
  simp only [bind_assoc]

variable {kit : Kit σ} {R : Machine σ → Machine σ → Prop} [Lasting R]

/-- What is told at the end of a frame. -/
theorem report_along (htell : ∀ m event, Event.isUpdate event = false → R m (m.emit event))
    (hnote : ∀ m block v,
      R m ({ m with monitorValues := m.monitorValues.insert block v }.emit (.monitorUpdate
      block v)))
    (hlists : ∀ m, R m m.reportLists) (m : Machine σ) (done : List Thread) :
    R m (done.foldl reportValue m).reportLists := by
  have hvalue : ∀ (m : Machine σ) (t : Thread), R m (m.reportValue t) := by
    intro m t
    unfold reportValue
    split
    · exact Lasting.refl m
    · next v _ =>
      split
      · exact htell m _ rfl
      · split
        · exact hnote m _ _
        · exact Lasting.refl m
  have hfold : ∀ (done : List Thread) (m : Machine σ), R m (done.foldl reportValue m) := by
    intro done
    induction done with
    | nil => exact fun m => Lasting.refl m
    | cons t done ih => exact fun m => Lasting.trans (hvalue m t) (ih _)
  exact Lasting.trans (hfold done m) (hlists _)

theorem apart_report (m : Machine σ) (done : List Thread) :
    m.Apart (done.foldl reportValue m).reportLists :=
  report_along (fun _ _ _ => .of_rest) (fun _ _ _ => .of_rest) apart_reportLists m done

theorem pollHats_along (law : Law kit R) (fuel : Nat) (opcodes : List String) :
    Keeps R (pollHats kit fuel opcodes) := by
  induction opcodes with
  | nil => exact keeps_pure _
  | cons opcode opcodes ih =>
    refine Keeps.andThen ?_ fun _ => ih
    exact (startHats_along (law.startScript fuel (Turn.execute_along law.rule fuel) _)
      _ _).discarded

theorem startMonitors_along (hmonitor : ∀ m monitor, R m (startMonitor m monitor))
    (monitors : List Monitor) : ∀ m, R m (monitors.foldl startMonitor m) := by
  induction monitors with
  | nil => exact fun m => Lasting.refl m
  | cons monitor monitors ih => exact fun m => Lasting.trans (hmonitor m monitor) (ih _)

theorem prepare_along (law : Law kit R) (hmonitors : ∀ m, R m (m.monitors.foldl startMonitor m))
    (fuel : Nat) : Keeps R (prepare kit fuel) := by
  have hbegin : ∀ m : Machine σ, m.Rest { m.syncClock with redraw := false } :=
    fun m => Lasting.trans (rest_syncClock m) .of_rest
  refine Keeps.andThen (keeps_modify fun m => law.rest (hbegin m)) fun _ =>
    (pollHats_along law fuel _).andThen fun _ => ?_
  exact keeps_modify hmonitors

section Passes

variable (law : PassLaw kit R)

include law

theorem visitFrom_along (isFirst : Bool) (fuel : Nat) : ∀ i,
    Keeps R (visitFrom kit isFirst fuel i) := by
  induction fuel with
  | zero => intro i m r m' h; cases h
  | succ fuel ih =>
    intro i m r m' h
    rw [visitFrom] at h
    dsimp only at h
    split at h
    · obtain ⟨m₁, hvisit, h⟩ := Option.bind_eq_some_iff.mp h
      obtain ⟨⟨n, m₂⟩, hrest, h⟩ := Option.bind_eq_some_iff.mp h
      cases h
      exact Lasting.trans (law.visit hvisit) (ih (i + 1) m₁ n m₂ hrest)
    · cases h
      exact Lasting.refl m

theorem pass_along (fuel : Nat) (isFirst : Bool) : Keeps R (pass kit fuel isFirst) :=
  (keeps_modify fun m => law.rest (rest_syncClock m)).andThen fun _ =>
    (visitFrom_along law isFirst fuel 0).andThen fun _ =>
    (keeps_modifyGet law.takeDone).andThen fun _ => keeps_pure _

theorem passes_along (start : Float) (fuel : Nat) : ∀ running,
    Keeps R (passes kit start fuel running) := by
  induction fuel with
  | zero => intro running m r m' h; cases h
  | succ fuel ih =>
    intro running
    rw [passes]
    have hgoes := keeps_modifyGet fun m => law.rest (rest_continues m start running)
    refine hgoes.andThen fun goes => ?_
    split
    · exact (pass_along law fuel false).andThen fun p => (ih p.1).andThen fun _ => keeps_pure _
    · exact keeps_pure _

theorem stepThreads_along (fuel : Nat) : Keeps R (stepThreads kit fuel) := by
  have hclock : Keeps R (modifyGet readClock : Run (Machine σ) Float) :=
    keeps_modifyGet fun m => law.rest .of_rest
  refine hclock.discarded.andThen fun _ => hclock.andThen fun start => keeps_get.andThen fun m => ?_
  split
  · exact keeps_pure _
  · exact (pass_along law fuel true).andThen fun p => (passes_along law start fuel p.1).andThen
      fun _ => keeps_pure _

end Passes

variable (law : FrameLaw kit R)

include law

theorem step_along (fuel : Nat) : Keeps R (step kit fuel) := by
  rw [step_eq]
  refine (prepare_along law.toLaw law.startMonitors fuel).andThen fun _ =>
    (stepThreads_along law.passLaw fuel).andThen fun done => Keeps.andThen ?_ fun _ => keeps_pure _
  exact keeps_modify fun m => report_along law.tell law.note law.reportLists m done

omit law in
theorem greenFlag_along (law : DeedLaw kit R) (fuel : Nat) : Keeps R (greenFlag kit fuel) := by
  refine Keeps.andThen (keeps_modify fun m => ?_) fun _ =>
    (startHats_along (law.startScript fuel (Turn.execute_along law.rule fuel) _) _ _).discarded
  have hstart : R m.stopAll { m.stopAll.emit .projectStart with
      stopwatch := m.stopAll.stopwatch.restart m.stopAll.now } :=
    Lasting.trans (law.tell m.stopAll .projectStart rfl) (law.rest .of_rest)
  exact Lasting.trans (Lasting.trans (law.stopAll m) hstart) (law.clearEdges _)

end Machine

/-- Operations keep what visits and turns keep, if frames do. -/
theorem Operation.apply_deed [Lasting R] (law : Machine.DeedLaw kit R) (fuel : Nat) (op : Operation)
    (hstep : op = .step → Run.Keeps R (Machine.step kit fuel)) :
    Run.Keeps R (op.apply kit fuel) := by
  have hscript := law.startScript fuel (Turn.execute_along law.rule fuel)
  cases op
  case step => exact hstep rfl
  all_goals refine Run.Keeps.andThen ?_ fun _ => Run.keeps_pure _
  case startHats opcode fields only =>
    exact (Machine.startHats_along (hscript opcode) fields only).discarded
  case greenFlag => exact Machine.greenFlag_along law fuel
  case stopAll => exact Run.keeps_modify law.stopAll
  case toggle top target => exact (Run.keeps_modifyGet fun m => law.toggle m top target).discarded
  case pushThread top target => exact (law.pushThread fuel top target).discarded
  case createClone source =>
    exact (Machine.createClone_along law.addClone (hscript _) source).discarded
  case removeTarget target => exact Run.keeps_modify fun m => law.removeTarget m target
  case settle promise outcome => exact Run.keeps_modify fun _ => law.rest .of_rest

/-- **Operations keep what visits, turns and reports keep.** -/
theorem Operation.apply_along [Lasting R] (law : Machine.FrameLaw kit R) (fuel : Nat)
    (op : Operation) :
    Run.Keeps R (op.apply kit fuel) :=
  apply_deed law.toDeedLaw fuel op fun _ => Machine.step_along law fuel

/-- What every operation keeps is kept by any number of them. -/
theorem Machine.play_along [Lasting R] (h : ∀ fuel op, Run.Keeps R (Operation.apply kit fuel op))
    (ops : List (Operation × Nat)) : Run.Keeps R (Machine.play kit ops) := by
  induction ops with
  | nil => exact Run.keeps_pure _
  | cons op ops ih => exact (h op.2 op.1).andThen fun _ => ih.andThen fun _ => Run.keeps_pure _

/-! ## Relations that do not depend on threads -/

namespace Machine

variable {predicate : Exec (Turn σ) Unit}

/-- A relation between machines that holds along whatever happens to targets, and whatever the
threads are. -/
structure TargetLaw (R : Machine σ → Machine σ → Prop) : Prop extends Lenient R where
  tell : ∀ m event, Event.isUpdate event = false → R m (m.emit event)
  threads : ∀ (m : Machine σ) threads nextThread, R m { m with threads, nextThread }
  removeTarget : ∀ m target, R m (m.removeTarget target)
  edgeFires : ∀ m target block value, R m (m.edgeFires target block value).2
  addClone : ∀ {m source id m'}, m.addClone? source = some (id, m') → R m m'
  clearEdges : ∀ m, R m { m with targets := m.targets.map fun _ t => t.clearEdges }

/-- A relation of this kind that holds along the reports at the end of a frame, too. -/
structure ReportLaw (R : Machine σ → Machine σ → Prop) : Prop extends TargetLaw R where
  note : ∀ m block v,
    R m ({ m with monitorValues := m.monitorValues.insert block v }.emit (.monitorUpdate block v))
  reportLists : ∀ m, R m m.reportLists

variable {kit : Kit σ} {R : Machine σ → Machine σ → Prop} [Lasting R]

open Run

/-- A new thread is spawned under a relation that holds along its predicate. -/
theorem spawn_started (hrest : ∀ {m m'}, m.Rest m' → R m m')
    (htell : ∀ (m : Machine σ) t e, R m (m.reportError t e))
    (hnext : ∀ (m : Machine σ) nextThread, R m { m with nextThread })
    (hgo : Exec.Keeps (Turn.Along R) predicate) {hasPredicate : Bool} {target : TargetId}
    {top : BlockId} {m m' : Machine σ} {r : Option Thread}
    (h : spawn kit.toCatalog predicate hasPredicate target top m = some (r, m')) :
    R m m' ∧ ∀ t, r = some t → ∃ sheet, (Thread.start m.nextThread target top sheet).Same t := by
  rcases spawn_cases h with ⟨rfl, rfl⟩ | ⟨source, program, memos, -,
    ⟨-, h⟩ | ⟨-, rfl, t, rfl, hsame⟩⟩
  · exact ⟨Lasting.refl _, by simp⟩
  · obtain ⟨outcome, s, hs, h⟩ := askPredicate_cases h
    obtain ⟨hmachine, hthread⟩ := hgo _ _ _ hs
    have hask : R m s.machine :=
      Lasting.trans (hnext m (m.nextThread + 1)) (Lasting.trans (hrest .of_rest) hmachine)
    have hsame : (Thread.start m.nextThread target top source.sheet).Same s.thread :=
      ⟨hthread.id, hthread.target, hthread.top, hthread.isClick, hthread.isMonitor⟩
    rcases h with ⟨e, -, rfl, rfl⟩ | ⟨-, rfl, hr⟩
    · exact ⟨Lasting.trans hask (htell _ _ _), by simp⟩
    · refine ⟨hask, fun t ht => ⟨source.sheet, ?_⟩⟩
      rcases hr with rfl | rfl | ⟨-, rfl⟩ <;> cases ht
      · exact hsame
      · exact hsame.trans (Thread.same_leaveHat _)
  · refine ⟨Lasting.trans (hnext m (m.nextThread + 1)) (hrest .of_rest),
      fun t' ht' => ⟨source.sheet, ?_⟩⟩
    cases ht'
    exact hsame

theorem spawn_along (hrest : ∀ {m m'}, m.Rest m' → R m m')
    (htell : ∀ (m : Machine σ) t e, R m (m.reportError t e))
    (hnext : ∀ (m : Machine σ) nextThread, R m { m with nextThread })
    (hgo : Exec.Keeps (Turn.Along R) predicate) (hasPredicate : Bool) (target : TargetId)
    (top : BlockId) :
    Keeps R (spawn kit.toCatalog predicate hasPredicate target top) :=
  fun _ _ _ h => (spawn_started hrest htell hnext hgo h).1

variable (law : TargetLaw R)

namespace TargetLaw

include law

omit [Lasting R] in
theorem place (m : Machine σ) (slot : Option Nat) (t : Thread) : R m (m.place slot t) := by
  unfold Machine.place
  split
  · split
    · exact law.threads _ _ _
    · exact law.threads _ _ _
  · exact law.threads _ _ _

theorem stopAll (m : Machine σ) : R m m.stopAll :=
  stopAll_along law.removeTarget (fun m => law.threads m _ _) (law.tell m _ rfl)

theorem spawn (hgo : Exec.Keeps (Turn.Along R) predicate) (hasPredicate : Bool) (target : TargetId)
    (top : BlockId) : Keeps R (Machine.spawn kit.toCatalog predicate hasPredicate target top) :=
  spawn_along law.rest (fun m _ _ => law.tell m _ rfl) (fun m next => law.threads m m.threads next)
    hgo hasPredicate target top

theorem toLaw : Law kit R where
  toLenient := law.toLenient
  tell := law.tell
  stopAll := law.stopAll
  stopTarget m _ _ := law.threads m _ _
  removeTarget := law.removeTarget
  edgeFires := law.edgeFires
  addClone := law.addClone
  startScript fuel hgo opcode hat target top := by
    unfold Machine.startScript
    refine keeps_get.andThen fun m => ?_
    cases m.slotFor hat target top with
    | none => exact keeps_pure _
    | some slot =>
      refine (law.spawn hgo _ target top).andThen fun t => ?_
      cases t with
      | none => exact keeps_pure _
      | some t => exact (keeps_modify fun m => law.place m slot t).andThen fun _ => keeps_pure _

theorem visit {fuel i : Nat} {isFirst : Bool} {m m' : Machine σ}
    (h : m.visit kit fuel isFirst i = some m') : R m m' := by
  rcases visit_cases h with ⟨-, rfl⟩ | ⟨t, -, ⟨-, rfl⟩ | ⟨-, s, hs, rfl⟩⟩
  · exact Lasting.refl m'
  · exact law.threads _ _ _
  · have hput : R s.machine (s.machine.putBack i { s.thread with warpStart := none }) := by
      unfold putBack
      split
      · split
        · exact law.threads _ _ _
        · exact Lasting.refl _
      · exact Lasting.refl _
    have hplaceholder := law.threads m (m.threads.set i (wake isFirst t).placeholder) m.nextThread
    exact Lasting.trans (Lasting.trans hplaceholder (turn_along law.toLaw.turnRule hs).machine) hput

theorem deedLaw : DeedLaw kit R where
  toLaw := law.toLaw
  visit := law.visit
  takeDone m := law.threads m _ _
  startMonitors m := by
    refine startMonitors_along (fun m monitor => ?_) m.monitors m
    unfold startMonitor newThread?
    dsimp only
    split
    · exact Lasting.refl m
    · cases m.targets[monitor.target]? with
      | none => exact Lasting.refl m
      | some t => exact law.threads m _ _
  clearEdges := law.clearEdges
  toggle m top target := by
    unfold toggle newThread?
    dsimp only
    split
    · exact law.threads m _ _
    · cases m.targets[target]? with
      | none => exact Lasting.refl m
      | some t => exact law.threads m _ _
  pushThread fuel top target := by
    unfold pushThread
    refine keeps_get.andThen fun m => ?_
    cases m.targets[target]? >>= (·.sheet.opcode? top) with
    | none => exact keeps_pure _
    | some opcode =>
      refine (law.spawn (Turn.execute_along law.toLaw.rule fuel) _ target top).andThen fun t => ?_
      cases t with
      | none => exact keeps_pure _
      | some t => exact (keeps_modify fun m => law.place m none t).andThen fun _ => keeps_pure _

end TargetLaw

theorem ReportLaw.frameLaw (law : ReportLaw R) : FrameLaw kit R :=
  { law.toTargetLaw.deedLaw with
    note := law.note
    reportLists := law.reportLists }

/-! ## Settings -/

/-- The settings are the same. -/
def SameSettings (m m' : Machine σ) : Prop := m'.settings = m.settings

instance : Lasting (SameSettings : Machine σ → Machine σ → Prop) where
  refl _ := rfl
  trans h h' := Eq.trans h' h

theorem sameSettings_law : ReportLaw (SameSettings : Machine σ → Machine σ → Prop) where
  toLenient := .of_still fun h => h.settings
  tell _ _ _ := rfl
  note _ _ _ := rfl
  reportLists _ := rfl
  threads _ _ _ := rfl
  removeTarget m target := by
    unfold Machine.removeTarget
    split <;> rfl
  edgeFires m target block value := by
    unfold Machine.edgeFires
    split <;> rfl
  addClone h := by
    obtain ⟨t, -, -, -, -, rfl⟩ := addClone?_some h
    rfl
  clearEdges _ := rfl

end Machine
end BlockMachine

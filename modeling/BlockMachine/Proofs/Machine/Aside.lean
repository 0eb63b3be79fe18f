import BlockMachine.Proofs.Exec
import BlockMachine.Turn.Code

/-!
# Reading and writing variables

Services on variables, lists and devices leave the threads, the clock, the settings and the targets
of a machine alone but for the variables (`Machine.Aside`), and so does the evaluation of
expressions, which cannot run out of fuel either (`Turn.eval_aside`, `Turn.eval_total`).
-/

namespace BlockMachine

variable {σ : Type} {α β : Type} {m m' : Machine σ} {x : Service σ α}

/-- The target without its variables. -/
def Target.bare (t : Target) : Target :=
  { t with vars := ∅ }

namespace Machine

variable {host : σ} {dice : Dice} {clock : Clock} {redraw : Bool} {counter now : Float}
  {promises : Promises} {stopwatch : Stopwatch Float} {memos : Std.TreeMap TargetId Memo}

/-- Whether a target is the stage. -/
def isStage (m : Machine σ) (id : TargetId) : Bool :=
  m.targets[id]?.any Target.isStage

/-- The threads, the settings, the layers and the targets are the same, variables apart. -/
structure Apart (m m' : Machine σ) : Prop where
  threads : m'.threads = m.threads
  nextThread : m'.nextThread = m.nextThread
  settings : m'.settings = m.settings
  monitors : m'.monitors = m.monitors
  layers : m'.layers = m.layers
  stage : m'.stage = m.stage
  nextTarget : m'.nextTarget = m.nextTarget
  cloneCount : m'.cloneCount = m.cloneCount
  targets : ∀ id : TargetId, m'.targets[id]?.map Target.bare = m.targets[id]?.map Target.bare

instance : Lasting (Apart : Machine σ → Machine σ → Prop) where
  refl _ := ⟨rfl, rfl, rfl, rfl, rfl, rfl, rfl, rfl, fun _ => rfl⟩
  trans h h' := ⟨h'.threads.trans h.threads, h'.nextThread.trans h.nextThread,
    h'.settings.trans h.settings, h'.monitors.trans h.monitors, h'.layers.trans h.layers,
    h'.stage.trans h.stage, h'.nextTarget.trans h.nextTarget, h'.cloneCount.trans h.cloneCount,
    fun id => (h'.targets id).trans (h.targets id)⟩

/-- What does not depend on variables is the same for all targets. -/
theorem Apart.eq_of_bare (h : m.Apart m') {f : Target → β} (hf : ∀ t, f t.bare = f t)
    (id : TargetId) :
    m'.targets[id]?.map f = m.targets[id]?.map f := by
  have hmap : ∀ m : Machine σ, m.targets[id]?.map f = (m.targets[id]?.map Target.bare).map f := by
    intro m
    rw [Option.map_map]
    congr 1
    funext t
    exact (hf t).symm
  rw [hmap, hmap, h.targets]

/-- What is neither a thread nor a target may change freely. -/
theorem Apart.of_rest {monitorValues : Table Value} {events : List Event} :
    m.Apart { m with
      clock, now, counter, redraw, stopwatch, monitorValues, events, memos, promises,
        dice, host } :=
  ⟨rfl, rfl, rfl, rfl, rfl, rfl, rfl, rfl, fun _ => rfl⟩

/-- Nothing was told, either. -/
structure Still (m m' : Machine σ) : Prop extends m.Apart m' where
  events : m'.events = m.events
  monitorValues : m'.monitorValues = m.monitorValues

instance : Lasting (Still : Machine σ → Machine σ → Prop) where
  refl m := ⟨Lasting.refl m, rfl, rfl⟩
  trans h h' := ⟨Lasting.trans h.toApart h'.toApart, h'.events.trans h.events,
    h'.monitorValues.trans h.monitorValues⟩

theorem Still.of_rest :
    m.Still { m with clock, now, counter, redraw, stopwatch, memos, promises, dice, host } :=
  ⟨.of_rest, rfl, rfl⟩

/-- The variables are the same, too. -/
structure Rest (m m' : Machine σ) : Prop extends m.Still m' where
  same : m'.targets = m.targets

instance : Lasting (Rest : Machine σ → Machine σ → Prop) where
  refl m := ⟨Lasting.refl m, rfl⟩
  trans h h' := ⟨Lasting.trans h.toStill h'.toStill, h'.same.trans h.same⟩

theorem Rest.of_rest :
    m.Rest { m with clock, now, counter, redraw, stopwatch, memos, promises, dice, host } :=
  ⟨.of_rest, rfl⟩

/-- Variables apart, the clock is the same as well. -/
structure Aside (m m' : Machine σ) : Prop extends m.Still m' where
  clock : m'.clock = m.clock

instance : Lasting (Aside : Machine σ → Machine σ → Prop) where
  refl m := ⟨Lasting.refl m, rfl⟩
  trans h h' := ⟨Lasting.trans h.toStill h'.toStill, h'.clock.trans h.clock⟩

/-- What holds when targets are removed and when threads are retired holds when everything is
stopped. -/
theorem stopAll_induction {P : Machine σ → Prop} (hremove : ∀ m id, P m → P (m.removeTarget id))
    (hretire : ∀ m, P m → P (m.onThreads (fun _ => true) Thread.retire))
    (hm : P (m.emit .projectStopAll)) :
    P m.stopAll := by
  have hfold : ∀ (ids : List TargetId) (m : Machine σ), P m → P (ids.foldl removeTarget m) := by
    intro ids
    induction ids with
    | nil => exact fun m hm => hm
    | cons id ids ih => exact fun m hm => ih _ (hremove m id hm)
  exact hretire _ (hfold _ _ hm)

theorem stopAll_along {R : Machine σ → Machine σ → Prop} [Lasting R]
    (hremove : ∀ m id, R m (m.removeTarget id))
    (hretire : ∀ m, R m (m.onThreads (fun _ => true) Thread.retire))
    (hm : R m (m.emit .projectStopAll)) :
    R m m.stopAll :=
  stopAll_induction (fun m₁ id h => Lasting.trans h (hremove m₁ id))
    (fun m₁ h => Lasting.trans h (hretire m₁)) hm

end Machine

/-! ## Services -/

namespace Service

/-- The relation holds from the machine before to the machine after. -/
def Keeps (R : Machine σ → Machine σ → Prop) (x : Service σ α) : Prop :=
  ∀ m, R m (x m).2

theorem get_andThen {k : Machine σ → Service σ β} : (get >>= k) m = k m m := rfl

variable {R : Machine σ → Machine σ → Prop}

theorem keeps_modify {f : Machine σ → Machine σ} (hf : ∀ m, R m (f m)) :
    Keeps R (modify f : Service σ PUnit) := fun m => hf m

theorem Keeps.discarded (hx : Keeps R x) : Keeps R (discard x : Service σ PUnit) := by
  intro m
  have h := hx m
  simp only [discard, Functor.mapConst, ExceptT.map, ExceptT.mk, bind, StateT.bind, Function.comp]
  rcases hxm : x m with ⟨r, m'⟩
  rw [hxm] at h
  cases r <;> exact h

variable [Lasting R]

theorem keeps_pure (a : α) : Keeps R (pure a : Service σ α) := fun m => Lasting.refl m

theorem keeps_throw (e : BlockError) : Keeps R (throw e : Service σ α) := fun m => Lasting.refl m

theorem keeps_get : Keeps R (get : Service σ (Machine σ)) := fun m => Lasting.refl m

theorem Keeps.andThen {f : α → Service σ β} (hx : Keeps R x) (hf : ∀ a, Keeps R (f a)) :
    Keeps R (x >>= f) := by
  intro m
  have h := hx m
  show R m (ExceptT.bindCont f (x m).1 (x m).2).2
  rcases hxm : x m with ⟨r, m'⟩
  rw [hxm] at h
  cases r with
  | error e => exact h
  | ok a => exact Lasting.trans h (hf a m')

end Service

namespace Machine

open Service

theorem aside_onTarget (m : Machine σ) (id : TargetId) {f : Target → Target}
    (hf : ∀ t, (f t).bare = t.bare) : m.Aside (m.onTarget id f) := by
  refine ⟨⟨⟨rfl, rfl, rfl, rfl, rfl, rfl, rfl, rfl, fun id' => ?_⟩, rfl, rfl⟩, rfl⟩
  unfold onTarget
  rw [Std.TreeMap.getElem?_modify]
  split
  · rename_i heq
    rw [Std.LawfulEqCmp.eq_of_compare heq]
    cases m.targets[id']? with
    | none => rfl
    | some t => exact congrArg some (hf t)
  · rfl

theorem aside_store (m : Machine σ) (p : Place) (v : Variable) : m.Aside (m.store p v) :=
  aside_onTarget m _ fun _ => rfl

theorem aside_draw (m : Machine σ) : m.Aside m.draw.2 := by
  unfold draw
  cases m.dice.roll
  exact ⟨.of_rest, rfl⟩

theorem resolve_aside (target : TargetId) (ref : VarRef) (isList : Bool) :
    Keeps Aside (resolve target ref isList : Service σ Place) := by
  intro m
  unfold resolve
  rw [Service.get_andThen]
  cases m.place? target ref isList with
  | some p => exact Lasting.refl m
  | none =>
    cases m.targets.contains target with
    | true => exact aside_onTarget m _ fun _ => rfl
    | false => exact Lasting.refl m

theorem lookUp_aside (target : TargetId) (ref : VarRef) (isList : Bool) :
    Keeps Aside (lookUp target ref isList : Service σ (Place × Variable)) := by
  refine (resolve_aside target ref isList).andThen fun p => keeps_get.andThen fun m => ?_
  cases m.variableAt? p with
  | some v => exact keeps_pure _
  | none => exact keeps_throw _

theorem readVariable_aside (target : TargetId) (ref : VarRef) :
    Keeps Aside (readVariable target ref : Service σ Value) :=
  (lookUp_aside target ref false).andThen fun _ => keeps_pure _

theorem readList_aside (target : TargetId) (ref : VarRef) :
    Keeps Aside (readList target ref : Service σ (List Value)) :=
  (lookUp_aside target ref true).andThen fun _ => keeps_pure _

theorem editList_aside (target : TargetId) (ref : VarRef) (edit : ListEdit) :
    Keeps Aside (editList target ref edit : Service σ Unit) := by
  refine (lookUp_aside target ref true).andThen fun ⟨p, v⟩ => ?_
  have hstore : ∀ d, Keeps Aside (modify fun m : Machine σ =>
      m.store p (v.edit m.settings.listItemLimit d edit) : Service σ Unit) :=
    fun d => keeps_modify fun m => aside_store m _ _
  dsimp only
  split
  · exact Keeps.andThen (fun m => aside_draw m) hstore
  · exact Keeps.andThen (keeps_pure 0) hstore

/-- The clock device changes the stopwatch, other devices the promises and the host. -/
def Asked (m m' : Machine σ) : Prop :=
  ∃ stopwatch promises host, m' = { m with stopwatch, promises, host }

theorem Asked.refl (m : Machine σ) : m.Asked m := ⟨_, _, _, rfl⟩

theorem queryClock_asked (function : String) :
    Keeps Asked (queryClock function : Service σ Reported) := by
  intro m
  unfold queryClock
  rw [Service.get_andThen]
  cases m.stopwatch.query? function m.now with
  | some q => exact ⟨_, _, _, rfl⟩
  | none => exact Asked.refl m

theorem query_asked (kit : Kit σ) (device function : String) (args : List Value) :
    Keeps Asked (query kit device function args) := by
  unfold query
  split
  · exact queryClock_asked function
  · cases kit.devices[device]? with
    | none => exact fun m => Asked.refl m
    | some d =>
      intro m
      obtain ⟨ask, reset⟩ := d
      dsimp only
      rw [Service.get_andThen]
      rcases ask function args m.now ⟨m.promises, m.host⟩ with ⟨answer, s⟩
      cases answer <;> exact ⟨_, _, _, rfl⟩

theorem Asked.aside (h : m.Asked m') : m.Aside m' := by
  obtain ⟨_, _, _, rfl⟩ := h
  exact ⟨.of_rest, rfl⟩

theorem queryClock_aside (function : String) :
    Keeps Aside (queryClock function : Service σ Reported) :=
  fun m => (queryClock_asked function m).aside

theorem query_aside (kit : Kit σ) (device function : String) (args : List Value) :
    Keeps Aside (query kit device function args) :=
  fun m => (query_asked kit device function args m).aside

theorem setVariable_aside (kit : Kit σ) (target : TargetId) (ref : VarRef) (v : Value) :
    Keeps Aside (setVariable kit target ref v) := by
  refine (lookUp_aside target ref false).andThen fun ⟨p, old⟩ =>
    (keeps_modify fun m => aside_store m _ _).andThen fun _ => ?_
  split
  · exact (query_aside kit _ _ _).discarded
  · exact keeps_pure _

theorem changeVariable_aside (kit : Kit σ) (target : TargetId) (ref : VarRef) (amount : Float) :
    Keeps Aside (changeVariable kit target ref amount) :=
  (readVariable_aside target ref).andThen fun _ => setVariable_aside kit target ref _

end Machine

/-! ## Expressions -/

/-- Evaluations in two environments are related when the readings are. -/
theorem Expr.eval_related {m n : Type → Type} [Monad m] [Monad n]
    {R : {α : Type} → m α → n α → Prop} (hpure : ∀ {α : Type} (a : α), R (pure a) (pure a))
    (hbind : ∀ {α β : Type} {x : m α} {y : n α} {f : α → m β} {g : α → n β}, R x y →
      (∀ a, R (f a) (g a)) → R (x >>= f) (y >>= g))
    {env : Env m} {env' : Env n} (hargument : ∀ name, R (env.argument name) (env'.argument name))
    (hvar : ∀ ref, R (env.var ref) (env'.var ref)) (hlist : ∀ ref, R (env.list ref) (env'.list ref))
    (hdraw : R env.draw env'.draw) (hslot : ∀ n, R (env.slot n) (env'.slot n))
    (htimer : R env.timer env'.timer) (e : Expr) : R (e.eval env) (e.eval env') := by
  induction e with
  | const v => exact hpure v
  | slot n => exact hslot n
  | var ref => exact hvar ref
  | argument name default => exact hbind (hargument name) fun _ => hpure _
  | listText list | listLength list => exact hbind (hlist list) fun _ => hpure _
  | timer => exact hbind htimer fun _ => hpure _
  | listItem list index ih =>
    refine hbind ih fun v => hbind (hlist list) fun _ => ?_
    split
    · exact hbind hdraw fun _ => hpure _
    · exact hbind (hpure _) fun _ => hpure _
  | listContains list item ih | listPosition list item ih =>
    exact hbind ih fun _ => hbind (hlist list) fun _ => hpure _
  | toNumber e ih | rawNumber e ih | zeroNaN e ih | toText e ih | toBool e ih | not e ih
  | length e ih | round e ih | math f e ih => exact hbind ih fun _ => hpure _
  | arithmetic op a b iha ihb | compare op a b iha ihb | compareNumbers op a b iha ihb
  | join a b iha ihb | letter a b iha ihb | includes a b iha ihb =>
    exact hbind iha fun _ => hbind ihb fun _ => hpure _
  | random a b iha ihb => exact hbind iha fun _ => hbind ihb fun _ => hbind hdraw fun _ => hpure _
  | and a b iha ihb =>
    refine hbind iha fun v => ?_
    split
    · exact hbind ihb fun _ => hpure _
    · exact hpure _
  | or a b iha ihb =>
    refine hbind iha fun v => ?_
    split
    · exact hpure _
    · exact hbind ihb fun _ => hpure _

/-- What holds of the readings of an environment and goes on through `pure` and `bind` holds of the
evaluation of every expression. -/
theorem Expr.eval_induction {m : Type → Type} [Monad m] {P : {α : Type} → m α → Prop}
    (hpure : ∀ {α : Type} (a : α), P (pure a))
    (hbind : ∀ {α β : Type} {x : m α} {f : α → m β}, P x → (∀ a, P (f a)) → P (x >>= f))
    {env : Env m} (hslot : ∀ n, P (env.slot n)) (hargument : ∀ name, P (env.argument name))
    (hvar : ∀ ref, P (env.var ref)) (hlist : ∀ ref, P (env.list ref)) (htimer : P env.timer)
    (hdraw : P env.draw) (e : Expr) : P (e.eval env) :=
  @Expr.eval_related m m _ _ (fun x _ => P x) hpure (fun hx hf => hbind hx hf) env env
    hargument hvar hlist hdraw hslot htimer e

namespace Turn

/-- The thread stayed as it was, and the machine did but for variables, lists and devices. -/
structure Aside (s s' : Turn σ) : Prop where
  thread : s'.thread = s.thread
  machine : s.machine.Aside s'.machine

instance : Lasting (Aside : Turn σ → Turn σ → Prop) where
  refl s := ⟨rfl, Lasting.refl s.machine⟩
  trans h h' := ⟨h'.thread.trans h.thread, Lasting.trans h.machine h'.machine⟩

open Exec

theorem service_aside (hx : Service.Keeps Machine.Aside x) : Keeps Aside (service x) := by
  intro s r s' h
  cases h
  exact ⟨rfl, hx s.machine⟩

theorem service_total (x : Service σ α) : Total (service x : Exec (Turn σ) α) := fun _ => rfl

theorem getThread_aside : Keeps Aside (getThread : Exec (Turn σ) Thread) := by
  intro s r s' h
  cases h
  exact Lasting.refl s

theorem getThread_total : Total (getThread : Exec (Turn σ) Thread) := fun _ => rfl

theorem eval_aside (e : Expr) : Keeps Aside (eval e : Exec (Turn σ) Value) := by
  refine Expr.eval_induction keeps_pure Keeps.andThen ?_ ?_ ?_ ?_ ?_ ?_ e
  · exact fun _ => getThread_aside.andThen fun _ => keeps_pure _
  · exact fun _ => getThread_aside.andThen fun _ => keeps_pure _
  · exact fun _ => getThread_aside.andThen fun _ => service_aside (Machine.readVariable_aside _ _)
  · exact fun _ => getThread_aside.andThen fun _ => service_aside (Machine.readList_aside _ _)
  · exact (service_aside (Machine.queryClock_aside _)).andThen fun _ => keeps_pure _
  · exact service_aside (x := modifyGet Machine.draw) fun m => Machine.aside_draw m

theorem eval_total (e : Expr) : Total (eval e : Exec (Turn σ) Value) := by
  refine Expr.eval_induction total_pure Total.andThen ?_ ?_ ?_ ?_ ?_ ?_ e
  · exact fun _ => getThread_total.andThen fun _ => total_pure _
  · exact fun _ => getThread_total.andThen fun _ => total_pure _
  · exact fun _ => getThread_total.andThen fun _ => service_total _
  · exact fun _ => getThread_total.andThen fun _ => service_total _
  · exact (service_total _).andThen fun _ => total_pure _
  · exact service_total (modifyGet Machine.draw)

theorem evalArgs_aside (args : List (String × Expr)) :
    Keeps Aside (evalArgs args : Exec (Turn σ) (List (String × Value))) := by
  induction args with
  | nil => exact keeps_pure _
  | cons a args ih => exact (eval_aside a.2).andThen fun _ => ih.andThen fun _ => keeps_pure _

theorem evalArgs_total (args : List (String × Expr)) :
    Total (evalArgs args : Exec (Turn σ) (List (String × Value))) := by
  induction args with
  | nil => exact total_pure _
  | cons a args ih => exact (eval_total a.2).andThen fun _ => ih.andThen fun _ => total_pure _

end Turn
end BlockMachine

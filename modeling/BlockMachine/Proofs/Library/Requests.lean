import BlockMachine.Library.Core
import BlockMachine.Proofs.Turn.Call

/-!
# What the core blocks ask for

The action of a core block makes harmless requests, and the last of them may move the stack of its
thread, stop threads or remove the target (`Action.Core`). All that is known of core blocks in
general follows from `Library.core_requests`, which goes through the blocks once.
-/

namespace BlockMachine

variable {σ α β : Type} {ask : ThreadId → Action σ Bool} {primitive : Primitive σ} {opcode : String}

/-! ## Kinds of requests -/

namespace Request

/-- Whether a request reaches beyond its thread, to other threads, targets or hats. -/
def isFar : Request σ → Bool
  | .stopAll | .stopOthers | .removeTarget | .startHats _ _ | .createClone _ => true
  | _ => false

/-- The reference that a request writes through. -/
def writes? : Request σ → Option VarRef
  | .setVariable ref _ | .editList ref _ => some ref
  | _ => none

/-- The request neither moves frames nor stops its thread, removes targets or moves the clock. Of
all hats it starts only those that receive a message. -/
def IsLight : Request σ → Prop
  | .startBranch _ _ | .startProcedure _ | .stopAll | .stopScript | .stopThread | .removeTarget
  | .advanceClock _ => False
  | .startHats opcode _ => opcode = Library.Messages.received
  | _ => True

/-- The request moves frames, or stops all threads. -/
def isMove : Request σ → Bool
  | .startBranch _ _ | .startProcedure _ | .stopAll | .stopScript => true
  | _ => false

end Request

namespace Library

/-- The core blocks that stop threads, make or remove clones or send messages. -/
def far : List String :=
  ["control_stop", "control_create_clone_of", "control_delete_this_clone", "event_broadcast",
    "event_broadcastandwait"]

/-- The other core blocks: data, operators, control flow, procedures, the counter and the timer. -/
def isNear (opcode : String) : Bool :=
  (core : Catalog Unit).hasPrimitive opcode && !far.contains opcode

/-- The field of a block that names the variable or list that the block writes. -/
def field? : String → Option String
  | "data_setvariableto" | "data_changevariableby" => some "VARIABLE"
  | "data_addtolist" | "data_deleteoflist" | "data_deletealloflist" | "data_insertatlist"
  | "data_replaceitemoflist" => some "LIST"
  | _ => none

/-- The reference that a block writes through. -/
def writes? (opcode : String) (args : Args) : Option VarRef :=
  (field? opcode).map args.ref

/-- The request stays with its thread and writes through no reference but the one of its block. -/
def IsNear (opcode : String) (args : Args) (r : Request σ) : Prop :=
  r.isFar = false ∧ ∀ ref, r.writes? = some ref → writes? opcode args = some ref

end Library

/-! ## Actions -/

namespace Action

/-- What the action of a core block asks for. -/
inductive Core (opcode : String) (args : Args) : Action σ Reported → Prop
  | done (r : Reported) : Core opcode args (.done r)
  | fail (e : BlockError) : Core opcode args (.fail e)
  | ask {r : Request σ} {next : r.Answer → Action σ Reported} (hr : r.IsLight)
      (hnear : Library.isNear opcode = true → Library.IsNear opcode args r)
      (hnext : ∀ answer, Core opcode args (next answer)) : Core opcode args (.ask r next)
  | move {r : Request σ} (hr : r.isMove = true)
      (hnear : Library.isNear opcode = true → Library.IsNear opcode args r) :
      Core opcode args (.ask r fun _ => .done .nothing)
  | removeTarget (hfar : Library.isNear opcode = false) :
      Core opcode args (.ask .removeTarget fun _ => .ask .stopThread fun _ => .done .nothing)

/-- All that the action asks for is light. -/
abbrev Light (opcode : String) (args : Args) : Action σ α → Prop :=
  Only fun r => r.IsLight ∧ (Library.isNear opcode = true → Library.IsNear opcode args r)

variable {opcode : String} {args : Args}

theorem light_request {r : Request σ} (hr : r.IsLight)
    (hnear : Library.isNear opcode = true → Library.IsNear opcode args r) :
    (request r).Light opcode args := only_request ⟨hr, hnear⟩

theorem core_bind {x : Action σ α} {f : α → Action σ Reported} (hx : x.Light opcode args)
    (hf : ∀ a, (f a).Core opcode args) : (x >>= f).Core opcode args := by
  induction x with
  | done a => exact hf a
  | fail e => exact .fail e
  | ask r next ih => exact .ask hx.1.1 hx.1.2 fun answer => ih answer (hx.2 answer)

theorem core_pure (r : Reported) : (pure r : Action σ Reported).Core opcode args := .done r

end Action

namespace Library

open Action

section

variable {opcode : String} {primitive : Primitive σ} {args : Args}

theorem anyThread_light (h : ∀ id, (ask id).Light opcode args) (threads : List ThreadId) :
    (Messages.anyThread ask threads).Light opcode args := by
  induction threads with
  | nil => trivial
  | cons id threads ih =>
    refine only_bind (h id) fun yes => ?_
    split
    · trivial
    · exact ih

theorem allThreads_light (h : ∀ id, (ask id).Light opcode args) (threads : List ThreadId) :
    (Messages.allThreads ask threads).Light opcode args := by
  induction threads with
  | nil => trivial
  | cons id threads ih =>
    refine only_bind (h id) fun yes => ?_
    split
    · exact ih
    · trivial

theorem await_core (threads : List ThreadId) :
    (Messages.await threads : Action σ Reported).Core opcode args := by
  have hnear : ∀ {r : Request σ}, r.isFar = false → r.writes? = none → IsNear opcode args r :=
    fun hfar hwrites => ⟨hfar, fun ref h => by rw [hwrites] at h; cases h⟩
  have hany : (Messages.anyThread hasThread threads : Action σ Bool).Light opcode args :=
    anyThread_light (fun id => light_request (r := .hasThread id) trivial fun _ => hnear rfl rfl)
      threads
  have hall : (Messages.allThreads isWaiting threads : Action σ Bool).Light opcode args :=
    allThreads_light (fun id => light_request (r := .isWaiting id) trivial fun _ => hnear rfl rfl)
      threads
  refine core_bind hany fun any => ?_
  cases any with
  | false => exact .done _
  | true =>
    refine core_bind hall fun all => ?_
    cases all <;> exact core_bind (light_request trivial fun _ => hnear rfl rfl) fun _ => .done _

theorem flow_core (h : Flow.primitive? opcode = some primitive) (args : Args) :
    (primitive args).Core opcode args := by
  unfold Flow.primitive? at h
  split at h
  all_goals cases h
  all_goals
    dsimp only [Flow.repeatTimes, Flow.repeatUntil, Flow.repeatWhile, Flow.forever, Flow.ifThen,
      Flow.ifElse, Flow.allAtOnce, Flow.wait, Flow.waitUntil, Flow.stop]
    repeat first
      | exact core_pure _
      | exact .move rfl fun _ => ⟨rfl, nofun⟩
      | exact .move rfl fun h => absurd h (by decide)
      | refine core_bind (light_request trivial fun _ => ⟨rfl, nofun⟩) fun _ => ?_
      | refine core_bind (light_request trivial fun h => absurd h (by decide)) fun _ => ?_
      | split

theorem memory_core (h : Memory.primitive? opcode = some primitive) (args : Args) :
    (primitive args).Core opcode args := by
  unfold Memory.primitive? at h
  split at h
  all_goals cases h
  all_goals
    dsimp only [Memory.getVariable, Memory.assign, Memory.change, Memory.ofItems, Memory.edit,
      Memory.item]
    repeat first
      | exact core_pure _
      | refine core_bind (light_request trivial fun _ => ⟨rfl, fun _ h => by cases h <;> rfl⟩)
          fun _ => ?_
      | split

theorem operators_core (h : Operators.primitive? opcode = some primitive) (args : Args) :
    (primitive args).Core opcode args := by
  unfold Operators.primitive? at h
  split at h
  all_goals
    cases h
    repeat first
      | exact core_pure _
      | refine core_bind (light_request trivial fun _ => ⟨rfl, nofun⟩) fun _ => ?_

theorem custom_core (h : Custom.primitive? opcode = some primitive) (args : Args) :
    (primitive args).Core opcode args := by
  unfold Custom.primitive? at h
  split at h
  all_goals cases h
  all_goals
    dsimp only [Custom.call, Custom.argument]
    repeat first
      | exact core_pure _
      | exact .move rfl fun _ => ⟨rfl, nofun⟩
      | refine core_bind (light_request trivial fun _ => ⟨rfl, nofun⟩) fun _ => ?_
      | split

theorem timer_core (h : timerPrimitive? opcode = some primitive) (args : Args) :
    (primitive args).Core opcode args := by
  unfold timerPrimitive? at h
  split at h
  all_goals cases h
  all_goals exact .ask trivial (fun _ => ⟨rfl, nofun⟩) fun _ => .done _

theorem clones_core (h : Clones.primitive? opcode = some primitive) (args : Args) :
    (primitive args).Core opcode args := by
  unfold Clones.primitive? at h
  split at h
  all_goals cases h
  all_goals
    dsimp only [Clones.create, Clones.delete, Clones.counter, Clones.increment, Clones.clear]
    repeat first
      | exact core_pure _
      | exact .removeTarget (by decide)
      | refine core_bind (light_request trivial fun _ => ⟨rfl, nofun⟩) fun _ => ?_
      | refine core_bind (light_request trivial fun h => absurd h (by decide)) fun _ => ?_
      | split

theorem messages_core (h : Messages.primitive? opcode = some primitive) (args : Args) :
    (primitive args).Core opcode args := by
  unfold Messages.primitive? at h
  split at h
  all_goals cases h
  · unfold Messages.whenGreater
    split
    · exact core_bind (light_request trivial fun _ => ⟨rfl, nofun⟩) fun _ => core_pure _
    · exact core_pure _
  · exact core_bind (only_map (light_request rfl fun h => absurd h (by decide))) fun _ =>
      core_pure _
  · refine core_bind (light_request trivial fun _ => ⟨rfl, nofun⟩) fun scratch => ?_
    split
    · exact await_core _
    · refine core_bind (light_request rfl fun h => absurd h (by decide)) fun threads => ?_
      split
      · exact core_pure _
      · exact core_bind (light_request trivial fun _ => ⟨rfl, nofun⟩) fun _ => await_core _

end

theorem union_primitive? {c d : Catalog σ} (h : (c.union d).primitive? opcode = some primitive) :
    d.primitive? opcode = some primitive ∨ c.primitive? opcode = some primitive := by
  change (d.primitive? opcode <|> c.primitive? opcode) = some primitive at h
  cases hd : d.primitive? opcode with
  | none =>
    rw [hd] at h
    exact .inr h
  | some q =>
    rw [hd] at h
    exact .inl h

/-- **What the core blocks ask for.** -/
theorem core_requests (h : (core : Catalog σ).primitive? opcode = some primitive) (args : Args) :
    (primitive args).Core opcode args := by
  rcases union_primitive? h with h | h
  · exact timer_core h args
  rcases union_primitive? h with h | h
  · exact custom_core h args
  rcases union_primitive? h with h | h
  · exact operators_core h args
  rcases union_primitive? h with h | h
  · exact messages_core h args
  rcases union_primitive? h with h | h
  · exact memory_core h args
  rcases union_primitive? h with h | h
  · exact clones_core h args
  · exact flow_core h args

end Library
end BlockMachine

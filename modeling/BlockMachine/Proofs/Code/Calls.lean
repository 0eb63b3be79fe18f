import BlockMachine.Proofs.Code.Program
import BlockMachine.Proofs.Table
import Mathlib.Data.Finset.Card
import Mathlib.Tactic.Tauto

/-!
# Which procedures a compilation collects

A compilation that comes to a call takes up the body of the procedure, unless it did so before, and
then emits the call. So whatever is in the table when a piece of code is done was there before or is
reached by calls from that code, through the bodies in the table (`Draft.Grows`). `Collects` says
this of a computation of the compiler, together with what holds of it when it fails: that it did not
go too deep, and that no body was taken up twice. It has a rule for each construct of the monad, so
that it can be followed through the lowering of a block step by step.
-/

namespace BlockMachine

open List Option

/-! ## Calls -/

/-- The script, or a branch of one of its blocks, calls the procedure. -/
inductive Script.Calls : Script → ProcedureKey → Prop
  | here {s : Script} {i : Instr Script} {key : ProcedureKey} (hi : i ∈ s.code.toList)
      (hc : i.callee? = some key) : Calls s key
  | branch {s b : Script} {i : Instr Script} {key : ProcedureKey} (hi : i ∈ s.code.toList)
      (hb : b ∈ i.branches) (h : Calls b key) : Calls s key

/-- The instruction, or a branch of its block, calls the procedure. -/
def Instr.Calls (i : Instr Script) (key : ProcedureKey) : Prop :=
  i.callee? = some key ∨ ∃ b ∈ i.branches, b.Calls key

/-- Some instruction of the code calls the procedure. -/
def CallsIn (code : Code) (key : ProcedureKey) : Prop :=
  ∃ i ∈ code, i.Calls key

/-- The procedures that are reached by calls: those of `calls`, and those that their bodies call. -/
inductive ReachedBy (bodies : ProcedureKey → Option Script) (calls : ProcedureKey → Prop) :
    ProcedureKey → Prop
  | called {key : ProcedureKey} (h : calls key) : ReachedBy bodies calls key
  | body {k key : ProcedureKey} {s : Script} (h : ReachedBy bodies calls k) (hs : bodies k = some s)
      (hc : s.Calls key) : ReachedBy bodies calls key

/-- The procedure is reached by calls from the script of a program. -/
def Program.Needs (p : Program) (key : ProcedureKey) : Prop :=
  ReachedBy (fun k => p.procedures.lookup k) p.script.Calls key

section Calls

variable {a b code : Code} {i : Instr Script} {key : ProcedureKey} {s : Script}

theorem Script.calls_iff : s.Calls key ↔ CallsIn s.code.toList key := by
  constructor
  · rintro (⟨hi, hc⟩ | ⟨hi, hb, h⟩)
    · exact ⟨_, hi, .inl hc⟩
    · exact ⟨_, hi, .inr ⟨_, hb, h⟩⟩
  · rintro ⟨i, hi, hc | ⟨b, hb, h⟩⟩
    · exact .here hi hc
    · exact .branch hi hb h

@[simp] theorem callsIn_nil : ¬ CallsIn [] key := by
  simp [CallsIn]

@[simp] theorem callsIn_append : CallsIn (a ++ b) key ↔ CallsIn a key ∨ CallsIn b key := by
  simp [CallsIn, or_and_right, exists_or]

@[simp] theorem callsIn_cons : CallsIn (i :: code) key ↔ i.Calls key ∨ CallsIn code key := by
  simp [CallsIn]

theorem ReachedBy.mono {bodies bodies' : ProcedureKey → Option Script}
    {calls calls' : ProcedureKey → Prop} (hbodies : ∀ k s, bodies k = some s → bodies' k = some s)
    (hcalls : ∀ k, calls k → ReachedBy bodies' calls' k) (h : ReachedBy bodies calls key) :
    ReachedBy bodies' calls' key := by
  induction h with
  | called h => exact hcalls _ h
  | body _ hs hc ih => exact .body ih (hbodies _ _ hs) hc

end Calls

/-! ## Drafts that grow -/

namespace Draft

variable {d d' d'' : Draft} {key : ProcedureKey} {calls calls' : ProcedureKey → Prop}

/-- The finished body of a procedure. -/
def finished? (d : Draft) (key : ProcedureKey) : Option Script :=
  (d.body? key).join

/-- From the first draft to the second the entries stay, and what comes in is reached by the
calls. -/
structure Grows (d d' : Draft) (calls : ProcedureKey → Prop) : Prop where
  kept : ∀ key b, d.body? key = some b → d'.body? key = some b
  gained : ∀ key, d'.Knows key → d.Knows key ∨ ReachedBy d'.finished? calls key

theorem Grows.refl (d : Draft) (calls : ProcedureKey → Prop) : d.Grows d calls :=
  ⟨fun _ _ => id, fun _ => .inl⟩

theorem Grows.finished (h : d.Grows d' calls) {k : ProcedureKey} {s : Script}
    (hs : d.finished? k = some s) : d'.finished? k = some s := by
  unfold finished? at *
  rw [join_eq_some_iff] at *
  exact h.kept _ _ hs

theorem Grows.mono (h : d.Grows d' calls) (hcalls : ∀ k, calls k → calls' k) : d.Grows d' calls' :=
  ⟨h.kept, fun key hk =>
    (h.gained key hk).imp_right (.mono (fun _ _ => id) fun k hk => .called (hcalls k hk))⟩

theorem Grows.trans (h : d.Grows d' calls) (h' : d'.Grows d'' calls') :
    d.Grows d'' fun k => calls k ∨ calls' k where
  kept key b hb := h'.kept key b (h.kept key b hb)
  gained key hk := by
    rcases h'.gained key hk with hk | hreached
    · exact (h.gained key hk).imp_right
        (.mono (fun _ _ => h'.finished) fun k hk => .called (.inl hk))
    · exact .inr (hreached.mono (fun _ _ => id) fun k hk => .called (.inr hk))

/-- Compiling the body of a procedure that was not met before, for a call of it. -/
theorem Grows.procedure {body : Script} (hnew : d.body? key = none)
    (h : (d.setBody key none).Grows d' body.Calls) :
    d.Grows (d'.setBody key (some body)) (· = key) where
  kept k b hb := by
    have hne : k ≠ key := by
      rintro rfl
      rw [hnew] at hb
      cases hb
    rw [body?_setBody, if_neg hne]
    exact h.kept k b (by rw [body?_setBody, if_neg hne, hb])
  gained k hk := by
    by_cases hkey : k = key
    · exact .inr (.called hkey)
    · unfold Knows at hk
      rw [body?_setBody, if_neg hkey] at hk
      rcases h.gained k hk with hk | hreached
      · unfold Knows at hk
        rw [body?_setBody, if_neg hkey] at hk
        exact .inl hk
      · refine .inr (hreached.mono (fun k' s hs => ?_) fun k' hk' =>
          .body (.called rfl) (by simp [finished?, body?_setBody]) hk')
        -- the entry of the procedure itself is open until its body is done
        have hopen : d'.body? key = some none := h.kept key none (by rw [body?_setBody, if_pos rfl])
        have hne : k' ≠ key := by
          rintro rfl
          simp [finished?, hopen] at hs
        unfold finished? at *
        rwa [body?_setBody, if_neg hne]

end Draft

/-! ## Room for more procedures -/

namespace Sheet

/-- The codes of the procedures that the blocks of a sheet may define. -/
def proccodes (s : Sheet) : List String :=
  s.blocks.values.filterMap fun b => b.inputBlock? "custom_block" >>= s.block? >>= Block.proccode?

/-- The procedures that the blocks of a sheet may define, in both modes. -/
def keys (s : Sheet) : List ProcedureKey :=
  s.proccodes.flatMap fun proccode => [⟨proccode, false⟩, ⟨proccode, true⟩]

theorem length_keys (s : Sheet) : s.keys.length ≤ 2 * s.blocks.size := by
  have hcodes : s.proccodes.length ≤ s.blocks.values.length := length_filterMap_le _ _
  have hvalues : s.blocks.values.length = s.blocks.size := by
    rw [Table.values_eq, length_map, Std.TreeMap.length_toList]
  have hkeys : s.keys.length = 2 * s.proccodes.length := by
    simp [keys, length_flatMap, Nat.mul_comm]
  omega

theorem mem_keys {s : Sheet} {proccode : String} {id : BlockId}
    (h : s.definition? proccode = some id) (warp : Bool) : ⟨proccode, warp⟩ ∈ s.keys := by
  obtain ⟨b, hb, -⟩ := map_eq_some_iff.mp h
  have hdefines := find?_some hb
  simp only [defines, Bool.and_eq_true, beq_iff_eq] at hdefines
  have hcode : proccode ∈ s.proccodes :=
    mem_filterMap.mpr ⟨b, mem_of_find?_eq_some hb, hdefines.2⟩
  refine mem_flatMap.mpr ⟨proccode, hcode, ?_⟩
  cases warp <;> simp

end Sheet

namespace Draft

variable {s : Sheet} {d d' : Draft} {key : ProcedureKey} {n : Nat}

/-- The procedures of a sheet that were not met yet. -/
def left (s : Sheet) (d : Draft) : Finset ProcedureKey :=
  s.keys.toFinset.filter fun key => (d.body? key).isNone

/-- A draft with at most `n` procedures to come, whose log is right: it has each of the procedures
that were met once. -/
structure Fit (s : Sheet) (n : Nat) (d : Draft) : Prop where
  room : (d.left s).card ≤ n
  once : d.begun.Nodup
  logged : ∀ key, key ∈ d.begun ↔ d.Knows key

theorem Fit.of_locals (h : d.Fit s n) (locals : Nat) : ({ d with locals } : Draft).Fit s n :=
  ⟨h.room, h.once, h.logged⟩

theorem Fit.mono {m : Nat} (h : d.Fit s n) (hle : n ≤ m) : d.Fit s m :=
  ⟨Nat.le_trans h.room hle, h.once, h.logged⟩

/-- Taking up a body leaves less to come. -/
theorem Fit.takeUp (h : d.Fit s n) (hnew : d.body? key = none) (hkey : key ∈ s.keys) :
    ∃ m, m < n ∧ (d.setBody key none).Fit s m := by
  refine ⟨((d.setBody key none).left s).card, ?_, Nat.le_refl _, ?_, fun k => ?_⟩
  · refine Nat.lt_of_lt_of_le (Finset.card_lt_card ?_) h.room
    refine (Finset.ssubset_iff_of_subset fun k hk => ?_).mpr ⟨key, ?_, ?_⟩
    · simp only [left, Finset.mem_filter, body?_setBody] at hk ⊢
      refine ⟨hk.1, ?_⟩
      split at hk
      · simp at hk
      · exact hk.2
    · simp [left, hkey, hnew]
    · simp [left, body?_setBody]
  · refine nodup_cons.mpr ⟨fun hmem => ?_, h.once⟩
    have := (h.logged key).mp hmem
    simp [Knows, hnew] at this
  · show k ∈ key :: d.begun ↔ _
    rw [mem_cons, h.logged, Knows, Knows, body?_setBody]
    split <;> simp_all

/-- Finishing a body that was taken up changes nothing for the log. -/
theorem Fit.finish (h : d.Fit s n) (hopen : d.Open key) (body : Script) :
    (d.setBody key (some body)).Fit s n := by
  have hsame : ∀ k, ((d.setBody key (some body)).body? k).isNone = (d.body? k).isNone := by
    intro k
    rw [body?_setBody]
    split
    · next heq => rw [heq, hopen]; rfl
    · rfl
  refine ⟨?_, h.once, fun k => ?_⟩
  · unfold left
    simp only [hsame]
    exact h.room
  · rw [Knows, ← not_isNone, hsame, not_isNone]
    exact h.logged k

end Draft

/-! ## What a computation of the compiler collects -/

/-- What a computation ends with. Where it failed, it did not go too deep, and took up no body
twice; where it did not, there are at most `n` procedures to come, and what came in since the first
draft is reached by the calls of `after`. -/
def HasCollected {α : Type} (s : Sheet) (n : Nat) (d₀ : Draft) (after : α → ProcedureKey → Prop) :
    Except Failure (α × Draft) → Prop
  | .error f => f.error ≠ .endless ∧ f.begun.Nodup
  | .ok (a, d) => d.Fit s n ∧ d₀.Grows d (after a)

theorem HasCollected.andThen {α β : Type} {s : Sheet} {m n : Nat} {d d₀ d₁ : Draft}
    {mid : α → ProcedureKey → Prop} {after : β → ProcedureKey → Prop} {x : Compile α}
    {f : α → Compile β} (hx : HasCollected s m d₁ mid (x d))
    (hf : ∀ a d', d'.Fit s m → d₁.Grows d' (mid a) → HasCollected s n d₀ after (f a d')) :
    HasCollected s n d₀ after ((x >>= f) d) := by
  show HasCollected s n d₀ after (StateT.bind x f d)
  simp only [StateT.bind, bind, Except.bind]
  cases hxd : x d with
  | error e =>
    rw [hxd] at hx
    exact hx
  | ok r =>
    rw [hxd] at hx
    exact hf r.1 r.2 hx.1 hx.2

/-- The computation collects what is reached by the calls of `after`, given that what came in before
it starts is reached by those of `before`. -/
def Collects {α : Type} (s : Sheet) (n : Nat) (before : ProcedureKey → Prop)
    (after : α → ProcedureKey → Prop) (x : Compile α) : Prop :=
  ∀ d₀ d : Draft, d.Fit s n → d₀.Grows d before → HasCollected s n d₀ after (x d)

namespace Collects

open Compile

variable {α β : Type} {s : Sheet} {n : Nat} {before before' : ProcedureKey → Prop}
  {mid : α → ProcedureKey → Prop} {after : β → ProcedureKey → Prop}

theorem returns {b : β} (h : ∀ k, before k → after b k) : Collects s n before after (pure b) :=
  fun _ _ hfit hgrows => ⟨hfit, hgrows.mono h⟩

theorem fails {e : CompileError} (he : e ≠ .endless) : Collects s n before after (fail e) :=
  fun _ _ hfit _ => ⟨he, hfit.once⟩

theorem andThen {x : Compile α} {f : α → Compile β} (hx : Collects s n before mid x)
    (hf : ∀ a, Collects s n (mid a) after (f a)) : Collects s n before after (x >>= f) :=
  fun d₀ d hfit hgrows => (hx d₀ d hfit hgrows).andThen fun a d' => hf a d₀ d'

theorem weaken {x : Compile β} (hbefore : ∀ k, before k → before' k)
    (hx : Collects s n before' after x) : Collects s n before after x :=
  fun d₀ d hfit hgrows => hx d₀ d hfit (hgrows.mono hbefore)

theorem newSlot : Collects s n before (fun _ => before) Draft.newSlot :=
  fun _ _ hfit hgrows => ⟨hfit.of_locals _, hgrows.kept, hgrows.gained⟩

theorem reads : Collects s n before (fun _ => before) get :=
  fun _ _ hfit hgrows => ⟨hfit, hgrows⟩

theorem setLocals (locals : Nat) :
    Collects s n before (fun _ => before) (modify fun d => { d with locals }) :=
  fun _ _ hfit hgrows => ⟨hfit.of_locals _, hgrows.kept, hgrows.gained⟩

/-- Blocks are looked up on the sheet; one that is missing is an error of its own. -/
theorem finds {σ : Type} {ctx : Context σ} {id : BlockId} {f : Block → Compile β}
    (hf : ∀ b, ctx.sheet.block? id = some b → Collects s n before after (f b)) :
    Collects s n before after (ctx.block id >>= f) := by
  unfold Context.block
  cases hb : ctx.sheet.block? id with
  | none => exact fails (by simp)
  | some b => exact hf b hb

end Collects
end BlockMachine

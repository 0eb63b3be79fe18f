import BlockMachine.Code.Draft

/-!
# The layout of compiled code

What can be said of a piece of code by looking at it: which slots an instruction uses, where it
jumps to, which procedure it calls, and what stands right before it. A piece that is laid out from
an index on is *well placed* when

* every jump lands in the piece or right behind it, and not right behind a yield;
* every jump that does not go forward stands right behind a yield;
* every slot is among the slots taken so far;
* every procedure that is called is known, and its body is finished unless the call stands right
  behind a yield.

Pieces are well placed one after the other if each of them is, which is how the code of a block is
put together.
-/

namespace BlockMachine

open List

variable {i : Instr Script}

/-- The slots that an expression reads. -/
def Expr.slots : Expr → List Nat
  | .slot n => [n]
  | .const _ | .argument _ _ | .var _ | .listText _ | .listLength _ | .timer => []
  | .listItem _ e | .listContains _ e | .listPosition _ e | .toNumber e | .rawNumber e | .zeroNaN e
  | .toText e | .toBool e | .not e | .length e | .round e | .math _ e => e.slots
  | .arithmetic _ a b | .compare _ a b | .compareNumbers _ a b | .and a b | .or a b | .join a b
  | .letter a b | .includes a b | .random a b => a.slots ++ b.slots

namespace Instr

variable {σ : Type}

/-- The slots that an instruction reads or writes. -/
def slots : Instr σ → List Nat
  | .setVariable _ e | .changeVariable _ e | .addToList _ e | .deleteOfList _ e
  | .jumpUnless e _ | .jumpIf e _ | .wait e => e.slots
  | .insertAtList _ index item | .replaceInList _ index item => index.slots ++ item.slots
  | .store n e | .repeatInit n e => n :: e.slots
  | .repeatTest n _ => [n]
  | .call _ args => args.flatMap (·.2.slots)
  | .primitive c => c.dest.toList ++ c.args.flatMap (·.2.slots)
  | .clearList _ | .jump _ | .yield | .yieldIfNeeded | .yieldTick | .stop _ | .nop _ => []

/-- The slot that an instruction writes. -/
def dest? : Instr σ → Option Nat
  | .store n _ | .repeatInit n _ | .repeatTest n _ => some n
  | .primitive c => c.dest
  | _ => none

/-- Where an instruction may jump to. -/
def target? : Instr σ → Option Nat
  | .jump t | .jumpUnless _ t | .jumpIf _ t | .repeatTest _ t => some t
  | _ => none

/-- The procedure that an instruction calls. -/
def callee? : Instr σ → Option ProcedureKey
  | .call key _ => some key
  | _ => none

/-- The scripts that an instruction may enter by itself. -/
def branches : Instr σ → List σ
  | .primitive c => c.branches.reduceOption
  | _ => []

/-- Whether an instruction lets other threads run. -/
def isYield : Instr σ → Bool
  | .yield | .yieldIfNeeded => true
  | _ => false

end Instr

/-! ## Instructions and what stands before them -/

/-- Every instruction of the code satisfies `R`, given what stands right before it and its index. -/
def Along (R : Option (Instr Script) → Nat → Instr Script → Prop) :
    Option (Instr Script) → Nat → Code → Prop
  | _, _, [] => True
  | prev, pc, i :: rest => R prev pc i ∧ Along R (some i) (pc + 1) rest

section Along

variable {R R' : Option (Instr Script) → Nat → Instr Script → Prop} {prev : Option (Instr Script)}
  {pc : Nat} {a b code : Code}

theorem along_append :
    Along R prev pc (a ++ b) ↔
      Along R prev pc a ∧ Along R (a.getLast?.or prev) (pc + a.length) b := by
  induction a generalizing prev pc with
  | nil => simp [Along]
  | cons i a ih =>
    have hlast : (i :: a).getLast?.or prev = a.getLast?.or (some i) := by
      cases a with
      | nil => rfl
      | cons j a => simp [getLast?_cons]
    rw [cons_append, Along, Along, ih, hlast, and_assoc, length_cons,
      Nat.add_assoc pc 1, Nat.add_comm 1]

theorem along_mono (h : ∀ prev pc i, R prev pc i → R' prev pc i) (ha : Along R prev pc code) :
    Along R' prev pc code := by
  induction code generalizing prev pc with
  | nil => trivial
  | cons i code ih => exact ⟨h _ _ _ ha.1, ih ha.2⟩

/-- Only the first instruction is concerned by what stands before the code. -/
theorem along_prev (h : ∀ pc i, R none pc i → R prev pc i) (ha : Along R none pc code) :
    Along R prev pc code := by
  cases code with
  | nil => trivial
  | cons i code => exact ⟨h _ _ ha.1, ha.2⟩

theorem along_get {j : Nat} (ha : Along R prev pc code) (hi : code[j]? = some i) :
    R ((code.take j).getLast?.or prev) (pc + j) i := by
  have hlt : j < code.length := (List.getElem?_eq_some_iff.mp hi).1
  have hsplit : code = code.take j ++ i :: code.drop (j + 1) := by
    have hd : code.drop j = i :: code.drop (j + 1) := by
      rw [drop_eq_getElem_cons hlt, (List.getElem?_eq_some_iff.mp hi).2]
    rw [← hd, take_append_drop]
  rw [hsplit, along_append] at ha
  have := ha.2.1
  rwa [length_take, Nat.min_eq_left (Nat.le_of_lt hlt)] at this

end Along

/-- The code does not end with a yield. -/
def Settled (code : Code) : Prop := code.getLast?.any Instr.isYield = false

theorem settled_nil : Settled [] := rfl

theorem settled_append {a b : Code} (ha : Settled a) (hb : Settled b) : Settled (a ++ b) := by
  unfold Settled at *
  rw [getLast?_append]
  cases h : b.getLast? with
  | none => simpa using ha
  | some i => rw [h] at hb; simpa using hb

theorem settled_concat {a : Code} (h : i.isYield = false) : Settled (a ++ [i]) := by
  unfold Settled
  simp [h]

/-- A place in the code where a jump may land: an index in it or right behind it that does not
stand right behind a yield. -/
def Landing (pc : Nat) (code : Code) (t : Nat) : Prop :=
  ∃ l r, code = l ++ r ∧ t = pc + l.length ∧ Settled l

section Landing

variable {pc t : Nat} {a b : Code}

theorem landing_start : Landing pc a pc := ⟨[], a, rfl, rfl, settled_nil⟩

theorem Landing.left (h : Landing pc a t) (b : Code) : Landing pc (a ++ b) t := by
  obtain ⟨l, r, rfl, rfl, hl⟩ := h
  exact ⟨l, r ++ b, append_assoc l r b, rfl, hl⟩

theorem Landing.right (ha : Settled a) (h : Landing (pc + a.length) b t) :
    Landing pc (a ++ b) t := by
  obtain ⟨l, r, rfl, rfl, hl⟩ := h
  refine ⟨a ++ l, r, (append_assoc a l r).symm, ?_, settled_append ha hl⟩
  rw [length_append, Nat.add_assoc]

theorem Landing.le (h : Landing pc a t) : t ≤ pc + a.length := by
  obtain ⟨l, r, rfl, rfl, -⟩ := h
  rw [length_append]
  omega

end Landing

/-! ## Well placed instructions -/

/-- An instruction at index `pc` behind `prev` fits in a script: `L` are the places where jumps may
land, `known` the procedures that may be called and `done` those that may be called without a yield
right before. -/
structure Placed (L : Nat → Prop) (locals : Nat) (known done : ProcedureKey → Prop) (warp : Bool)
    (prev : Option (Instr Script)) (pc : Nat) (i : Instr Script) : Prop where
  lands : ∀ t, i.target? = some t → L t
  back : ∀ t, i.target? = some t → t ≤ pc → prev.any Instr.isYield = true
  slots : ∀ n ∈ i.slots, n < locals
  known : ∀ key, i.callee? = some key → known key
  warp : ∀ key, i.callee? = some key → warp = true → key.warp = true
  done : ∀ key, i.callee? = some key → prev.any Instr.isYield = false → done key

section Placed

variable {L L' : Nat → Prop} {locals locals' t : Nat}
  {known known' done done' : ProcedureKey → Prop} {warp : Bool} {prev : Option (Instr Script)}
  {pc : Nat} {i : Instr Script}

theorem Placed.mono (h : Placed L locals known done warp prev pc i) (hL : ∀ t, L t → L' t)
    (hl : locals ≤ locals') (hk : ∀ key, known key → known' key)
    (hd : ∀ key, done key → done' key) : Placed L' locals' known' done' warp prev pc i where
  lands t ht := hL t (h.lands t ht)
  back := h.back
  slots n hn := Nat.lt_of_lt_of_le (h.slots n hn) hl
  known key hkey := hk key (h.known key hkey)
  warp := h.warp
  done key hkey hp := hd key (h.done key hkey hp)

/-- What fits at the beginning of a piece fits behind anything. -/
theorem Placed.behind (h : Placed L locals known done warp none pc i) :
    Placed L locals known done warp prev pc i where
  lands := h.lands
  back t ht hle := absurd (h.back t ht hle) (by simp)
  slots := h.slots
  known := h.known
  warp := h.warp
  done key hkey _ := h.done key hkey rfl

/-- An instruction that neither jumps nor calls fits anywhere. -/
theorem Placed.plain (ht : i.target? = none) (hc : i.callee? = none)
    (hs : ∀ n ∈ i.slots, n < locals) : Placed L locals known done warp prev pc i where
  lands t h := by rw [ht] at h; cases h
  back t h := by rw [ht] at h; cases h
  slots := hs
  known key h := by rw [hc] at h; cases h
  warp key h := by rw [hc] at h; cases h
  done key h := by rw [hc] at h; cases h

/-- A jump forward fits anywhere. -/
theorem Placed.forward (ht : i.target? = some t)
    (hc : i.callee? = none) (hs : ∀ n ∈ i.slots, n < locals) (hL : L t) (hlt : pc < t) :
    Placed L locals known done warp prev pc i where
  lands t' h := by rw [ht] at h; cases h; exact hL
  back t' h hle := by rw [ht] at h; cases h; omega
  slots := hs
  known key h := by rw [hc] at h; cases h
  warp key h := by rw [hc] at h; cases h
  done key h := by rw [hc] at h; cases h

/-- A jump behind a yield may go anywhere. -/
theorem Placed.backward {y : Instr Script} (hy : y.isYield = true) (hL : L t) :
    Placed L locals known done warp (some y) pc (.jump t) where
  lands t' h := by cases h; exact hL
  back t' _ _ := hy
  slots n hn := by cases hn
  known key h := by cases h
  warp key h := by cases h
  done key h := by cases h

end Placed

/-! ## Scripts -/

/-- A script whose instructions are well placed, and so on in the branches of its blocks. -/
inductive Script.Good (known : ProcedureKey → Prop) : Script → Prop
  | intro {s : Script}
      (placed : Along (Placed (Landing 0 s.code.toList) s.locals known (fun _ => True) s.warp)
        none 0 s.code.toList)
      (warp : ∀ i ∈ s.code.toList, ∀ b ∈ i.branches, b.warp = s.warp)
      (branches : ∀ i ∈ s.code.toList, ∀ b ∈ i.branches, Good known b) : Good known s

/-- The script, or a branch of one of its blocks, calls a procedure without a yield right before. -/
inductive Script.CallsAtOnce : Script → ProcedureKey → Prop
  | here {s : Script} {j : Nat} {i : Instr Script} {key : ProcedureKey}
      (hi : s.code.toList[j]? = some i) (hc : i.callee? = some key)
      (hp : (s.code.toList.take j).getLast?.any Instr.isYield = false) : CallsAtOnce s key
  | branch {s b : Script} {i : Instr Script} {key : ProcedureKey} (hi : i ∈ s.code.toList)
      (hb : b ∈ i.branches) (h : CallsAtOnce b key) : CallsAtOnce s key

theorem Script.Good.mono {known known' : ProcedureKey → Prop} (hk : ∀ key, known key → known' key)
    {s : Script} (h : Good known s) : Good known' s := by
  induction h with
  | intro placed warp _ ih =>
    refine .intro (along_mono (fun _ _ _ h => ?_) placed) warp ih
    exact h.mono (fun _ => id) (Nat.le_refl _) hk fun _ => id

end BlockMachine

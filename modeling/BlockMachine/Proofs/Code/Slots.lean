import BlockMachine.Proofs.Code.Layout

/-!
# The slots that code writes

A reporter that has no lowering is called through its primitive, and its value is kept in a slot
that is taken for this call alone. Each piece of code writes the slots that were taken while it was
compiled and no others, and within a piece no other instruction writes the slot of a primitive
(`Owned`). Pieces that write different slots may stand one after the other.
-/

namespace BlockMachine

open List

namespace Instr

variable {σ : Type}

/-- Whether an instruction calls a primitive. -/
def isPrimitive : Instr σ → Bool
  | .primitive _ => true
  | _ => false

/-- The two instructions write no common slot, unless neither calls a primitive. -/
def Unshared (i j : Instr σ) : Prop :=
  ∀ n, i.dest? = some n → j.dest? = some n → i.isPrimitive = false ∧ j.isPrimitive = false

end Instr

/-- A script in which no other instruction writes the slot of a primitive, and so on in the branches
of its blocks. -/
inductive Script.Owned : Script → Prop
  | intro {s : Script} (alone : s.code.toList.Pairwise Instr.Unshared)
      (branches : ∀ i ∈ s.code.toList, ∀ b ∈ i.branches, Owned b) : Owned s

/-- A piece of code that writes the slots from `lo` up to `hi` only, those of primitives once. -/
structure Owned (lo hi : Nat) (code : Code) : Prop where
  range : ∀ i ∈ code, ∀ n, i.dest? = some n → lo ≤ n ∧ n < hi
  alone : code.Pairwise Instr.Unshared

namespace Owned

variable {lo mid hi : Nat} {a b code : Code} {i : Instr Script}

theorem nil : Owned lo hi [] := ⟨by simp, .nil⟩

theorem widen {lo' hi' : Nat} (h : Owned lo hi code) (hlo : lo' ≤ lo) (hhi : hi ≤ hi') :
    Owned lo' hi' code where
  range i hi n hn := by
    have := h.range i hi n hn
    omega
  alone := h.alone

/-- Pieces that write different slots. -/
theorem join (ha : Owned lo hi a) (hb : Owned lo hi b)
    (hab : ∀ i ∈ a, ∀ j ∈ b, ∀ n, i.dest? = some n → j.dest? ≠ some n) : Owned lo hi (a ++ b) where
  range i hi := (mem_append.mp hi).elim (ha.range i) (hb.range i)
  alone := pairwise_append.mpr ⟨ha.alone, hb.alone,
    fun i hi j hj n hn hn' => absurd hn' (hab i hi j hj n hn)⟩

theorem append (ha : Owned lo mid a) (hb : Owned mid hi b) (hlo : lo ≤ mid) (hhi : mid ≤ hi) :
    Owned lo hi (a ++ b) := by
  refine (ha.widen (Nat.le_refl _) hhi).join (hb.widen hlo (Nat.le_refl _)) fun i hi j hj n
    hn hn' => ?_
  have := ha.range i hi n hn
  have := hb.range j hj n hn'
  omega

theorem one (hdest : ∀ n, i.dest? = some n → lo ≤ n ∧ n < hi) : Owned lo hi [i] where
  range j hj := by
    rw [mem_singleton.mp hj]
    exact hdest
  alone := pairwise_singleton _ _

theorem cons (hdest : i.dest? = none) (h : Owned lo hi code) : Owned lo hi (i :: code) :=
  (one (by simp [hdest])).join h fun j hj _ _ n hn => by
    rw [mem_singleton.mp hj, hdest] at hn
    cases hn

/-- The counter of a loop has a slot of its own. -/
theorem counter (slot exit : Nat) (times : Expr) :
    Owned slot (slot + 1) [.repeatInit slot times, .repeatTest slot exit] where
  range i hi n hn := by
    have hslot : n = slot := by
      simp only [mem_cons, not_mem_nil, or_false] at hi
      rcases hi with rfl | rfl <;> exact (Option.some.inj hn).symm
    omega
  alone := pairwise_pair.mpr fun _ _ _ => ⟨rfl, rfl⟩

end Owned
end BlockMachine

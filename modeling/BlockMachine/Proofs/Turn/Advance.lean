import BlockMachine.Proofs.Number.Nearest
import BlockMachine.Proofs.Project
import BlockMachine.Proofs.Turn.Time
import BlockMachine.Settings
import Mathlib.Algebra.Order.Archimedean.Basic

/-!
# Clocks that move on

The budget of warp mode is a double, and so are the times that a clock shows. A clock whose every
reading moves it on by some fixed amount, measured exactly (`Clock.Moves`), comes to the end of the
finite doubles, and there any finite budget is used up. That may be asked of the clock only while
there is time left (`Turn.Advances`): a clock with a small tick stands still once the tick is lost
in rounding, long after the budget is gone.

## Results

* `Settings.finite_of_decode`: the budget of settings that were read from a document is finite.
* `Turn.Advances.elapses`: time that advances is used up (`Turn.Elapses`).

A budget that is infinite or NaN is never used up, and is left out here.
-/

namespace BlockMachine

namespace Number

open Float.Model Float.Model.UnpackedFloat

variable {x y z : Float} {q : ℚ}

theorem exists_rational (h : x.isFinite = true) : ∃ q, rational? (parts x) = some q := by
  have h' : (parts x).isFinite = true := h
  generalize parts x = u at h'
  cases u with
  | notANumber | infinity s => cases h'
  | zero s => exact ⟨_, rfl⟩
  | finite s m e hm => cases s <;> exact ⟨_, rfl⟩

theorem finite_lt {m : Nat} {e : Int} (hm : m < 2 ^ 53) (he : e ≤ 971) :
    (m * 2 ^ e : ℚ) < 2 ^ 1024 := by
  have hpower : (2 : ℚ) ^ e ≤ 2 ^ (971 : ℤ) := zpow_le_zpow_right₀ (by norm_num) he
  have hpos : (0 : ℚ) < 2 ^ e := zpow_pos (by norm_num) e
  have hbound : (m : ℚ) < 2 ^ 53 := by exact_mod_cast hm
  calc (m * 2 ^ e : ℚ)
    _ < 2 ^ 53 * 2 ^ e := mul_lt_mul_of_pos_right hbound hpos
    _ ≤ 2 ^ 53 * 2 ^ (971 : ℤ) := mul_le_mul_of_nonneg_left hpower (by norm_num)
    _ = 2 ^ (1024 : ℤ) := by rw [← zpow_natCast, ← zpow_add₀ (by norm_num)]; rfl
    _ = 2 ^ 1024 := zpow_natCast 2 1024

/-- No finite double gets to `2^1024`. -/
theorem rational?_lt (h : rational? (parts x) = some q) : q < 2 ^ 1024 := by
  have hsigned : ∀ {s : Sign} {m : Nat} {e : Int} {hm : 0 < m}, m < 2 ^ 53 → e ≤ 971 →
      rational? (.finite s m e hm) = some q → q < 2 ^ 1024 := by
    intro s m e hm hbound he hq
    have hlt := finite_lt hbound he
    have hpos : (0 : ℚ) ≤ m * 2 ^ e := mul_nonneg (Nat.cast_nonneg m) (zpow_nonneg (by norm_num) e)
    cases s with
    | positive =>
      cases hq
      exact hlt
    | negative =>
      cases hq
      rw [neg_mul]
      exact lt_of_le_of_lt (neg_nonpos.mpr hpos) (by positivity)
  have hform := form x
  generalize x.toBits.toNat = bits at hform
  generalize parts x = u at hform h
  cases hform with
  | notANumber | infinity => cases h
  | zero =>
    cases h
    positivity
  | subnormal he hm hexp hpos => exact hsigned (by omega) (by omega) h
  | normal he he' hm hexp hpos => exact hsigned (by omega) (by omega) h

/-- What is left of infinity is more than any finite number. -/
theorem lt_infinity_sub (hy : y.isFinite = true) (hz : z.isFinite = true) : z < infinity - y := by
  have hy' : (parts y).isFinite = true := hy
  have hz' : (parts z).isFinite = true := hz
  have hrest : parts (infinity - y) = .infinity .positive := by
    show repack (UnpackedFloat.sub .binary64 (.infinity .positive) (parts y)) = _
    generalize parts y = v at hy'
    cases v with
    | notANumber | infinity s => cases hy'
    | zero s | finite s m e hm => exact repack_infinity _
  rw [lt_iff, hrest]
  generalize parts z = w at hz'
  cases w with
  | notANumber | infinity s => cases hz'
  | zero s | finite s m e hm => rfl

end Number

/-! ## Settings -/

theorem Json.isFinite_of_asFloat {j : Json} {x : Float} (h : asFloat j = .ok x) :
    x.isFinite = true := by
  unfold asFloat at h
  split at h
  · split at h
    · next hx =>
      cases h
      exact (Option.filter_eq_some_iff.mp hx).2
    · cases h
  · cases h

/-- The budget of settings that were read is finite. -/
theorem Settings.finite_of_decode {j : Json} {settings : Settings} (h : decode j = .ok settings) :
    settings.warpTime.isFinite = true := by
  refine Json.foldRecord_keeps (I := fun s : Settings => s.warpTime.isFinite = true)
    (fun {s s' key value} hstep hs => ?_) (by decide +kernel) h
  split at hstep
  case h_3 =>
    obtain ⟨x, hx, rfl⟩ := Json.map_ok hstep
    exact Json.isFinite_of_asFloat hx
  all_goals
    obtain ⟨x, -, rfl⟩ := Json.map_ok hstep
    exact hs

/-! ## Clocks -/

namespace Clock

open Number

/-- Reading the clock moves it from a finite time by `δ` at least, or beyond the finite times. -/
def Moves (c : Clock) (δ : ℚ) : Prop :=
  ∀ q, rational? (parts c.time) = some q → c.read.2.time = infinity ∨
    ∃ q', rational? (parts c.read.2.time) = some q' ∧ q + δ ≤ q'

theorem after_succ (c : Clock) (n : Nat) : c.after (n + 1) = (c.after n).read.2 := by
  induction n generalizing c with
  | zero => rfl
  | succ n ih => exact ih c.read.2

/-- A clock that moves on for ever comes to the end of the finite times, which lie below
`2^1024`. -/
theorem exists_infinite {c : Clock} {δ : ℚ} (hδ : 0 < δ) (hc : c.time.isFinite = true)
    (h : ∀ n, (c.after n).Moves δ) : ∃ n, (c.after (n + 1)).time = infinity := by
  by_contra hnever
  push Not at hnever
  obtain ⟨q₀, hq₀⟩ := exists_rational hc
  have hgrows : ∀ n : Nat, ∃ q, rational? (parts (c.after n).time) = some q ∧ q₀ + n * δ ≤ q := by
    intro n
    induction n with
    | zero => exact ⟨q₀, hq₀, by simp⟩
    | succ n ih =>
      obtain ⟨q, hq, hle⟩ := ih
      have hnext := h n q hq
      rw [← after_succ] at hnext
      obtain ⟨q', hq', hle'⟩ := hnext.resolve_left (hnever n)
      exact ⟨q', hq', by push_cast; linarith⟩
  obtain ⟨n, hn⟩ := exists_nat_gt ((2 ^ 1024 - q₀) / δ)
  obtain ⟨q, hq, hle⟩ := hgrows n
  have hlt := rational?_lt hq
  rw [div_lt_iff₀ hδ] at hn
  generalize (2 : ℚ) ^ 1024 = limit at hn hlt
  linarith

end Clock

namespace Turn

variable {σ : Type} {s : Turn σ} {δ : ℚ}

/-- When the measured time begins: with the second reading, unless it has begun. -/
def began (s : Turn σ) : Float :=
  s.thread.warpStart.getD (s.machine.clock.after 1).time

/-- For as long as there is time left, each reading of the clock moves it on by `δ` at least. -/
def Advances (s : Turn σ) (δ : ℚ) : Prop :=
  ∀ n, (∀ k ≤ n, ¬ s.Elapses k) → (s.machine.clock.after n).Moves δ

/-- **Time that advances is used up**, as long as the budget and the times to begin with are
finite. -/
theorem Advances.elapses (h : s.Advances δ) (hδ : 0 < δ)
    (hbudget : s.machine.settings.warpTime.isFinite = true)
    (htime : s.machine.clock.time.isFinite = true) (hbegan : s.began.isFinite = true) :
    ∃ n, s.Elapses n := by
  by_contra hnever
  push Not at hnever
  have hmoves : ∀ n, (s.machine.clock.after n).Moves δ := fun n => h n fun k _ => hnever k
  have hlast := Number.lt_infinity_sub hbegan hbudget
  unfold began at hbegan hlast
  cases hw : s.thread.warpStart with
  | some start =>
    rw [hw] at hlast
    obtain ⟨n, hn⟩ := Clock.exists_infinite hδ htime hmoves
    refine hnever (n + 1) ?_
    unfold Elapses
    rw [hw, hn]
    exact hlast
  | none =>
    rw [hw] at hlast hbegan
    obtain ⟨n, hn⟩ := Clock.exists_infinite hδ hbegan fun n => hmoves (n + 1)
    refine hnever n ?_
    unfold Elapses
    rw [hw, show (s.machine.clock.after (n + 2)).time = _ from hn]
    exact hlast

end Turn

end BlockMachine

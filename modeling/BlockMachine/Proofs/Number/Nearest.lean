import BlockMachine.Proofs.Number.Grammar
import BlockMachine.Proofs.Number.Pick
import BlockMachine.Proofs.Positions
import Mathlib.Tactic.Linarith

/-!
# The exact values of doubles

What a double reads as has the value of its parts (`Reads.value`). Where a mantissa is cut, it is
rounded to the nearest one (`rounded_near`), so that the double of a natural number is the nearest
to it among all finite doubles (`nearest_ofNat`). Digits after a radix mark are read so, as long as
they stand for less than `2^64` (`Numeral.read_follows_grammar`).

The module is about `Numeral.read`.

## Results

* `nearest_ofNat`: the double of a natural number.
* `Numeral.read_follows_grammar`: which texts stand for numbers, and what digits of a radix read as.
* `Numeral.digits_beyond_words_are_not_read`: a text of the grammar that is too long.

Left out is which double a decimal reads as.
-/

namespace BlockMachine.Number

open Float.Model Float.Model.UnpackedFloat

variable {n m r rest unit : Nat} {em : ExtendedMantissa} {u : UnpackedFloat}

/-- The exact value of the parts of a double. -/
def rational? : UnpackedFloat → Option ℚ
  | .zero _ => some 0
  | .finite .positive m e _ => some (m * 2 ^ e)
  | .finite .negative m e _ => some (-m * 2 ^ e)
  | _ => none

theorem Reads.value {b : Option Binary} (h : Reads b u) : b.map Binary.value = rational? u := by
  cases h with
  | notANumber | infinity => rfl
  | @zero b s hzero =>
    have hsigned : b.signed = 0 := by
      unfold Binary.signed
      rw [hzero]
      split <;> rfl
    show some b.value = some 0
    rw [Binary.value, hsigned, Int.cast_zero, zero_mul]
  | @finite b s hsign hpos =>
    show some b.value = _
    unfold Binary.value Binary.signed
    cases hnegative : b.negative with
    | false =>
      obtain rfl : s = .positive := by rw [hsign, hnegative]; rfl
      show _ = some (b.significand * 2 ^ b.exponent : ℚ)
      simp
    | true =>
      obtain rfl : s = .negative := by rw [hsign, hnegative]; rfl
      show _ = some (-b.significand * 2 ^ b.exponent : ℚ)
      simp

/-! ## Whole values -/

/-- A whole number. -/
def IsInteger (q : ℚ) : Prop := ∃ k : Int, q = k

theorem WholeAt.isInteger {e : Int} (h : WholeAt m e) : IsInteger (m * 2 ^ e : ℚ) := by
  by_cases he : 0 ≤ e
  · obtain ⟨k, rfl⟩ := Int.eq_ofNat_of_zero_le he
    exact ⟨m * 2 ^ k, by push_cast; rw [zpow_natCast]⟩
  · obtain ⟨k, hk⟩ := Int.eq_ofNat_of_zero_le (show 0 ≤ -e by omega)
    obtain ⟨c, rfl⟩ := h.resolve_left he
    refine ⟨c, ?_⟩
    rw [show e = -(k : Int) by omega, zpow_neg, zpow_natCast, Int.neg_neg, Int.toNat_natCast]
    push_cast
    field_simp

theorem Whole.isInteger {q : ℚ} (h : Whole u) (hq : rational? u = some q) : IsInteger q := by
  cases h with
  | infinity s => cases hq
  | zero s =>
    cases hq
    exact ⟨0, Int.cast_zero.symm⟩
  | @normal s _ h =>
    obtain ⟨m, e, hpos, rfl, -, -, -, hw⟩ := h
    obtain ⟨k, hk⟩ := hw.isInteger
    cases s <;> cases hq
    · exact ⟨-k, by push_cast; rw [neg_mul, hk]⟩
    · exact ⟨k, hk⟩

/-! ## Rounding -/

/-- What was cut off a mantissa, as a part of a unit, told by the two bits that are kept of it. -/
def Cut (em : ExtendedMantissa) (rest unit : Nat) : Prop :=
  match em.roundBit, em.stickyBit with
  | false, false => rest = 0
  | false, true => 0 < rest ∧ 2 * rest < unit
  | true, false => 2 * rest = unit
  | true, true => unit < 2 * rest ∧ rest < unit

theorem Cut.shiftRightOne (h : Cut em rest unit) (hunit : 0 < unit) :
    Cut em.shiftRightOne (rest + unit * (em.mantissa % 2)) (unit * 2) := by
  obtain ⟨m, r, s⟩ := em
  unfold ExtendedMantissa.shiftRightOne
  rcases Nat.mod_two_eq_zero_or_one m with hm | hm <;> cases r <;> cases s <;>
    simp only [Cut, hm] at h ⊢ <;> simp <;> omega

theorem cut_shiftRight (m k : Nat) :
    Cut ((⟨m, false, false⟩ : ExtendedMantissa) >>> k) (m % 2 ^ k) (2 ^ k) := by
  induction k with
  | zero => exact Nat.mod_one m
  | succ k ih =>
    have hstep := ih.shiftRightOne (Nat.two_pow_pos k)
    rw [shiftRight_mantissa, ← Nat.mod_pow_succ] at hstep
    rw [Nat.pow_succ]
    exact hstep

theorem Cut.near (h : Cut em rest unit) :
    2 * (unit * em.mantissa + rest) ≤ 2 * (unit * em.roundedMantissa) + unit ∧
      2 * (unit * em.roundedMantissa) ≤ 2 * (unit * em.mantissa + rest) + unit := by
  obtain ⟨m, r, s⟩ := em
  have hsucc : unit * (m + 1) = unit * m + unit := Nat.mul_succ unit m
  rcases Nat.mod_two_eq_zero_or_one m with hm | hm <;> cases r <;> cases s <;>
    simp only [Cut, ExtendedMantissa.roundedMantissa, ExtendedMantissa.accuracy,
      Accuracy.roundToNearestEven, hm, Nat.add_zero] at h ⊢ <;> omega

/-- A mantissa is rounded to the nearest one where it is cut. -/
theorem rounded_near {k : Nat}
    (hr : ((⟨m, false, false⟩ : ExtendedMantissa) >>> k).roundedMantissa = r) :
    2 * m ≤ 2 * (2 ^ k * r) + 2 ^ k ∧ 2 * (2 ^ k * r) ≤ 2 * m + 2 ^ k := by
  have hnear := (cut_shiftRight m k).near
  rwa [shiftRight_mantissa, Nat.div_add_mod, hr] at hnear

/-! ## Natural numbers -/

/-- No finite double is nearer to a number. -/
def Nearest (x : Float) (q : ℚ) : Prop :=
  ∃ b, Binary.ofFloat? x = some b ∧
    ∀ y b', Binary.ofFloat? y = some b' → |b.value - q| ≤ |b'.value - q|

theorem parts_ofNat_large (hlow : 2 ^ 53 ≤ n) : parts (Float.ofNat n) =
    repack (roundWithAccuracy .binary64 .positive (n * 2 ^ 53) (-53) .exact) := by
  have hbits : (2 : Int) ^ Format.binary64.exponentBits = 2048 := rfl
  have hscaled : n <<< Format.binary64.mantissaBits * 10 ^ Int.toNat 0 = n * 2 ^ 53 := by
    rw [Int.toNat_zero, Nat.pow_zero, Nat.mul_one, Nat.shiftLeft_eq]
    rfl
  have hexponent : -(Format.binary64.mantissaBits : Int) + 0 = -53 := rfl
  show parts (Float.ofScientific n false 0) = _
  unfold Float.ofScientific
  rw [dif_neg (by omega)]
  show repack (UnpackedFloat.ofScientific .binary64 n 0) = _
  unfold UnpackedFloat.ofScientific
  rw [dif_neg (by omega), if_neg (by decide), if_neg (by omega), if_pos (by decide),
    mul_finite, hscaled, hexponent]
  rfl

/-- The value of a large number in a double is the number rounded to a multiple of a power of
two. -/
theorem exact_ofNat_large (hlow : 2 ^ 53 ≤ n) (hhigh : n < 2 ^ 64) :
    ∃ r j : Nat, rational? (parts (Float.ofNat n)) = some ((2 ^ j : ℚ) * r) ∧ 2 ^ 52 * 2 ^ j ≤ n ∧
      2 * n ≤ 2 * (2 ^ j * r) + 2 ^ j ∧ 2 * (2 ^ j * r) ≤ 2 * n + 2 ^ j := by
  have hlog : 53 ≤ n.log2 := (Nat.le_log2 (by omega)).mpr hlow
  have hlog' : n.log2 < 64 := (Nat.log2_lt (by omega)).mpr hhigh
  obtain ⟨j, hj⟩ : ∃ j, n.log2 = 52 + j := ⟨n.log2 - 52, by omega⟩
  have hbits : (n * 2 ^ 53).log2 = 52 + (j + 53) := by
    rw [log2_mul_two_pow (by omega), hj, Nat.add_assoc]
  obtain ⟨r, hr⟩ : ∃ r,
      ((⟨n * 2 ^ 53, false, false⟩ : ExtendedMantissa) >>> (j + 53)).roundedMantissa = r := ⟨_, rfl⟩
  have hnear := rounded_near hr
  rw [Nat.pow_add, Nat.mul_right_comm] at hnear
  refine ⟨r, j, ?_, ?_, by omega, by omega⟩
  · have hexp : -53 + ((j + 53 : Nat) : Int) = j := by omega
    rw [parts_ofNat_large hlow]
    obtain ⟨hpos, hr', ⟨hlt, hround⟩ | ⟨rfl, hround⟩⟩ :=
      roundWithAccuracy_normal .positive hbits
        (show -1074 ≤ -53 + ((j + 53 : Nat) : Int) by omega) hr
    · rw [hround, repack_finite hr' hlt (by omega) (by omega), hexp]
      exact congrArg some (mul_comm _ _)
    · rw [hround, repack_finite (Nat.le_refl _) (by decide) (by omega) (by omega), hexp]
      refine congrArg some ?_
      rw [zpow_add_one₀ two_ne_zero, zpow_natCast]
      push_cast
      ring
  · rw [← Nat.pow_add, ← hj]
    exact Nat.log2_self_le (by omega)

theorem exact_ofNat_small (h : n < 2 ^ 53) : rational? (parts (Float.ofNat n)) = some (n : ℚ) := by
  rcases Nat.eq_zero_or_pos n with rfl | hn
  · rfl
  · obtain ⟨k, hm, -, hparts, -⟩ := parts_ofNat hn h
    rw [hparts]
    show some _ = some _
    rw [zpow_neg, zpow_natCast]
    push_cast
    field_simp

/-- A finite double is a multiple of a power of two, or has not 53 bits above it. -/
theorem multiple_or_small {y : Float} {b : Binary} (h : Binary.ofFloat? y = some b) (j : Nat) :
    (∃ z : Int, b.value = 2 ^ j * z) ∨ b.value < 2 ^ 52 * 2 ^ j := by
  have hbits : b.significand < 2 ^ 53 := by
    have hreads := reads y
    rw [h] at hreads
    generalize parts y = u at hreads
    cases hreads with
    | zero s hzero => omega
    | finite hsign hpos hbits => exact hbits
  by_cases hexp : (j : Int) ≤ b.exponent
  · obtain ⟨k, hk⟩ := Int.eq_ofNat_of_zero_le (show 0 ≤ b.exponent - j by omega)
    refine .inl ⟨b.signed * 2 ^ k, ?_⟩
    rw [Binary.value, show b.exponent = (j + k : Nat) by omega, zpow_natCast, pow_add]
    push_cast
    ring
  · have hsigned : (b.signed : ℚ) < 2 ^ 53 := by
      have : b.signed < 2 ^ 53 := by
        unfold Binary.signed
        split <;> omega
      exact_mod_cast this
    refine .inr ?_
    calc b.value < 2 ^ 53 * 2 ^ b.exponent := mul_lt_mul_of_pos_right hsigned (zpow_pos two_pos _)
      _ ≤ 2 ^ 53 * 2 ^ ((j : Int) - 1) :=
        mul_le_mul_of_nonneg_left (zpow_le_zpow_right₀ one_le_two (by omega)) (by norm_num)
      _ = 2 ^ 52 * 2 ^ j := by
        rw [zpow_sub_one₀ two_ne_zero, zpow_natCast]
        ring

/-- A number that is rounded to a multiple of a unit is no nearer to another one. -/
theorem near_le {p q : ℚ} (hp : 0 < p) (h : 2 * q ≤ 2 * (p * r) + p) (h' : 2 * (p * r) ≤ 2 * q + p)
    (z : Int) :
    |p * r - q| ≤ |p * z - q| := by
  rcases lt_trichotomy z r with hz | rfl | hz
  · have hstep : p * (z + 1) ≤ p * r := mul_le_mul_of_nonneg_left (by exact_mod_cast hz) hp.le
    rw [abs_sub_comm (p * z), abs_le]
    constructor <;> linarith [le_abs_self (q - p * z)]
  · exact le_rfl
  · have hstep : p * (r + 1) ≤ p * z := mul_le_mul_of_nonneg_left (by exact_mod_cast hz) hp.le
    rw [abs_le]
    constructor <;> linarith [le_abs_self (p * z - q)]

/-- The double of a natural number is the nearest to it. -/
theorem nearest_ofNat (h : n < 2 ^ 64) : Nearest (Float.ofNat n) n := by
  have hvalue := (reads (Float.ofNat n)).value
  by_cases hsmall : n < 2 ^ 53
  · rw [exact_ofNat_small hsmall] at hvalue
    obtain ⟨b, hb, hvalue⟩ := Option.map_eq_some_iff.mp hvalue
    refine ⟨b, hb, fun y b' _ => ?_⟩
    rw [hvalue, sub_self, abs_zero]
    exact abs_nonneg _
  · obtain ⟨r, j, hexact, hlow, hnear, hnear'⟩ := exact_ofNat_large (Nat.le_of_not_lt hsmall) h
    rw [hexact] at hvalue
    obtain ⟨b, hb, hvalue⟩ := Option.map_eq_some_iff.mp hvalue
    have hnear : (2 * n : ℚ) ≤ 2 * (2 ^ j * r) + 2 ^ j := by exact_mod_cast hnear
    have hnear' : (2 * (2 ^ j * r) : ℚ) ≤ 2 * n + 2 ^ j := by exact_mod_cast hnear'
    have hmultiple := near_le (pow_pos two_pos j) hnear hnear'
    refine ⟨b, hb, fun y b' hb' => ?_⟩
    rw [hvalue]
    rcases multiple_or_small hb' j with ⟨z, hz⟩ | hz
    · rw [hz]
      exact hmultiple z
    · -- The least multiple with 53 bits is nearer than what lies below it.
      have hlow' : (2 ^ 52 * 2 ^ j : ℚ) ≤ n := by exact_mod_cast hlow
      have hleast := hmultiple (2 ^ 52)
      rw [Int.cast_pow, Int.cast_ofNat,
        abs_of_nonpos (by linarith : (2 ^ j * 2 ^ 52 - n : ℚ) ≤ 0)] at hleast
      rw [abs_of_nonpos (by linarith : (b'.value - n : ℚ) ≤ 0)]
      linarith

end BlockMachine.Number

namespace BlockMachine.Numeral

/-- **The grammar of numerals.** A text stands for a number, and not for NaN, if and only if what is
left of it without the blanks around it is empty, `Infinity` with an optional sign, digits of a
radix after its mark that stand for less than `2^64`, or a decimal. Such digits are read as the
double nearest to what they stand for. -/
theorem read_follows_grammar (s : String) :
    ((read s).isNaN = false ↔ Accepted (Text.trim s.toList)) ∧
      ∀ n, RadixNumeral (Text.trim s.toList) n →
        if n < 2 ^ 64 then Number.Nearest (read s) n else (read s).isNaN = true := by
  refine ⟨isNaN_readTrimmed_iff, fun n h => ?_⟩
  unfold read
  rw [readTrimmed_radix h]
  split
  · next hn => exact Number.nearest_ofNat hn
  · rfl

/-- Digits that stand for `2^64` are not read. -/
theorem digits_beyond_words_are_not_read : RadixNumeral "0x10000000000000000".toList (2 ^ 64) ∧
    (read "0x10000000000000000").isNaN = true := by
  refine ⟨@RadixNumeral.digits 'x' 16 [] "10000000000000000".toList rfl (.inl rfl) (by decide)
    (fun c hc => ?_), by decide +kernel⟩
  obtain rfl | rfl : c = '1' ∨ c = '0' := by simpa using hc
  · exact ⟨1, rfl, by decide⟩
  · exact ⟨0, rfl, by decide⟩

end BlockMachine.Numeral

import BlockMachine.Proofs.Number.Order

/-!
# Whole numbers in doubles

Rounding to 53 bits keeps whole numbers whole and takes none of them to zero
(`roundWithAccuracy_whole`). So natural numbers, and all numbers rounded to whole ones, are whole or
infinite in doubles (`isCount_ofNat`, `isCount_roundHalfUp`).
-/

namespace BlockMachine.Number

open Float.Model Float.Model.UnpackedFloat

variable {e f : Int} {s : Sign} {k m r n : Nat} {x : Float} {u : UnpackedFloat} {b : Binary}

/-! ## Rounding whole numbers -/

/-- A mantissa at an exponent at which it is a whole number. -/
def WholeAt (m : Nat) (e : Int) : Prop :=
  0 ≤ e ∨ 2 ^ (-e).toNat ∣ m

theorem shiftRight_mantissa (em : ExtendedMantissa) (k : Nat) :
    (em >>> k).mantissa = em.mantissa / 2 ^ k := by
  show (k.repeat ExtendedMantissa.shiftRightOne em).mantissa = _
  induction k with
  | zero => simp [Nat.repeat]
  | succ k ih =>
    rw [Nat.repeat, ExtendedMantissa.shiftRightOne, ih, Nat.div_div_eq_div_mul, Nat.pow_succ]

theorem shiftRight_exact (h : 2 ^ k ∣ m) :
    (⟨m, false, false⟩ : ExtendedMantissa) >>> k = ⟨m / 2 ^ k, false, false⟩ := by
  show k.repeat ExtendedMantissa.shiftRightOne _ = _
  induction k with
  | zero => simp [Nat.repeat]
  | succ k ih =>
    have hdvd : 2 ^ k ∣ m := Nat.dvd_trans (Nat.pow_dvd_pow 2 (Nat.le_succ k)) h
    obtain ⟨c, rfl⟩ := h
    have hq : 2 ^ (k + 1) * c / 2 ^ k = 2 * c := by
      rw [Nat.pow_succ, Nat.mul_assoc, Nat.mul_div_cancel_left _ (Nat.two_pow_pos k)]
    rw [Nat.repeat, ih hdvd, ExtendedMantissa.shiftRightOne, hq,
      Nat.mul_div_cancel_left _ (Nat.two_pow_pos _)]
    simp

theorem roundedMantissa_bounds (em : ExtendedMantissa) :
    em.mantissa ≤ em.roundedMantissa ∧ em.roundedMantissa ≤ em.mantissa + 1 := by
  obtain ⟨m, r, s⟩ := em
  cases r <;> cases s <;>
    simp [ExtendedMantissa.roundedMantissa, ExtendedMantissa.accuracy,
      Accuracy.roundToNearestEven] <;> omega

theorem log2_eq (h : 2 ^ k ≤ m) (h' : m < 2 ^ (k + 1)) : m.log2 = k := by
  have hne : m ≠ 0 := by
    have := Nat.two_pow_pos k
    omega
  have h₁ : k ≤ m.log2 := (Nat.le_log2 hne).mpr h
  have h₂ : m.log2 < k + 1 := (Nat.log2_lt hne).mpr h'
  omega

theorem WholeAt.shift (h : WholeAt m e) (k : Nat) : WholeAt (m * 2 ^ k) (e - k) := by
  by_cases hneg : 0 ≤ e - k
  · exact .inl hneg
  · refine .inr ?_
    by_cases he : 0 ≤ e
    · exact Nat.dvd_trans (Nat.pow_dvd_pow 2 (by omega)) (Nat.dvd_mul_left _ _)
    · have hsum : (-(e - k)).toNat = (-e).toNat + k := by omega
      rw [hsum, Nat.pow_add]
      exact Nat.mul_dvd_mul_right (h.resolve_left he) _

theorem WholeAt.total_pos (h : WholeAt m e) (hm : 0 < m) : 0 < totalExponent m e := by
  unfold totalExponent
  rcases h with h | h
  · omega
  · have hle := Nat.le_of_dvd hm h
    have := (Nat.le_log2 (by omega)).mpr hle
    omega

theorem targetExponent_of_normal {t : Int} (h : -1021 ≤ t) :
    Format.binary64.targetExponent t = t - 53 := by
  unfold Format.targetExponent
  have h₁ : ((Format.binary64.mantissaBits : Nat) : Int) = 53 := rfl
  have h₂ : Format.binary64.minExponent = -1074 := rfl
  omega

/-- A mantissa of 53 bits stays, one more is halved. -/
theorem shiftToTargetExponent_rounded (hlow : 2 ^ 52 ≤ r) (hhigh : r ≤ 2 ^ 53) (he : -1074 ≤ e) :
    (r < 2 ^ 53 ∧ shiftToTargetExponent .binary64 r e .exact = (⟨r, false, false⟩, e)) ∨
      (r = 2 ^ 53 ∧
        shiftToTargetExponent .binary64 r e .exact = (⟨2 ^ 52, false, false⟩, e + 1)) := by
  unfold shiftToTargetExponent shiftToExponent
  rcases Nat.lt_or_eq_of_le hhigh with hlt | rfl
  · refine .inl ⟨hlt, ?_⟩
    have htotal : totalExponent r e = 53 + e := by
      unfold totalExponent
      rw [log2_eq hlow hlt]
      omega
    have hshift : (53 + e - 53 - e).toNat = 0 := by omega
    simp only [htotal, targetExponent_of_normal (show -1021 ≤ 53 + e by omega), hshift,
      Int.ofNat_zero, Int.add_zero]
    rfl
  · refine .inr ⟨rfl, ?_⟩
    have htotal : totalExponent (2 ^ 53) e = 54 + e := by
      unfold totalExponent
      rw [Nat.log2_two_pow]
      omega
    have hshift : (54 + e - 53 - e).toNat = 1 := by omega
    simp only [htotal, targetExponent_of_normal (show -1021 ≤ 54 + e by omega), hshift]
    rfl

theorem roundWithAccuracy_eq {spec : Format} {e₁ e₂ : Int} {a : Accuracy}
    {em em' : ExtendedMantissa} (s : Sign) (h₁ : shiftToTargetExponent spec m e a = (em, e₁))
    (h₂ : shiftToTargetExponent spec em.roundedMantissa e₁ .exact = (em', e₂))
    (hpos : 0 < em'.mantissa) :
    roundWithAccuracy spec s m e a = .finite s em'.mantissa e₂ hpos := by
  unfold roundWithAccuracy
  rw [h₁]
  dsimp only
  rw [h₂]
  exact dif_neg (Nat.ne_of_gt hpos)

/-- Rounding to 53 bits rounds a mantissa where it is cut, and halves it if that takes one bit
more. -/
theorem roundWithAccuracy_normal (s : Sign) (hlog : m.log2 = 52 + k) (he : -1074 ≤ e + k)
    (hr : ((⟨m, false, false⟩ : ExtendedMantissa) >>> k).roundedMantissa = r) :
    ∃ hpos : 0 < r, 2 ^ 52 ≤ r ∧
      ((r < 2 ^ 53 ∧ roundWithAccuracy .binary64 s m e .exact = .finite s r (e + k) hpos) ∨
        (r = 2 ^ 53 ∧ roundWithAccuracy .binary64 s m e .exact =
          .finite s (2 ^ 52) (e + k + 1) (by decide))) := by
  have htarget : Format.binary64.targetExponent (totalExponent m e) = e + k := by
    unfold totalExponent
    rw [targetExponent_of_normal (by omega)]
    omega
  have hfirst : shiftToTargetExponent .binary64 m e .exact =
      ((⟨m, false, false⟩ : ExtendedMantissa) >>> k, e + k) := by
    unfold shiftToTargetExponent shiftToExponent
    simp only [htarget]
    have : (e + k - e).toNat = k := by omega
    rw [this]
    rfl
  have hne : m ≠ 0 := by
    rintro rfl
    rw [Nat.log2_zero] at hlog
    omega
  have hlow : 2 ^ 52 ≤ m / 2 ^ k := by
    rw [Nat.le_div_iff_mul_le (Nat.two_pow_pos k), ← Nat.pow_add, ← hlog]
    exact Nat.log2_self_le hne
  have hhigh : m / 2 ^ k < 2 ^ 53 := by
    rw [Nat.div_lt_iff_lt_mul (Nat.two_pow_pos k), ← Nat.pow_add]
    have := Nat.lt_log2_self (n := m)
    rwa [hlog, show 52 + k + 1 = 53 + k by omega] at this
  have hbounds := roundedMantissa_bounds ((⟨m, false, false⟩ : ExtendedMantissa) >>> k)
  rw [shiftRight_mantissa, hr] at hbounds
  have hr₁ : 2 ^ 52 ≤ r := Nat.le_trans hlow hbounds.1
  refine ⟨Nat.lt_of_lt_of_le (by decide) hr₁, hr₁, ?_⟩
  subst hr
  rcases shiftToTargetExponent_rounded hr₁ (Nat.le_trans hbounds.2 hhigh) he with
    ⟨hlt, hsecond⟩ | ⟨heq, hsecond⟩
  · exact .inl ⟨hlt, roundWithAccuracy_eq s hfirst hsecond _⟩
  · exact .inr ⟨heq, roundWithAccuracy_eq s hfirst hsecond _⟩

/-- A whole number of that sign, other than zero, with 53 bits. -/
def WholeNormal (s : Sign) (u : UnpackedFloat) : Prop :=
  ∃ m e h, u = .finite s m e h ∧ 2 ^ 52 ≤ m ∧ m < 2 ^ 53 ∧ -1074 ≤ e ∧ WholeAt m e

/-- Rounding to 53 bits keeps a whole number whole, and does not make it zero. -/
theorem roundWithAccuracy_whole (s : Sign) (hm : 2 ^ 52 ≤ m) (hw : WholeAt m e) :
    WholeNormal s (roundWithAccuracy .binary64 s m e .exact) := by
  have htotal := hw.total_pos (by omega)
  have hlog : 52 ≤ m.log2 := (Nat.le_log2 (by omega)).mpr hm
  obtain ⟨k, hk⟩ : ∃ k, m.log2 = 52 + k := ⟨m.log2 - 52, by omega⟩
  have he : -1074 ≤ e + k := by
    unfold totalExponent at htotal
    omega
  -- What is shifted out of a whole number below the point is zero.
  have hrw : WholeAt ((⟨m, false, false⟩ : ExtendedMantissa) >>> k).roundedMantissa (e + k) := by
    by_cases hneg : 0 ≤ e + k
    · exact .inl hneg
    · have hdvd : 2 ^ (-e).toNat ∣ m := hw.resolve_left (by omega)
      have hsplit : (-e).toNat = k + (-(e + k)).toNat := by omega
      rw [hsplit, Nat.pow_add] at hdvd
      rw [shiftRight_exact (Nat.dvd_trans (Nat.dvd_mul_right _ _) hdvd)]
      obtain ⟨c, rfl⟩ := hdvd
      refine .inr ?_
      show _ ∣ 2 ^ k * 2 ^ (-(e + k)).toNat * c / 2 ^ k
      rw [Nat.mul_assoc, Nat.mul_div_cancel_left _ (Nat.two_pow_pos k)]
      exact Nat.dvd_mul_right _ _
  obtain ⟨hpos, hr, ⟨hlt, hround⟩ | ⟨heq, hround⟩⟩ := roundWithAccuracy_normal s hk he rfl
  · exact ⟨_, _, hpos, hround, hr, hlt, he, hrw⟩
  · refine ⟨_, _, _, hround, Nat.le_refl _, by decide, by omega, ?_⟩
    rw [heq] at hrw
    rcases hrw with h | h
    · exact .inl (by omega)
    · have := (Nat.pow_dvd_pow_iff_le_right (by decide)).mp h
      exact .inr (Nat.pow_dvd_pow 2 (by omega))

theorem round_whole (s : Sign) (hpos : 0 < m) (hw : WholeAt m e) :
    WholeNormal s (round .binary64 s m e) := by
  have htotal := hw.total_pos hpos
  unfold UnpackedFloat.round decreaseExponent
  simp only [targetExponent_of_normal (show -1021 ≤ totalExponent m e by omega)]
  unfold totalExponent
  have hlog := Nat.log2_self_le (Nat.ne_of_gt hpos)
  by_cases hbits : 52 ≤ m.log2
  · have hshift : (e - (m.log2 + 1 + e - 53)).toNat = 0 := by omega
    simp only [hshift, Nat.shiftLeft_zero, Int.ofNat_zero, Int.sub_zero]
    exact roundWithAccuracy_whole s ((Nat.le_log2 (by omega)).mp hbits) hw
  · obtain ⟨k, hk⟩ : ∃ k, m.log2 + k = 52 := ⟨52 - m.log2, by omega⟩
    have hshift : (e - (m.log2 + 1 + e - 53)).toNat = k := by omega
    simp only [hshift, Nat.shiftLeft_eq]
    refine roundWithAccuracy_whole s ?_ ?_
    · calc 2 ^ 52 = 2 ^ m.log2 * 2 ^ k := by rw [← Nat.pow_add, hk]
        _ ≤ m * 2 ^ k := Nat.mul_le_mul_right _ hlog
    · exact hw.shift k

/-! ## Whole numbers in doubles -/

/-- Whole or infinite. -/
inductive Whole : UnpackedFloat → Prop
  | infinity (s : Sign) : Whole (.infinity s)
  | zero (s : Sign) : Whole (.zero s)
  | normal {s : Sign} {u : UnpackedFloat} (h : WholeNormal s u) : Whole u

theorem normalize_whole {m : Int} (s : Sign) (hw : WholeAt m.natAbs e) :
    m < 0 ∧ WholeNormal .negative (normalize .binary64 m e s) ∨
      m = 0 ∧ normalize .binary64 m e s = .zero s ∨
      0 < m ∧ WholeNormal .positive (normalize .binary64 m e s) := by
  unfold UnpackedFloat.normalize
  rcases Int.lt_trichotomy m 0 with h | rfl | h
  · have habs : (-m).toNat = m.natAbs := by omega
    rw [Int.compare_eq_lt.mpr h]
    dsimp only
    rw [habs]
    exact .inl ⟨h, round_whole _ (by omega) hw⟩
  · exact .inr (.inl ⟨rfl, rfl⟩)
  · have habs : m.toNat = m.natAbs := by omega
    rw [Int.compare_eq_gt.mpr h]
    dsimp only
    rw [habs]
    exact .inr (.inr ⟨h, round_whole _ (by omega) hw⟩)

theorem sign_packComponents (s : Sign) (e : BitVec 11) (m : BitVec 52) :
    Sign.ofBitVec (unpackSign (packComponents .binary64 s e m)) = s := by
  delta unpackSign
  unfold packComponents BitVec.extractLsb
  rw [BitVec.extractLsb'_append_eq_of_le (by decide),
    BitVec.extractLsb'_append_eq_of_le (by decide)]
  cases s <;> rfl

theorem biased_eq (e : Int) : (e + Format.binary64.exponentBias +
    Format.binary64.mantissaBitsWithoutImplicit).toNat = (e + 1075).toNat := by
  show (e + (2 ^ (11 - 1) - 1 : Nat) + (52 : Nat)).toNat = (e + 1075).toNat
  omega

theorem finite_congr {m' : Nat} {e' : Int} {h : 0 < m} {h' : 0 < m'} (hm : m = m') (he : e = e') :
    UnpackedFloat.finite s m e h = .finite s m' e' h' := by
  subst hm he
  rfl

/-- A number with 53 bits is put into a double as it is. -/
theorem repack_finite {hpos : 0 < m} (hlow : 2 ^ 52 ≤ m) (hhigh : m < 2 ^ 53) (hexp : -1074 ≤ e)
    (hrange : e < 972) : repack (.finite s m e hpos) = .finite s m e hpos := by
  generalize hu : UnpackedFloat.finite s m e hpos = u
  conv => lhs; rw [← hu]
  unfold repack UnpackedFloat.pack
  dsimp only
  rw [biased_eq, log2_eq hlow hhigh, if_neg (show ¬ 2 ^ 11 ≤ (e + 1075).toNat + 1 by omega)]
  have hfield : (BitVec.ofNat 11 (e + 1075).toNat).toNat = (e + 1075).toNat := by
    simp only [BitVec.toNat_ofNat]
    omega
  have hall : BitVec.ofNat 11 (e + 1075).toNat ≠ -1#11 := by
    intro h
    have : (e + 1075).toNat = 2047 := by rw [← hfield, h]; rfl
    omega
  have hnone : BitVec.ofNat 11 (e + 1075).toNat ≠ 0#11 := by
    intro h
    have : (e + 1075).toNat = 0 := by rw [← hfield, h]; rfl
    omega
  have hmantissa : (1#1 ++ BitVec.ofNat 52 m).toNat = m := by
    rw [BitVec.toNat_append, ← Nat.shiftLeft_add_eq_or_of_lt (BitVec.ofNat 52 m).isLt]
    simp [Nat.shiftLeft_eq]
    omega
  have hexponent : ((BitVec.ofNat 11 (e + 1075).toNat).toNat : Int) -
      (Format.binary64.exponentBias + Format.binary64.mantissaBitsWithoutImplicit) = e := by
    rw [hfield]
    show ((e + 1075).toNat : Int) - ((1023 : Nat) + (52 : Nat)) = e
    omega
  rw [if_pos (by decide)]
  obtain ⟨b, hb⟩ : ∃ b, b = packComponents .binary64 s (BitVec.ofNat 11 (e + 1075).toNat)
      (BitVec.ofNat 52 m) := ⟨_, rfl⟩
  have hm : unpackMantissa b = BitVec.ofNat 52 m := by rw [hb, unpackMantissa_packComponents]
  have he : unpackExponent b = BitVec.ofNat 11 (e + 1075).toNat := by
    rw [hb, unpackExponent_packComponents]
  have hs : Sign.ofBitVec (unpackSign b) = s := by rw [hb, sign_packComponents]
  rw [← hb]
  unfold UnpackedFloat.unpack
  dsimp only
  rw [he, if_neg hall, if_neg hnone, hs, ← hu]
  exact finite_congr (by rw [hm, hmantissa]) hexponent

/-- A whole number with 53 bits is put into a double as it is, or is out of range. -/
theorem repack_normal (h : WholeNormal s u) :
    repack u = .infinity s ∨ WholeNormal s (repack u) := by
  obtain ⟨m, e, hpos, rfl, hlow, hhigh, hexp, hw⟩ := h
  by_cases hrange : e < 972
  · rw [repack_finite hlow hhigh hexp hrange]
    exact .inr ⟨m, e, hpos, rfl, hlow, hhigh, hexp, hw⟩
  · left
    unfold repack UnpackedFloat.pack
    dsimp only
    rw [biased_eq, log2_eq hlow hhigh, if_pos (show 2 ^ 11 ≤ (e + 1075).toNat + 1 by omega)]
    cases s <;> rfl

theorem Whole.repack (h : Whole u) : Whole (repack u) := by
  cases h with
  | infinity s => cases s <;> exact .infinity _
  | zero s => cases s <;> exact .zero _
  | normal h =>
    rcases repack_normal h with h | h
    · exact h ▸ .infinity _
    · exact .normal h

theorem Whole.neg (h : Whole u) : Whole u.neg := by
  cases h with
  | infinity s => exact .infinity _
  | zero s => exact .zero _
  | normal h =>
    obtain ⟨m, e, hpos, rfl, hm⟩ := h
    exact .normal ⟨m, e, hpos, rfl, hm⟩

/-- Counts are whole or infinite numbers. -/
def IsCount (x : Float) : Prop :=
  Whole (parts x)

/-- The parts of one. -/
def one : UnpackedFloat :=
  .finite .positive (2 ^ 52) (-52) (by decide)

theorem mul_finite {t : Sign} {hm : 0 < m} {hn : 0 < n} :
    mul .binary64 (.finite s m e hm) (.finite t n f hn) =
      roundWithAccuracy .binary64 (s * t) (m * n) (e + f) .exact :=
  rfl

/-- How a double is read as a binary number, told by its parts. -/
inductive Reads : Option Binary → UnpackedFloat → Prop
  | notANumber : Reads none .notANumber
  | infinity (s : Sign) : Reads none (.infinity s)
  | zero {b : Binary} (s : Sign) (hzero : b.significand = 0) : Reads (some b) (.zero s)
  | finite {b : Binary} {s : Sign} (hsign : s = if b.negative then .negative else .positive)
      (hpos : 0 < b.significand) (hbits : b.significand < 2 ^ 53) (hexp : -1074 ≤ b.exponent)
      (hnormal : 2 ^ 52 ≤ b.significand ∨ b.exponent = -1074) :
      Reads (some b) (.finite s b.significand b.exponent hpos)

theorem reads (x : Float) : Reads (Binary.ofFloat? x) (parts x) := by
  have hform := form x
  unfold Binary.ofFloat?
  dsimp only
  generalize x.toBits.toNat = bits at hform
  generalize parts x = u at hform
  have hsign : signOf bits = if (bits / 2 ^ 63 == 1) = true then .negative else .positive := by
    simp only [signOf, beq_iff_eq]
  cases hform with
  | notANumber he hf =>
    rw [he]
    exact .notANumber
  | infinity he hf =>
    rw [he]
    exact .infinity _
  | zero he hf =>
    rw [he]
    exact .zero _ hf
  | subnormal he hm hexp hpos =>
    rw [he]
    subst hm hexp
    exact .finite (b := ⟨_, _, _⟩) hsign hpos (by dsimp only; omega) (Int.le_refl _) (.inr rfl)
  | normal he he' hm hexp hpos =>
    rw [if_neg (by simp only [beq_iff_eq]; omega), if_neg (by simp only [beq_iff_eq]; omega)]
    subst hm hexp
    exact .finite (b := ⟨_, _, _⟩) hsign hpos (by dsimp only; omega) (by dsimp only; omega)
      (.inl (by dsimp only; omega))

theorem Binary.wholeAt (h : b.isWhole = true) : WholeAt b.significand b.exponent := by
  unfold Binary.isWhole at h
  rcases Bool.or_eq_true_iff.mp h with h | h
  · exact .inl (of_decide_eq_true h)
  · exact .inr (Nat.dvd_of_mod_eq_zero (beq_iff_eq.mp h))

/-- A double that reads as a whole number other than zero has 53 bits. -/
theorem Reads.wholeNormal (h : Reads (some b) u) (hw : b.isWhole = true) (hne : b.significand ≠ 0) :
    ∃ s, WholeNormal s u := by
  cases h with
  | zero s hzero => exact absurd hzero hne
  | finite hsign hpos hbits hexp hnormal =>
    have hw := Binary.wholeAt hw
    refine ⟨_, _, _, hpos, rfl, Decidable.byContradiction fun hlow => ?_, hbits, hexp, hw⟩
    -- A subnormal double lies between zero and one.
    have htotal := hw.total_pos hpos
    have hlog : b.significand.log2 < 52 := (Nat.log2_lt hne).mpr (Nat.lt_of_not_le hlow)
    rw [hnormal.resolve_left hlow] at htotal
    unfold totalExponent at htotal
    omega

theorem isCount_of_ofFloat? (hx : x.isNaN = false) (h : ∀ b, Binary.ofFloat? x = some b →
    b.isWhole = true) :
    IsCount x := by
  have hreads := reads x
  have hparts := parts_ne_of_isNaN hx
  unfold IsCount
  cases hb : Binary.ofFloat? x with
  | none =>
    rw [hb] at hreads
    generalize parts x = u at hreads hparts
    cases hreads with
    | notANumber => exact absurd rfl hparts
    | infinity s => exact .infinity s
  | some b =>
    rw [hb] at hreads
    by_cases hne : b.significand = 0
    · generalize parts x = u at hreads
      cases hreads with
      | zero s => exact .zero s
      | finite hsign hpos => omega
    · obtain ⟨s, hs⟩ := hreads.wholeNormal (h b hb) hne
      exact .normal hs

theorem WholeAt.mul (h : WholeAt m e) (h' : WholeAt n f) : WholeAt (m * n) (e + f) := by
  by_cases hneg : 0 ≤ e + f
  · exact .inl hneg
  · refine .inr (Nat.dvd_trans (Nat.pow_dvd_pow 2 (show _ ≤ (-e).toNat + (-f).toNat by omega)) ?_)
    rw [Nat.pow_add]
    have hdvd : ∀ {m : Nat} {e : Int}, WholeAt m e → 2 ^ (-e).toNat ∣ m := by
      rintro m e (h | h)
      · rw [show (-e).toNat = 0 by omega]
        exact Nat.one_dvd m
      · exact h
    exact Nat.mul_dvd_mul (hdvd h) (hdvd h')

theorem Whole.mul {v : UnpackedFloat} (h : Whole u) (h' : WholeNormal s v) :
    Whole (UnpackedFloat.mul .binary64 u v) := by
  obtain ⟨n, f, hn, rfl, hlow', -, -, hw'⟩ := h'
  cases h with
  | infinity s => exact .infinity _
  | zero s => exact .zero _
  | normal h =>
    obtain ⟨m, e, hpos, rfl, hlow, -, -, hw⟩ := h
    exact .normal (roundWithAccuracy_whole _ (Nat.le_trans hlow (Nat.le_mul_of_pos_right m hn))
      (hw.mul hw'))

/-- The powers of ten that a double has exactly are whole. -/
theorem wholeNormal_power (h : x ∈ Float.exactlyRepresentablePowersOfTen) :
    ∃ s, WholeNormal s (parts x) := by
  have hall : ∀ x ∈ Float.exactlyRepresentablePowersOfTen.toList,
      (Binary.ofFloat? x).any (fun b => b.isWhole && b.significand != 0) = true := by decide +kernel
  obtain ⟨b, hb, hwhole⟩ := (Option.any_eq_true _ _).mp (hall x (Array.mem_toList_iff.mpr h))
  rw [Bool.and_eq_true, bne_iff_ne] at hwhole
  exact Reads.wholeNormal (hb ▸ reads x) hwhole.1 hwhole.2

/-- A natural number at a power of ten is whole, or out of range. -/
theorem isCount_ofScientific (n e : Nat) : IsCount (Float.ofScientific n false e) := by
  unfold Float.ofScientific
  split
  · rename_i hn
    have hnat : Whole (ofNat .binary64 n.toUInt64.toNat) := by
      rcases normalize_whole (m := n.toUInt64.toNat) (e := 0) .positive (.inl (by decide)) with
        ⟨-, h⟩ | ⟨-, h⟩ | ⟨-, h⟩
      · exact .normal h
      · show Whole (normalize _ _ _ _)
        exact h ▸ .zero _
      · exact .normal h
    obtain ⟨s, hpower⟩ := wholeNormal_power (Array.getElem_mem (show e < 23 by omega))
    dsimp only
    rw [if_neg (by decide)]
    exact (hnat.repack.mul hpower).repack
  · refine Whole.repack (u := UnpackedFloat.ofScientific .binary64 n e) ?_
    unfold UnpackedFloat.ofScientific
    by_cases hn : n = 0
    · rw [dif_pos hn]
      exact .zero _
    · rw [dif_neg hn]
      by_cases he : (e : Int) > 2 ^ Format.binary64.exponentBits
      · rw [if_pos he]
        exact .infinity _
      · have hbits : Format.binary64.mantissaBits = 53 := rfl
        rw [if_neg he, if_neg (by omega), if_pos (by omega), mul_finite, Nat.shiftLeft_eq, hbits]
        have hpower : 0 < 10 ^ (e : Int).toNat := Nat.pow_pos (by decide)
        have hw : WholeAt (n * 2 ^ 53) (-53) := .inr (Nat.dvd_mul_left _ _)
        refine .normal (roundWithAccuracy_whole _ ?_ (hw.mul (.inl (Int.le_refl 0))))
        exact Nat.le_trans (by omega) (Nat.le_mul_of_pos_right (n * 2 ^ 53) hpower)

theorem isCount_ofNat (n : Nat) : IsCount (Float.ofNat n) :=
  isCount_ofScientific n 0

theorem isCount_ofInt (k : Int) : IsCount (Float.ofInt k) := by
  cases k with
  | ofNat n => exact isCount_ofNat n
  | negSucc n => exact (isCount_ofNat (n + 1)).neg.repack

theorem isCount_isNaN (h : IsCount x) : x.isNaN = false := by
  refine isNaN_of_parts fun hx => ?_
  unfold IsCount at h
  rw [hx] at h
  cases h with
  | normal h =>
    obtain ⟨m, e, hpos, hu, -⟩ := h
    cases hu

theorem isCount_floor (h : x.isNaN = false) : IsCount (floor x) := by
  unfold floor
  cases hx : Binary.ofFloat? x with
  | none => exact isCount_of_ofFloat? h fun b hb => nomatch hx ▸ hb
  | some b =>
    dsimp only
    split
    · rename_i hb
      refine isCount_of_ofFloat? h fun b' hb' => ?_
      rw [hx] at hb'
      cases hb'
      exact hb
    · exact isCount_ofInt _

theorem isCount_roundHalfUp (h : x.isNaN = false) : IsCount (roundHalfUp x) :=
  isCount_floor (isNaN_add h rfl)

end BlockMachine.Number

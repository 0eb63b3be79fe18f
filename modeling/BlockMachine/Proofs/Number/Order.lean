import BlockMachine.Operator

/-!
# The order of doubles

A double is taken apart into a sign, a mantissa and an exponent (`parts`), and its bits say which
(`form`). The place of its bits among the integers, `Number.rank?`, gives the order of the doubles
(`Ranked.compare`), so numbers compare alike as numbers and as values
(`Comparison.applyNumbers_eq`). Only NaN has no place; a sum with a finite number is never NaN
(`isNaN_add`).
-/

namespace BlockMachine.Number

open Float.Model Float.Model.UnpackedFloat

variable {x : Float} {k k' : Int}

/-! ## Parts -/

/-- The sign, mantissa and exponent of a double. -/
def parts (x : Float) : UnpackedFloat :=
  x.toModel.unpack

/-- The parts of a double that is put together and taken apart again. -/
def repack (u : UnpackedFloat) : UnpackedFloat :=
  UnpackedFloat.unpack .binary64 (UnpackedFloat.pack .binary64 u)

/-- The sign bit. -/
def signOf (bits : Nat) : Sign :=
  if bits / 2 ^ 63 = 1 then .negative else .positive

/-- What the exponent field and the fraction field of the bits mean. -/
inductive Form (bits : Nat) : UnpackedFloat → Prop
  | notANumber (he : bits / 2 ^ 52 % 2048 = 2047) (hf : 0 < bits % 2 ^ 52) : Form bits .notANumber
  | infinity (he : bits / 2 ^ 52 % 2048 = 2047) (hf : bits % 2 ^ 52 = 0) :
      Form bits (.infinity (signOf bits))
  | zero (he : bits / 2 ^ 52 % 2048 = 0) (hf : bits % 2 ^ 52 = 0) : Form bits (.zero (signOf bits))
  | subnormal {m : Nat} {e : Int} (he : bits / 2 ^ 52 % 2048 = 0) (hm : m = bits % 2 ^ 52)
      (hexp : e = -1074) (hpos : 0 < m) : Form bits (.finite (signOf bits) m e hpos)
  | normal {m : Nat} {e : Int} (he : 0 < bits / 2 ^ 52 % 2048)
      (he' : bits / 2 ^ 52 % 2048 < 2047) (hm : m = bits % 2 ^ 52 + 2 ^ 52)
      (hexp : e = (bits / 2 ^ 52 % 2048 : Nat) - 1075) (hpos : 0 < m) :
      Form bits (.finite (signOf bits) m e hpos)

theorem form_unpack (b : BitVec Format.binary64.numBits) :
    Form b.toNat (UnpackedFloat.unpack .binary64 b) := by
  have hm : (unpackMantissa b).toNat = b.toNat % 2 ^ 52 := by
    simp [unpackMantissa]
  have he : (unpackExponent b).toNat = b.toNat / 2 ^ 52 % 2048 := by
    simp [unpackExponent, Nat.shiftRight_eq_div_pow]
  have hlt : b.toNat < 2 ^ 64 := b.isLt
  have hs : Sign.ofBitVec (unpackSign b) = signOf b.toNat := by
    have : (unpackSign b).toNat = b.toNat / 2 ^ 63 := by
      delta unpackSign
      simp [Nat.shiftRight_eq_div_pow]
      omega
    unfold Sign.ofBitVec signOf
    by_cases h : b.toNat / 2 ^ 63 = 1
    · rw [if_pos h, if_neg]
      intro h0
      simp [h0] at this
      omega
    · rw [if_neg h, if_pos]
      apply BitVec.eq_of_toNat_eq
      rw [this]
      simp
      omega
  have happ : (1#1 ++ unpackMantissa b).toNat = b.toNat % 2 ^ 52 + 2 ^ 52 := by
    rw [BitVec.toNat_append, ← Nat.shiftLeft_add_eq_or_of_lt (unpackMantissa b).isLt, hm]
    simp [Nat.shiftLeft_eq]
    omega
  have hbias : ((Format.binary64.exponentBias : Nat) : Int) = 1023 := rfl
  have hbits : ((Format.binary64.mantissaBitsWithoutImplicit : Nat) : Int) = 52 := rfl
  have hall : unpackExponent b = -1#_ ↔ b.toNat / 2 ^ 52 % 2048 = 2047 := by
    rw [← BitVec.toNat_inj, he]
    rfl
  have hnone : unpackExponent b = 0#_ ↔ b.toNat / 2 ^ 52 % 2048 = 0 := by
    rw [← BitVec.toNat_inj, he]
    rfl
  have hzero : unpackMantissa b = 0#_ ↔ b.toNat % 2 ^ 52 = 0 := by
    rw [← BitVec.toNat_inj, hm]
    rfl
  unfold UnpackedFloat.unpack
  dsimp only
  rw [hs]
  by_cases h : unpackExponent b = -1#_
  · rw [if_pos h]
    by_cases h0 : unpackMantissa b = 0#_
    · rw [if_pos h0]
      exact .infinity (hall.mp h) (hzero.mp h0)
    · rw [if_neg h0]
      exact .notANumber (hall.mp h) (Nat.pos_of_ne_zero fun hm0 => h0 (hzero.mpr hm0))
  · rw [if_neg h]
    by_cases h' : unpackExponent b = 0#_
    · rw [if_pos h']
      by_cases h0 : unpackMantissa b = 0#_
      · rw [dif_pos h0]
        exact .zero (hnone.mp h') (hzero.mp h0)
      · rw [dif_neg h0]
        exact .subnormal (hnone.mp h') hm (by rw [he, hbias, hbits, hnone.mp h']; rfl) _
    · rw [if_neg h']
      have hne := mt hall.mpr h
      have hne' := mt hnone.mpr h'
      exact .normal (by omega) (by omega) happ (by rw [he, hbias, hbits]; omega) _

theorem form (x : Float) : Form x.toBits.toNat (parts x) :=
  form_unpack _

theorem isNaN_iff (x : Float) : x.isNaN = true ↔ parts x = .notANumber := by
  show (parts x).isNaN = true ↔ _
  cases parts x with
  | notANumber => exact ⟨fun _ => rfl, fun _ => rfl⟩
  | _ => exact ⟨fun h => (by cases h), fun h => by cases h⟩

/-! ## Ranks -/

/-- NaN alone has no rank. -/
theorem rank?_isNone (x : Float) : (rank? x).isNone = x.isNaN := by
  have hform := form x
  have hNaN := isNaN_iff x
  have hlt : x.toBits.toNat < 2 ^ 64 := x.toBits.toNat_lt
  unfold rank?
  dsimp only
  generalize x.toBits.toNat = bits at hform hlt ⊢
  generalize parts x = u at hform hNaN
  cases hform with
  | notANumber he hf =>
    rw [hNaN.mpr rfl, if_pos (by omega)]
    rfl
  | _ =>
    rw [if_neg (by omega)]
    have : x.isNaN = false := Bool.eq_false_iff.mpr fun h => by cases hNaN.mp h
    rw [this]
    split <;> rfl

/-- Mantissas of one position are compared by exponent first. -/
theorem compare_then {e e' : Int} {m m' k k' : Nat} (hlt : k < k' ↔ e < e' ∨ e = e' ∧ m < m')
    (heq : k = k' ↔ e = e' ∧ m = m') :
    (compare e e').then (compare m m') = compareOfLessAndEq k k' := by
  unfold compareOfLessAndEq
  rcases Int.lt_trichotomy e e' with h | rfl | h
  · rw [if_pos (hlt.mpr (.inl h)), Int.compare_eq_lt.mpr h]
    rfl
  · rw [Int.compare_eq_eq.mpr rfl]
    simp only [hlt, heq, Int.lt_irrefl, true_and, false_or]
    rfl
  · have h₁ : ¬ k < k' := by rw [hlt]; omega
    have h₂ : ¬ k = k' := by rw [heq]; omega
    rw [if_neg h₁, if_neg h₂, Int.compare_eq_gt.mpr h]
    rfl

/-- How a rank splits into a mantissa and an exponent. -/
def Splits (rank : Nat) (m : Nat) (e : Int) : Prop :=
  rank < 2 ^ 52 ∧ m = rank ∧ e = -1074 ∨
    2 ^ 52 ≤ rank ∧ m = rank % 2 ^ 52 + 2 ^ 52 ∧ e = (rank / 2 ^ 52 : Nat) - 1075

/-- A ranked double is infinite, zero, or has a mantissa and an exponent. -/
inductive Ranked : Int → UnpackedFloat → Prop
  | infinity (s : Sign) : Ranked (s.apply (2047 * 2 ^ 52)) (.infinity s)
  | zero (s : Sign) : Ranked 0 (.zero s)
  | finite (s : Sign) {rank m : Nat} {e : Int} (hrank : rank < 2047 * 2 ^ 52)
      (hsplit : Splits rank m e) (hpos : 0 < m) : Ranked (s.apply rank) (.finite s m e hpos)

theorem ranked_of_rank? (h : rank? x = some k) : Ranked k (parts x) := by
  have hform := form x
  have hlt : x.toBits.toNat < 2 ^ 64 := x.toBits.toNat_lt
  unfold rank? at h
  dsimp only at h
  generalize x.toBits.toNat = bits at hform hlt h
  generalize parts x = u at hform
  have hk : k = (signOf bits).apply (bits % 2 ^ 63 : Nat) := by
    unfold signOf
    by_cases hs : bits / 2 ^ 63 = 1
    · simp only [hs, beq_self_eq_true, if_true] at h ⊢
      split at h <;> simp_all [Sign.apply]
    · have hs' : (bits / 2 ^ 63 == 1) = false := by simpa using hs
      simp only [hs', hs, if_false] at h ⊢
      split at h <;> simp_all [Sign.apply]
  subst hk
  cases hform with
  | notANumber he hf =>
    rw [if_pos (by omega)] at h
    cases h
  | infinity he hf =>
    have : (bits % 2 ^ 63 : Nat) = 2047 * 2 ^ 52 := by omega
    rw [this]
    exact .infinity _
  | zero he hf =>
    have : (bits % 2 ^ 63 : Nat) = 0 := by omega
    rw [this]
    cases signOf bits <;> exact .zero _
  | subnormal he hm hexp hpos =>
    exact .finite _ (by omega) (.inl ⟨by omega, by omega, hexp⟩) hpos
  | normal he he' hm hexp hpos =>
    exact .finite _ (by omega) (.inr ⟨by omega, by omega, by omega⟩) hpos

theorem Splits.compare {rank rank' m m' : Nat} {e e' : Int} (h : Splits rank m e)
    (h' : Splits rank' m' e') :
    (compare e e').then (compare m m') = compareOfLessAndEq rank rank' := by
  unfold Splits at h h'
  exact compare_then (by omega) (by omega)

theorem compareOfLessAndEq_cast (a b : Nat) :
    compareOfLessAndEq (a : Int) (b : Int) = compareOfLessAndEq a b := by
  unfold compareOfLessAndEq
  simp only [Int.ofNat_lt, Int.ofNat_inj]

theorem compareOfLessAndEq_neg (a b : Nat) :
    compareOfLessAndEq (-(a : Int)) (-(b : Int)) = (compareOfLessAndEq a b).swap := by
  unfold compareOfLessAndEq
  rcases Nat.lt_trichotomy a b with h | rfl | h
  · rw [if_neg (by omega), if_neg (by omega), if_pos h]
    rfl
  · simp
  · rw [if_pos (by omega), if_neg (by omega), if_neg (by omega)]
    rfl

theorem compareOfLessAndEq_lt (h : k < k') : compareOfLessAndEq k k' = .lt :=
  if_pos h

theorem compareOfLessAndEq_gt (h : k' < k) : compareOfLessAndEq k k' = .gt := by
  unfold compareOfLessAndEq
  rw [if_neg (by omega), if_neg (by omega)]

/-- The order of two doubles is the order of their ranks. -/
theorem Ranked.compare {u v : UnpackedFloat} (h : Ranked k u) (h' : Ranked k' v) :
    u.compare v = some (compareOfLessAndEq k k') := by
  have hpos {rank m : Nat} {e : Int} (hs : Splits rank m e) (hm : 0 < m) : 0 < rank := by
    unfold Splits at hs
    omega
  -- Two finite numbers of one sign are compared by their parts, all others by sign and size.
  cases h with
  | infinity s =>
    cases h' with
    | infinity s' => cases s <;> cases s' <;> rfl
    | zero s' => cases s <;> rfl
    | @finite s' rank m e hr hs hm =>
      have hrank : s'.apply rank < 2047 * 2 ^ 52 ∧ -(2047 * 2 ^ 52) < s'.apply rank := by
        cases s' <;> simp only [Sign.apply] <;> omega
      cases s
      · exact congrArg some (compareOfLessAndEq_lt hrank.2).symm
      · exact congrArg some (compareOfLessAndEq_gt hrank.1).symm
  | zero s =>
    cases h' with
    | infinity s' => cases s' <;> rfl
    | zero s' => rfl
    | @finite s' rank m e hr hs hm =>
      have := hpos hs hm
      cases s'
      · exact congrArg some (compareOfLessAndEq_gt (by simp only [Sign.apply]; omega)).symm
      · exact congrArg some (compareOfLessAndEq_lt (by simp only [Sign.apply]; omega)).symm
  | @finite s rank m e hr hs hm =>
    have := hpos hs hm
    cases h' with
    | infinity s' =>
      have hrank : s.apply rank < 2047 * 2 ^ 52 ∧ -(2047 * 2 ^ 52) < s.apply rank := by
        cases s <;> simp only [Sign.apply] <;> omega
      cases s'
      · exact congrArg some (compareOfLessAndEq_gt hrank.2).symm
      · exact congrArg some (compareOfLessAndEq_lt hrank.1).symm
    | zero s' =>
      cases s
      · exact congrArg some (compareOfLessAndEq_lt (by simp only [Sign.apply]; omega)).symm
      · exact congrArg some (compareOfLessAndEq_gt (by simp only [Sign.apply]; omega)).symm
    | @finite s' rank' m' e' hr' hs' hm' =>
      have := hpos hs' hm'
      cases s <;> cases s'
      · exact congrArg some
          ((congrArg Ordering.swap (hs.compare hs')).trans (compareOfLessAndEq_neg _ _).symm)
      · exact congrArg some (compareOfLessAndEq_lt (by simp only [Sign.apply]; omega)).symm
      · exact congrArg some (compareOfLessAndEq_gt (by simp only [Sign.apply]; omega)).symm
      · exact congrArg some ((hs.compare hs').trans (compareOfLessAndEq_cast _ _).symm)

theorem exists_rank (h : x.isNaN = false) : ∃ k, rank? x = some k := by
  rw [← rank?_isNone] at h
  exact Option.isSome_iff_exists.mp (by simpa using h)

theorem lt_iff (x y : Float) : x < y ↔ (parts x).compare (parts y) = some .lt := by
  show decide (UnpackedFloat.lt (parts x) (parts y) = true) = true ↔ _
  simp [UnpackedFloat.lt]

/-! ## Results that are numbers -/

theorem repack_ne_notANumber {u : UnpackedFloat} (h : u ≠ .notANumber) :
    repack u ≠ .notANumber := by
  -- Only the bits of NaN have all exponent bits set and a mantissa.
  have hunpack (b : BitVec Format.binary64.numBits)
      (hb : unpackExponent b = -1#_ → unpackMantissa b = 0#_) :
      UnpackedFloat.unpack .binary64 b ≠ .notANumber := by
    unfold UnpackedFloat.unpack
    dsimp only
    by_cases he : unpackExponent b = -1#_
    · rw [if_pos he, if_pos (hb he)]
      exact fun h => by cases h
    · rw [if_neg he]
      by_cases he' : unpackExponent b = 0#_
      · rw [if_pos he']
        by_cases hm : unpackMantissa b = 0#_
        · rw [dif_pos hm]
          exact fun h => by cases h
        · rw [dif_neg hm]
          exact fun h => by cases h
      · rw [if_neg he']
        exact fun h => by cases h
  refine hunpack _ fun he => ?_
  unfold UnpackedFloat.pack at he ⊢
  cases u with
  | notANumber => exact absurd rfl h
  | infinity s => simp [packedInfinity]
  | zero s => simp [packedZero] at he
  | finite s m e hpos =>
    dsimp only at he ⊢
    split
    · simp [packedInfinity]
    · rename_i hbig
      rw [if_neg hbig] at he
      split
      · rename_i hlog
        rw [if_pos hlog, unpackExponent_packComponents] at he
        have := congrArg BitVec.toNat he
        simp [BitVec.toNat_ofNat] at this
        omega
      · rename_i hlog
        rw [if_neg hlog, unpackExponent_packComponents] at he
        simp at he

theorem isNaN_of_parts (h : parts x ≠ .notANumber) : x.isNaN = false := by
  simpa using mt (isNaN_iff x).mp h

theorem parts_ne_of_isNaN (h : x.isNaN = false) : parts x ≠ .notANumber := by
  intro hx
  rw [(isNaN_iff x).mpr hx] at h
  cases h

theorem roundWithAccuracy_ne_notANumber (s : Sign) (m : Nat) (e : Int) (a : Accuracy) :
    roundWithAccuracy .binary64 s m e a ≠ .notANumber := by
  have hmantissa : ∀ (m : Nat) (e : Int),
      (if h : m = 0 then zero s else .finite s m e (Nat.pos_of_ne_zero h)) ≠ .notANumber := by
    intro m e
    by_cases h : m = 0
    · rw [dif_pos h]
      exact fun h => by cases h
    · rw [dif_neg h]
      exact fun h => by cases h
  unfold roundWithAccuracy
  exact hmantissa _ _

theorem normalize_ne_notANumber (m e : Int) (s : Sign) :
    normalize .binary64 m e s ≠ .notANumber := by
  unfold UnpackedFloat.normalize
  split
  · exact roundWithAccuracy_ne_notANumber _ _ _ _
  · simp
  · exact roundWithAccuracy_ne_notANumber _ _ _ _

/-- Adding a finite number to a number gives a number. -/
theorem isNaN_add {y : Float} (hx : x.isNaN = false) (hy : y.isFinite = true) :
    (x + y).isNaN = false := by
  have hx' := parts_ne_of_isNaN hx
  have hy' : (parts y).isFinite = true := hy
  refine isNaN_of_parts (repack_ne_notANumber (u := add .binary64 (parts x) (parts y)) ?_)
  generalize parts x = u at hx'
  generalize parts y = v at hy'
  cases v with
  | notANumber => cases hy'
  | infinity s => cases hy'
  | zero s =>
    cases u with
    | notANumber => exact absurd rfl hx'
    | zero s' =>
      show (if s' == s then zero s' else zero .positive) ≠ _
      split <;> simp
    | _ => exact fun h => by cases h
  | finite s m e hm =>
    cases u with
    | notANumber => exact absurd rfl hx'
    | finite s' m' e' hm' => exact normalize_ne_notANumber _ _ _
    | _ => exact fun h => by cases h

/-- A finite number less itself is zero. -/
theorem sub_self_of_isFinite (hx : x.isFinite = true) : x - x = 0 := by
  have hx' : (parts x).isFinite = true := hx
  have hparts : UnpackedFloat.sub .binary64 (parts x) (parts x) = .zero .positive := by
    generalize parts x = u at hx'
    cases u with
    | notANumber => cases hx'
    | infinity s => cases hx'
    | zero s => cases s <;> rfl
    | finite s m e hm =>
      unfold UnpackedFloat.sub
      dsimp only
      rw [Int.sub_self]
      rfl
  show (⟨Float.Model.pack (UnpackedFloat.sub .binary64 (parts x) (parts x))⟩ : Float) = 0
  rw [hparts]
  rfl

theorem compare_notANumber (u : UnpackedFloat) :
    UnpackedFloat.compare .notANumber u = none ∧ u.compare .notANumber = none := by
  cases u <;> exact ⟨rfl, rfl⟩

/-- Numbers are equal if they have the same place; NaN is equal to nothing. -/
theorem beq_iff (x y : Float) : (x == y) = true ↔ ∃ k, rank? x = some k ∧ rank? y = some k := by
  have hcompare : (x == y) = ((parts x).compare (parts y) == some .eq) := rfl
  rw [hcompare, beq_iff_eq]
  cases hx : rank? x with
  | none =>
    have hnan : parts x = .notANumber := (isNaN_iff x).mp (by rw [← rank?_isNone, hx]; rfl)
    rw [hnan, (compare_notANumber _).1]
    simp
  | some k =>
    cases hy : rank? y with
    | none =>
      have hnan : parts y = .notANumber := (isNaN_iff y).mp (by rw [← rank?_isNone, hy]; rfl)
      rw [hnan, (compare_notANumber _).2]
      simp
    | some k' =>
      rw [(ranked_of_rank? hx).compare (ranked_of_rank? hy), Option.some.injEq]
      rcases Int.lt_trichotomy k k' with h | rfl | h
      · rw [compareOfLessAndEq_lt h]
        simp [(Int.ne_of_lt h).symm]
      · unfold compareOfLessAndEq
        rw [if_neg (Int.lt_irrefl k), if_pos rfl]
        simp
      · rw [compareOfLessAndEq_gt h]
        simp [Int.ne_of_lt h]

end BlockMachine.Number

namespace BlockMachine

open Number in
/-- Numbers are compared as such or as values, with the same answer. -/
theorem Comparison.applyNumbers_eq (op : Comparison) {x y : Float} (hx : x.isNaN = false)
    (hy : y.isNaN = false) : op.applyNumbers x y = op.apply (.number x) (.number y) := by
  obtain ⟨k, hk⟩ := exists_rank hx
  obtain ⟨k', hk'⟩ := exists_rank hy
  have hcompare : Value.compare? (.number x) (.number y) = some (compareOfLessAndEq k k') := by
    have hrank : Value.rank? (.number x) = some k := hk
    have hrank' : Value.rank? (.number y) = some k' := hk'
    rw [Value.compare?, Value.isWordy, Value.isWordy, hrank, hrank']
    rfl
  have hparts := (ranked_of_rank? hk).compare (ranked_of_rank? hk')
  have hparts' := (ranked_of_rank? hk').compare (ranked_of_rank? hk)
  cases op with
  | less =>
    show decide (x < y) = _
    rw [Comparison.apply, Value.less, hcompare, Bool.beq_eq_decide_eq]
    exact decide_eq_decide.mpr ((lt_iff x y).trans (by rw [hparts]))
  | greater =>
    show decide (y < x) = _
    rw [Comparison.apply, Value.greater, hcompare, Bool.beq_eq_decide_eq]
    refine decide_eq_decide.mpr ((lt_iff y x).trans ?_)
    rw [hparts']
    rcases Int.lt_trichotomy k k' with h | rfl | h
    · rw [compareOfLessAndEq_lt h, compareOfLessAndEq_gt h]
      decide
    · unfold compareOfLessAndEq
      rw [if_neg (Int.lt_irrefl k), if_pos rfl]
      decide
    · rw [compareOfLessAndEq_lt h, compareOfLessAndEq_gt h]
      decide
  | equals =>
    show ((parts x).compare (parts y) == some .eq) = _
    rw [hparts, Comparison.apply, Value.equals, hcompare]

/-- Values that are equal are equal to the same values. -/
theorem Value.beq_congr {v w : Value} (h : (v == w) = true) (u : Value) : (v == u) = (w == u) := by
  cases v with
  | bool a =>
    cases w with
    | bool b => rw [eq_of_beq (show (a == b) = true from h)]
    | _ => cases h
  | text s =>
    cases w with
    | text t => rw [eq_of_beq (show (s == t) = true from h)]
    | _ => cases h
  | number x =>
    cases w with
    | number y =>
      obtain ⟨k, hx, hy⟩ := (Number.beq_iff x y).mp h
      cases u with
      | number z =>
        show (x == z) = (y == z)
        rw [Bool.eq_iff_iff, Number.beq_iff, Number.beq_iff, hx, hy]
      | _ => rfl
    | _ => cases h

end BlockMachine

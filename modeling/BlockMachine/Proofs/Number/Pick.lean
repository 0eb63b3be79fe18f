import BlockMachine.Proofs.Number.Whole

/-!
# Random picks

A draw stands for a fraction that a double has exactly, so it is finite and only the first draw is
zero (`parts_fraction`). A pick is a way of that fraction from the lower bound to the upper one. It
is NaN just where there is no way to go: from an infinite bound, or no part of an infinite way
(`isNaN_pick_iff`).
-/

namespace BlockMachine.Number

open Float.Model Float.Model.UnpackedFloat

variable {m n : Nat} {s : Sign} {x y : Float} {e : Int}

/-! ## Exact results -/

theorem log2_mul_two_pow (hm : 0 < m) (k : Nat) : (m * 2 ^ k).log2 = m.log2 + k := by
  have hlow := Nat.log2_self_le (Nat.ne_of_gt hm)
  have hhigh := Nat.lt_log2_self (n := m)
  refine log2_eq ?_ ?_
  · rw [Nat.pow_add]
    exact Nat.mul_le_mul_right _ hlow
  · rw [show m.log2 + k + 1 = m.log2 + 1 + k by omega, Nat.pow_add]
    exact Nat.mul_lt_mul_of_pos_right hhigh (Nat.two_pow_pos k)

/-- Rounding drops nothing of a number with 53 bits. -/
theorem roundWithAccuracy_exact (s : Sign) (k : Nat) (hlow : 2 ^ 52 ≤ m) (hhigh : m < 2 ^ 53)
    (he : -1074 ≤ e) (hpos : 0 < m) :
    roundWithAccuracy .binary64 s (m * 2 ^ k) (e - k) .exact = .finite s m e hpos := by
  have hlog : (m * 2 ^ k).log2 = 52 + k := by rw [log2_mul_two_pow hpos, log2_eq hlow hhigh]
  have hshift : (⟨m * 2 ^ k, false, false⟩ : ExtendedMantissa) >>> k = ⟨m, false, false⟩ := by
    rw [shiftRight_exact (Nat.dvd_mul_left _ _), Nat.mul_div_cancel _ (Nat.two_pow_pos k)]
  obtain ⟨_, -, ⟨-, hround⟩ | ⟨hm, -⟩⟩ := roundWithAccuracy_normal s (e := e - k) hlog (by omega)
    (congrArg ExtendedMantissa.roundedMantissa hshift)
  · rw [hround]
    exact finite_congr rfl (Int.sub_add_cancel e k)
  · exact absurd hm (Nat.ne_of_lt hhigh)

theorem round_ofNat {k : Nat} (hk : n.log2 + k = 52) (hpos : 0 < n * 2 ^ k)
    (hlow : 2 ^ 52 ≤ n * 2 ^ k) (hhigh : n * 2 ^ k < 2 ^ 53) :
    ofNat .binary64 n = .finite .positive (n * 2 ^ k) (-k) hpos := by
  have hn : 0 < n := Nat.pos_of_mul_pos_right hpos
  have htarget : Format.binary64.targetExponent (totalExponent n 0) = -k := by
    rw [targetExponent_of_normal (by unfold totalExponent; omega)]
    unfold totalExponent
    omega
  have hshift : (0 - -(k : Int)).toNat = k := by omega
  have hround := roundWithAccuracy_exact .positive 0 hlow hhigh
    (show -1074 ≤ -(k : Int) by omega) hpos
  refine Eq.trans ?_ hround
  show normalize .binary64 n 0 .positive = _
  unfold UnpackedFloat.normalize
  rw [Int.compare_eq_gt.mpr (Int.natCast_pos.mpr hn)]
  unfold UnpackedFloat.round decreaseExponent
  simp only [Int.toNat_natCast, htarget, Nat.shiftLeft_eq]
  rw [hshift, Nat.pow_zero, Nat.mul_one, Int.zero_sub, Int.natCast_zero, Int.sub_zero]

/-- A double has the natural numbers of up to 53 bits exactly. -/
theorem parts_ofNat (hn : 0 < n) (hbits : n < 2 ^ 53) :
    ∃ k hm, n.log2 + k = 52 ∧ parts (Float.ofNat n) = .finite .positive (n * 2 ^ k) (-k) hm ∧
      2 ^ 52 ≤ n * 2 ^ k ∧ n * 2 ^ k < 2 ^ 53 := by
  have hlog : n.log2 < 53 := (Nat.log2_lt (by omega)).mpr hbits
  obtain ⟨k, hk⟩ : ∃ k, n.log2 + k = 52 := ⟨52 - n.log2, by omega⟩
  have hlow : 2 ^ 52 ≤ n * 2 ^ k := by
    rw [← hk, Nat.pow_add]
    exact Nat.mul_le_mul_right _ (Nat.log2_self_le (by omega))
  have hhigh : n * 2 ^ k < 2 ^ 53 := by
    rw [show 53 = n.log2 + 1 + k by omega, Nat.pow_add]
    exact Nat.mul_lt_mul_of_pos_right Nat.lt_log2_self (Nat.two_pow_pos k)
  have hm : 0 < n * 2 ^ k := by omega
  have hpack : repack (.finite .positive (n * 2 ^ k) (-k) hm) =
      .finite .positive (n * 2 ^ k) (-k) hm := repack_finite hlow hhigh (by omega) (by omega)
  have hone : mul .binary64 (.finite .positive (n * 2 ^ k) (-k) hm) one =
      .finite .positive (n * 2 ^ k) (-k) hm := by
    unfold one
    rw [mul_finite]
    exact roundWithAccuracy_exact .positive 52 hlow hhigh (by omega) hm
  have hword : n.toUInt64.toNat = n := by
    simp only [Nat.toUInt64, UInt64.toNat_ofNat']
    omega
  refine ⟨k, hm, hk, ?_, hlow, hhigh⟩
  show parts (Float.ofScientific n false 0) = _
  unfold Float.ofScientific
  rw [dif_pos ⟨hbits, by decide⟩]
  dsimp only
  rw [if_neg (by decide)]
  show repack (UnpackedFloat.mul .binary64 (repack (UnpackedFloat.ofNat .binary64 n.toUInt64.toNat))
    (parts Float.exactlyRepresentablePowersOfTen[0])) = _
  have hpower : parts Float.exactlyRepresentablePowersOfTen[0] = one := rfl
  rw [hpower, hword, round_ofNat hk hm hlow hhigh, hpack, hone, hpack]

/-! ## Draws -/

/-- Dividing by a power of two changes nothing but the exponent. -/
theorem div_two_pow_31 (hlow : 2 ^ 52 ≤ m) (hhigh : m < 2 ^ 53) (he : -1042 ≤ e) (hpos : 0 < m) :
    div .binary64 (.finite .positive m e hpos) (.finite .positive (2 ^ 52) (-21) (by decide)) =
      .finite .positive m (e - 31) hpos := by
  have htarget : Format.binary64.targetExponent (totalExponent m e - totalExponent (2 ^ 52) (-21)) =
      e - 32 := by
    have htotal : totalExponent m e - totalExponent (2 ^ 52) (-21) = e + 21 := by
      unfold totalExponent
      rw [log2_eq hlow hhigh, Nat.log2_two_pow]
      omega
    rw [htotal, targetExponent_of_normal (show -1021 ≤ e + 21 by omega)]
    omega
  have hmin : min (e - -21) (e - 32) = e - 32 := by omega
  have hshift : (e - -21 - (e - 32)).toNat = 53 := by omega
  have hsplit : m * 2 ^ 53 = m * 2 ^ 1 * 2 ^ 52 := by rw [Nat.mul_assoc, ← Nat.pow_add]
  have hround := roundWithAccuracy_exact .positive 1 hlow hhigh (show -1074 ≤ e - 31 by omega) hpos
  refine Eq.trans ?_ hround
  show roundWithAccuracy .binary64 .positive (divCore .binary64 m e (2 ^ 52) (-21)).1
    (divCore .binary64 m e (2 ^ 52) (-21)).2.1 (divCore .binary64 m e (2 ^ 52) (-21)).2.2 = _
  unfold divCore
  simp only [htarget, hmin, hshift, Nat.shiftLeft_eq]
  rw [hsplit, Nat.mul_div_cancel _ (Nat.two_pow_pos 52), Nat.mul_mod_left,
    show e - 32 = e - 31 - (1 : Nat) by omega]
  rfl

theorem parts_two_pow_31 :
    parts 2147483648.0 = .finite .positive (2 ^ 52) (-21) (by decide) := rfl

/-- A draw stands for a positive number, unless it is the first one. -/
theorem parts_fraction {d : Draw} (hd : d ≠ 0) :
    ∃ m e hm, parts d.fraction = .finite .positive m e hm := by
  have hpos : 0 < d.val := Nat.pos_of_ne_zero fun h => hd (Fin.ext h)
  obtain ⟨k, hm, hk, hparts, hlow, hhigh⟩ := parts_ofNat hpos (Nat.lt_trans d.isLt (by decide))
  refine ⟨_, -k - 31, hm, ?_⟩
  show repack (UnpackedFloat.div .binary64 (parts (Float.ofNat d.val)) (parts 2147483648.0)) = _
  rw [parts_two_pow_31, hparts, div_two_pow_31 hlow hhigh (by omega) hm]
  exact repack_finite hlow hhigh (by omega) (by omega)

theorem parts_fraction_zero : parts (Draw.fraction 0) = .zero .positive := rfl

theorem isFinite_fraction (d : Draw) : d.fraction.isFinite = true := by
  show (parts d.fraction).isFinite = true
  by_cases hd : d = 0
  · rw [hd, parts_fraction_zero]
    rfl
  · obtain ⟨m, e, hm, hparts⟩ := parts_fraction hd
    rw [hparts]
    rfl

/-! ## Infinite results -/

theorem repack_notANumber : repack .notANumber = .notANumber := rfl

theorem repack_infinity (s : Sign) : repack (.infinity s) = .infinity s := by
  cases s <;> rfl

theorem parts_of_not_isFinite (hx : x.isNaN = false) (h : x.isFinite = false) :
    ∃ s, parts x = .infinity s := by
  have hx' := parts_ne_of_isNaN hx
  have h' : (parts x).isFinite = false := h
  generalize parts x = u at hx' h' ⊢
  cases u with
  | notANumber => exact absurd rfl hx'
  | infinity s => exact ⟨s, rfl⟩
  | zero s | finite s m e hm => cases h'

theorem not_isFinite_of_parts (h : parts x = .infinity s ∨ parts x = .notANumber) :
    x.isFinite = false := by
  show (parts x).isFinite = false
  rcases h with h | h <;> rw [h] <;> rfl

theorem add_comm (x y : Float) : x + y = y + x := by
  have hparts : ∀ u v : UnpackedFloat,
      UnpackedFloat.add .binary64 u v = UnpackedFloat.add .binary64 v u := by
    intro u v
    cases u with
    | notANumber => cases v <;> rfl
    | infinity s =>
      cases v with
      | infinity s' => cases s <;> cases s' <;> rfl
      | _ => rfl
    | zero s =>
      cases v with
      | zero s' => cases s <;> cases s' <;> rfl
      | _ => rfl
    | finite s m e hm =>
      cases v with
      | finite s' m' e' hm' =>
        unfold UnpackedFloat.add
        dsimp only
        rw [Int.add_comm, Int.min_comm]
      | _ => rfl
  show (⟨Float.Model.pack (UnpackedFloat.add .binary64 (parts x) (parts y))⟩ : Float) =
    ⟨Float.Model.pack (UnpackedFloat.add .binary64 (parts y) (parts x))⟩
  rw [hparts]

/-- A number less a finite number is a number. -/
theorem isNaN_sub (hx : x.isNaN = false) (hy : y.isFinite = true) : (x - y).isNaN = false := by
  have hx' := parts_ne_of_isNaN hx
  have hy' : (parts y).isFinite = true := hy
  refine isNaN_of_parts
    (repack_ne_notANumber (u := UnpackedFloat.sub .binary64 (parts x) (parts y)) ?_)
  generalize parts x = u at hx'
  generalize parts y = v at hy'
  cases v with
  | notANumber => cases hy'
  | infinity s => cases hy'
  | zero s =>
    cases u with
    | notANumber => exact absurd rfl hx'
    | zero s' =>
      show (if s' == -s then zero s' else zero .positive) ≠ _
      split <;> simp
    | _ => exact fun h => by cases h
  | finite s m e hm =>
    cases u with
    | notANumber => exact absurd rfl hx'
    | finite s' m' e' hm' => exact normalize_ne_notANumber _ _ _
    | _ => exact fun h => by cases h

/-- An infinite number taken from another leaves the opposite infinity or nothing. -/
theorem parts_sub_infinity (hy : parts y = .infinity s) :
    parts (x - y) = .infinity (-s) ∨ parts (x - y) = .notANumber := by
  show repack (UnpackedFloat.sub .binary64 (parts x) (parts y)) = _ ∨
    repack (UnpackedFloat.sub .binary64 (parts x) (parts y)) = _
  rw [hy]
  generalize parts x = u
  cases u with
  | notANumber => exact .inr repack_notANumber
  | infinity s' => cases s <;> cases s' <;> first | exact .inl rfl | exact .inr rfl
  | zero s' | finite s' m e hm => exact .inl (repack_infinity _)

theorem isNaN_mul (hx : x.isFinite = true) (hy : y.isFinite = true) : (x * y).isNaN = false := by
  have hx' : (parts x).isFinite = true := hx
  have hy' : (parts y).isFinite = true := hy
  refine isNaN_of_parts
    (repack_ne_notANumber (u := UnpackedFloat.mul .binary64 (parts x) (parts y)) ?_)
  generalize parts x = u at hx'
  generalize parts y = v at hy'
  cases u with
  | notANumber | infinity s => cases hx'
  | zero s =>
    cases v with
    | notANumber | infinity s' => cases hy'
    | _ => exact fun h => by cases h
  | finite s m e hm =>
    cases v with
    | notANumber | infinity s' => cases hy'
    | zero s' => exact fun h => by cases h
    | finite s' m' e' hm' => exact roundWithAccuracy_ne_notANumber _ _ _ _

/-- A part of an infinite way is infinite, and no part of it is nothing. -/
theorem parts_fraction_mul (d : Draw) (hx : parts x = .infinity s) :
    parts (d.fraction * x) = if d = 0 then .notANumber else .infinity s := by
  show repack (UnpackedFloat.mul .binary64 (parts d.fraction) (parts x)) = _
  rw [hx]
  by_cases hd : d = 0
  · rw [if_pos hd, hd, parts_fraction_zero]
    exact repack_notANumber
  · obtain ⟨m, e, hm, hparts⟩ := parts_fraction hd
    have hmul : UnpackedFloat.mul .binary64 (.finite .positive m e hm) (.infinity s) =
        .infinity s := by
      cases s <;> rfl
    rw [hparts, if_neg hd, hmul, repack_infinity]

theorem parts_mul_notANumber (hy : parts y = .notANumber) : parts (x * y) = .notANumber := by
  show repack (UnpackedFloat.mul .binary64 (parts x) (parts y)) = _
  rw [hy]
  cases parts x <;> exact repack_notANumber

/-- Opposite infinities have no sum. -/
theorem isNaN_add_opposite (hx : parts x = .infinity s)
    (hy : parts y = .infinity (-s) ∨ parts y = .notANumber) :
    (x + y).isNaN = true := by
  refine (isNaN_iff _).mpr ?_
  show repack (UnpackedFloat.add .binary64 (parts x) (parts y)) = _
  rw [hx]
  rcases hy with hy | hy <;> rw [hy] <;> cases s <;> rfl

theorem floor_of_not_isFinite (h : x.isFinite = false) : floor x = x := by
  have hreads := reads x
  have h' : (parts x).isFinite = false := h
  unfold floor
  generalize Binary.ofFloat? x = b at hreads
  generalize parts x = u at hreads h'
  cases hreads with
  | notANumber | infinity => rfl
  | zero | finite => cases h'

theorem isNaN_roundHalfUp (h : x.isNaN = true) : (roundHalfUp x).isNaN = true := by
  have hparts : parts (x + 0.5) = .notANumber := by
    show repack (UnpackedFloat.add .binary64 (parts x) (parts 0.5)) = _
    rw [(isNaN_iff x).mp h]
    exact repack_notANumber
  unfold roundHalfUp
  rw [floor_of_not_isFinite (not_isFinite_of_parts (s := .positive) (.inr hparts))]
  exact (isNaN_iff _).mpr hparts

/-! ## Picks -/

/-- A part of the way, rounded down or not, is added to the lower bound. There is a sum unless the
bound is infinite, or no part of an infinite way is asked for. -/
theorem isNaN_step_iff (d : Draw) {low reach : Float} {g : Float → Float}
    (hg : ∀ x : Float, x.isNaN = false → (g x).isNaN = false)
    (hg' : ∀ x : Float, x.isFinite = false → g x = x) (hlow : low.isNaN = false)
    (hreach : low.isFinite = true → reach.isNaN = false)
    (hagainst : ∀ s, parts low = .infinity s → parts reach = .infinity (-s) ∨
      parts reach = .notANumber) :
    (low + g (d.fraction * reach)).isNaN = true ↔
      low.isFinite = false ∨ reach.isFinite = false ∧ d = 0 := by
  by_cases hfinite : low.isFinite = true
  · have hsum : ∀ {x : Float}, x.isNaN = false → (low + g x).isNaN = false := fun hx => by
      rw [add_comm]
      exact isNaN_add (hg _ hx) hfinite
    by_cases hway : reach.isFinite = true
    · rw [hsum (isNaN_mul (isFinite_fraction d) hway), hfinite, hway]
      simp
    · obtain ⟨s, hs⟩ := parts_of_not_isFinite (hreach hfinite) (by simpa using hway)
      have hmul := parts_fraction_mul d hs
      by_cases hd : d = 0
      · rw [if_pos hd] at hmul
        rw [hg' _ (not_isFinite_of_parts (s := s) (.inr hmul)), add_comm]
        refine iff_of_true ((isNaN_iff _).mpr ?_) (.inr ⟨by simpa using hway, hd⟩)
        show repack (UnpackedFloat.add .binary64 (parts (d.fraction * reach)) (parts low)) = _
        rw [hmul]
        exact repack_notANumber
      · rw [if_neg hd] at hmul
        rw [hsum (isNaN_of_parts (by rw [hmul]; simp)), hfinite]
        simp [hd]
  · have hfinite : low.isFinite = false := by simpa using hfinite
    obtain ⟨s, hs⟩ := parts_of_not_isFinite hlow hfinite
    have hstep : parts (d.fraction * reach) = .infinity (-s) ∨
        parts (d.fraction * reach) = .notANumber := by
      rcases hagainst s hs with h | h
      · rw [parts_fraction_mul d h]
        split
        · exact .inr rfl
        · exact .inl rfl
      · exact .inr (parts_mul_notANumber h)
    rw [hg' _ (not_isFinite_of_parts hstep)]
    exact iff_of_true (isNaN_add_opposite hs hstep) (.inl hfinite)

/-- There is no way from the lower of two bounds to the upper one that a pick could go: it starts at
an infinite bound, or it is too long and no part of it is asked for. -/
def Strays (a b : Value) (d : Draw) : Prop :=
  let x := a.toNumber
  let y := b.toNumber
  let low := if x ≤ y then x else y
  let high := if x ≤ y then y else x
  let reach := if a.asksWhole && b.asksWhole then high + 1 - low else high - low
  (low == high) = false ∧ (low.isFinite = false ∨ reach.isFinite = false ∧ d = 0)

theorem isNaN_zeroNaN (x : Float) : (Value.zeroNaN x).isNaN = false := by
  unfold Value.zeroNaN
  by_cases h : x.isNaN = true
  · rw [if_pos h]
    rfl
  · rw [if_neg h]
    simpa using h

theorem isNaN_pick_iff (a b : Value) (d : Draw) : (pick a b d).isNaN = true ↔ Strays a b d := by
  have ha : a.toNumber.isNaN = false := isNaN_zeroNaN _
  have hb : b.toNumber.isNaN = false := isNaN_zeroNaN _
  unfold pick pickBetween Strays
  dsimp only
  generalize hlow : (if a.toNumber ≤ b.toNumber then a.toNumber else b.toNumber) = low
  generalize hhigh : (if a.toNumber ≤ b.toNumber then b.toNumber else a.toNumber) = high
  have hlow : low.isNaN = false := by
    rw [← hlow]
    split <;> assumption
  have hhigh : high.isNaN = false := by
    rw [← hhigh]
    split <;> assumption
  cases heq : low == high with
  | true =>
    rw [if_pos rfl, hlow]
    simp only [Bool.false_eq_true, reduceCtorEq, false_and]
  | false =>
    simp only [Bool.false_eq_true, if_false, true_and]
    cases a.asksWhole && b.asksWhole with
    | true =>
      exact isNaN_step_iff d (fun x hx => isCount_isNaN (isCount_floor hx))
        (fun _ hx => floor_of_not_isFinite hx) hlow (fun h => isNaN_sub (isNaN_add hhigh rfl) h)
        fun _ hs => parts_sub_infinity hs
    | false =>
      show (d.fraction * (high - low) + low).isNaN = true ↔ _
      rw [add_comm]
      exact isNaN_step_iff d (g := id) (fun _ hx => hx) (fun _ _ => rfl) hlow
        (fun h => isNaN_sub hhigh h) fun _ hs => parts_sub_infinity hs

end BlockMachine.Number

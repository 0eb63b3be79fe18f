import BlockMachine.Proofs.Number.Nearest

/-!
# Random picks and their bounds

In exact arithmetic a pick goes from the lower bound a part of the way to the upper one
(`Bound.pick_eq`). Where whole numbers are asked for, the way is a whole number of steps, which may
be one more than there is room for. Whether a text asks for whole numbers is told by how it is
written and not by what it stands for: `5e-1` has no point, so it does. All other bounds that ask
for whole numbers are whole (`Bound.isInteger`).

The module is about `Number.pick` and `Value.asksWhole`, over the rationals.

## Results

* `Bound.pick_eq`: the pick as a point on the way between the bounds.
* `random_pick_within_bounds`: where it can lie.
* `negative_exponents_give_fractions`: bounds that ask for whole numbers and get none.

Left out are the rounding of doubles, infinite bounds, and how numbers are drawn.
-/

namespace BlockMachine

open List

namespace Numeral

variable {cs : List Char} {e : Int}

/-- Characters with a negative exponent among them. -/
def NegativeExponent (cs : List Char) : Prop :=
  ['e', '-'] <:+: cs ∨ ['E', '-'] <:+: cs

theorem NegativeExponent.of_infix {ds : List Char} (h : NegativeExponent ds) (hds : ds <:+: cs) :
    NegativeExponent cs :=
  h.imp (·.trans hds) (·.trans hds)

/-! ## Numerals that are whole -/

theorem isCount_nearest (n : Nat) (he : 0 ≤ e) : Number.IsCount (Decimal.nearest n e) := by
  unfold Decimal.nearest
  dsimp only
  rw [if_pos he]
  split
  · exact .zero _
  · split
    · exact .infinity _
    · exact Number.isCount_ofScientific _ _

theorem exponent?_nonneg (h : exponent? cs = some e) (hcs : ¬ NegativeExponent cs) : 0 ≤ e := by
  cases cs with
  | nil =>
    cases h
    exact Int.le_refl 0
  | cons c cs =>
    unfold exponent? at h
    dsimp only at h
    split at h
    · next hmark =>
      split at h
      · cases h
      · cases h
        have hsign : (splitSign cs).1 = false := by
          unfold splitSign
          split
          · rfl
          · rcases Bool.or_eq_true_iff.mp hmark with hc | hc <;> obtain rfl := beq_iff_eq.mp hc
            · exact absurd (.inl (prefix_append ['e', '-'] _).isInfix) hcs
            · exact absurd (.inr (prefix_append ['E', '-'] _).isInfix) hcs
          · rfl
        rw [hsign]
        exact Int.natCast_nonneg _
    · cases h

/-- A decimal without a point and without a negative exponent is whole. -/
theorem isCount_decimal? {x : Float} (h : decimal? cs = some x) (hpoint : '.' ∉ cs)
    (hexp : ¬ NegativeExponent cs) : Number.IsCount x := by
  have hrest : (splitDigits (splitSign cs).2).2 <:+ cs := by
    obtain ⟨sign, -, hcs⟩ := exists_sign cs
    exact (dropWhile_suffix _).trans ⟨sign, hcs.symm⟩
  unfold decimal? at h
  dsimp only at h
  generalize (splitDigits (splitSign cs).2).2 = rest at h hrest
  have hfraction : splitFraction rest = ([], rest) := by
    unfold splitFraction
    split
    · exact absurd (hrest.subset mem_cons_self) hpoint
    · rfl
  rw [hfraction] at h
  split at h
  · cases h
  · obtain ⟨e, he, rfl⟩ := Option.map_eq_some_iff.mp h
    have hnonneg := exponent?_nonneg he fun h => hexp (h.of_infix hrest.isInfix)
    have hcount := isCount_nearest (decimalValue ((splitDigits (splitSign cs).2).1 ++ []))
      (show 0 ≤ e - ([] : List Char).length by simpa using hnonneg)
    split
    · exact hcount.neg.repack
    · exact hcount

theorem isCount_readTrimmed (h : Accepted cs) (hpoint : '.' ∉ cs) (hexp : ¬ NegativeExponent cs) :
    Number.IsCount (readTrimmed cs) := by
  cases h with
  | empty => exact .zero _
  | infinity h => rcases h with rfl | rfl | rfl <;> exact .infinity _
  | radix h hn =>
    rw [readTrimmed_radix h, if_pos hn]
    exact Number.isCount_ofNat _
  | decimal h =>
    obtain ⟨x, hx⟩ := Option.isSome_iff_exists.mp (decimal?_isSome_iff.mpr h)
    rw [readTrimmed_decimal hx]
    exact isCount_decimal? hx hpoint hexp

theorem trim_infix (cs : List Char) : Text.trim cs <:+: cs := by
  have hback := dropWhile_suffix (l := (cs.dropWhile Text.isBlank).reverse) Text.isBlank
  have hfront : Text.trim cs <+: cs.dropWhile Text.isBlank := reverse_suffix.mp (by
    rw [Text.trim, reverse_reverse]
    exact hback)
  exact hfront.isInfix.trans (dropWhile_suffix _).isInfix

end Numeral

/-! ## Bounds -/

/-- A value that stands for a finite number. -/
structure Bound where
  value : Value
  number : Binary
  finite : Binary.ofFloat? value.toNumber = some number

namespace Bound

open Number (IsCount IsInteger pickBetween reads)

/-- The bound is a text with a negative exponent in it. -/
def HasNegativeExponent (a : Bound) : Prop :=
  ∃ s, a.value = .text s ∧ Numeral.NegativeExponent s.toList

theorem isCount_toNumber (a : Bound) (hw : a.value.asksWhole = true)
    (hexp : ¬ a.HasNegativeExponent) :
    IsCount a.value.toNumber := by
  unfold Value.toNumber Value.zeroNaN
  split
  · exact .zero _
  · next hnumber =>
    have hnumber := Bool.eq_false_iff.mpr hnumber
    unfold HasNegativeExponent at hexp
    generalize a.value = v at hw hexp hnumber
    cases v with
    | bool b =>
      cases b with
      | false => exact Number.isCount_ofNat 0
      | true => exact Number.isCount_ofNat 1
    | number x =>
      refine Number.isCount_of_ofFloat? hnumber fun b hb => ?_
      have hwhole := (Bool.or_eq_true_iff.mp hw).resolve_left (Bool.eq_false_iff.mp hnumber)
      rwa [Number.isWhole, show Binary.ofFloat? x = some b from hb] at hwhole
    | text s =>
      have hpoint : '.' ∉ s.toList := by simpa [Value.asksWhole] using hw
      have htrim := Numeral.trim_infix s.toList
      exact Numeral.isCount_readTrimmed (Numeral.isNaN_readTrimmed_iff.mp hnumber)
        (fun h => hpoint (htrim.subset h)) fun h => hexp ⟨s, rfl, h.of_infix htrim⟩

theorem isInteger (a : Bound) (hw : a.value.asksWhole = true) (hexp : ¬ a.HasNegativeExponent) :
    IsInteger a.number.value := by
  have hvalue := (reads a.value.toNumber).value
  rw [a.finite] at hvalue
  exact (a.isCount_toNumber hw hexp).isInteger hvalue.symm

/-! ## Picks -/

/-- The pick between two bounds in exact arithmetic, for a fraction that was drawn. -/
def pick (a b : Bound) (r : ℚ) : ℚ :=
  pickBetween (fun q => (⌊q⌋ : ℚ)) a.number.value b.number.value r
    (a.value.asksWhole && b.value.asksWhole)

/-- The way that a pick goes from the lower bound, over a distance. -/
def way (distance r : ℚ) (whole : Bool) : ℚ :=
  if whole then ⌊r * (distance + 1)⌋ else r * distance

variable (a b : Bound) {r distance : ℚ}

/-- The lower of two bounds. -/
def low : ℚ := min a.number.value b.number.value

/-- The upper of two bounds. -/
def high : ℚ := max a.number.value b.number.value

theorem pick_eq (hr : 0 ≤ r) (hr' : r < 1) : a.pick b r =
    a.low b + way (a.high b - a.low b) r (a.value.asksWhole && b.value.asksWhole) := by
  unfold pick pickBetween way low high
  dsimp only
  rw [← min_def, ← max_def]
  by_cases heq : min a.number.value b.number.value = max a.number.value b.number.value
  · -- Over no distance there is no step to go, as the fraction is less than one.
    have hfloor : ⌊r⌋ = 0 := Int.floor_eq_zero_iff.mpr ⟨hr, hr'⟩
    rw [heq, if_pos (beq_self_eq_true _), sub_self, zero_add, mul_one, mul_zero, hfloor,
      Int.cast_zero, ite_self, add_zero]
  · rw [if_neg (by simpa using heq)]
    cases a.value.asksWhole && b.value.asksWhole with
    | true => rw [if_pos rfl, if_pos rfl, add_sub_right_comm]
    | false => rw [if_neg (by simp), if_neg (by simp), add_comm]

theorem way_nonneg (hd : 0 ≤ distance) (hr : 0 ≤ r) (whole : Bool) : 0 ≤ way distance r whole := by
  unfold way
  split
  · exact_mod_cast Int.floor_nonneg.mpr (mul_nonneg hr (by linarith))
  · exact mul_nonneg hr hd

/-- There is room for all steps if and only if the distance is a whole number. -/
theorem forall_way_le_iff (hd : 0 ≤ distance) (whole : Bool) :
    (∀ r : ℚ, 0 ≤ r → r < 1 → way distance r whole ≤ distance) ↔
    (whole = true → IsInteger distance) := by
  cases whole with
  | false =>
    refine iff_of_true (fun r _ hr' => ?_) (fun h => by cases h)
    show r * distance ≤ distance
    nlinarith
  | true =>
    constructor
    · -- The fraction at which one step more would be made.
      intro h _
      have hceil : (⌈distance⌉ : ℚ) < distance + 1 := Int.ceil_lt_add_one distance
      have hpos : 0 < distance + 1 := by linarith
      have hstep := h (⌈distance⌉ / (distance + 1))
        (div_nonneg (by exact_mod_cast Int.ceil_nonneg hd) hpos.le) ((div_lt_one hpos).mpr hceil)
      unfold way at hstep
      rw [if_pos rfl, div_mul_cancel₀ _ hpos.ne', Int.floor_intCast] at hstep
      exact ⟨⌈distance⌉, le_antisymm (Int.le_ceil distance) hstep⟩
    · intro h r hr hr'
      obtain ⟨k, rfl⟩ := h rfl
      have hless : r * ((k : ℚ) + 1) < (k + 1 : Int) := by
        push_cast
        nlinarith
      show ((⌊r * ((k : ℚ) + 1)⌋ : Int) : ℚ) ≤ k
      exact_mod_cast Int.lt_add_one_iff.mp (Int.floor_lt.mpr hless)

theorem isInteger_add_intCast {q : ℚ} {k : Int} : IsInteger (q + k) ↔ IsInteger q := by
  constructor
  · rintro ⟨l, hl⟩
    exact ⟨l - k, by push_cast; linarith⟩
  · rintro ⟨l, hl⟩
    exact ⟨l + k, by rw [hl]; push_cast; rfl⟩

/-- **Where a random pick can lie.** In exact arithmetic, whatever is drawn, the pick between two
finite numbers is not below the lower of them. No pick is above the upper one if and only if the
distance between them is a whole number or one of them does not ask for whole numbers; and where
both do, the pick is whole if and only if the lower bound is. So picks between bounds that are not
texts with a negative exponent stay within them, and are whole where both bounds ask for whole
numbers. -/
theorem random_pick_within_bounds (a b : Bound) :
    let whole := a.value.asksWhole && b.value.asksWhole
    (∀ r : ℚ, 0 ≤ r → r < 1 → a.low b ≤ a.pick b r) ∧
      ((∀ r : ℚ, 0 ≤ r → r < 1 → a.pick b r ≤ a.high b) ↔
        (whole = true → IsInteger (a.high b - a.low b))) ∧
      (whole = true → ∀ r : ℚ, 0 ≤ r → r < 1 → (IsInteger (a.pick b r) ↔ IsInteger (a.low b))) ∧
      (¬ a.HasNegativeExponent → ¬ b.HasNegativeExponent → ∀ r : ℚ, 0 ≤ r → r < 1 →
        a.pick b r ≤ a.high b ∧ (whole = true → IsInteger (a.pick b r))) := by
  intro whole
  have hd : 0 ≤ a.high b - a.low b := sub_nonneg.mpr min_le_max
  have hroom : (∀ r : ℚ, 0 ≤ r → r < 1 → a.pick b r ≤ a.high b) ↔
      (whole = true → IsInteger (a.high b - a.low b)) := by
    rw [← forall_way_le_iff hd whole]
    refine forall_congr' fun r => forall₂_congr fun hr hr' => ?_
    rw [a.pick_eq b hr hr', add_comm]
    exact le_sub_iff_add_le.symm
  have hwhole : whole = true → ∀ r : ℚ, 0 ≤ r → r < 1 →
      (IsInteger (a.pick b r) ↔ IsInteger (a.low b)) := by
    intro h r hr hr'
    rw [a.pick_eq b hr hr', show (a.value.asksWhole && b.value.asksWhole) = true from h]
    exact isInteger_add_intCast
  refine ⟨fun r hr hr' => ?_, hroom, hwhole, fun ha hb r hr hr' => ?_⟩
  · rw [a.pick_eq b hr hr']
    exact le_add_of_nonneg_right (way_nonneg hd hr whole)
  · have hbounds : whole = true → IsInteger (a.low b) ∧ IsInteger (a.high b) := by
      intro h
      obtain ⟨h₁, h₂⟩ := Bool.and_eq_true_iff.mp h
      have h₁ := a.isInteger h₁ ha
      have h₂ := b.isInteger h₂ hb
      exact ⟨min_rec' _ h₁ h₂, max_rec' _ h₁ h₂⟩
    refine ⟨hroom.mpr (fun h => ?_) r hr hr', fun h => (hwhole h r hr hr').mpr (hbounds h).1⟩
    obtain ⟨⟨k, hk⟩, ⟨l, hl⟩⟩ := hbounds h
    exact ⟨l - k, by rw [hk, hl]; push_cast; rfl⟩

/-- Both bounds have no point, so whole numbers are asked for, and the pick is a half. -/
theorem negative_exponents_give_fractions : ∃ a b : Bound, a.value = .text "5e-1" ∧
    b.value = .text "25e-1" ∧ (a.value.asksWhole && b.value.asksWhole) = true ∧ a.pick b 0 = 1 / 2 ∧
      ¬ IsInteger (a.pick b 0) := by
  have hpick : ∀ {x y : ℚ}, x < y → pickBetween (fun q => (⌊q⌋ : ℚ)) x y 0 true = x := by
    intro x y h
    simp [pickBetween, h.le, h.ne]
  let a : Bound := ⟨.text "5e-1", ⟨false, 2 ^ 52, -53⟩, by decide +kernel⟩
  let b : Bound := ⟨.text "25e-1", ⟨false, 5 * 2 ^ 50, -51⟩, by decide +kernel⟩
  have ha : a.number.value = 1 / 2 := by norm_num [a, Binary.value, Binary.signed]
  have hb : b.number.value = 5 / 2 := by norm_num [b, Binary.value, Binary.signed]
  have hhalf : a.pick b 0 = 1 / 2 := by
    show pickBetween _ a.number.value b.number.value 0 true = _
    rw [ha, hb, hpick (by norm_num)]
  refine ⟨a, b, rfl, rfl, by decide +kernel, hhalf, ?_⟩
  rw [hhalf]
  rintro ⟨k, hk⟩
  have : (2 * k : ℚ) = 1 := by linarith
  have : 2 * k = 1 := by exact_mod_cast this
  omega

end Bound
end BlockMachine

import BlockMachine.Proofs.Number.Order
import BlockMachine.Variable

/-!
# The laws of comparison

Which of the two orders applies to a pair of values is decided by both of them together, so it does
not depend on which comes first, and each of the orders is total (`Value.compare?_swap`,
`Value.compare?_self`). The values that neither order applies to are a blank and a number
(`Value.compare?_eq_none_iff`). A list is searched by them, and whether an item is in it agrees with
where it is first (`Value.membership_follows_position`).

The module is about `Value.compare?`, `containsItem` and `positionOf`.

## Results

* `Value.comparison_laws`: symmetry, reflexivity and totality.
* `Value.membership_follows_position`: searching a list.

Left out is transitivity, which does not hold: which order applies depends on the pair.
-/

namespace BlockMachine

open List

namespace Value

variable (a b : Value)

theorem compareText_swap : compareText b a = (compareText a b).swap :=
  compareOfLessAndEq_eq_swap_of_lt_iff_not_gt_and_ne fun _ _ =>
    ⟨fun h => ⟨String.lt_asymm h, String.ne_of_lt h⟩, fun h =>
      String.not_le.mp fun hle => h.2 (String.le_antisymm (String.not_lt.mp h.1) hle)⟩

theorem compareText_self : compareText a a = .eq := by
  unfold compareText compareOfLessAndEq
  rw [if_neg (String.lt_irrefl _), if_pos rfl]

theorem rank?_isSome_iff :
    a.rank?.isSome = true ↔ a.isBlank = false ∧ a.rawNumber.isNaN = false := by
  unfold rank?
  cases a.isBlank with
  | true => simp
  | false =>
    rw [if_neg (by simp), ← Number.rank?_isNone]
    simp [Option.isSome_iff_ne_none]

/-- Comparing the other way round gives the opposite answer, or none as before. -/
theorem compare?_swap : b.compare? a = (a.compare? b).map Ordering.swap := by
  have hsides : (b.isWordy || a.isWordy || (b.isBlank && a.isBlank)) =
      (a.isWordy || b.isWordy || (a.isBlank && b.isBlank)) := by
    rw [Bool.or_comm b.isWordy, Bool.and_comm]
  unfold compare?
  rw [hsides]
  cases a.isWordy || b.isWordy || (a.isBlank && b.isBlank) with
  | true => exact congrArg some (compareText_swap a b)
  | false =>
    cases a.rank? with
    | none => cases b.rank? <;> rfl
    | some x =>
      cases b.rank? with
      | none => rfl
      | some y =>
        exact congrArg some (compareOfLessAndEq_eq_swap_of_lt_iff_not_gt_and_ne (by omega))

/-- Every value is equal to itself, NaN and blanks included. -/
theorem compare?_self : a.compare? a = some .eq := by
  unfold compare?
  cases hrank : a.rank? with
  | none =>
    -- Without a place among the numbers the value is wordy or blank.
    have hsides : (a.isWordy || a.isWordy || (a.isBlank && a.isBlank)) = true := by
      unfold isWordy
      rw [hrank]
      cases a.isBlank <;> rfl
    rw [if_pos hsides, compareText_self]
  | some x =>
    have hself : compareOfLessAndEq x x = .eq := by
      unfold compareOfLessAndEq
      rw [if_neg (by omega), if_pos rfl]
    cases a.isWordy || a.isWordy || (a.isBlank && a.isBlank) with
    | true => exact congrArg some (compareText_self a)
    | false => exact congrArg some hself

/-- Only a blank and a number are not comparable. -/
theorem compare?_eq_none_iff : a.compare? b = none ↔
    a.isBlank = true ∧ b.rank?.isSome = true ∨ b.isBlank = true ∧ a.rank?.isSome = true := by
  unfold compare? isWordy rank?
  cases a.isBlank <;> cases b.isBlank <;> cases Number.rank? a.rawNumber <;>
    cases Number.rank? b.rawNumber <;> exact of_decide_eq_true rfl

/-- Which of the three relations hold is what comparing answers. -/
theorem count_relations :
    [a.less b, a.greater b, a.equals b].count true = (a.compare? b).toList.length := by
  unfold less greater equals
  rcases a.compare? b with _ | _ | _ | _ <;> decide

/-- **Comparison is symmetric, reflexive and total, but for a blank and a number.** Comparing the
other way round gives the opposite answer, so less and greater are converse and equality is
symmetric. Every value is equal to itself. There is no answer if one of the values is blank and the
other one is not and stands for a number, and then none of the three relations holds; else exactly
one of them does. -/
theorem comparison_laws :
    b.compare? a = (a.compare? b).map Ordering.swap ∧ a.less b = b.greater a ∧
      a.equals b = b.equals a ∧
      a.compare? a = some .eq ∧
      (a.compare? b = none ↔
        a.isBlank = true ∧ b.isBlank = false ∧ b.rawNumber.isNaN = false ∨
          b.isBlank = true ∧ a.isBlank = false ∧ a.rawNumber.isNaN = false) ∧
      [a.less b, a.greater b, a.equals b].count true = if a.compare? b = none then 0 else 1 := by
  refine ⟨compare?_swap a b, ?_, ?_, compare?_self a, ?_, ?_⟩
  · unfold less greater
    rw [compare?_swap a b]
    rcases a.compare? b with _ | _ | _ | _ <;> rfl
  · unfold equals
    rw [compare?_swap a b]
    rcases a.compare? b with _ | _ | _ | _ <;> rfl
  · rw [compare?_eq_none_iff, rank?_isSome_iff, rank?_isSome_iff]
  · rw [count_relations]
    cases a.compare? b <;> rfl

/-! ## Searching lists -/

/-- Values of one kind that are the same are equal under the comparison rules. -/
theorem equals_of_beq {a b : Value} (h : (a == b) = true) : a.equals b = true := by
  unfold equals
  rw [beq_iff_eq]
  cases a with
  | bool x =>
    cases b with
    | bool y => rw [eq_of_beq (show (x == y) = true from h), compare?_self]
    | _ => cases h
  | text s =>
    cases b with
    | text t => rw [eq_of_beq (show (s == t) = true from h), compare?_self]
    | _ => cases h
  | number x =>
    cases b with
    | number y =>
      -- The two zeros are different numbers in the same place.
      obtain ⟨k, hx, hy⟩ := (Number.beq_iff x y).mp h
      have hplace : rank? (.number x) = some k ∧ rank? (.number y) = some k := ⟨hx, hy⟩
      simp [compare?, isWordy, hplace, isBlank, compareOfLessAndEq]
    | _ => cases h

theorem containsItem_eq (items : List Value) (item : Value) :
    containsItem items item = items.any (·.equals item) := by
  refine congrArg items.any (funext fun candidate => ?_)
  cases hsame : candidate == item with
  | true => rw [equals_of_beq hsame, Bool.or_self]
  | false => rw [Bool.false_or]

/-- **A list contains an item just if the item has a position in it.** The position is that of the
first item that is equal under the comparison rules, counted from one. -/
theorem membership_follows_position (items : List Value) (item : Value) :
    (containsItem items item = true ↔ positionOf items item ≠ 0) ∧
      ∀ n, positionOf items item = n + 1 ↔
        ∃ h : n < items.length, items[n].equals item = true ∧
          ∀ (i : Nat) (hi : i < n), items[i].equals item = false := by
  rw [containsItem_eq]
  unfold positionOf
  cases hfind : items.findIdx? (·.equals item) with
  | none =>
    have hnone := findIdx?_eq_none_iff.mp hfind
    refine ⟨by simpa using hnone, fun n => ⟨nofun, fun ⟨h, hn, _⟩ => ?_⟩⟩
    rw [hnone _ (getElem_mem h)] at hn
    cases hn
  | some k =>
    obtain ⟨hk, hequal, -⟩ := findIdx?_eq_some_iff_getElem.mp hfind
    refine ⟨⟨fun _ => Nat.succ_ne_zero k, fun _ => ?_⟩, fun n => ?_⟩
    · exact any_eq_true.mpr ⟨_, getElem_mem hk, hequal⟩
    · have hposition : k + 1 = n + 1 ↔ items.findIdx? (·.equals item) = some n := by
        rw [hfind, Option.some_inj, Nat.add_right_cancel_iff]
      rw [hposition, findIdx?_eq_some_iff_getElem]
      simp

end Value
end BlockMachine

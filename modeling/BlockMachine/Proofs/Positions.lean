import BlockMachine.Proofs.ListEdit
import Mathlib.Data.Rat.Floor

/-!
# Index values as positions

One notion of position serves all list blocks. `PointsTo` says where an index value points among `m`
places: the end, a place that was drawn, none, or the number rounded down, as long as that is one of
the places. Index values are resolved so (`Position.resolve_pointsTo`), with exact rounding
(`Binary.floor_eq`). What a block does is then said on the place alone: reading gives the item
there, and the changes take it out, put an item there or in front of it, and keep all others in
their order.

The module is about `Position.resolve`, `itemAt` and `Variable.edit`.

## Results

* `Position.resolve_pointsTo`: where an index value is resolved to.
* `list_blocks_positional`: reading, replacing, deleting and inserting, all on that place.

Left out are adding at the end, which has no index, and how a place is drawn: the draw is a
parameter.
-/

namespace BlockMachine

open Option

/-- The number that a finite double stands for. -/
def Binary.value (b : Binary) : ℚ :=
  b.signed * 2 ^ b.exponent

/-- The greatest whole number not above a double is exact. -/
theorem Binary.floor_eq (b : Binary) : b.floor = ⌊b.value⌋ := by
  unfold floor value
  split
  · next hexp =>
    obtain ⟨k, hk⟩ := Int.eq_ofNat_of_zero_le hexp
    rw [hk, Int.toNat_natCast, zpow_natCast]
    exact_mod_cast (Int.floor_intCast (b.signed * 2 ^ k)).symm
  · next hexp =>
    obtain ⟨k, hk⟩ := Int.eq_ofNat_of_zero_le (by omega : 0 ≤ -b.exponent)
    have hneg : b.exponent = -(k : Int) := by omega
    rw [hk, Int.toNat_natCast, hneg, zpow_neg, zpow_natCast, ← div_eq_mul_inv]
    have := Rat.floor_intCast_div_natCast b.signed (2 ^ k)
    push_cast at this
    exact this.symm

/-- `p` is where an index value points to among `m` places counted from one. -/
def PointsTo (index : Value) (m : Nat) (p : Option Nat) : Prop :=
  match index with
  | .text "all" => p = none
  | .text "last" => p = if 0 < m then some m else none
  | .text "random" => if 0 < m then ∃ k, p = some k ∧ 1 ≤ k ∧ k ≤ m else p = none
  | .text "any" => if 0 < m then ∃ k, p = some k ∧ 1 ≤ k ∧ k ≤ m else p = none
  | index =>
    ∀ k : Nat, p = some k ↔
      1 ≤ k ∧ k ≤ m ∧ ∃ b, Binary.ofFloat? index.toNumber = some b ∧ ⌊b.value⌋ = k

namespace Position

/-- The place that a position is, if it is one. -/
def place? : Position → Option Nat
  | .item n => some n
  | _ => none

theorem drawn_place? (d : Draw) (m : Nat) :
    if 0 < m then ∃ k, (drawn d m).place? = some k ∧ 1 ≤ k ∧ k ≤ m
    else (drawn d m).place? = none := by
  unfold drawn
  split
  · next hm => exact ⟨_, rfl, by unfold ofDraw; omega, ofDraw_le hm⟩
  · rfl

theorem ofNumber_place? (x : Float) (m k : Nat) :
    (ofNumber x m).place? = some k ↔
      1 ≤ k ∧ k ≤ m ∧ ∃ b, Binary.ofFloat? x = some b ∧ ⌊b.value⌋ = k := by
  unfold ofNumber Number.floor?
  cases Binary.ofFloat? x with
  | none => simp [place?]
  | some b =>
    simp only [map_some, Option.some.injEq, exists_eq_left', ← Binary.floor_eq]
    unfold ofInt
    split
    · next hk =>
      simp only [Bool.and_eq_true, decide_eq_true_eq] at hk
      simp only [place?, Option.some.injEq]
      omega
    · next hk =>
      simp only [Bool.and_eq_true, decide_eq_true_eq] at hk
      simp only [place?, reduceCtorEq, false_iff]
      omega

/-- Index values are resolved to the place that they point to. -/
theorem resolve_pointsTo (index : Value) (m : Nat) (d : Draw) :
    PointsTo index m (resolve index m d false).place? := by
  unfold PointsTo
  split
  · rfl
  · show (last m).place? = _
    unfold last
    split <;> rfl
  · exact drawn_place? d m
  · exact drawn_place? d m
  · next hall hlast hrandom hany =>
    unfold resolve
    split
    · exact absurd rfl hall
    · exact absurd rfl hlast
    · exact absurd rfl hrandom
    · exact absurd rfl hany
    · exact ofNumber_place? _ m

/-- Accepting `all` makes a difference for `all` only. -/
theorem resolve_accept {index : Value} (h : index ≠ .text "all") (m : Nat) (d : Draw) :
    resolve index m d true = resolve index m d false := by
  unfold resolve
  split
  · exact absurd rfl h
  all_goals rfl

/-- Where `all` is not accepted, an index value that denotes anything denotes a place. -/
theorem resolve_cases (index : Value) (m : Nat) (d : Draw) :
    (∃ p, resolve index m d false = .item p ∧ 1 ≤ p ∧ p ≤ m) ∨
      resolve index m d false = .nowhere := by
  cases h : resolve index m d false with
  | item p => exact .inl ⟨p, rfl, resolve_item h⟩
  | nowhere => exact .inr rfl
  | all =>
    unfold resolve last drawn ofNumber ofInt at h
    repeat' split at h
    all_goals contradiction

theorem place?_bounds {index : Value} {m p : Nat} {d : Draw}
    (h : (resolve index m d false).place? = some p) : 1 ≤ p ∧ p ≤ m := by
  rcases resolve_cases index m d with ⟨q, hq, hbounds⟩ | hnone
  · rw [hq] at h
    cases h
    exact hbounds
  · rw [hnone] at h
    cases h

end Position

/-! ## What list blocks do at a place -/

/-- The item at the place is read, which is one of the list. -/
theorem itemAt_place (items : List Value) (index : Value) (d : Draw) :
    (Position.resolve index items.length d false).place?.elim (itemAt items index d = Value.empty)
      fun p => items[p - 1]? = some (itemAt items index d) := by
  unfold itemAt
  rcases Position.resolve_cases index items.length d with ⟨p, hp, hpos, hle⟩ | hnone
  · have hlt : p - 1 < items.length := by omega
    simp [hp, Position.place?, List.getElem?_eq_getElem hlt]
  · simp [hnone, Position.place?]

namespace Variable

variable (v : Variable) (index item : Value) (limit : Nat) (d : Draw)

theorem edit_replace :
    v.edit limit d (.replace index item) =
      (Position.resolve index v.items.length d false).place?.elim v fun p =>
        v.setItems (v.items.take (p - 1) ++ item :: v.items.drop p) := by
  rw [edit_eq, ListEdit.result]
  rcases Position.resolve_cases index v.items.length d with ⟨p, hp, hpos, hle⟩ | hnone
  · have hset : v.items.set (p - 1) item = v.items.take (p - 1) ++ item :: v.items.drop p := by
      rw [List.set_eq_take_append_cons_drop, if_pos (by omega), Nat.sub_add_cancel hpos]
    simp only [hp, Position.place?, elim_some, hset]
  · simp only [hnone, Position.place?, elim_none]

theorem edit_delete {index : Value} (hall : index ≠ .text "all") :
    v.edit limit d (.delete index) =
      (Position.resolve index v.items.length d false).place?.elim v fun p =>
        v.setItems (v.items.take (p - 1) ++ v.items.drop p) := by
  rw [edit_eq, ListEdit.result, Position.resolve_accept hall]
  rcases Position.resolve_cases index v.items.length d with ⟨p, hp, hpos, -⟩ | hnone
  · have herase : v.items.eraseIdx (p - 1) = v.items.take (p - 1) ++ v.items.drop p := by
      rw [List.eraseIdx_eq_take_drop_succ, Nat.sub_add_cancel hpos]
    simp only [hp, Position.place?, elim_some, herase]
  · simp only [hnone, Position.place?, elim_none]

theorem edit_insert :
    v.edit limit d (.insert index item) =
      (Position.resolve index (v.items.length + 1) d false).place?.elim v fun p =>
        if p ≤ limit then v.setItems (inserted v.items p item limit) else v := by
  rw [edit_eq, ListEdit.result]
  rcases Position.resolve_cases index (v.items.length + 1) d with ⟨p, hp, -⟩ | hnone
  · simp only [hp, Position.place?, elim_some]
    by_cases hlimit : p ≤ limit
    · rw [if_pos hlimit, if_pos hlimit]
    · rw [if_neg hlimit, if_neg hlimit]
  · simp only [hnone, Position.place?, elim_none]

end Variable

/-- **One notion of position for all list blocks.** Every index value points to a place, or to none,
among any number of places. Reading gives the item at the place, replacing puts an item there,
deleting takes out the item there, or all items for `all`, and inserting puts an item in front of it
unless the place is beyond the limit; then one item more than the limit loses the last. Without a
place nothing is read, and the variable stays as it is. -/
theorem list_blocks_positional (v : Variable) (index item : Value) (limit : Nat) (d : Draw) :
    ∃ place : Nat → Option Nat,
      (∀ m, PointsTo index m (place m)) ∧ (∀ m p, place m = some p → 1 ≤ p ∧ p ≤ m) ∧
      (place v.items.length).elim (itemAt v.items index d = Value.empty)
        (fun p => v.items[p - 1]? = some (itemAt v.items index d)) ∧
      v.edit limit d (.replace index item) =
        (place v.items.length).elim v
          (fun p => v.setItems (v.items.take (p - 1) ++ item :: v.items.drop p)) ∧
      (index = .text "all" ∧ v.edit limit d (.delete index) = v.setItems [] ∨
        index ≠ .text "all" ∧ v.edit limit d (.delete index) =
          (place v.items.length).elim v
            fun p => v.setItems (v.items.take (p - 1) ++ v.items.drop p)) ∧
      v.edit limit d (.insert index item) =
        (place (v.items.length + 1)).elim v fun p =>
          let longer := v.items.take (p - 1) ++ item :: v.items.drop (p - 1)
          if p ≤ limit then v.setItems (if limit < longer.length then longer.dropLast else longer)
          else v := by
  refine ⟨fun m => (Position.resolve index m d false).place?,
    fun m => Position.resolve_pointsTo index m d, fun m p hp => Position.place?_bounds hp,
    itemAt_place v.items index d, v.edit_replace index item limit d, ?_,
    v.edit_insert index item limit d⟩
  by_cases hall : index = .text "all"
  · subst hall
    exact .inl ⟨rfl, rfl⟩
  · exact .inr ⟨hall, v.edit_delete limit d hall⟩

end BlockMachine

import BlockMachine.Variable

/-!
# Edits of lists

What an edit makes of the items of a list (`ListEdit.result`), and that it leaves a variable as it
is where it takes no effect (`Variable.edit_eq`). No edit takes a list beyond the limit
(`ListEdit.length_result`).
-/

namespace BlockMachine

open List

variable {n : Nat} {items : List Value}

namespace Position

variable {index : Value} {length n : Nat} {d : Draw} {acceptAll : Bool}

theorem ofNumber_item {x : Float} (h : ofNumber x length = .item n) : 0 < n ∧ n ≤ length := by
  unfold ofNumber at h
  split at h
  · unfold ofInt at h
    split at h
    · next k _ hk =>
      cases h
      simp only [Bool.and_eq_true, decide_eq_true_eq] at hk
      omega
    · cases h
  · cases h

theorem drawn_item (h : drawn d length = .item n) : 0 < n ∧ n ≤ length := by
  unfold drawn at h
  split at h
  · next hlength =>
    cases h
    exact ⟨by unfold ofDraw; omega, ofDraw_le hlength⟩
  · cases h

/-- An index value denotes positions of the list only. -/
theorem resolve_item (h : resolve index length d acceptAll = .item n) : 0 < n ∧ n ≤ length := by
  unfold resolve at h
  split at h
  · split at h <;> cases h
  · unfold last at h
    split at h
    · next hlength =>
      cases h
      exact ⟨hlength, Nat.le_refl _⟩
    · cases h
  · exact drawn_item h
  · exact drawn_item h
  · exact ofNumber_item h

end Position

/-- The items after an edit, if it takes effect. -/
def ListEdit.result (items : List Value) (limit : Nat) (d : Draw) : ListEdit → Option (List Value)
  | .add item => if items.length < limit then some (items ++ [item]) else none
  | .delete index =>
    match Position.resolve index items.length d true with
    | .item n => some (items.eraseIdx (n - 1))
    | .all => some []
    | .nowhere => none
  | .clear => some []
  | .insert index item =>
    match Position.resolve index (items.length + 1) d false with
    | .item n => if n ≤ limit then some (Variable.inserted items n item limit) else none
    | _ => none
  | .replace index item =>
    match Position.resolve index items.length d false with
    | .item n => some (items.set (n - 1) item)
    | _ => none

namespace Variable

theorem deleteItem_snd (v : Variable) (hpos : 0 < n) (hn : n ≤ v.items.length) :
    (v.deleteItem n).2 = v.setItems (v.items.eraseIdx (n - 1)) := by
  unfold deleteItem
  rw [if_neg (by simp; omega), getElem?_eq_getElem (by omega)]

theorem insertItem_snd (v : Variable) (hpos : 0 < n) (hn : n ≤ v.items.length + 1) (item : Value)
    (limit : Nat) : (v.insertItem n item limit).2 = v.setItems (inserted v.items n item limit) := by
  unfold insertItem
  rw [if_neg (by simp; omega)]

theorem replaceItem_snd (v : Variable) (hpos : 0 < n) (hn : n ≤ v.items.length) (item : Value) :
    (v.replaceItem n item).2 = v.setItems (v.items.set (n - 1) item) := by
  unfold replaceItem
  rw [if_neg (by simp; omega)]

/-- **An edit sets the items, or takes no effect and leaves the variable as it is.** -/
theorem edit_eq (v : Variable) (limit : Nat) (d : Draw) (e : ListEdit) :
    v.edit limit d e =
      match e.result v.items limit d with
      | some items => v.setItems items
      | none => v := by
  cases e with
  | add item =>
    simp only [edit, ListEdit.result, pushItem]
    by_cases h : v.items.length < limit
    · rw [if_neg (by omega), if_pos h]
    · rw [if_pos (by omega), if_neg h]
  | delete index =>
    simp only [edit, ListEdit.result]
    cases hindex : Position.resolve index v.items.length d true with
    | item n =>
      obtain ⟨hpos, hn⟩ := Position.resolve_item hindex
      exact v.deleteItem_snd hpos hn
    | all => rfl
    | nowhere => rfl
  | clear => rfl
  | insert index item =>
    simp only [edit, ListEdit.result]
    cases hindex : Position.resolve index (v.items.length + 1) d false with
    | item n =>
      obtain ⟨hpos, hn⟩ := Position.resolve_item hindex
      dsimp only
      by_cases hlimit : n ≤ limit
      · rw [if_pos hlimit, if_pos hlimit]
        exact v.insertItem_snd hpos hn item limit
      · rw [if_neg hlimit, if_neg hlimit]
    | all => rfl
    | nowhere => rfl
  | replace index item =>
    simp only [edit, ListEdit.result]
    cases hindex : Position.resolve index v.items.length d false with
    | item n =>
      obtain ⟨hpos, hn⟩ := Position.resolve_item hindex
      exact v.replaceItem_snd hpos hn item
    | all => rfl
    | nowhere => rfl

theorem length_inserted (hn : n ≤ items.length + 1) (item : Value) (limit : Nat) :
    (inserted items n item limit).length ≤ max limit items.length := by
  have hlonger : (items.take (n - 1) ++ item :: items.drop (n - 1)).length = items.length + 1 := by
    rw [length_append, length_cons, length_take, length_drop]
    omega
  unfold inserted
  dsimp only
  split
  · rw [length_dropLast, hlonger]
    omega
  · omega

end Variable

/-- An edit takes no list beyond the limit, and one beyond it no further. -/
theorem ListEdit.length_result {items' : List Value} {limit : Nat} {d : Draw} {e : ListEdit}
    (h : e.result items limit d = some items') : items'.length ≤ max limit items.length := by
  cases e with
  | add item =>
    simp only [result] at h
    split at h
    · cases h
      rw [length_append, length_singleton]
      omega
    · cases h
  | delete index =>
    simp only [result] at h
    split at h
    · cases h
      exact Nat.le_trans (length_eraseIdx_le _ _) (Nat.le_max_right _ _)
    · cases h
      exact Nat.zero_le _
    · cases h
  | clear =>
    cases h
    exact Nat.zero_le _
  | insert index item =>
    simp only [result] at h
    split at h
    · next n hindex =>
      split at h
      · cases h
        exact Variable.length_inserted (Position.resolve_item hindex).2 item limit
      · cases h
    · cases h
  | replace index item =>
    simp only [result] at h
    split at h
    · cases h
      rw [length_set]
      exact Nat.le_max_right _ _
    · cases h

theorem Variable.length_edit (v : Variable) (limit : Nat) (d : Draw) (e : ListEdit) :
    (v.edit limit d e).items.length ≤ max limit v.items.length := by
  rw [edit_eq]
  split
  · next items h => exact ListEdit.length_result h
  · exact Nat.le_max_right _ _

end BlockMachine

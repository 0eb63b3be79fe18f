import BlockMachine.Proofs.Number.Grammar

/-!
# Texts that are no numerals

A text with a null character at its end is no numeral and not blank (`Value.isWordy_snoc`), and no
text lies between a text and this one. So texts that differ in lower case are told apart by a value
that is compared as text (`Value.exists_wordy`). Nor is `false` a numeral, in any case
(`Numeral.isNaN_read_false`).
-/

namespace BlockMachine

open List

/-- The first of all characters. -/
def null : Char := Char.ofNat 0

/-! ## Reading -/

namespace Numeral

theorem mem_dropWhile {p : Char → Bool} {c : Char} {cs : List Char} (h : c ∈ cs)
    (hc : p c = false) :
    c ∈ cs.dropWhile p := by
  rw [← takeWhile_append_dropWhile (p := p) (l := cs)] at h
  refine (mem_append.mp h).resolve_left fun h => ?_
  rw [all_eq_true.mp all_takeWhile c h] at hc
  cases hc

/-- A text with a character that no numeral has, and that is no blank, is no numeral. -/
theorem isNaN_read {s : String} {c : Char} (h : c ∈ s.toList) (hc : Text.isBlank c = false)
    (hout : c ∉ alphabet) : (read s).isNaN = true := by
  have htrim : c ∈ Text.trim s.toList :=
    mem_reverse.mpr (mem_dropWhile (mem_reverse.mpr (mem_dropWhile h hc)) hc)
  exact Bool.of_not_eq_false fun hread => hout ((isNaN_readTrimmed_iff.mp hread).mem_alphabet htrim)

theorem isNaN_read_snoc (s : String) : (read (s ++ String.singleton null)).isNaN = true :=
  isNaN_read (c := null) (by simp) rfl (by decide)

/-- A letter has one capital. -/
theorem eq_or_capital {c l : Char} (u : Char) (hu : u.val + 32 = l.val) (h : c.toLower = l) :
    c = l ∨ c = u := by
  unfold Char.toLower at h
  split at h
  · have hval : c.val + 32 = l.val := congrArg Char.val h
    exact .inr (Char.ext (by grind))
  · exact .inl h

/-- The word for what is not true is no numeral, in any case. -/
theorem isNaN_read_false {s : String} (h : Value.asciiLower s = "false") :
    (read s).isNaN = true := by
  have hmem : 'l' ∈ s.toList.map Char.toLower := by
    rw [← String.toList_ofList (l := s.toList.map Char.toLower)]
    show 'l' ∈ (Value.asciiLower s).toList
    rw [h]
    decide
  obtain ⟨c, hc, hl⟩ := mem_map.mp hmem
  rcases eq_or_capital 'L' rfl hl with rfl | rfl
  · exact isNaN_read hc rfl (by decide)
  · exact isNaN_read hc rfl (by decide)

end Numeral

/-! ## Lower case -/

namespace Text

theorem casedNext_snoc (cs : List Char) : casedNext (cs ++ [null]) = casedNext cs := by
  have hignorable : isCaseIgnorable null = false := by decide +kernel
  have hcased : isCased null = false := by decide +kernel
  unfold casedNext
  induction cs with
  | nil => simp [hignorable, hcased]
  | cons c cs ih =>
    rw [cons_append]
    by_cases hc : isCaseIgnorable c = true
    · rwa [dropWhile_cons_of_pos hc, dropWhile_cons_of_pos hc]
    · rw [dropWhile_cons_of_neg hc, dropWhile_cons_of_neg hc]
      rfl

theorem lowerFrom_snoc (passed cs : List Char) :
    lowerFrom passed (cs ++ [null]) = lowerFrom passed cs ++ [null] := by
  induction cs generalizing passed with
  | nil => rfl
  | cons c cs ih =>
    rw [cons_append, lowerFrom, lowerFrom, ih, casedNext_snoc, append_assoc]

theorem lower_snoc (s : String) :
    lower (s ++ String.singleton null) = lower s ++ String.singleton null := by
  unfold lower
  rw [String.toList_append, String.toList_singleton, lowerFrom_snoc, String.ofList_append]
  rfl

end Text

/-! ## A text between two others -/

theorem not_lt_null (c : Char) : ¬ c < null :=
  fun h => Nat.not_lt_zero _ h

theorem lt_snoc (cs : List Char) : cs < cs ++ [null] := by
  induction cs with
  | nil => exact nil_lt_cons _ _
  | cons c cs ih => exact cons_lt_cons_iff.mpr (.inr ⟨rfl, ih⟩)

/-- Nothing lies between characters and the same characters with a null character after them. -/
theorem not_lt_snoc {cs ds : List Char} (h : cs < ds) : ¬ ds < cs ++ [null] := by
  induction cs generalizing ds with
  | nil =>
    cases ds with
    | nil => exact absurd h (not_lt_nil _)
    | cons d ds =>
      intro hlt
      rcases cons_lt_cons_iff.mp hlt with hd | ⟨-, hds⟩
      · exact not_lt_null d hd
      · exact not_lt_nil _ hds
  | cons c cs ih =>
    cases ds with
    | nil => exact absurd h (not_lt_nil _)
    | cons d ds =>
      intro hlt
      rw [cons_append] at hlt
      rcases cons_lt_cons_iff.mp h with hc | ⟨rfl, hcs⟩
      · rcases cons_lt_cons_iff.mp hlt with hd | ⟨rfl, -⟩
        · exact Char.lt_asymm hc hd
        · exact Char.lt_irrefl _ hc
      · rcases cons_lt_cons_iff.mp hlt with hd | ⟨-, hds⟩
        · exact Char.lt_irrefl _ hd
        · exact ih hcs hds

namespace Value

theorem isWordy_snoc (s : String) : (text (s ++ String.singleton null)).isWordy = true := by
  have hblank : (text (s ++ String.singleton null)).isBlank = false := by
    simp only [isBlank, Text.isAllBlank, String.toList_append, String.toList_singleton,
      all_append, all_cons, show Text.isBlank null = false from rfl, Bool.false_and,
      Bool.and_false]
  unfold isWordy rank?
  rw [hblank, if_neg (by decide), Number.rank?_isNone]
  exact Bool.and_eq_true_iff.mpr ⟨Numeral.isNaN_read_snoc s, rfl⟩

/-- Texts that differ in lower case are told apart by a value that is compared as text. -/
theorem exists_wordy {s t : String} (h : Text.lower s ≠ Text.lower t) :
    ∃ w, w.isWordy = true ∧ compareText (.text s) w ≠ compareText (.text t) w := by
  have hless : ∀ {s t : String}, Text.lower s < Text.lower t →
      compareText (.text s) (.text (s ++ String.singleton null)) ≠
        compareText (.text t) (.text (s ++ String.singleton null)) := by
    intro s t hlt
    have hsnoc : (Text.lower s ++ String.singleton null).toList =
        (Text.lower s).toList ++ [null] := by
      rw [String.toList_append, String.toList_singleton]
    have hs : Text.lower s < Text.lower s ++ String.singleton null := by
      show (Text.lower s).toList < _
      rw [hsnoc]
      exact lt_snoc _
    have ht : ¬ Text.lower t < Text.lower s ++ String.singleton null := by
      show ¬ (Text.lower t).toList < (Text.lower s ++ String.singleton null).toList
      rw [hsnoc]
      exact not_lt_snoc hlt
    unfold compareText toText
    dsimp only
    rw [Text.lower_snoc]
    unfold compareOfLessAndEq
    rw [if_pos hs, if_neg ht]
    split <;> exact nofun
  by_cases hst : Text.lower s < Text.lower t
  · exact ⟨_, isWordy_snoc s, hless hst⟩
  · have hts : Text.lower t < Text.lower s := Decidable.not_not.mp fun hts =>
      h (String.le_antisymm (String.not_lt.mp hts) (String.not_lt.mp hst))
    exact ⟨_, isWordy_snoc t, (hless hts).symm⟩

end Value
end BlockMachine

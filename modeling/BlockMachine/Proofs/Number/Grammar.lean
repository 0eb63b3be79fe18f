import BlockMachine.Proofs.Number.Whole

/-!
# The grammar of numerals

`Accepted` is the grammar of the texts, without blanks around them, that stand for a number:
nothing, `Infinity`, digits after a radix mark, and decimals. The reader gives a number for them and
NaN for every other text (`isNaN_readTrimmed_iff`).
-/

namespace BlockMachine

open List Option

variable {x : Float}

namespace Number

open Float.Model Float.Model.UnpackedFloat

theorem div_ne_notANumber {u v : UnpackedFloat} {s : Sign} {m : Nat} {e : Int} {hm : 0 < m}
    (hu : u ≠ .notANumber) (hv : v = .finite s m e hm) : div .binary64 u v ≠ .notANumber := by
  subst hv
  cases u with
  | notANumber => exact absurd rfl hu
  | infinity s' => exact fun h => by cases h
  | zero s' => exact fun h => by cases h
  | finite s' m' e' hm' => exact roundWithAccuracy_ne_notANumber _ _ _ _

theorem isNaN_neg (h : x.isNaN = false) : (-x).isNaN = false := by
  have hparts := parts_ne_of_isNaN h
  refine isNaN_of_parts (repack_ne_notANumber (u := (parts x).neg) ?_)
  cases hx : parts x with
  | notANumber => exact absurd hx hparts
  | _ => exact fun h => by cases h

theorem isNaN_ofScientific (n e : Nat) : (Float.ofScientific n true e).isNaN = false := by
  refine isNaN_of_parts ?_
  unfold Float.ofScientific
  split
  · obtain ⟨s, m, f, hm, hpower, -⟩ := wholeNormal_power (Array.getElem_mem (show e < 23 by omega))
    exact repack_ne_notANumber
      (div_ne_notANumber (repack_ne_notANumber (normalize_ne_notANumber _ _ _)) hpower)
  · refine repack_ne_notANumber (u := UnpackedFloat.ofScientific .binary64 n (.negOfNat e)) ?_
    unfold UnpackedFloat.ofScientific
    by_cases hn : n = 0
    · rw [dif_pos hn]
      simp
    · rw [dif_neg hn]
      refine iteInduction (motive := (· ≠ notANumber)) (fun _ => by simp) fun _ => ?_
      refine iteInduction (motive := (· ≠ notANumber)) (fun _ => by simp) fun _ => ?_
      refine iteInduction (motive := (· ≠ notANumber)) (fun _ => ?_) fun _ => ?_
      · exact roundWithAccuracy_ne_notANumber _ _ _ _
      · exact div_ne_notANumber (fun h => by cases h) rfl

theorem isNaN_nearest (n : Nat) (e : Int) : (Decimal.nearest n e).isNaN = false := by
  unfold Decimal.nearest
  dsimp only
  repeat' split
  · rfl
  · rfl
  · exact isCount_isNaN (isCount_ofScientific _ _)
  · exact isNaN_ofScientific _ _

end Number

namespace Numeral

variable {cs ds : List Char} {c : Char} {radix n : Nat}

/-! ## The grammar -/

/-- An optional sign. -/
def IsSign (cs : List Char) : Prop :=
  cs = [] ∨ cs = ['+'] ∨ cs = ['-']

/-- Decimal digits. -/
def AreDigits (cs : List Char) : Prop :=
  ∀ c ∈ cs, c.isDigit = true

/-- Digits with an optional point among them, at least one digit in all. -/
inductive IsMantissa : List Char → Prop
  | digits {ds : List Char} (h : AreDigits ds) (hne : ds ≠ []) : IsMantissa ds
  | point {whole fraction : List Char} (h : AreDigits whole) (h' : AreDigits fraction)
      (hne : whole ≠ [] ∨ fraction ≠ []) : IsMantissa (whole ++ '.' :: fraction)

/-- Nothing, or a mark and digits with an optional sign. -/
inductive IsExponent : List Char → Prop
  | nothing : IsExponent []
  | digits {mark : Char} {sign ds : List Char} (hmark : mark = 'e' ∨ mark = 'E')
      (hsign : IsSign sign) (h : AreDigits ds) (hne : ds ≠ []) : IsExponent (mark :: (sign ++ ds))

/-- A sign, a mantissa and an exponent. -/
inductive IsDecimal : List Char → Prop
  | parts {sign mantissa exponent : List Char} (hsign : IsSign sign)
      (hmantissa : IsMantissa mantissa) (hexponent : IsExponent exponent) :
      IsDecimal (sign ++ (mantissa ++ exponent))

/-- A digit of a radix. -/
def IsDigitOf (radix : Nat) (c : Char) : Prop :=
  ∃ d, digitValue? c = some d ∧ d < radix

/-- What digits of a radix stand for, each by its place. -/
def placeValue (radix : Nat) : List Char → Nat
  | [] => 0
  | c :: cs => (digitValue? c).getD 0 * radix ^ cs.length + placeValue radix cs

/-- Digits of a radix after its mark, with their value. A `+` may stand between them. -/
inductive RadixNumeral : List Char → Nat → Prop
  | digits {mark : Char} {radix : Nat} {plus ds : List Char} (hmark : radixMark? mark = some radix)
      (hplus : plus = [] ∨ plus = ['+']) (hne : ds ≠ []) (h : ∀ c ∈ ds, IsDigitOf radix c) :
      RadixNumeral ('0' :: mark :: (plus ++ ds)) (placeValue radix ds)

/-- The numerals. -/
inductive Accepted : List Char → Prop
  | empty : Accepted []
  | infinity {sign : List Char} (h : IsSign sign) : Accepted (sign ++ "Infinity".toList)
  | radix {cs : List Char} {n : Nat} (h : RadixNumeral cs n) (hn : n < 2 ^ 64) : Accepted cs
  | decimal {cs : List Char} (h : IsDecimal cs) : Accepted cs

/-! ## Decimals -/

theorem areDigits_takeWhile (cs : List Char) : AreDigits (cs.takeWhile Char.isDigit) :=
  all_eq_true.mp all_takeWhile

theorem splitDigits_append (h : AreDigits ds) (hcs : cs.takeWhile Char.isDigit = []) :
    splitDigits (ds ++ cs) = (ds, cs) := by
  have hdrop := takeWhile_append_dropWhile (p := Char.isDigit) (l := cs)
  rw [hcs, nil_append] at hdrop
  unfold splitDigits
  rw [takeWhile_append_of_pos h, dropWhile_append_of_pos h, hcs, hdrop, append_nil]

theorem exists_sign (cs : List Char) : ∃ sign, IsSign sign ∧ cs = sign ++ (splitSign cs).2 := by
  unfold splitSign
  split
  · exact ⟨['+'], .inr (.inl rfl), rfl⟩
  · exact ⟨['-'], .inr (.inr rfl), rfl⟩
  · exact ⟨[], .inl rfl, rfl⟩

theorem splitSign_append {sign : List Char} (h : IsSign sign)
    (hcs : ∀ c ∈ cs.head?, c ≠ '+' ∧ c ≠ '-') : (splitSign (sign ++ cs)).2 = cs := by
  rcases h with rfl | rfl | rfl
  · rw [nil_append]
    unfold splitSign
    split
    · exact absurd rfl (hcs '+' rfl).1
    · exact absurd rfl (hcs '-' rfl).2
    · rfl
  · rfl
  · rfl

theorem AreDigits.head (h : AreDigits ds) (hne : ds ≠ []) :
    ∀ c ∈ (ds ++ cs).head?, c ≠ '+' ∧ c ≠ '-' := by
  cases ds with
  | nil => exact absurd rfl hne
  | cons d ds =>
    intro c hc
    obtain rfl : d = c := Option.some.inj hc
    have hd := h d mem_cons_self
    constructor <;> rintro rfl <;> cases hd

theorem exponent?_isSome_iff : (exponent? cs).isSome = true ↔ IsExponent cs := by
  cases cs with
  | nil => exact ⟨fun _ => .nothing, fun _ => rfl⟩
  | cons mark cs =>
    unfold exponent?
    dsimp only
    constructor
    · intro h
      split at h
      · next hmark =>
        split at h
        · cases h
        · next hdigits =>
          obtain ⟨sign, hsign, hcs⟩ := exists_sign cs
          have hsplit := takeWhile_append_dropWhile (p := Char.isDigit) (l := (splitSign cs).2)
          simp only [splitDigits, Bool.or_eq_true, Bool.not_eq_true', List.isEmpty_iff,
            isEmpty_eq_false_iff, not_or, Decidable.not_not] at hdigits
          rw [hdigits.2, append_nil] at hsplit
          rw [hcs, ← hsplit]
          exact .digits (by simpa using hmark) hsign (areDigits_takeWhile _) hdigits.1
      · cases h
    · intro h
      cases h with
      | digits hmark hsign h hne =>
        have hhead := @AreDigits.head [] _ h hne
        have hdigits := @splitDigits_append [] _ h rfl
        rw [append_nil] at hhead hdigits
        rw [if_pos (by simpa using hmark), splitSign_append hsign hhead, hdigits,
          if_neg (by simpa using hne)]
        rfl

theorem exists_mantissa {whole : List Char} (h : AreDigits whole)
    (hne : ¬ (whole.isEmpty && (splitFraction cs).1.isEmpty) = true) :
    ∃ m, IsMantissa (whole ++ m) ∧ cs = m ++ (splitFraction cs).2 := by
  unfold splitFraction at hne ⊢
  split
  · next cs =>
    refine ⟨'.' :: cs.takeWhile Char.isDigit, .point h (areDigits_takeWhile cs) ?_, ?_⟩
    · rwa [Bool.and_eq_true, List.isEmpty_iff, List.isEmpty_iff,
        Decidable.not_and_iff_not_or_not] at hne
    · rw [cons_append]
      exact congrArg _ takeWhile_append_dropWhile.symm
  · next hpoint =>
    refine ⟨[], ?_, rfl⟩
    rw [append_nil]
    refine .digits h ?_
    rintro rfl
    split at hne
    · exact hpoint _ rfl
    · exact hne rfl

theorem IsExponent.takeWhile (h : IsExponent cs) : cs.takeWhile Char.isDigit = [] := by
  cases h with
  | nothing => rfl
  | digits hmark => rcases hmark with rfl | rfl <;> rfl

theorem IsExponent.splitFraction (h : IsExponent cs) : splitFraction cs = ([], cs) := by
  cases h with
  | nothing => rfl
  | digits hmark => rcases hmark with rfl | rfl <;> rfl

theorem decimal?_isSome_iff : (decimal? cs).isSome = true ↔ IsDecimal cs := by
  unfold decimal?
  dsimp only
  constructor
  · intro h
    obtain ⟨sign, hsign, hcs⟩ := exists_sign cs
    generalize (splitSign cs).2 = rest at h hcs
    split at h
    · cases h
    · next hne =>
      rw [isSome_map] at h
      obtain ⟨m, hm, hrest⟩ := exists_mantissa (areDigits_takeWhile rest) hne
      have hsplit := takeWhile_append_dropWhile (p := Char.isDigit) (l := rest)
      rw [show rest.dropWhile Char.isDigit = _ from hrest, ← append_assoc] at hsplit
      rw [hcs, ← hsplit]
      exact .parts hsign hm (exponent?_isSome_iff.mp h)
  · rintro ⟨hsign, hmantissa, hexponent⟩
    next sign mantissa exponent =>
      have hexp := exponent?_isSome_iff.mpr hexponent
      cases hmantissa with
      | digits h hne =>
        rw [splitSign_append hsign (h.head hne), splitDigits_append h hexponent.takeWhile,
          hexponent.splitFraction, if_neg (by simpa using hne), isSome_map]
        exact hexp
      | @point whole fraction h h' hne =>
        have hhead : ∀ c ∈ (whole ++ '.' :: fraction ++ exponent).head?, c ≠ '+' ∧ c ≠ '-' := by
          by_cases hwhole : whole = []
          · subst hwhole
            rintro c ⟨⟩
            decide
          · rw [append_assoc]
            exact h.head hwhole
        have hdigits : splitDigits (whole ++ '.' :: fraction ++ exponent) =
            (whole, '.' :: (fraction ++ exponent)) := by
          rw [append_assoc]
          exact splitDigits_append h rfl
        have hfraction : Numeral.splitFraction ('.' :: (fraction ++ exponent)) =
            (fraction, exponent) :=
          splitDigits_append h' hexponent.takeWhile
        rw [splitSign_append hsign hhead, hdigits, hfraction, if_neg, isSome_map]
        · exact hexp
        · rwa [Bool.and_eq_true, List.isEmpty_iff, List.isEmpty_iff,
            Decidable.not_and_iff_not_or_not]

/-! ## Digits after a radix mark -/

theorem digits_foldlM (acc : Nat) :
    cs.foldlM (fun acc c => (digitValue? c).bind fun d =>
      if d < radix then some (acc * radix + d) else none) acc = some n ↔
      (∀ c ∈ cs, IsDigitOf radix c) ∧ acc * radix ^ cs.length + placeValue radix cs = n := by
  induction cs generalizing acc with
  | nil => simp [placeValue]
  | cons c cs ih =>
    rw [foldlM_cons, forall_mem_cons, length_cons]
    unfold placeValue
    cases hd : digitValue? c with
    | none => simp [IsDigitOf, hd]
    | some d =>
      have hdigit : IsDigitOf radix c ↔ d < radix := by simp [IsDigitOf, hd]
      by_cases hradix : d < radix
      · have hplace : (acc * radix + d) * radix ^ cs.length + placeValue radix cs =
            acc * radix ^ (cs.length + 1) + (d * radix ^ cs.length + placeValue radix cs) := by
          rw [Nat.pow_succ', Nat.add_mul, Nat.mul_assoc, Nat.add_assoc]
        simp [hdigit, hradix, ih, hplace]
      · simp [hdigit, hradix]

theorem digitsValue?_eq_some_iff : digitsValue? radix cs = some n ↔
    (∀ c ∈ cs, IsDigitOf radix c) ∧ placeValue radix cs = n := by
  have h := @digits_foldlM cs radix n 0
  rwa [Nat.zero_mul, Nat.zero_add] at h

theorem radix?_append {plus : List Char} (hplus : plus = [] ∨ plus = ['+']) (hne : ds ≠ [])
    (h : ∀ c ∈ ds, IsDigitOf radix c) : radix? radix (plus ++ ds) =
      if placeValue radix ds < 2 ^ 64 then some (placeValue radix ds) else none := by
  have hdigits : (if ds.isEmpty then none else (digitsValue? radix ds).filter (· < 2 ^ 64)) =
      if placeValue radix ds < 2 ^ 64 then some (placeValue radix ds) else none := by
    rw [if_neg (by simpa using hne), digitsValue?_eq_some_iff.mpr ⟨h, rfl⟩, Option.filter_some]
    simp
  rw [← hdigits]
  rcases hplus with rfl | rfl
  · rw [nil_append]
    unfold radix?
    dsimp only
    split
    · obtain ⟨d, hd, -⟩ := h '+' mem_cons_self
      cases hd
    · rfl
  · rfl

theorem exists_of_radix? (h : radix? radix cs = some n) : ∃ plus ds, cs = plus ++ ds ∧
    (plus = [] ∨ plus = ['+']) ∧ ds ≠ [] ∧ (∀ c ∈ ds, IsDigitOf radix c) ∧
      placeValue radix ds = n ∧ n < 2 ^ 64 := by
  have hdigits : ∀ ds : List Char, (if ds.isEmpty then none
      else (digitsValue? radix ds).filter (· < 2 ^ 64)) = some n →
        ds ≠ [] ∧ (∀ c ∈ ds, IsDigitOf radix c) ∧ placeValue radix ds = n ∧ n < 2 ^ 64 := by
    intro ds h
    split at h
    · cases h
    · next hne =>
      obtain ⟨hvalue, hn⟩ := filter_eq_some_iff.mp h
      obtain ⟨hall, hvalue⟩ := digitsValue?_eq_some_iff.mp hvalue
      exact ⟨by simpa using hne, hall, hvalue, by simpa using hn⟩
  unfold radix? at h
  dsimp only at h
  split at h
  · exact ⟨['+'], _, rfl, .inr rfl, hdigits _ h⟩
  · exact ⟨[], cs, rfl, .inl rfl, hdigits _ h⟩

theorem readTrimmed_radix (h : RadixNumeral cs n) :
    readTrimmed cs = if n < 2 ^ 64 then Float.ofNat n else Number.nan := by
  obtain ⟨hmark, hplus, hne, hds⟩ := h
  simp only [readTrimmed, hmark, radix?_append hplus hne hds]
  split <;> rfl

/-! ## All numerals -/

/-- The characters that numerals are written with. -/
def alphabet : List Char :=
  "0123456789abcdefABCDEFxXoO+-.Infity".toList

theorem IsDigitOf.mem_alphabet (h : IsDigitOf radix c) (hradix : radix ≤ 16) : c ∈ alphabet := by
  obtain ⟨d, hd, hlt⟩ := h
  have hall : ∀ n < 128, ∀ d < 16, digitValue? (Char.ofNat n) = some d →
      Char.ofNat n ∈ alphabet := by
    decide +kernel
  have hsmall : c.toNat < 128 := by
    unfold digitValue? at hd
    grind
  rw [← Char.ofNat_toNat c] at hd ⊢
  exact hall _ hsmall d (by omega) hd

theorem isDigit_mem_alphabet (h : c.isDigit = true) : c ∈ alphabet := by
  simp only [Char.isDigit, ge_iff_le, Bool.and_eq_true, decide_eq_true_eq,
    UInt32.le_iff_toNat_le] at h
  have h₁ : 48 ≤ c.toNat := h.1
  have h₂ : c.toNat ≤ 57 := h.2
  have hdigit : IsDigitOf 10 c := by
    refine ⟨c.toNat - 48, ?_, by omega⟩
    unfold digitValue?
    simp [h₁, h₂]
  exact hdigit.mem_alphabet (by decide)

theorem IsSign.mem_alphabet (h : IsSign cs) (hc : c ∈ cs) : c ∈ alphabet := by
  rcases h with rfl | rfl | rfl
  · cases hc
  · obtain rfl := mem_singleton.mp hc
    decide
  · obtain rfl := mem_singleton.mp hc
    decide

theorem IsMantissa.mem_alphabet (h : IsMantissa cs) (hc : c ∈ cs) : c ∈ alphabet := by
  cases h with
  | digits h => exact isDigit_mem_alphabet (h c hc)
  | point h h' =>
    rcases mem_append.mp hc with hc | hc
    · exact isDigit_mem_alphabet (h c hc)
    · rcases mem_cons.mp hc with rfl | hc
      · decide
      · exact isDigit_mem_alphabet (h' c hc)

theorem IsExponent.mem_alphabet (h : IsExponent cs) (hc : c ∈ cs) : c ∈ alphabet := by
  cases h with
  | nothing => cases hc
  | digits hmark hsign h =>
    rcases mem_cons.mp hc with rfl | hc
    · rcases hmark with rfl | rfl <;> decide
    · rcases mem_append.mp hc with hc | hc
      · exact hsign.mem_alphabet hc
      · exact isDigit_mem_alphabet (h c hc)

theorem radixMark?_eq_some (h : radixMark? c = some radix) :
    c ∈ ['x', 'X', 'b', 'B', 'o', 'O'] ∧ radix ≤ 16 := by
  unfold radixMark? at h
  grind

theorem Accepted.mem_alphabet (h : Accepted cs) (hc : c ∈ cs) : c ∈ alphabet := by
  cases h with
  | empty => cases hc
  | infinity h =>
    rcases mem_append.mp hc with hc | hc
    · exact h.mem_alphabet hc
    · exact (by decide : "Infinity".toList ⊆ alphabet) hc
  | radix h =>
    obtain ⟨hmark, hplus, -, hdigits⟩ := h
    obtain ⟨hmark, hradix⟩ := radixMark?_eq_some hmark
    rcases mem_cons.mp hc with rfl | hc
    · decide
    · rcases mem_cons.mp hc with rfl | hc
      · exact (by decide : ['x', 'X', 'b', 'B', 'o', 'O'] ⊆ alphabet) hmark
      · rcases mem_append.mp hc with hc | hc
        · exact IsSign.mem_alphabet (hplus.imp_right .inl) hc
        · exact (hdigits c hc).mem_alphabet hradix
  | decimal h =>
    obtain ⟨hsign, hmantissa, hexponent⟩ := h
    rcases mem_append.mp hc with hc | hc
    · exact hsign.mem_alphabet hc
    · rcases mem_append.mp hc with hc | hc
      · exact hmantissa.mem_alphabet hc
      · exact hexponent.mem_alphabet hc

theorem isNaN_decimal? (h : decimal? cs = some x) : x.isNaN = false := by
  unfold decimal? at h
  dsimp only at h
  split at h
  · cases h
  · obtain ⟨e, -, rfl⟩ := map_eq_some_iff.mp h
    split
    · exact Number.isNaN_neg (Number.isNaN_nearest _ _)
    · exact Number.isNaN_nearest _ _

theorem accepted_of_plain (h : (plain cs).isNaN = false) : Accepted cs := by
  unfold plain at h
  split at h
  · next hcs =>
    rcases Bool.or_eq_true_iff.mp hcs with hcs | hcs <;> obtain rfl := beq_iff_eq.mp hcs
    · exact @Accepted.infinity [] (.inl rfl)
    · exact @Accepted.infinity ['+'] (.inr (.inl rfl))
  · split at h
    · next hcs =>
      obtain rfl := beq_iff_eq.mp hcs
      exact @Accepted.infinity ['-'] (.inr (.inr rfl))
    · refine .decimal (decimal?_isSome_iff.mp ?_)
      cases hcs : decimal? cs with
      | none =>
        rw [hcs] at h
        cases h
      | some x => rfl

theorem decimal?_radixMark (h : radixMark? c = some radix) : decimal? ('0' :: c :: cs) = none := by
  have hc := (radixMark?_eq_some h).1
  simp only [mem_cons, not_mem_nil, or_false] at hc
  rcases hc with rfl | rfl | rfl | rfl | rfl | rfl <;> rfl

theorem readTrimmed_decimal (h : decimal? cs = some x) : readTrimmed cs = x := by
  have hplain : plain cs = x := by
    have hword : ∀ w, decimal? w = none → (cs == w) = false := by
      intro w hw
      rw [beq_eq_false_iff_ne]
      rintro rfl
      cases hw.symm.trans h
    unfold plain
    rw [hword _ rfl, hword _ rfl, hword _ rfl, h]
    rfl
  unfold readTrimmed
  split
  · cases h
  · split
    · next hmark => cases (decimal?_radixMark hmark).symm.trans h
    · exact hplain
  · exact hplain

/-- What is read as a number is a numeral, and NaN is read from every other text. -/
theorem isNaN_readTrimmed_iff : (readTrimmed cs).isNaN = false ↔ Accepted cs := by
  constructor
  · intro h
    unfold readTrimmed at h
    split at h
    · exact .empty
    · next mark cs =>
      split at h
      · next radix hmark =>
        cases hvalue : radix? radix cs with
        | none =>
          rw [hvalue] at h
          cases h
        | some n =>
          obtain ⟨plus, ds, rfl, hplus, hne, hds, rfl, hn⟩ := exists_of_radix? hvalue
          exact .radix (.digits hmark hplus hne hds) hn
      · exact accepted_of_plain h
    · exact accepted_of_plain h
  · intro h
    cases h with
    | empty => rfl
    | infinity h => rcases h with rfl | rfl | rfl <;> rfl
    | radix h hn =>
      rw [readTrimmed_radix h, if_pos hn]
      exact Number.isCount_isNaN (Number.isCount_ofNat _)
    | decimal h =>
      obtain ⟨x, hx⟩ := isSome_iff_exists.mp (decimal?_isSome_iff.mpr h)
      rw [readTrimmed_decimal hx]
      exact isNaN_decimal? hx

end Numeral
end BlockMachine

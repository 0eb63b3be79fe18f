import BlockMachine.Library.Core
import BlockMachine.Proofs.Number.Numeral
import BlockMachine.Proofs.Table
import BlockMachine.Proofs.Turn.Interpret

/-!
# Number fields, compiled and interpreted

The text of a number field is compiled to the number that it stands for and interpreted as it was
typed. Both count as the same number. They have the same text only where the number is written as
it was typed, the same truth but for zeros in other spellings, and the same place among other values
where both texts are the same in lower case.

The module is about `Context.literal?` and `Turn.runLiteral`.

## Results

* `number_field_compiled_and_interpreted`: text, truth, number and order of both values.
* `typed_zero_lost`: a zero in another spelling.

Left out are the fields of other blocks than those for numbers.
-/

namespace BlockMachine

variable {σ : Type}

theorem Table.minEntry?_of_size_eq_one {α : Type} {t : Table α} {k : String} {v : α}
    (hsize : t.size = 1) (h : t[k]? = some v) : t.minEntry? = some (k, v) := by
  have hmem := Std.TreeMap.mem_toList_iff_getElem?_eq_some.mpr h
  have hlist : t.toList = [(k, v)] := by
    obtain ⟨e, he⟩ := List.length_eq_one_iff.mp (Std.TreeMap.length_toList.trans hsize)
    rw [he] at hmem ⊢
    rw [List.mem_singleton.mp hmem]
  have hequiv : t.Equiv ((∅ : Table α).insert k v) := by
    refine Std.TreeMap.Equiv.of_toList_perm ?_
    rw [hlist]
    rfl
  rw [hequiv.minEntry?_eq]
  cbv

/-- A shadow of a number slot: its only field holds what was typed. -/
structure Block.IsNumberField (b : Block) (f : Field) : Prop where
  opcode : Context.isNumberField b.opcode = true
  inputs : b.inputs.isEmpty = true
  fields : b.fields.size = 1
  field : b.fields["NUM"]? = some f

namespace Block.IsNumberField

variable {b : Block} {f : Field}

theorem soleField? (h : b.IsNumberField f) : b.soleField? = some f := by
  unfold Block.soleField?
  rw [h.inputs, h.fields, if_pos (by decide), Table.minEntry?_of_size_eq_one h.fields h.field]
  rfl

theorem compiled (h : b.IsNumberField f) (ctx : Context σ) (depth : Nat) (st : Draft) :
    Descent.compileReporter (depth + 1) ctx b st =
      .ok (([], .const (Context.numberLiteral f.value)), st) := by
  have hliteral : Context.literal? b = some (Context.numberLiteral f.value) := by
    unfold Context.literal? Context.literal
    rw [if_pos h.opcode, h.field]
    rfl
  rw [Descent.compileReporter, Context.reporterWith, hliteral]
  rfl

theorem interpreted (h : b.IsNumberField f) {kit : Kit σ} {fuel : Nat} {s : Turn σ} {id : BlockId}
    (hprimitive : kit.primitive? b.opcode = none) (hhat : kit.isHat b.opcode = false)
    (htarget : s.machine.targets.contains s.thread.target = true)
    (hblock : s.thread.block? = some id) (hb : s.thread.sheet.block? id = some b) :
    Turn.execute kit (fuel + 1) s =
      some (.ok (), { s with thread := s.thread.report f.value }) := by
  rw [Turn.execute_literal htarget hblock hb hprimitive, Turn.runLiteral, hhat, h.soleField?]
  rfl

end Block.IsNumberField

/-! ## Numerals and the numbers they stand for -/

/-- The text is not blank and stands for a number. -/
structure IsNumeral (t : String) : Prop where
  number : (Numeral.read t).isNaN = false
  blank : (Value.text t).isBlank = false

/-- The value is no numeral, or the numeral satisfies the condition. -/
def Value.IfNumeral (P : String → Prop) (v : Value) : Prop :=
  ∀ t, v = .text t → IsNumeral t → P t

/-- Numerals become the numbers they stand for, and all else stays. So what holds of equal values
holds of a literal just where it holds of its number and its text. -/
theorem Context.numberLiteral_iff {Q : Value → Value → Prop} {P : String → Prop}
    (hrefl : ∀ v, Q v v) (hnumeral : ∀ t, IsNumeral t →
      (Q (.number (Numeral.read t)) (.text t) ↔ P t)) (v : Value) :
    Q (numberLiteral v) v ↔ v.IfNumeral P := by
  cases v with
  | bool b | number x => exact iff_of_true (hrefl _) nofun
  | text t =>
    unfold numberLiteral
    dsimp only
    by_cases h : ((Numeral.read t).isNaN || (Value.text t).isBlank) = true
    · rw [if_pos h]
      refine iff_of_true (hrefl _) ?_
      rintro _ ⟨⟩ ⟨hnumber, hblank⟩
      rw [hnumber, hblank] at h
      cases h
    · rw [if_neg h]
      simp only [Bool.or_eq_true, not_or, Bool.not_eq_true] at h
      refine (hnumeral t ⟨h.1, h.2⟩).trans ⟨?_, fun hall => hall t rfl ⟨h.1, h.2⟩⟩
      rintro hP _ ⟨⟩ -
      exact hP

/-! ## Truth and order -/

namespace Value

/-- A value with a place among the numbers is compared as text with words only. -/
theorem compare?_of_rank {v : Value} {k : Int} (hblank : v.isBlank = false)
    (hrank : v.rank? = some k) (u : Value) :
    v.compare? u = (if u.isWordy then some (compareText v u)
      else u.rank?.map fun y => compareOfLessAndEq k y) ∧
    u.compare? v = (if u.isWordy then some (compareText u v)
      else u.rank?.map fun y => compareOfLessAndEq y k) := by
  have hwordy : v.isWordy = false := by
    unfold isWordy
    rw [hrank]
    rfl
  unfold compare?
  rw [hwordy, hblank, hrank]
  cases u.isWordy with
  | true => exact ⟨rfl, rfl⟩
  | false => cases u.isBlank <;> cases u.rank? <;> exact ⟨rfl, rfl⟩

/-- Both values compare alike with every other one. -/
def ComparesAs (v w : Value) : Prop :=
  ∀ u : Value, v.compare? u = w.compare? u ∧ u.compare? v = u.compare? w

end Value

namespace IsNumeral

variable {t : String}

/-- Only zeros in other spellings than `0` are true as texts and false as numbers. -/
theorem toBool_iff (h : IsNumeral t) :
    (Value.number (Numeral.read t)).toBool = (Value.text t).toBool ↔
      ((Numeral.read t == 0.0) = true → t = "0") := by
  have hempty : (t == "") = false := by
    rw [beq_eq_false_iff_ne]
    rintro rfl
    cases h.blank
  have hfalse : (Value.asciiLower t == "false") = false := by
    rw [beq_eq_false_iff_ne]
    intro hfalse
    have hnumber := h.number
    rw [Numeral.isNaN_read_false hfalse] at hnumber
    cases hnumber
  have hzero : t = "0" → (Numeral.read t == 0.0) = true := by
    rintro rfl
    decide +kernel
  unfold Value.toBool bne
  dsimp only
  rw [h.number, hempty, hfalse]
  cases hread : Numeral.read t == 0.0 with
  | true => simp
  | false =>
    have hne : t ≠ "0" := fun ht => by
      rw [hzero ht] at hread
      cases hread
    simp [hne]

/-- A numeral and its number compare alike just where their texts do. -/
theorem comparesAs_iff (h : IsNumeral t) :
    (Value.number (Numeral.read t)).ComparesAs (.text t) ↔
      Text.lower (Layout.display.write (Numeral.read t)) = Text.lower t := by
  obtain ⟨k, hk⟩ := Number.exists_rank h.number
  have hrank : (Value.text t).rank? = some k := by
    unfold Value.rank?
    rw [h.blank]
    exact hk
  constructor
  · intro hall
    refine Decidable.not_not.mp fun hne => ?_
    obtain ⟨w, hw, htexts⟩ := Value.exists_wordy hne
    have hnumber := (Value.compare?_of_rank (v := .number (Numeral.read t)) rfl hk w).1
    have htext := (Value.compare?_of_rank h.blank hrank w).1
    rw [if_pos hw] at hnumber htext
    exact htexts (Option.some.inj (hnumber.symm.trans ((hall w).1.trans htext)))
  · intro hlower u
    obtain ⟨hnumber, hnumber'⟩ := Value.compare?_of_rank (v := .number (Numeral.read t)) rfl hk u
    obtain ⟨htext, htext'⟩ := Value.compare?_of_rank h.blank hrank u
    have hleft : Value.compareText (.number (Numeral.read t)) u =
        Value.compareText (.text t) u := by
      unfold Value.compareText
      rw [Value.toText, hlower]
      rfl
    have hright : Value.compareText u (.number (Numeral.read t)) =
        Value.compareText u (.text t) := by
      unfold Value.compareText
      rw [Value.toText.eq_3, hlower]
      rfl
    rw [hnumber, hnumber', htext, htext', hleft, hright]
    exact ⟨rfl, rfl⟩

end IsNumeral

/-- The field is compiled to a constant, and the interpreter reports what was typed. Both count as
the same number. For everything but numerals they are the same value; of a numeral and its number,
the texts are the same where the number is written as it was typed, the truths but for zeros in
other spellings than `0`, and both compare alike with every value just where their texts do. -/
theorem number_field_compiled_and_interpreted {kit : Kit σ} {b : Block} {f : Field}
    (h : b.IsNumberField f) (hprimitive : kit.primitive? b.opcode = none)
    (hhat : kit.isHat b.opcode = false) :
    ∃ c : Value,
      (∀ (ctx : Context σ) (depth : Nat) (st : Draft),
        Descent.compileReporter (depth + 1) ctx b st = .ok (([], .const c), st)) ∧
      (∀ (fuel : Nat) (s : Turn σ) (id : BlockId),
        s.machine.targets.contains s.thread.target = true → s.thread.block? = some id →
        s.thread.sheet.block? id = some b →
        Turn.execute kit (fuel + 1) s =
          some (.ok (), { s with thread := s.thread.report f.value })) ∧
      c.toNumber = f.value.toNumber ∧
      (c.toText = f.value.toText ↔ f.value.IfNumeral fun t =>
        Layout.display.write (Numeral.read t) = t) ∧
      (c.toBool = f.value.toBool ↔ f.value.IfNumeral fun t =>
        (Numeral.read t == 0.0) = true → t = "0") ∧
      (c.ComparesAs f.value ↔ f.value.IfNumeral fun t =>
        Text.lower (Layout.display.write (Numeral.read t)) = Text.lower t) := by
  refine ⟨Context.numberLiteral f.value, h.compiled, fun fuel s id htarget hblock hb =>
    h.interpreted hprimitive hhat htarget hblock hb, ?_, ?_, ?_, ?_⟩
  · have hiff := Context.numberLiteral_iff (Q := fun v w => v.toNumber = w.toNumber)
      (P := fun _ => True) (fun _ => rfl) (fun _ _ => iff_of_true rfl trivial) f.value
    exact hiff.mpr fun _ _ _ => trivial
  · exact Context.numberLiteral_iff (Q := fun v w => v.toText = w.toText) (fun _ => rfl)
      (fun _ _ => Iff.rfl) f.value
  · exact Context.numberLiteral_iff (Q := fun v w => v.toBool = w.toBool) (fun _ => rfl)
      (fun _ h => h.toBool_iff) f.value
  · exact Context.numberLiteral_iff (fun _ _ => ⟨rfl, rfl⟩) (fun _ h => h.comparesAs_iff) f.value

/-! ## Numerals that were typed -/

/-- A shadow with that text in it. -/
def Block.typed (t : String) : Block where
  id := "number"
  opcode := "math_number"
  fields := Table.of [("NUM", { value := .text t })]

theorem Block.typed_isNumberField (t : String) :
    (Block.typed t).IsNumberField { value := .text t } where
  opcode := rfl
  inputs := rfl
  fields := by cbv
  field := by simp [typed, Table.of]

/-- A thread at the shadow. -/
def Turn.typed (t : String) : Turn Unit where
  machine := { targets := .ofList [(0, Target.stage (.ofBlocks [.typed t]))], host := () }
  thread := .start 0 0 "number" (.ofBlocks [.typed t])

theorem Turn.typed_block (t : String) :
    (Turn.typed t).thread.sheet.block? "number" = some (.typed t) := by
  simp [Turn.typed, Thread.start, Sheet.ofBlocks, Sheet.block?_insert, Block.typed]

/-- The zero after the point is lost in compiled code and kept by the interpreter. -/
theorem typed_zero_lost :
    ∃ v w : Value,
      Descent.compileReporter 1 ({ catalog := Library.core, sheet := {} } : Context Unit)
        (.typed "1.0") {} = .ok (([], .const v), {}) ∧
      Turn.execute { Library.core with } 1 (.typed "1.0") =
        some (.ok (), { Turn.typed "1.0" with thread := (Turn.typed "1.0").thread.report w }) ∧
      v.toText = "1" ∧ w.toText = "1.0" := by
  have hfield := Block.typed_isNumberField "1.0"
  exact ⟨_, _, hfield.compiled _ 0 {}, hfield.interpreted rfl rfl rfl rfl (Turn.typed_block _),
    by decide +kernel, rfl⟩

/-- A numeral that was typed as its number is written cannot be told from it. -/
theorem typed_as_written_agrees :
    ∃ c : Value,
      Descent.compileReporter 1 ({ catalog := Library.core, sheet := {} } : Context Unit)
        (.typed "-0.5") {} = .ok (([], .const c), {}) ∧
      Turn.execute { Library.core with } 1 (.typed "-0.5") = some (.ok (), { Turn.typed "-0.5" with
        thread := (Turn.typed "-0.5").thread.report (.text "-0.5") }) ∧
      c.toNumber = (Value.text "-0.5").toNumber ∧ c.toText = "-0.5" ∧
      c.toBool = (Value.text "-0.5").toBool ∧ c.ComparesAs (.text "-0.5") := by
  have hwritten : Layout.display.write (Numeral.read "-0.5") = "-0.5" := by decide +kernel
  have hzero : (Numeral.read "-0.5" == 0.0) = false := by decide +kernel
  obtain ⟨c, hcompiled, hinterpreted, hnumber, htext, htruth, horder⟩ :=
    @number_field_compiled_and_interpreted Unit { Library.core with } _ _
      (Block.typed_isNumberField "-0.5") rfl rfl
  refine ⟨c, hcompiled _ 0 {}, hinterpreted 0 _ _ rfl rfl (Turn.typed_block _), hnumber,
    htext.mpr ?_, htruth.mpr ?_, horder.mpr ?_⟩
  · rintro _ ⟨⟩ -
    exact hwritten
  · rintro _ ⟨⟩ - h
    rw [hzero] at h
    cases h
  · rintro _ ⟨⟩ -
    rw [hwritten]

end BlockMachine

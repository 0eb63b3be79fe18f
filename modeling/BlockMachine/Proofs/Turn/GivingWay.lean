import BlockMachine.Library.Core
import BlockMachine.Proofs.Turn.Fuel

/-!
# Calls that give way

In normal mode a thread that calls a procedure from within the procedure gives way to the others, so
that recursion does not take all the time of a frame. It knows a recursive call by the frames below
the call: six of them are searched (`Thread.isRecursive_iff`), and a call that stands further out is
not seen (`deep_recursion_goes_on`).

The module is about `Thread.isRecursive` and `Turn.enterProcedure`.

## Results

* `Thread.isRecursive_iff`: what is searched.
* `recursive_call_gives_way`: when a call gives way.
* `deep_recursion_goes_on`: a recursive call that does not.

Left out are procedures in warp mode and compiled calls.
-/

namespace BlockMachine

open List

variable {σ : Type} {proccode : String} {t : Thread}

/-- The frame `k` below the innermost one is at a call of the procedure. -/
def Thread.CallsAt (t : Thread) (proccode : String) (k : Nat) : Prop :=
  ∃ (f : Frame) (id : BlockId) (b : Block), t.stack[k]? = some f ∧ f.block = some id ∧
    t.sheet.block? id = some b ∧ b.opcode = "procedures_call" ∧ b.proccode? = some proccode

theorem Thread.calls_iff {f : Frame} :
    t.calls proccode f = true ↔ ∃ (id : BlockId) (b : Block), f.block = some id ∧
      t.sheet.block? id = some b ∧ b.opcode = "procedures_call" ∧ b.proccode? = some proccode := by
  unfold Thread.calls
  simp only [Option.any_eq_true, Option.bind_eq_bind, Option.bind_eq_some_iff, Bool.and_eq_true,
    beq_iff_eq]
  constructor
  · rintro ⟨b, ⟨id, hid, hb⟩, hopcode, hproccode⟩
    exact ⟨id, b, hid, hb, hopcode, hproccode⟩
  · rintro ⟨id, b, hid, hb, hopcode, hproccode⟩
    exact ⟨b, ⟨id, hid, hb⟩, hopcode, hproccode⟩

/-- A call counts as recursive if the procedure is called in one of the six frames below. -/
theorem Thread.isRecursive_iff :
    t.isRecursive proccode = true ↔ ∃ k, 1 ≤ k ∧ k ≤ 6 ∧ t.CallsAt proccode k := by
  have hframe (i : Nat) : t.stack.tail[i]? = t.stack[i + 1]? := getElem?_tail
  unfold Thread.isRecursive Thread.CallsAt
  rw [any_eq_true]
  constructor
  · rintro ⟨f, hf, hcalls⟩
    obtain ⟨i, hi⟩ := mem_iff_getElem?.mp hf
    obtain ⟨id, b, hb⟩ := Thread.calls_iff.mp hcalls
    rw [getElem?_take, Option.ite_none_right_eq_some, hframe] at hi
    exact ⟨i + 1, by omega, hi.1, f, id, b, hi.2, hb⟩
  · rintro ⟨k, hpos, hle, f, id, b, hk, hb⟩
    obtain ⟨i, rfl⟩ : ∃ i, k = i + 1 := ⟨k - 1, by omega⟩
    refine ⟨f, mem_iff_getElem?.mpr ⟨i, ?_⟩, Thread.calls_iff.mpr ⟨id, b, hb⟩⟩
    have hlt : i < recursionScan := hle
    rw [getElem?_take, if_pos hlt, hframe, hk]

/-- A call in normal mode enters the definition; it gives way if it counts as recursive, and changes
nothing else. -/
theorem Turn.enterProcedure_plain {s : Turn σ} {definition : BlockId}
    (hdefined : s.thread.sheet.definition? proccode = some definition)
    (hnormal : s.thread.isWarp = false) (hplain : ∀ signature, s.thread.sheet.signature? proccode =
      .ok (some signature) → signature.warp = false) :
    s.enterProcedure proccode = { s with
      thread := { s.thread.push (some definition) with
        status := if s.thread.isRecursive proccode then .yield else s.thread.status } } := by
  have hmode : (s.thread.push (some definition)).isWarp = false := hnormal
  unfold Turn.enterProcedure
  rw [hdefined]
  dsimp only
  rw [hmode]
  simp only [Bool.false_eq_true, if_false]
  cases hsignature : (s.thread.push (some definition)).sheet.signature? proccode with
  | error e => cases s.thread.isRecursive proccode <;> rfl
  | ok signature? =>
    cases signature? with
    | none => cases s.thread.isRecursive proccode <;> rfl
    | some signature =>
      dsimp only
      rw [hplain signature hsignature]
      cases s.thread.isRecursive proccode <;> rfl

/-- **A recursive call in normal mode gives way, if the calls stand close together.** A thread that
enters the definition of a procedure gives way to others if one of the six frames below the current
one is at a call of the same procedure; otherwise its status stays. -/
theorem recursive_call_gives_way {s : Turn σ} {definition : BlockId}
    (hdefined : s.thread.sheet.definition? proccode = some definition)
    (hnormal : s.thread.isWarp = false) (hplain : ∀ signature, s.thread.sheet.signature? proccode =
      .ok (some signature) → signature.warp = false) :
    ((∃ k, 1 ≤ k ∧ k ≤ 6 ∧ s.thread.CallsAt proccode k) →
      (s.enterProcedure proccode).thread.status = .yield) ∧
    ((¬ ∃ k, 1 ≤ k ∧ k ≤ 6 ∧ s.thread.CallsAt proccode k) →
      (s.enterProcedure proccode).thread.status = s.thread.status) ∧
    (s.enterProcedure proccode).machine = s.machine ∧
    (s.enterProcedure proccode).thread.stack = { block := some definition } :: s.thread.stack := by
  rw [Turn.enterProcedure_plain hdefined hnormal hplain, ← Thread.isRecursive_iff]
  refine ⟨fun h => if_pos h, fun h => if_neg h, rfl, ?_⟩
  show { block := some definition, warp := s.thread.isWarp } :: s.thread.stack = _
  rw [hnormal]

/-! ## A procedure that calls itself from deep within -/

/-- One of the choices that stand around the inner call of `Sheet.diving`. -/
def Block.choice (id condition inner : BlockId) : Block where
  id := id
  opcode := "control_if"
  inputs := Table.of [("CONDITION", { block := some condition }),
    ("SUBSTACK", { block := some inner })]

/-- A procedure that calls itself once, from within six choices. -/
def Sheet.diving : Sheet :=
  .ofBlocks [
    { id := "first", opcode := "procedures_call", mutation := some { proccode := some "dive" },
      isTopLevel := true },
    { id := "definition", opcode := "procedures_definition", next := some "if1",
      inputs := Table.of [("custom_block", { block := some "prototype" })], isTopLevel := true },
    { id := "prototype", opcode := "procedures_prototype",
      mutation := some { proccode := some "dive" } },
    .choice "if1" "fresh" "if2", .choice "if2" "yes" "if3", .choice "if3" "yes" "if4",
    .choice "if4" "yes" "if5", .choice "if5" "yes" "if6", .choice "if6" "yes" "mark",
    { id := "yes", opcode := "operator_not" },
    { id := "fresh", opcode := "operator_not",
      inputs := Table.of [("OPERAND", { block := some "marked" })] },
    { id := "marked", opcode := "data_variable",
      fields := Table.of [("VARIABLE", { value := .text "marked" })] },
    { id := "mark", opcode := "data_setvariableto", next := some "again",
      fields := Table.of [("VARIABLE", { value := .text "marked" })],
      inputs := Table.of [("VALUE", { block := some "yes" })] },
    { id := "again", opcode := "procedures_call", mutation := some { proccode := some "dive" } }]

/-- A machine with a variable for the mark. -/
def Machine.diving : Machine Unit where
  targets := .ofList [(0, { Target.stage .diving with
    vars := Table.of [("marked",
      { id := "marked", name := "marked", content := .scalar .empty })] })]
  stage := some 0
  host := ()

/-- A thread at these blocks of `Sheet.diving`, the innermost first. -/
def Turn.diving (blocks : List BlockId) : Turn Unit :=
  ⟨.diving, { Thread.start 0 0 "first"
    .diving with stack := blocks.map fun id => { block := some id } }⟩

theorem diving_defined : Sheet.diving.definition? "dive" = some "definition" := by decide +kernel

theorem diving_plain {signature : Signature}
    (h : Sheet.diving.signature? "dive" = .ok (some signature)) :
    signature.warp = false := by
  have hread : ((Sheet.diving.signature? "dive").toOption.bind id).map (·.warp) = some false := by
    decide +kernel
  rw [h] at hread
  exact Option.some.inj hread

theorem diving_calls {blocks : List BlockId} {k : Nat} (h : blocks[k]? = some "first") :
    (Turn.diving blocks).thread.CallsAt "dive" k := by
  have hcalls : (Turn.diving []).thread.calls "dive" { block := some "first" } = true := by
    decide +kernel
  obtain ⟨id, b, hb⟩ := Thread.calls_iff.mp hcalls
  refine ⟨{ block := some "first" }, id, b, ?_, hb⟩
  show (blocks.map fun id => ({ block := some id } : Frame))[k]? = _
  rw [getElem?_map, h]
  rfl

/-- With six choices between two calls the inner one does not give way, and a whole turn goes by. -/
theorem deep_recursion_goes_on :
    (∃ (s : Turn Unit) (definition : BlockId), s.thread.sheet.definition? "dive" = some definition ∧
      s.thread.isWarp = false ∧
      (∀ signature, s.thread.sheet.signature? "dive" = .ok (some signature) →
        signature.warp = false) ∧
      s.thread.CallsAt "dive" 7 ∧ (s.enterProcedure "dive").thread.status = .running) ∧
    ((Turn.diving ["first"]).visit { Library.core with } 40).map (fun s => s.thread.isDone) =
      some true := by
  refine ⟨⟨.diving ["again", "if6", "if5", "if4", "if3", "if2", "if1", "first"], "definition",
    diving_defined, rfl, fun _ =>
    diving_plain, diving_calls rfl, by decide +kernel⟩, by decide +kernel⟩

/-- A thread at the inner call, with five choices in between. -/
def Turn.shallow : Turn Unit :=
  .diving ["again", "if5", "if4", "if3", "if2", "if1", "first"]

/-- With five choices between the calls it does. -/
theorem close_recursion_gives_way :
    Turn.shallow.thread.CallsAt "dive" 6 ∧ (Turn.shallow.enterProcedure "dive").thread.status =
      .yield := by
  have hcalls : Turn.shallow.thread.CallsAt "dive" 6 := diving_calls rfl
  have hdefined : Turn.shallow.thread.sheet.definition? "dive" = some "definition" := diving_defined
  have hnormal : Turn.shallow.thread.isWarp = false := rfl
  obtain ⟨hyields, -⟩ := recursive_call_gives_way hdefined hnormal fun _ => diving_plain
  exact ⟨hcalls, hyields ⟨6, by decide, by decide, hcalls⟩⟩

end BlockMachine

import BlockMachine.Proofs.Code.Assembly
import Mathlib.Data.List.Perm.Basic

/-!
# Remembered answers are the answers

A book gives the answers that it remembers, and what it remembers about its sheet is what asking the
sheet again would give (`Book.Agrees`): a block put on the sheet makes it forget everything, and
what it notes down it has just found out. Compiling a script looks procedures up through the same
memo and fills it on the way, whether it succeeds or gives up (`Book.Agrees.assemble`).

Results:

* `book_answers_as_sheet`: all answers of a book, in any order of creating blocks, asking and
  compiling, are those of the bare sheet at that moment. Where no two definitions and no two
  prototypes share a code (`Sheet.Unambiguous`), the order in which the blocks are searched does not
  matter either.

Left out is how long answers are kept by a machine, whose targets share the memo of their original.
-/

namespace BlockMachine

open List

variable {σ α : Type}

/-- A question about a procedure. -/
inductive Lookup where
  | definition (proccode : String)
  | signature (proccode : String)

namespace Book

/-- What may be done with a book. -/
inductive Use where
  | create (b : Block)
  | ask (l : Lookup)
  | compile (top : BlockId)

/-- What a use of a book tells. -/
inductive Answer where
  | nothing
  | definition (id : Option BlockId)
  | signature (s : Except CompileError (Option Signature))
  | program (p : Except CompileError Program)

/-- Asks a question. -/
def ask (k : Book) : Lookup → Answer × Book
  | .definition proccode => (.definition (k.definition? proccode).1, (k.definition? proccode).2)
  | .signature proccode => (.signature (k.signature? proccode).1, (k.signature? proccode).2)

def use (catalog : Catalog σ) (k : Book) : Use → Answer × Book
  | .create b => (.nothing, k.insert b)
  | .ask l => k.ask l
  | .compile top => (.program (k.program catalog top).1, (k.program catalog top).2)

/-- Uses one after the other, with what they tell. -/
def uses (catalog : Catalog σ) : Book → List Use → List Answer × Book
  | k, [] => ([], k)
  | k, u :: us =>
    let rest := uses catalog (k.use catalog u).2 us
    ((k.use catalog u).1 :: rest.1, rest.2)

end Book

namespace Sheet

/-- The sheet's own answer to a question. -/
def ask (s : Sheet) : Lookup → Book.Answer
  | .definition proccode => .definition (s.definition? proccode)
  | .signature proccode => .signature (s.signature? proccode)

/-- A use without a memo. -/
def use (catalog : Catalog σ) (s : Sheet) : Book.Use → Book.Answer × Sheet
  | .create b => (.nothing, s.insert b)
  | .ask l => (s.ask l, s)
  | .compile top => (.program (s.compile catalog top), s)

def uses (catalog : Catalog σ) : Sheet → List Book.Use → List Book.Answer × Sheet
  | s, [] => ([], s)
  | s, u :: us =>
    let rest := uses catalog (s.use catalog u).2 us
    ((s.use catalog u).1 :: rest.1, rest.2)

/-- No two definitions and no two prototypes are for one procedure. -/
structure Unambiguous (s : Sheet) : Prop where
  definitions : ∀ proccode, ∀ b ∈ s.blocks.values, ∀ b' ∈ s.blocks.values,
    s.defines proccode b = true → s.defines proccode b' = true → b = b'
  prototypes : ∀ proccode, ∀ b ∈ s.blocks.values, ∀ b' ∈ s.blocks.values,
    isPrototype proccode b = true → isPrototype proccode b' = true → b = b'

end Sheet

/-! ## Searching in any order -/

/-- Where one element at most passes the test, a search finds it in any order. -/
theorem find?_perm {l l' : List α} {p : α → Bool} (h : l'.Perm l)
    (hone : ∀ a ∈ l, ∀ b ∈ l, p a = true → p b = true → a = b) : l'.find? p = l.find? p := by
  cases hfind : l.find? p with
  | none =>
    rw [find?_eq_none] at hfind ⊢
    exact fun a ha => hfind a (h.mem_iff.mp ha)
  | some a =>
    have ha := mem_of_find?_eq_some hfind
    have hpass := find?_some hfind
    have hsome : (l'.find? p).isSome := find?_isSome.mpr ⟨a, h.mem_iff.mpr ha, hpass⟩
    obtain ⟨b, hb⟩ := Option.isSome_iff_exists.mp hsome
    have hmem := h.mem_iff.mp (mem_of_find?_eq_some hb)
    rw [hb, hone b hmem a ha (find?_some hb) hpass]

namespace Book

variable {catalog : Catalog σ} {k : Book}

section

variable (h : k.Agrees catalog)

include h

theorem Agrees.program (top : BlockId) :
    (k.program catalog top).1 = k.sheet.compile catalog top ∧
      (k.program catalog top).2.sheet = k.sheet ∧ (k.program catalog top).2.Agrees catalog := by
  unfold Book.program
  split
  · next answer hanswer => exact ⟨h.programs _ _ hanswer, rfl, h⟩
  · obtain ⟨hanswer, -, hsheet, hagrees⟩ := h.assemble top
    have hnoted := hagrees.programs.note top
    rw [congrFun (congrArg (Sheet.compile · catalog) hsheet) top, ← hanswer] at hnoted
    exact ⟨hanswer, hsheet, hagrees.definitions, hagrees.signatures, hnoted⟩

theorem Agrees.ask (l : Lookup) :
    (k.ask l).1 = k.sheet.ask l ∧ (k.ask l).2.sheet = k.sheet ∧ (k.ask l).2.Agrees catalog := by
  cases l with
  | definition proccode =>
    obtain ⟨hanswer, hrest⟩ := h.definition? proccode
    exact ⟨congrArg Answer.definition hanswer, hrest⟩
  | signature proccode =>
    obtain ⟨hanswer, hrest⟩ := h.signature? proccode
    exact ⟨congrArg Answer.signature hanswer, hrest⟩

/-- A use tells what it would without a memo, and the memo stays right. -/
theorem Agrees.use (u : Use) :
    (k.use catalog u).1 = (k.sheet.use catalog u).1 ∧
      (k.use catalog u).2.sheet = (k.sheet.use catalog u).2 ∧
      (k.use catalog u).2.Agrees catalog := by
  cases u with
  | create b => exact ⟨rfl, rfl, .new _⟩
  | ask l => exact h.ask l
  | compile top =>
    obtain ⟨hanswer, hrest⟩ := h.program top
    exact ⟨congrArg Answer.program hanswer, hrest⟩

/-- The same of any number of uses. -/
theorem Agrees.uses (us : List Use) :
    (k.uses catalog us).1 = (k.sheet.uses catalog us).1 ∧
      (k.uses catalog us).2.sheet = (k.sheet.uses catalog us).2 ∧
      (k.uses catalog us).2.Agrees catalog := by
  induction us generalizing k with
  | nil => exact ⟨rfl, rfl, h⟩
  | cons u us ih =>
    obtain ⟨hanswer, hsheet, hagrees⟩ := h.use u
    obtain ⟨hanswers, hrest⟩ := ih hagrees
    rw [hsheet] at hanswers hrest
    exact ⟨congrArg₂ cons hanswer hanswers, hrest⟩

end

/-- What a book has assembled after any uses is the sheet's code, with every jump patched. -/
theorem uses_assemble (catalog : Catalog σ) (s : Sheet) (us : List Use) (top : BlockId) :
    ((Book.uses catalog { sheet := s } us).2.assemble catalog top).1 =
        (s.uses catalog us).2.compile catalog top ∧
      ((Book.uses catalog { sheet := s } us).2.assemble catalog top).2.strays = [] := by
  have hnew : Book.Agrees catalog { sheet := s } := .new s
  obtain ⟨-, hsheet, hagrees⟩ := hnew.uses us
  obtain ⟨hanswer, hstrays, -⟩ := hagrees.assemble top
  rw [hsheet] at hanswer
  exact ⟨hanswer, hstrays⟩

/-- A script that compiles is assembled. -/
theorem assembles {catalog : Catalog σ} {s : Sheet} {top : BlockId} {p : Program}
    (h : s.compile catalog top = .ok p) :
    ∃ a, (Book.uses catalog { sheet := s } []).2.assemble catalog top = (.ok p, a) :=
  ⟨_, Prod.ext ((uses_assemble catalog s [] top).1.trans h) rfl⟩

end Book

/-- **Remembering changes no answer.** However creating blocks, asking for procedures and compiling
scripts follow each other, all answers are those given without a memo on the blocks there at that
moment; a compilation that failed and is remembered is one that would fail in the same way again. If
no two definitions and no two prototypes then share a code, every order of searching the blocks
finds the same ones. -/
theorem book_answers_as_sheet (catalog : Catalog σ) (s : Sheet) (us : List Book.Use) :
    let k := (Book.uses catalog { sheet := s } us).2
    (Book.uses catalog { sheet := s } us).1 = (s.uses catalog us).1 ∧
    k.sheet = (s.uses catalog us).2 ∧
    (∀ proccode, (k.definition? proccode).1 = k.sheet.definition? proccode) ∧
    (∀ proccode, (k.signature? proccode).1 = k.sheet.signature? proccode) ∧
    (∀ top e, (k.program catalog top).1 = .error e ↔ k.sheet.compile catalog top = .error e) ∧
    (∀ top e, k.memo.programs[top]? = some (.error e) → k.sheet.compile catalog top = .error e) ∧
    (k.sheet.Unambiguous → ∀ blocks : List Block, blocks.Perm k.sheet.blocks.values → ∀ proccode,
      blocks.find? (k.sheet.defines proccode) =
        k.sheet.blocks.values.find? (k.sheet.defines proccode) ∧
      blocks.find? (Sheet.isPrototype proccode) =
        k.sheet.blocks.values.find? (Sheet.isPrototype proccode)) := by
  intro k
  have hnew : Book.Agrees catalog { sheet := s } := .new s
  obtain ⟨hanswers, hsheet, hagrees⟩ := hnew.uses us
  refine ⟨hanswers, hsheet, fun proccode => (hagrees.definition? proccode).1,
    fun proccode => (hagrees.signature? proccode).1, fun top e => ?_,
    fun top e hfailed => (hagrees.programs top _ hfailed).symm, ?_⟩
  · rw [(hagrees.program top).1]
  · intro hone blocks hperm proccode
    exact ⟨find?_perm hperm (hone.definitions proccode),
      find?_perm hperm (hone.prototypes proccode)⟩

end BlockMachine

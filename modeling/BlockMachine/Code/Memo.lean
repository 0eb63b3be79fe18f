import BlockMachine.Code.Compile

/-!
# Remembered answers

Looking up procedures and compiling scripts is done once for a sheet: a book keeps the answers
beside the sheet, failures too, and forgets them when a block is put on the sheet.
-/

namespace BlockMachine

/-- The answers given about a sheet. -/
structure Memo where
  definitions : Table (Option BlockId) := ∅
  signatures : Table (Except CompileError (Option Signature)) := ∅
  programs : Table (Except CompileError Program) := ∅

instance : Inhabited Memo := ⟨{}⟩

/-- A sheet with the answers given about it. -/
structure Book where
  sheet : Sheet
  memo : Memo := {}

namespace Book

/-- Puts a block on the sheet. -/
def insert (k : Book) (b : Block) : Book :=
  { sheet := k.sheet.insert b }

/-- The definition block of a procedure. -/
def definition? (k : Book) (proccode : String) : Option BlockId × Book :=
  match k.memo.definitions[proccode]? with
  | some answer => (answer, k)
  | none =>
    let answer := k.sheet.definition? proccode
    (answer, { k with memo.definitions := k.memo.definitions.insert proccode answer })

/-- The signature of a procedure. -/
def signature? (k : Book) (proccode : String) : Except CompileError (Option Signature) × Book :=
  match k.memo.signatures[proccode]? with
  | some answer => (answer, k)
  | none =>
    let answer := k.sheet.signature? proccode
    (answer, { k with memo.signatures := k.memo.signatures.insert proccode answer })

end Book
end BlockMachine

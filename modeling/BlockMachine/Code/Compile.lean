import BlockMachine.Code.Lower

/-!
# Compilation

Compiles the script under a hat together with the procedures that it reaches. Blocks with a lowering
have instructions of their own; other blocks with a primitive are called through it. The depth of
the recursion is bounded by the number of blocks: a chain of blocks that is longer, through bodies
of procedures at most twice each, goes in a circle.
-/

namespace BlockMachine

namespace Context

variable {σ : Type}

/-- The literal of a block. -/
def literal (b : Block) (field : String) : Value :=
  (b.fields[field]?.map Field.value).getD Value.empty

/-- The value of a number field: text that reads as a number is that number, other text stays. -/
def numberLiteral : Value → Value
  | .text s =>
    let x := Numeral.read s
    if x.isNaN || (Value.text s).isBlank then .text s else .number x
  | v => v

/-- The opcodes of number fields. -/
def isNumberField (opcode : String) : Bool :=
  ["math_number", "math_positive_number", "math_whole_number", "math_integer",
    "math_angle"].contains opcode

/-- The value of a block that stands for a literal. -/
def literal? (b : Block) : Option Value :=
  if isNumberField b.opcode then some (numberLiteral (literal b "NUM"))
  else if b.opcode == "text" then some (literal b "TEXT")
  else if b.opcode == "colour_picker" then some (literal b "COLOUR")
  else none

/-- Compiles a reporter with the help of a descent for its parts. -/
def reporterWith (ctx : Context σ) (d : Descent σ) (b : Block) : Compile (Code × Operand) := do
  match literal? b with
  | some v => return ([], .const v)
  | none =>
    match ctx.catalog.lowering? b.opcode with
    | some (.reporter r) => r.lower ctx d b
    | some (.statement _) => .fail (.unknownOpcode b.opcode)
    | none =>
      if ctx.catalog.hasPrimitive b.opcode then
        let slot ← Draft.newSlot
        let code ← ctx.primitiveCall d b (some slot)
        return (code, .dynamic (.slot slot))
      else
        match b.soleField? with
        | some f => return ([], .const f.value)
        | none => .fail (.unknownOpcode b.opcode)

/-- Compiles a statement that starts at index `pc`. -/
def statementWith (ctx : Context σ) (d : Descent σ) (pc : Nat) (b : Block) : Compile Code := do
  match ctx.catalog.lowering? b.opcode with
  | some (.statement s) => s.lower ctx d pc b
  | some (.reporter r) =>
    let (code, _) ← r.lower ctx d b
    return code
  | none =>
    if ctx.catalog.hasPrimitive b.opcode then ctx.primitiveCall d b none
    else if ctx.catalog.isHat b.opcode then return []
    else .fail (.unknownOpcode b.opcode)

/-- Compiles a stack that starts at index `pc`. -/
def stackWith (ctx : Context σ) (d : Descent σ) (pc : Nat) : Option BlockId → Compile Code
  | none => return []
  | some id => do
    let b ← ctx.block id
    let code ← ctx.statementWith d pc b
    let rest ← d.stack ctx (pc + code.length) b.next
    return code ++ rest

end Context

namespace Descent

variable {σ : Type}

mutual

/-- Compiles a stack, going down `depth` blocks at most. -/
def compileStack (depth : Nat) (ctx : Context σ) (pc : Nat) (first : Option BlockId) :
    Compile Code :=
  match depth with
  | 0 => .fail .endless
  | depth + 1 => ctx.stackWith ⟨compileStack depth, compileReporter depth⟩ pc first

/-- Compiles a reporter, going down `depth` blocks at most. -/
def compileReporter (depth : Nat) (ctx : Context σ) (b : Block) : Compile (Code × Operand) :=
  match depth with
  | 0 => .fail .endless
  | depth + 1 => ctx.reporterWith ⟨compileStack depth, compileReporter depth⟩ b

end

/-- Goes down `depth` blocks at most. -/
def ofDepth (depth : Nat) : Descent σ :=
  ⟨compileStack depth, compileReporter depth⟩

end Descent

namespace Sheet

variable {σ : Type}

/-- The first block after the hats and definitions at the top of a script. -/
def skipHats (s : Sheet) (catalog : Catalog σ) :
    Nat → Option BlockId → Except CompileError (Option BlockId)
  | _, none => .ok none
  | 0, some _ => .error .endless
  | fuel + 1, some id =>
    match s.block? id with
    | none => .error (.missingBlock id)
    | some b =>
      if catalog.isHat b.opcode || b.opcode == "procedures_definition" then
        s.skipHats catalog fuel b.next
      else .ok (some id)

/-- How deep compilation can go: a chain of blocks in the script and in each of the two bodies of
every procedure. -/
def compileDepth (s : Sheet) : Nat :=
  (2 * s.blocks.size + 2) * (s.blocks.size + 2)

/-- Compiles the script with that top block, and the procedures that it reaches. -/
def compileDraft (s : Sheet) (catalog : Catalog σ) (top : BlockId) :
    Except Failure (Script × Draft) :=
  match s.skipHats catalog (s.blocks.size + 1) (some top) with
  | .error e => .error { error := e }
  | .ok first =>
    let ctx : Context σ := { catalog, sheet := s }
    (ctx.script (Descent.ofDepth s.compileDepth) ("script " ++ Text.quote top) first).run {}

/-- The compiled script with that top block. -/
def compile (s : Sheet) (catalog : Catalog σ) (top : BlockId) : Except CompileError Program :=
  match s.compileDraft catalog top with
  | .error failure => .error failure.error
  | .ok (script, draft) => .ok { script, procedures := draft.bodies }

end Sheet
end BlockMachine

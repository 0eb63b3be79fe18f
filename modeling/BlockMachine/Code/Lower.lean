import BlockMachine.Code.Draft
import BlockMachine.Library.Flow

/-!
# Lowering

The code of each kind of statement and the operand of each kind of reporter. Loops end each round
with a yield and jump back; a condition that is constant decides at once.
-/

namespace BlockMachine

namespace Reporter

variable {σ : Type}

/-- The operand of one input. -/
def unary (ctx : Context σ) (d : Descent σ) (b : Block) (name : String)
    (f : Operand → Operand) : Compile (Code × Operand) := do
  let (code, o) ← ctx.input d b name
  return (code, f o)

/-- The operand of two inputs. -/
def binary (ctx : Context σ) (d : Descent σ) (b : Block) (first second : String)
    (f : Operand → Operand → Operand) : Compile (Code × Operand) := do
  let (code, o) ← ctx.input d b first
  let (code', o') ← ctx.input d b second
  return (code ++ code', f o o')

/-- Operands that are both known to be numbers are compared as such. -/
def compared (op : Comparison) (a b : Operand) : Operand :=
  if a.isAlwaysNumber && b.isAlwaysNumber then
    .folded (.compareNumbers op a.asRawNumber b.asRawNumber) .bool
  else .folded (.compare op a.expr b.expr) .bool

/-- The inputs that a reporter reads. -/
def inputs : Reporter → List String
  | .var | .listText | .listLength | .timer | .argument _ => []
  | .listItem => ["INDEX"]
  | .listPosition | .listContains => ["ITEM"]
  | .arithmetic _ => ["NUM1", "NUM2"]
  | .compare _ | .and | .or => ["OPERAND1", "OPERAND2"]
  | .not => ["OPERAND"]
  | .random => ["FROM", "TO"]
  | .join | .includes => ["STRING1", "STRING2"]
  | .letter => ["LETTER", "STRING"]
  | .length => ["STRING"]
  | .round | .math => ["NUM"]

/-- The operand of a reporter, from those of its inputs. -/
def operand (names : List String) (b : Block) (os : String → Operand) : Reporter → Operand
  | .var => .dynamic (.var (b.ref "VARIABLE"))
  | .listText => ⟨.listText (b.ref "LIST"), .text⟩
  | .listItem => .dynamic (.listItem (b.ref "LIST") (os "INDEX").expr)
  | .listPosition => ⟨.listPosition (b.ref "LIST") (os "ITEM").expr, .alwaysNumber⟩
  | .listLength => ⟨.listLength (b.ref "LIST"), .alwaysNumber⟩
  | .listContains => ⟨.listContains (b.ref "LIST") (os "ITEM").expr, .bool⟩
  | .arithmetic op => .folded (.arithmetic op (os "NUM1").asNumber (os "NUM2").asNumber) .number
  | .compare op => compared op (os "OPERAND1") (os "OPERAND2")
  | .and => .folded (.and (os "OPERAND1").asBool (os "OPERAND2").asBool) .bool
  | .or => .folded (.or (os "OPERAND1").asBool (os "OPERAND2").asBool) .bool
  | .not => .folded (.not (os "OPERAND").asBool) .bool
  | .random => ⟨.random (os "FROM").expr (os "TO").expr, .alwaysNumber⟩
  | .join => .folded (.join (os "STRING1").asText (os "STRING2").asText) .text
  | .letter => .folded (.letter (os "LETTER").asNumber (os "STRING").asText) .text
  | .length => .folded (.length (os "STRING").asText) .alwaysNumber
  | .includes => .folded (.includes (os "STRING1").asText (os "STRING2").asText) .bool
  | .round => .folded (.round (os "NUM").asNumber) .alwaysNumber
  | .math =>
    match MathFunction.ofName? (b.fieldText "OPERATOR") with
    | some f => .folded (.math f (os "NUM").asNumber) .number
    | none => .const (.number 0.0)
  | .timer => ⟨.timer, .alwaysNumber⟩
  | .argument default =>
    if names.contains (b.fieldText "VALUE") then .dynamic (.argument (b.fieldText "VALUE") default)
    else .const default

def lower (ctx : Context σ) (d : Descent σ) (b : Block) : Reporter → Compile (Code × Operand)
  | .var => return ([], .dynamic (.var (b.ref "VARIABLE")))
  | .listText => return ([], ⟨.listText (b.ref "LIST"), .text⟩)
  | .listItem => unary ctx d b "INDEX" fun o => .dynamic (.listItem (b.ref "LIST") o.expr)
  | .listPosition =>
    unary ctx d b "ITEM" fun o => ⟨.listPosition (b.ref "LIST") o.expr, .alwaysNumber⟩
  | .listLength => return ([], ⟨.listLength (b.ref "LIST"), .alwaysNumber⟩)
  | .listContains => unary ctx d b "ITEM" fun o => ⟨.listContains (b.ref "LIST") o.expr, .bool⟩
  | .arithmetic op =>
    binary ctx d b "NUM1" "NUM2" fun x y =>
      .folded (.arithmetic op x.asNumber y.asNumber) .number
  | .compare op => binary ctx d b "OPERAND1" "OPERAND2" (compared op)
  | .and => binary ctx d b "OPERAND1" "OPERAND2" fun x y => .folded (.and x.asBool y.asBool) .bool
  | .or => binary ctx d b "OPERAND1" "OPERAND2" fun x y => .folded (.or x.asBool y.asBool) .bool
  | .not => unary ctx d b "OPERAND" fun x => .folded (.not x.asBool) .bool
  | .random => binary ctx d b "FROM" "TO" fun x y => ⟨.random x.expr y.expr, .alwaysNumber⟩
  | .join =>
    binary ctx d b "STRING1" "STRING2" fun x y => .folded (.join x.asText y.asText) .text
  | .letter =>
    binary ctx d b "LETTER" "STRING" fun x y => .folded (.letter x.asNumber y.asText) .text
  | .length => unary ctx d b "STRING" fun x => .folded (.length x.asText) .alwaysNumber
  | .includes =>
    binary ctx d b "STRING1" "STRING2" fun x y => .folded (.includes x.asText y.asText) .bool
  | .round => unary ctx d b "NUM" fun x => .folded (.round x.asNumber) .alwaysNumber
  | .math =>
    unary ctx d b "NUM" fun x =>
      match MathFunction.ofName? (b.fieldText "OPERATOR") with
      | some f => .folded (.math f x.asNumber) .number
      | none => .const (.number 0.0)
  | .timer => return ([], ⟨.timer, .alwaysNumber⟩)
  | .argument default =>
    let name := b.fieldText "VALUE"
    return ([], if ctx.params.contains name then .dynamic (.argument name default)
      else .const default)

end Reporter

namespace Statement

variable {σ : Type}

/-- An instruction on one input. -/
def simple (ctx : Context σ) (d : Descent σ) (b : Block) (name : String)
    (f : Operand → Instr Script) : Compile Code := do
  let (code, o) ← ctx.input d b name
  return code ++ [f o]

/-- An instruction on an index and an item. -/
def placing (ctx : Context σ) (d : Descent σ) (b : Block)
    (f : VarRef → Expr → Expr → Instr Script) : Compile Code := do
  let (code, index) ← ctx.input d b "INDEX"
  let (code', item) ← ctx.input d b "ITEM"
  return code ++ code' ++ [f (b.ref "LIST") index.expr item.expr]

/-- A test, a body and a jump back to the test; `exit` makes the test, which leaves the loop. -/
def loop (ctx : Context σ) (d : Descent σ) (b : Block) (pc : Nat) (pre : Code) (back : Nat)
    (exit : Nat → Instr Script) : Compile Code := do
  let test := pc + pre.length
  let body ← ctx.substack d (test + 1) b "SUBSTACK"
  return pre ++ exit (test + body.length + 3) :: body ++ [ctx.loopYield, .jump back]

/-- The arguments of a call, by parameter name: the input with the parameter's id, else the
default. -/
def bindings (ctx : Context σ) (d : Descent σ) (b : Block) :
    List ((String × String) × Option Value) → Compile (Code × List (String × Expr))
  | [] => return ([], [])
  | ((id, name), default?) :: rest => do
    let (pre, e) ← match b.inputBlock? id with
      | some _ =>
        let (pre, o) ← ctx.input d b id
        pure (pre, o.expr)
      | none => pure ([], Expr.const (default?.getD Value.empty))
    let (code, args) ← bindings ctx d b rest
    return (pre ++ code, (name, e) :: args)

/-- The parameters of a procedure with their defaults. -/
def parameters (s : Signature) : List ((String × String) × Option Value) :=
  (s.ids.zip s.names).zipIdx.map fun (p, i) => (p, s.defaults[i]?)

/-- Binds the arguments and calls the body. A call in warp mode, and one of a procedure whose body
is still being compiled, yields first. -/
def calling (ctx : Context σ) (d : Descent σ) (b : Block) : Compile Code := do
  match b.proccode? with
  | none => return [.nop "call without a proccode"]
  | some proccode =>
    let signature ← match ctx.sheet.signature? proccode with
      | .ok s => pure (s.getD {})
      | .error e => .fail e
    match ← ctx.procedure d proccode signature with
    | none => return [.nop (Text.quote proccode ++ " has no definition")]
    | some key =>
      let (code, args) ← bindings ctx d b (parameters signature)
      let isRecursive := match (← get).body? key with
        | some none => true
        | _ => false
      let pause := if ctx.warp then [.yieldIfNeeded] else if isRecursive then [.yield] else []
      return code ++ pause ++ [.call key args]

/-- The code of a statement that starts at index `pc`. -/
def lower (ctx : Context σ) (d : Descent σ) (pc : Nat) (b : Block) : Statement → Compile Code
  | .ifThen => do
    let (pre, condition) ← ctx.input d b "CONDITION"
    let test := pc + pre.length
    match condition.expr.const? with
    | some v =>
      if v.toBool then return pre ++ (← ctx.substack d test b "SUBSTACK") else return pre
    | none =>
      let body ← ctx.substack d (test + 1) b "SUBSTACK"
      return pre ++ .jumpUnless condition.asBool (test + 1 + body.length) :: body
  | .ifElse => do
    let (pre, condition) ← ctx.input d b "CONDITION"
    let test := pc + pre.length
    let body ← ctx.substack d (test + 1) b "SUBSTACK"
    let other := test + 1 + body.length + 1
    let body' ← ctx.substack d other b "SUBSTACK2"
    return pre ++ .jumpUnless condition.asBool other :: body
      ++ .jump (other + body'.length) :: body'
  | .repeatTimes => do
    let (pre, times) ← ctx.input d b "TIMES"
    let slot ← Draft.newSlot
    loop ctx d b pc (pre ++ [.repeatInit slot times.asNumber]) (pc + pre.length + 1)
      (.repeatTest slot)
  | .repeatUntil => do
    let (pre, condition) ← ctx.input d b "CONDITION"
    loop ctx d b pc pre pc (.jumpIf condition.asBool)
  | .repeatWhile => do
    let (pre, condition) ← ctx.input d b "CONDITION"
    loop ctx d b pc pre pc (.jumpUnless condition.asBool)
  | .forever => do
    let body ← ctx.substack d pc b "SUBSTACK"
    return body ++ [ctx.loopYield, .jump pc]
  | .wait => simple ctx d b "DURATION" fun o => .wait o.asNumber
  | .waitUntil => do
    let (pre, condition) ← ctx.input d b "CONDITION"
    return pre ++ [.jumpIf condition.asBool (pc + pre.length + 3), ctx.loopYield, .jump pc]
  | .stop =>
    let option := b.fieldText "STOP_OPTION"
    match Library.Flow.stopOption? option with
    | some option => return [.stop option]
    | none => return [.nop ("unknown stop option " ++ Text.quote option)]
  | .allAtOnce => ctx.substack d pc b "SUBSTACK"
  | .setVariable => simple ctx d b "VALUE" fun o => .setVariable (b.ref "VARIABLE") o.expr
  | .changeVariable =>
    simple ctx d b "VALUE" fun o => .changeVariable (b.ref "VARIABLE") o.asNumber
  | .addToList => simple ctx d b "ITEM" fun o => .addToList (b.ref "LIST") o.expr
  | .deleteOfList => simple ctx d b "INDEX" fun o => .deleteOfList (b.ref "LIST") o.expr
  | .clearList => return [.clearList (b.ref "LIST")]
  | .insertAtList => placing ctx d b .insertAtList
  | .replaceInList => placing ctx d b .replaceInList
  | .call => calling ctx d b

end Statement
end BlockMachine

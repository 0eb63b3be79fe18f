import BlockMachine.Code.Instr

/-!
# Listings

Compiled code as text: a heading with the number of local slots, then an instruction a line with its
index. Names of variables and procedures are quoted.
-/

namespace BlockMachine

def Comparison.symbol : Comparison → String
  | .less => "<"
  | .greater => ">"
  | .equals => "=="

def Arithmetic.symbol : Arithmetic → String
  | .add => "+"
  | .subtract => "-"
  | .multiply => "*"
  | .divide => "/"
  | .modulo => "mod"

def VarRef.listing (r : VarRef) : String :=
  Text.quote r.name

/-- A local slot. -/
def slotListing (n : Nat) : String :=
  "%" ++ Nat.repr n

/-- An instruction that is jumped to. -/
def targetListing (n : Nat) : String :=
  "@" ++ Nat.repr n

namespace Expr

/-- A function applied to texts. -/
def applied (f : String) (args : List String) : String :=
  f ++ "(" ++ String.intercalate ", " args ++ ")"

/-- Two operands around a symbol. -/
def infixed (a symbol b : String) : String :=
  "(" ++ a ++ " " ++ symbol ++ " " ++ b ++ ")"

def listing : Expr → String
  | .const (.text s) => Text.quote s
  | .const v => v.toText
  | .slot n => slotListing n
  | .argument name _ => applied "arg" [Text.quote name]
  | .var ref => applied "var" [ref.listing]
  | .listText list => applied "contents" [list.listing]
  | .listItem list index => applied "item" [list.listing, index.listing]
  | .listLength list => applied "length" [list.listing]
  | .listContains list item => applied "contains" [list.listing, item.listing]
  | .listPosition list item => applied "index_of" [list.listing, item.listing]
  | .toNumber e => applied "number" [e.listing]
  | .rawNumber e => applied "js_number" [e.listing]
  | .zeroNaN e => applied "nan_to_zero" [e.listing]
  | .toText e => applied "string" [e.listing]
  | .toBool e => applied "bool" [e.listing]
  | .arithmetic op a b => infixed a.listing op.symbol b.listing
  | .compare op a b => "compare" ++ infixed a.listing op.symbol b.listing
  | .compareNumbers op a b => infixed a.listing op.symbol b.listing
  | .and a b => infixed a.listing "&&" b.listing
  | .or a b => infixed a.listing "||" b.listing
  | .not e => "!" ++ e.listing
  | .join a b => applied "join" [a.listing, b.listing]
  | .letter index text => applied "letter" [index.listing, text.listing]
  | .length e => applied "strlen" [e.listing]
  | .includes text part => applied "includes" [text.listing, part.listing]
  | .round e => applied "round" [e.listing]
  | .math f e => applied f.label [e.listing]
  | .random a b => applied "random" [a.listing, b.listing]
  | .timer => applied "timer" []

end Expr

def StopOption.label : StopOption → String
  | .all => "All"
  | .thisScript => "ThisScript"
  | .otherScripts => "OtherScripts"

/-- Arguments by name. -/
def argsListing (args : List (String × Expr)) : String :=
  String.intercalate ", " (args.map fun (name, e) => name ++ ": " ++ e.listing)

def PrimitiveCall.listing {σ : Type} (c : PrimitiveCall σ) : String :=
  let dest := match c.dest with
    | some slot => slotListing slot ++ " = "
    | none => ""
  let branches :=
    if c.branches.isEmpty then "" else " with " ++ Nat.repr c.branches.length ++ " branches"
  dest ++ "compat " ++ c.opcode ++ " (" ++ argsListing c.args ++ ")" ++ branches

def Instr.listing {σ : Type} : Instr σ → String
  | .setVariable var value => "set " ++ var.listing ++ " = " ++ value.listing
  | .changeVariable var amount => "change " ++ var.listing ++ " += " ++ amount.listing
  | .addToList list item => "push " ++ list.listing ++ " " ++ item.listing
  | .deleteOfList list index => "delete " ++ list.listing ++ "[" ++ index.listing ++ "]"
  | .clearList list => "clear " ++ list.listing
  | .insertAtList list index item =>
    "insert " ++ list.listing ++ "[" ++ index.listing ++ "] " ++ item.listing
  | .replaceInList list index item =>
    "replace " ++ list.listing ++ "[" ++ index.listing ++ "] " ++ item.listing
  | .store slot value => slotListing slot ++ " = " ++ value.listing
  | .jump target => "jump " ++ targetListing target
  | .jumpUnless condition target =>
    "unless " ++ condition.listing ++ " jump " ++ targetListing target
  | .jumpIf condition target => "if " ++ condition.listing ++ " jump " ++ targetListing target
  | .repeatInit slot times => slotListing slot ++ " = round(" ++ times.listing ++ ")"
  | .repeatTest slot exit =>
    "if " ++ slotListing slot ++ " < 0.5 jump " ++ targetListing exit ++ " else "
      ++ slotListing slot ++ " -= 1"
  | .yield => "yield"
  | .yieldIfNeeded => "yield if stuck"
  | .yieldTick => "yield tick"
  | .wait duration => "wait " ++ duration.listing ++ "s"
  | .call key args =>
    "call " ++ Text.quote key.proccode ++ (if key.warp then " (warp)" else "") ++ " ("
      ++ argsListing args ++ ")"
  | .primitive c => c.listing
  | .stop option => "stop " ++ option.label
  | .nop comment => "nop // " ++ comment

/-- An index filled up with blanks to three characters. -/
def indexListing (n : Nat) : String :=
  let digits := Nat.repr n
  digits ++ String.ofList (List.replicate (3 - digits.length) ' ')

/-- The listing of a script, each line ended. -/
def Script.listing (s : Script) : String :=
  let heading :=
    s.name ++ (if s.warp then " warp" else "") ++ " (" ++ Nat.repr s.locals ++ " locals):\n"
  let line (entry : Instr Script × Nat) : String :=
    "  @" ++ indexListing entry.2 ++ " " ++ entry.1.listing ++ "\n"
  heading ++ String.join (s.code.toList.zipIdx.map line)

end BlockMachine

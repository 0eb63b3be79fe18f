import BlockMachine.Json.Basic

/-!
# Reading JSON

`Json.read` gives the tree of a text and whether the whole text was JSON. Reading goes from left to
right and stops at the first character that does not fit.
-/

namespace BlockMachine.Json

/-- What was read, and what is left of the text; `none` when reading stopped. -/
structure Reading (α : Type) where
  result : α
  rest : Option (List Char)

def stopped : Reading Json := ⟨.unread, none⟩

/-- Drops the blanks allowed between tokens. -/
def skip (cs : List Char) : List Char :=
  cs.dropWhile fun c => c == ' ' || c == '\n' || c == '\t' || c == '\r'

/-- Four hexadecimal digits. -/
def readHex : List Char → Option (Nat × List Char)
  | a :: b :: c :: d :: cs => (Numeral.digitsValue? 16 [a, b, c, d]).map (·, cs)
  | _ => none

/-- A low surrogate as a second escape. -/
def readLowSurrogate : List Char → Option (Nat × List Char)
  | '\\' :: 'u' :: cs => (readHex cs).filter fun (low, _) => 0xdc00 ≤ low && low ≤ 0xdfff
  | _ => none

/-- The character of an escape after `\u`, a high surrogate together with its low one; none for the
code of a lone surrogate. -/
def readEscapedCode (cs : List Char) : Option (Option Char × List Char) :=
  (readHex cs).map fun (code, cs) =>
    if 0xd800 ≤ code && code ≤ 0xdbff then
      match readLowSurrogate cs with
      | some (low, cs) =>
        (some (Char.ofNat (0x10000 + (code - 0xd800) * 1024 + (low - 0xdc00))), cs)
      | none => (none, cs)
    else if 0xdc00 ≤ code && code ≤ 0xdfff then (none, cs)
    else (some (Char.ofNat code), cs)

/-- The character an escape letter stands for. -/
def simpleEscape? : Char → Option Char
  | '"' => some '"'
  | '\\' => some '\\'
  | '/' => some '/'
  | 'b' => some '\x08'
  | 'f' => some '\x0c'
  | 'n' => some '\n'
  | 'r' => some '\r'
  | 't' => some '\t'
  | _ => none

/-- The characters of a text up to its closing quote, those before given in reverse. The text is
none once an escape stood for no character. -/
def readText : Nat → Option (List Char) → List Char → Option (Option String × List Char)
  | 0, _, _ => none
  | _ + 1, _, [] => none
  | _ + 1, acc, '"' :: cs => some (acc.map fun before => String.ofList before.reverse, cs)
  | fuel + 1, acc, '\\' :: 'u' :: cs =>
    match readEscapedCode cs with
    | some (c?, cs) => readText fuel (c?.bind fun c => acc.map (c :: ·)) cs
    | none => none
  | _ + 1, _, ['\\'] => none
  | fuel + 1, acc, '\\' :: e :: cs =>
    match simpleEscape? e with
    | some c => readText fuel (acc.map (c :: ·)) cs
    | none => none
  | fuel + 1, acc, c :: cs =>
    if c.toNat < 0x20 then none else readText fuel (acc.map (c :: ·)) cs

/-- The digits before the point: a zero alone, or digits that do not start with zero. -/
def readWhole (cs : List Char) : Option (List Char × List Char) :=
  let (digits, rest) := Numeral.splitDigits cs
  match digits with
  | [] => none
  | '0' :: _ :: _ => none
  | _ => some (digits, rest)

/-- An optional point with at least one digit after it. -/
def readFraction : List Char → Option (Option (List Char) × List Char)
  | '.' :: cs =>
    let (digits, rest) := Numeral.splitDigits cs
    if digits.isEmpty then none else some (some digits, rest)
  | cs => some (none, cs)

/-- An optional exponent with at least one digit. -/
def readExponent : List Char → Option (Option Int × List Char)
  | c :: cs =>
    if c == 'e' || c == 'E' then
      let (negative, cs) := Numeral.splitSign cs
      let (digits, rest) := Numeral.splitDigits cs
      if digits.isEmpty then none
      else
        let n : Int := Numeral.decimalValue digits
        some (some (if negative then -n else n), rest)
    else some (none, c :: cs)
  | [] => some (none, [])

def readNumber (cs : List Char) : Option (JsonNumber × List Char) := do
  let (negative, cs) := match cs with
    | '-' :: cs => (true, cs)
    | cs => (false, cs)
  let (whole, cs) ← readWhole cs
  let (fraction, cs) ← readFraction cs
  let (exponent, cs) ← readExponent cs
  return ({ negative, whole, fraction, exponent }, cs)

/-- A word that has to stand at the head of the characters. -/
def readWord (word : String) (result : Json) (cs : List Char) : Reading Json :=
  if word.toList.isPrefixOf cs then ⟨result, some (cs.drop word.length)⟩ else stopped

/-- How many arrays and objects may stand inside each other. -/
def maxDepth : Nat := 127

mutual

/-- A document in which so many `levels` of nesting have a value. The fuel bounds the depth of the
calls, which the length of the text does too. -/
def readValue : Nat → Nat → List Char → Reading Json
  | 0, _, _ => stopped
  | fuel + 1, levels, cs =>
    match skip cs with
    | [] => stopped
    | '"' :: cs =>
      match readText (cs.length + 1) (some []) cs with
      | some (some s, rest) => ⟨.text s, some rest⟩
      | some (none, rest) => ⟨.garbled, some rest⟩
      | none => stopped
    | '[' :: cs =>
      let r : Reading (List Json) := match skip cs with
        | ']' :: rest => ⟨[], some rest⟩
        | cs => readItems fuel (levels - 1) cs
      ⟨if levels == 0 then .garbled else .array r.result, r.rest⟩
    | '\x7b' :: cs =>
      let r : Reading (List (String × Json)) := match skip cs with
        | '\x7d' :: rest => ⟨[], some rest⟩
        | cs => readFields fuel (levels - 1) cs
      ⟨if levels == 0 then .garbled else .object r.result, r.rest⟩
    | 'n' :: cs => readWord "null" .null ('n' :: cs)
    | 't' :: cs => readWord "true" (.bool true) ('t' :: cs)
    | 'f' :: cs => readWord "false" (.bool false) ('f' :: cs)
    | cs =>
      match readNumber cs with
      | some (n, rest) => ⟨.number n, some rest⟩
      | none => stopped

/-- The items of an array up to its closing bracket. -/
def readItems : Nat → Nat → List Char → Reading (List Json)
  | 0, _, _ => ⟨[.unread], none⟩
  | fuel + 1, levels, cs =>
    let v := readValue fuel levels cs
    match v.rest.map skip with
    | some (',' :: cs) =>
      let r := readItems fuel levels cs
      ⟨v.result :: r.result, r.rest⟩
    | some (']' :: rest) => ⟨[v.result], some rest⟩
    | _ => ⟨[v.result, .unread], none⟩

/-- The fields of an object up to its closing brace. A field whose name is garbled counts as
unread. -/
def readFields : Nat → Nat → List Char → Reading (List (String × Json))
  | 0, _, _ => ⟨[("", .unread)], none⟩
  | fuel + 1, levels, cs =>
    let key? := match skip cs with
      | '"' :: cs =>
        match readText (cs.length + 1) (some []) cs with
        | some (key, cs) =>
          match skip cs with
          | ':' :: cs => some (key, cs)
          | _ => none
        | none => none
      | _ => none
    match key? with
    | none => ⟨[("", .unread)], none⟩
    | some (key, cs) =>
      let v := readValue fuel levels cs
      let field := match key with
        | some key => (key, v.result)
        | none => ("", .unread)
      match v.rest.map skip with
      | some (',' :: cs) =>
        let r := readFields fuel levels cs
        ⟨field :: r.result, r.rest⟩
      | some ('\x7d' :: rest) => ⟨[field], some rest⟩
      | _ => ⟨[field, ("", .unread)], none⟩

end

/-- The tree of a text, and whether the whole text was read. -/
def read (s : String) : Json × Bool :=
  let cs := s.toList
  let r := readValue (2 * cs.length + 2) maxDepth cs
  (r.result, (r.rest.map fun rest => (skip rest).isEmpty).getD false)

end BlockMachine.Json

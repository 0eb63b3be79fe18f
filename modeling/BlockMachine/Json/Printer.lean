import BlockMachine.Json.Basic

/-!
# Writing JSON

`Json.render` writes a document without blanks. Quotes, backslashes and control characters are
escaped, every other character stands as it is.
-/

namespace BlockMachine.Json

/-- A control character as `\u` and four digits. -/
def escapeControl (c : Char) : List Char :=
  let digits := Nat.toDigits 16 c.toNat
  '\\' :: 'u' :: (List.replicate (4 - digits.length) '0' ++ digits)

def escapeChar (c : Char) : List Char :=
  if c == '"' then ['\\', '"']
  else if c == '\\' then ['\\', '\\']
  else if c.toNat < 0x20 then escapeControl c
  else [c]

def renderText (s : String) : String :=
  String.ofList ('"' :: s.toList.flatMap escapeChar ++ ['"'])

def renderNumber (n : JsonNumber) : String :=
  let fraction := match n.fraction with
    | some digits => "." ++ String.ofList digits
    | none => ""
  let exponent := match n.exponent with
    | some e => "e" ++ Int.repr e
    | none => ""
  (if n.negative then "-" else "") ++ String.ofList n.whole ++ fraction ++ exponent

mutual

def render : Json → String
  | .null => "null"
  | .bool b => if b then "true" else "false"
  | .number n => renderNumber n
  | .text s => renderText s
  | .array items => "[" ++ renderItems items ++ "]"
  | .object fields => "\x7b" ++ renderFields fields ++ "\x7d"
  | .garbled | .unread => "null"

def renderItems : List Json → String
  | [] => ""
  | [item] => item.render
  | item :: items => item.render ++ "," ++ renderItems items

def renderFields : List (String × Json) → String
  | [] => ""
  | [(key, value)] => renderText key ++ ":" ++ value.render
  | (key, value) :: fields => renderText key ++ ":" ++ value.render ++ "," ++ renderFields fields

end

end BlockMachine.Json

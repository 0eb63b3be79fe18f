import BlockMachine.Text.Unprintable

/-!
# Quoted text

Text between double quotes: a quote and a backslash take a backslash, line feed, tab, carriage
return and NUL are written by letter, other unprintable characters by their code point in braces.
-/

namespace BlockMachine.Text

/-- A code point in lower-case hexadecimal. -/
def hex (n : Nat) : List Char :=
  Nat.toDigits 16 n

/-- One character inside quotes. -/
def quoteChar (c : Char) : List Char :=
  if c == '"' then ['\\', '"']
  else if c == '\\' then ['\\', '\\']
  else if c == '\n' then ['\\', 'n']
  else if c == '\t' then ['\\', 't']
  else if c == '\r' then ['\\', 'r']
  else if c.toNat == 0 then ['\\', '0']
  else if isUnprintable c then "\\u\x7b".toList ++ hex c.toNat ++ ['\x7d']
  else [c]

/-- The text between quotes. -/
def quote (s : String) : String :=
  String.ofList ('"' :: s.toList.flatMap quoteChar ++ ['"'])

end BlockMachine.Text

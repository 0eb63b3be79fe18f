import BlockMachine.Text.CaseTable
import BlockMachine.Text.CaseContext

/-!
# Changing the case of text

`lower` and `upper` map every character by the full case mappings, so a text may grow. A capital
sigma becomes the final small sigma when a cased letter comes before it and none after it,
case-ignorable characters not counted.
-/

namespace BlockMachine.Text

/-- The image of a character: an expansion, else a range, else itself. -/
def mapCase (expansions : List (Nat × List Nat)) (ranges : List CaseRange) (c : Char) : List Char :=
  match expansions.lookup c.toNat with
  | some images => images.map Char.ofNat
  | none =>
    match ranges.findSome? (·.map? c.toNat) with
    | some image => [Char.ofNat image]
    | none => [c]

def lowerChar (c : Char) : List Char :=
  if c.toNat < 128 then [c.toLower] else mapCase lowerExpansions lowerRanges c

def upperChar (c : Char) : List Char :=
  if c.toNat < 128 then [c.toUpper] else mapCase upperExpansions upperRanges c

/-- Whether the first character that is not case-ignorable is cased. -/
def casedNext (cs : List Char) : Bool :=
  ((cs.dropWhile isCaseIgnorable).head?).any isCased

/-- The lower case of the characters, those already passed given in reverse. -/
def lowerFrom (passed : List Char) : List Char → List Char
  | [] => []
  | c :: cs =>
    let image :=
      if c == 'Σ' then [if casedNext passed && !casedNext cs then 'ς' else 'σ'] else lowerChar c
    image ++ lowerFrom (c :: passed) cs

def lower (s : String) : String :=
  String.ofList (lowerFrom [] s.toList)

def upper (s : String) : String :=
  String.ofList (s.toList.flatMap upperChar)

end BlockMachine.Text

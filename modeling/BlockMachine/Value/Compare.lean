import BlockMachine.Text.Case
import BlockMachine.Value.Basic

/-!
# Comparing values

Two values are compared as numbers when both stand for one, and as texts without regard to case when
one of them does not. A blank text stands for no number; two blanks are compared as texts, and a
blank is not comparable with a number.
-/

namespace BlockMachine.Value

/-- The place of a value among the numbers; `none` for blanks and for text that is no numeral. -/
def rank? (v : Value) : Option Int :=
  if v.isBlank then none else Number.rank? v.rawNumber

/-- A value that is neither blank nor a number forces a comparison of texts. -/
def isWordy (v : Value) : Bool :=
  v.rank?.isNone && !v.isBlank

/-- The order of the lower-case texts. -/
def compareText (a b : Value) : Ordering :=
  compareOfLessAndEq (Text.lower a.toText) (Text.lower b.toText)

/-- The order of two values; `none` when they are not comparable. -/
def compare? (a b : Value) : Option Ordering :=
  if a.isWordy || b.isWordy || (a.isBlank && b.isBlank) then some (compareText a b)
  else
    match a.rank?, b.rank? with
    | some x, some y => some (compareOfLessAndEq x y)
    | _, _ => none

def less (a b : Value) : Bool :=
  a.compare? b == some .lt

def greater (a b : Value) : Bool :=
  a.compare? b == some .gt

def equals (a b : Value) : Bool :=
  a.compare? b == some .eq

end BlockMachine.Value

import BlockMachine.Value.Basic

/-!
# Positions in lists

An index value names a position counted from one: a number is rounded down, `last` is the end,
`random` and `any` take a draw, and `all` stands for the whole list where that is accepted.
-/

namespace BlockMachine

/-- A draw from the random source: the fraction `draw / 2^31` of the unit interval. -/
abbrev Draw := Fin (2 ^ 31)

/-- Stands for a draw where none is asked for. -/
instance : OfNat Draw 0 := ⟨0, by decide⟩

/-- The fraction a draw stands for, at least zero and below one. -/
def Draw.fraction (d : Draw) : Float :=
  Float.ofNat d.val / 2147483648.0

/-- A source of draws. -/
structure Dice where
  state : UInt64
  deriving Repr, DecidableEq

namespace Dice

instance : Inhabited Dice := ⟨⟨1⟩⟩

/-- The next draw of a linear congruential source, from its upper bits. -/
def roll (d : Dice) : Draw × Dice :=
  let next := d.state * 6364136223846793005 + 1442695040888963407
  (⟨next.toNat / 2 ^ 33 % 2 ^ 31, Nat.mod_lt _ (by decide)⟩, ⟨next⟩)

end Dice

/-- What an index value denotes in a list. -/
inductive Position where
  | item (n : Nat)
  | all
  | nowhere
  deriving DecidableEq, Repr

namespace Position

/-- The position of a draw among `length` items. -/
def ofDraw (d : Draw) (length : Nat) : Nat :=
  1 + d.val * length / 2 ^ 31

/-- A whole number as a position among `length` items. -/
def ofInt (k : Int) (length : Nat) : Position :=
  if 1 ≤ k && k ≤ length then .item k.toNat else .nowhere

/-- A number as a position: rounded down. -/
def ofNumber (x : Float) (length : Nat) : Position :=
  match Number.floor? x with
  | some k => ofInt k length
  | none => .nowhere

/-- The end of a list. -/
def last (length : Nat) : Position :=
  if 0 < length then .item length else .nowhere

/-- A drawn position. -/
def drawn (d : Draw) (length : Nat) : Position :=
  if 0 < length then .item (ofDraw d length) else .nowhere

/-- The position of an index value among `length` items. -/
def resolve (index : Value) (length : Nat) (d : Draw) (acceptAll : Bool) : Position :=
  match index with
  | .text "all" => if acceptAll then .all else .nowhere
  | .text "last" => last length
  | .text "random" => drawn d length
  | .text "any" => drawn d length
  | index => ofNumber index.toNumber length

theorem ofDraw_le {d : Draw} {length : Nat} (h : 0 < length) : ofDraw d length ≤ length := by
  have hd := d.isLt
  have : d.val * length / 2 ^ 31 < length := by
    rw [Nat.div_lt_iff_lt_mul (by decide), Nat.mul_comm length]
    exact Nat.mul_lt_mul_of_pos_right hd h
  unfold ofDraw
  omega

end Position
end BlockMachine

import BlockMachine.Value.Basic

/-!
# The project timer

A stopwatch in milliseconds that is asked by name. While it is paused its reading stands still;
resuming moves the start by the length of the pause, so pauses do not count. The arithmetic is a
parameter, so that the rules can be read over doubles and over exact numbers alike.
-/

namespace BlockMachine

structure Stopwatch (τ : Type) where
  start : τ
  pausedAt : Option τ := none
  deriving Repr

namespace Stopwatch

variable {τ : Type}

/-- Seconds since the start, pauses not counted. -/
def seconds [Sub τ] [Div τ] [OfNat τ 1000] (w : Stopwatch τ) (now : τ) : τ :=
  (w.pausedAt.getD now - w.start) / 1000

/-- Starts again at `now`; a paused stopwatch stays paused. -/
def restart (w : Stopwatch τ) (now : τ) : Stopwatch τ where
  start := now
  pausedAt := w.pausedAt.map fun _ => now

/-- Stops the reading; a second pause changes nothing. -/
def pause (w : Stopwatch τ) (now : τ) : Stopwatch τ :=
  { w with pausedAt := some (w.pausedAt.getD now) }

/-- Lets the reading go on. -/
def resume [Add τ] [Sub τ] (w : Stopwatch τ) (now : τ) : Stopwatch τ :=
  match w.pausedAt with
  | some t => { start := w.start + (now - t) }
  | none => w

/-- What a question by name reports and leaves behind; `none` for an unknown name. -/
def query? [Add τ] [Sub τ] [Div τ] [OfNat τ 1000] (w : Stopwatch τ) (name : String) (now : τ) :
    Option (Option τ × Stopwatch τ) :=
  match name with
  | "projectTimer" => some (some (w.seconds now), w)
  | "resetProjectTimer" => some (none, w.restart now)
  | "pause" => some (none, w.pause now)
  | "resume" => some (none, w.resume now)
  | _ => none

/-- A stopwatch started at time zero. -/
def new [OfNat τ 0] : Stopwatch τ := { start := 0 }

end Stopwatch
end BlockMachine

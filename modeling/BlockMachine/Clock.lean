/-!
# Clocks

A clock in milliseconds. Each reading gives the time and then moves the clock by its tick, so that
reading the time takes time.
-/

namespace BlockMachine

structure Clock where
  time : Float := 0.0
  /-- How far a reading moves the clock. -/
  tick : Float := 0.0

namespace Clock

/-- Moves the clock. -/
def advance (c : Clock) (ms : Float) : Clock :=
  { c with time := c.time + ms }

/-- The time, and the clock after it was read; without a tick the clock stands still. -/
def read (c : Clock) : Float × Clock :=
  (c.time, if c.tick == 0.0 then c else c.advance c.tick)

end Clock
end BlockMachine

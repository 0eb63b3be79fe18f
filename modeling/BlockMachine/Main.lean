import BlockMachine.Session

/-!
# The command line

`blockmachine [--frames N] [--turbo] [--no-compile] [--config FILE] [--headless-fast] PROJECT` runs
a project from its flag and prints its variables at the end.
-/

open BlockMachine

/-- The text of a file; none when it cannot be read. -/
def readText? (path : String) : IO (Option String) :=
  try some <$> IO.FS.readFile path catch _ => return none

/-- Runs frames against the time of day until the session is over. -/
partial def runFrames (origin : Nat) (s : Session) : IO UInt32 := do
  if s.isOver then
    s.variableLines.forM (IO.println ·)
    return 0
  let time := Float.ofNat ((← IO.monoMsNow) - origin)
  let s := { s with machine := { s.machine with clock := { s.machine.clock with time } } }
  match s.frame with
  | none =>
    IO.eprintln "a thread does not end its turn"
    return 1
  | some (events, s) =>
    (events.filterMap Session.eventLine?).forM (IO.println ·)
    (events.filterMap Session.errorLine?).forM (IO.eprintln ·)
    if !s.isOver then IO.sleep s.pause.toUInt32
    runFrames origin s

/-- Runs the project of the options. -/
def runProject (o : Options) : IO UInt32 := do
  let config ← match o.config with
    | some path =>
      match ← readText? path with
      | some s => pure (some s)
      | none =>
        IO.eprintln ("cannot read " ++ path)
        return 1
    | none => pure none
  match ← readText? o.project with
  | none =>
    IO.eprintln ("cannot read " ++ o.project)
    return 1
  | some project =>
    match Session.start o config project with
    | .error e =>
      IO.eprintln e.message
      return 1
    | .ok none =>
      IO.eprintln "the project does not start"
      return 1
    | .ok (some s) => runFrames (← IO.monoMsNow) s

def main (args : List String) : IO UInt32 :=
  match Options.parse args with
  | some o => runProject o
  | none => do
    IO.eprintln
      ("usage: blockmachine [--frames N] [--turbo] [--no-compile] [--config FILE] " ++
        "[--headless-fast] PROJECT")
    return 2

import BlockMachine.Library.Core
import BlockMachine.Machine.Frames

/-!
# Sessions

A session runs a project from its flag without an editor, frame by frame, and prints what clicked
reporters say on the way and the variables at the end. The options are those of the command line.
-/

namespace BlockMachine

/-- What is asked for on the command line. -/
structure Options where
  /-- The file of the project. -/
  project : String
  /-- How many frames to run; until no thread is left when omitted. -/
  frames : Option Nat := none
  /-- Keeps stepping after redraw requests. -/
  turbo : Bool := false
  /-- Interprets every script. -/
  noCompile : Bool := false
  /-- The file of the settings. -/
  config : Option String := none
  /-- Does not sleep between frames. -/
  headlessFast : Bool := false

namespace Options

/-- A count: digits with an optional plus, of 64 bits at most. -/
def count? (s : String) : Option Nat :=
  Numeral.radix? 10 s.toList

/-- The options read so far; each may be given once. -/
structure Draft where
  project : Option String := none
  frames : Option Nat := none
  turbo : Bool := false
  noCompile : Bool := false
  config : Option String := none
  headlessFast : Bool := false

namespace Draft

def setProject (d : Draft) (path : String) : Option Draft :=
  if d.project.isSome || path.isEmpty then none else some { d with project := some path }

/-- An option with a value. -/
def setValue (d : Draft) (name value : String) : Option Draft :=
  match name with
  | "frames" =>
    if d.frames.isSome then none else (count? value).map fun n => { d with frames := some n }
  | "config" =>
    if d.config.isSome || value.isEmpty then none else some { d with config := some value }
  | _ => none

/-- An option without a value. -/
def setFlag (d : Draft) (name : String) : Option Draft :=
  match name with
  | "turbo" => if d.turbo then none else some { d with turbo := true }
  | "no-compile" => if d.noCompile then none else some { d with noCompile := true }
  | "headless-fast" => if d.headlessFast then none else some { d with headlessFast := true }
  | _ => none

/-- Whether an option takes a value. -/
def takesValue (name : String) : Bool :=
  name == "frames" || name == "config"

/-- Whether an argument starts an option. -/
def isOption (s : String) : Bool :=
  match s.toList with
  | ['-'] => false
  | '-' :: _ => true
  | _ => false

/-- The name of a long option and the value joined to it by an equals sign. -/
def split (s : String) : Option (String × Option String) :=
  match s.toList with
  | '-' :: '-' :: cs =>
    let name := String.ofList (cs.takeWhile (· != '='))
    match cs.dropWhile (· != '=') with
    | [] => some (name, none)
    | _ :: value => some (name, some (String.ofList value))
  | _ => none

/-- Reads arguments one by one; after `--` all are files. -/
def read : Draft → List String → Option Draft
  | d, [] => some d
  | d, "--" :: rest => rest.foldlM setProject d
  | d, arg :: rest =>
    if !isOption arg then (d.setProject arg).bind (·.read rest)
    else
      match split arg with
      | none => none
      | some (name, some value) => (d.setValue name value).bind (·.read rest)
      | some (name, none) =>
        if takesValue name then
          match rest with
          | value :: rest =>
            if isOption value then none else (d.setValue name value).bind (·.read rest)
          | [] => none
        else (d.setFlag name).bind (·.read rest)

end Draft

/-- The options on a command line; none when it is not understood. -/
def parse (args : List String) : Option Options := do
  let d ← Draft.read {} args
  let project ← d.project
  some
    { project, frames := d.frames, turbo := d.turbo, noCompile := d.noCompile, config := d.config,
      headlessFast := d.headlessFast }

end Options

/-- Why a session cannot begin. -/
inductive SessionError where
  | settings
  /-- Frames of that rate have no proper length. -/
  | frameRate
  | project
  | missingStage
  deriving DecidableEq, Repr

def SessionError.message : SessionError → String
  | .settings => "the settings cannot be read"
  | .frameRate => "the frame rate gives no proper frame interval"
  | .project => "the project cannot be read"
  | .missingStage => "project has no stage target"

structure Session where
  machine : Machine Unit
  /-- The targets of the project, in its order. -/
  targets : List TargetId
  /-- How many frames were asked for. -/
  frames : Option Nat
  /-- How many frames have been run. -/
  ran : Nat := 0
  /-- Milliseconds to sleep between frames. -/
  pause : Float

namespace Session

/-- The core blocks and no devices besides the clock. -/
def kit : Kit Unit where
  toCatalog := Library.core

/-- More instructions than a turn can take before its time is up. -/
def fuel : Nat := 10 ^ 12

/-- Milliseconds that a reading of the clock is taken to last. -/
def clockTick : Float := 0.001

/-- Whether milliseconds are a length of time: not negative, and less than `2^64` seconds. -/
def isDuration (ms : Float) : Bool :=
  0.0 <= ms / 1000.0 && ms / 1000.0 < 18446744073709551616.0

/-- Reads the settings, loads the project and starts the scripts under the flag. -/
def start (o : Options) (config : Option String) (project : String) :
    Except SessionError (Option Session) := do
  let settings ← match config with
    | none => pure {}
    | some s =>
      match Json.decodeText Settings.decode s with
      | .ok settings => pure settings
      | .error _ => throw .settings
  let settings :=
    { settings with
      turboMode := settings.turboMode || o.turbo
      compilerEnabled := settings.compilerEnabled && !o.noCompile }
  if !isDuration settings.frameInterval then throw .frameRate
  match Json.decodeText Project.decode project with
  | .error _ => throw .project
  | .ok p =>
    match (Machine.new settings { tick := clockTick } ()).install? p with
    | none => throw .missingStage
    | some (targets, m) =>
      return (Machine.greenFlag kit fuel m).map fun (_, machine) =>
        { machine, targets, frames := o.frames,
          pause := if o.headlessFast then 0.0 else settings.frameInterval }

/-- Whether all frames have been run; without a number of frames, whether no thread is left. -/
def isOver (s : Session) : Bool :=
  match s.frames with
  | some n => n ≤ s.ran
  | none => 0 < s.ran && s.machine.threads.isEmpty

/-- The line for an event, if it is printed. -/
def eventLine? : Event → Option String
  | .visualReport block v => some (block ++ ": " ++ v.toText)
  | _ => none

/-- The message for a failed thread. -/
def errorLine? : Event → Option String
  | .threadError thread _ e => some ("thread " ++ Nat.repr thread ++ ": " ++ e.message)
  | _ => none

/-- Runs a frame and gives what happened in it. -/
def frame (s : Session) : Option (List Event × Session) := do
  let (_, m) ← Machine.step kit fuel s.machine
  let (events, machine) := m.takeEvents
  some (events, { s with machine, ran := s.ran + 1 })

/-- A value as it stands in a printed list. -/
def inspect : Value → String
  | .bool b => "Bool(" ++ (if b then "true" else "false") ++ ")"
  | .number x => "Number(" ++ Layout.inspect.write x ++ ")"
  | .text s => "String(" ++ Text.quote s ++ ")"

/-- The line for a variable. -/
def variableLine (t : Target) (v : Variable) : String :=
  t.name ++ "." ++ v.name ++ " = " ++
    if v.isList then "[" ++ String.intercalate ", " (v.items.map inspect) ++ "]" else v.get.toText

/-- The variables of the targets of the project, by id. -/
def variableLines (s : Session) : List String :=
  (s.targets.filterMap (s.machine.targets[·]?)).flatMap fun t =>
    t.vars.values.map (variableLine t)

/-- Moves the clock by the pause between two frames. -/
def sleep (s : Session) : Session :=
  { s with machine := { s.machine with clock := s.machine.clock.advance s.pause } }

/-- Runs to the end, `fuel` frames at most, with a clock that nothing else moves: the printed
lines. -/
def run : Nat → Session → Option (List String)
  | 0, _ => none
  | fuel + 1, s =>
    if s.isOver then some s.variableLines
    else do
      let (events, s) ← s.frame
      let rest ← run fuel s.sleep
      some (events.filterMap eventLine? ++ rest)

end Session
end BlockMachine

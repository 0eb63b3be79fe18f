import BlockMachine.Json.Decode

/-!
# Settings

The settings of a machine, all optional in a document.
-/

namespace BlockMachine

structure Settings where
  /-- Frames a second. -/
  frameRate : Float := 30.0
  /-- The share of a frame in which threads are stepped. -/
  workTimeRatio : Float := 0.75
  /-- Milliseconds that a thread in warp mode may run before it has to yield. -/
  warpTime : Float := 500.0
  listItemLimit : Nat := 2147483647
  maxClones : Nat := 300
  compilerEnabled : Bool := true
  /-- Whether stepping goes on after a redraw was requested. -/
  turboMode : Bool := false

namespace Settings

instance : Inhabited Settings := ⟨{}⟩

/-- Milliseconds from frame to frame. -/
def frameInterval (s : Settings) : Float :=
  1000.0 / s.frameRate

/-- Milliseconds of stepping allowed in a frame. -/
def workTime (s : Settings) : Float :=
  s.frameInterval * s.workTimeRatio

/-- Equal in every setting. -/
protected def beq (s t : Settings) : Bool :=
  s.frameRate == t.frameRate && s.workTimeRatio == t.workTimeRatio && s.warpTime == t.warpTime
    && s.listItemLimit == t.listItemLimit && s.maxClones == t.maxClones
    && s.compilerEnabled == t.compilerEnabled && s.turboMode == t.turboMode

instance : BEq Settings := ⟨Settings.beq⟩

open Json in
def decode : Json → Decoded Settings :=
  foldRecord ["frameRate", "workTimeRatio", "warpTime", "listItemLimit", "maxClones",
    "compilerEnabled", "turboMode"] (fun s key value =>
    match key with
    | "frameRate" => (asFloat value).map fun frameRate => { s with frameRate }
    | "workTimeRatio" => (asFloat value).map fun workTimeRatio => { s with workTimeRatio }
    | "warpTime" => (asFloat value).map fun warpTime => { s with warpTime }
    | "listItemLimit" =>
      (asCount maxCount value).map fun listItemLimit => { s with listItemLimit }
    | "maxClones" => (asCount maxCount value).map fun maxClones => { s with maxClones }
    | "compilerEnabled" => (asBool value).map fun compilerEnabled => { s with compilerEnabled }
    | "turboMode" => (asBool value).map fun turboMode => { s with turboMode }
    | _ => (checkRead value).map fun _ => s) {}

end Settings
end BlockMachine

import Skittermouse.Data.OrdMap
import Skittermouse.Net.MessageCodec

namespace Skittermouse.Core

open Skittermouse.Data Skittermouse.Net

/-- The keys and buttons that the capturing machine sees as physically down. -/
structure InputTracker where
  keysDown : OrdMap UInt8 Unit
  buttonsDown : OrdMap UInt8 Unit

structure Release where
  code : UInt8
  isButton : Bool
deriving DecidableEq

namespace InputTracker

def init : InputTracker := ⟨∅, ∅⟩

def setDown (codes : OrdMap UInt8 Unit) (code : UInt8) (down : Bool) : OrdMap UInt8 Unit :=
  if down then codes.insert code () else codes.erase code

def onKey (tracker : InputTracker) (code : UInt8) (down : Bool) : InputTracker :=
  { tracker with keysDown := setDown tracker.keysDown code down }

def onButton (tracker : InputTracker) (code : UInt8) (down : Bool) : InputTracker :=
  { tracker with buttonsDown := setDown tracker.buttonsDown code down }

/-- Everything currently down, as releases, and a tracker that holds nothing. -/
def drainReleases (tracker : InputTracker) : List Release × InputTracker :=
  (tracker.buttonsDown.entries.map (fun entry => ⟨entry.1, true⟩) ++
    tracker.keysDown.entries.map (fun entry => ⟨entry.1, false⟩), init)

end InputTracker

structure InputPipeline where
  tracker : InputTracker

namespace InputPipeline

def init : InputPipeline := ⟨.init⟩

/-- The anonymous `make`: one input event under the current protocol version. -/
def make (type : MessageType) (dx dy : Int16) (code down : UInt8) (ts : UInt32) : InputEvent :=
  { protocolVersion := kProtocolVersion, type := type.code, dx, dy, code, down, timestampMs := ts }

def onMouseMove (pipeline : InputPipeline) (dx dy : Int16) (ts : UInt32) :
    Bytes × InputPipeline :=
  (encodeInputEvent (make .mouseMove dx dy 0 0 ts), pipeline)

def onMouseButton (pipeline : InputPipeline) (button : UInt8) (down : Bool) (ts : UInt32) :
    Bytes × InputPipeline :=
  (encodeInputEvent (make .mouseButton 0 0 button (if down then 1 else 0) ts),
    ⟨pipeline.tracker.onButton button down⟩)

def onKey (pipeline : InputPipeline) (code : UInt8) (down : Bool) (ts : UInt32) :
    Bytes × InputPipeline :=
  (encodeInputEvent (make .keyEvent 0 0 code (if down then 1 else 0) ts),
    ⟨pipeline.tracker.onKey code down⟩)

def releaseEvent (ts : UInt32) (release : Release) : InputEvent :=
  make (if release.isButton then .mouseButton else .keyEvent) 0 0 release.code 0 ts

def releaseAll (pipeline : InputPipeline) (ts : UInt32) : List Bytes × InputPipeline :=
  let (releases, tracker) := pipeline.tracker.drainReleases
  (releases.map fun release => encodeInputEvent (releaseEvent ts release), ⟨tracker⟩)

end InputPipeline

end Skittermouse.Core

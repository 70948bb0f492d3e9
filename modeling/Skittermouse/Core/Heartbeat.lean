import Skittermouse.Core.EventTypes
import Skittermouse.Data.OrdMap

namespace Skittermouse.Core

open Skittermouse.Data

/-- When a message from each peer was last seen, by an injected clock. -/
structure Heartbeat where
  last : OrdMap PeerId UInt64

namespace Heartbeat

def init : Heartbeat := ⟨∅⟩

def onHeartbeat (heartbeat : Heartbeat) (peer : PeerId) (now : UInt64) : Heartbeat :=
  ⟨heartbeat.last.insert peer now⟩

def isAlive (heartbeat : Heartbeat) (peer : PeerId) (now timeout : UInt64) : Bool :=
  match heartbeat.last.find? peer with
  | none => false
  | some seen => decide (now - seen < timeout)

def forget (heartbeat : Heartbeat) (peer : PeerId) : Heartbeat := ⟨heartbeat.last.erase peer⟩

theorem isAlive_iff {heartbeat : Heartbeat} {peer : PeerId} {now timeout : UInt64} :
    heartbeat.isAlive peer now timeout = true ↔
      ∃ seen, heartbeat.last.find? peer = some seen ∧ now - seen < timeout := by
  unfold isAlive
  split
  · rename_i unseen
    simp [unseen]
  · rename_i seen found
    simp [found]

end Heartbeat

end Skittermouse.Core

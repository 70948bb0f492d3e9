import Skittermouse.Data.OrdMap
import Skittermouse.Net.DiscoveryBeacon

namespace Skittermouse.Net

open Skittermouse.Data

structure DiscoveryEntry where
  beacon : Beacon
  lastSeen : UInt64
deriving DecidableEq

/-- The latest beacon of every machine, with the time when it was seen. -/
structure DiscoveryTable where
  entries : OrdMap Bytes DiscoveryEntry

namespace DiscoveryTable

def init : DiscoveryTable := ⟨∅⟩

def onBeacon (table : DiscoveryTable) (beacon : Beacon) (nowMs : UInt64) : DiscoveryTable :=
  ⟨table.entries.insert beacon.machineId ⟨beacon, nowMs⟩⟩

def live (table : DiscoveryTable) (nowMs timeoutMs : UInt64) : List Beacon :=
  (table.entries.entries.filter fun entry => nowMs - entry.2.lastSeen < timeoutMs).map fun entry =>
    entry.2.beacon

end DiscoveryTable

end Skittermouse.Net

import Skittermouse.Data.Buffer

namespace Skittermouse.Net

open Skittermouse.Data

/-- `SMB1`. -/
def kMagic : Bytes := [0x53, 0x4D, 0x42, 0x31]

structure Beacon where
  machineName : Bytes
  machineId : Bytes
  ip : Bytes
  port : UInt16
  os : UInt8
  wolCapable : UInt8
deriving DecidableEq

/-- A two-byte length and at most 65535 bytes of the string; a longer one is cut. -/
def beaconPutStr (text : Bytes) : Bytes := beBytes 2 (min text.length 0xFFFF) ++ text.take 0xFFFF

def encodeBeacon (beacon : Beacon) : Bytes :=
  kMagic ++ (beaconPutStr beacon.machineName ++ (beaconPutStr beacon.machineId ++
    (beaconPutStr beacon.ip ++
      (beBytes 2 beacon.port.toNat ++ [beacon.os, beacon.wolCapable]))))

def beaconGetStr (data : Bytes) (pos : Nat) : Checked (Option (Bytes × Nat)) := sizedAt data 2 pos

/-- Whether the packet is accepted, and what is in `out` afterwards. -/
def decodeBeacon (data : Bytes) (out : Beacon) : Checked (Bool × Beacon) := do
  if data.length < 4 then return (false, out)
  if !(← matchesAt data 0 kMagic) then return (false, out)
  match ← beaconGetStr data 4 with
  | none => return (false, out)
  | some (machineName, pos) =>
      let out := { out with machineName }
      match ← beaconGetStr data pos with
      | none => return (false, out)
      | some (machineId, pos) =>
          let out := { out with machineId }
          match ← beaconGetStr data pos with
          | none => return (false, out)
          | some (ip, pos) =>
              let out := { out with ip }
              if pos + 2 > data.length then return (false, out)
              let port ← beAt data pos 0 2
              let out := { out with port := UInt16.ofNat port }
              let pos := pos + 2
              if pos + 2 > data.length then return (false, out)
              let os ← byteAt data pos
              let wolCapable ← byteAt data (pos + 1)
              return (true, { out with os, wolCapable })

end Skittermouse.Net

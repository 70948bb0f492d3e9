import Skittermouse.Net.DiscoveryBeacon

namespace Skittermouse.Net

open Skittermouse.Data

/-! # Beacons in datagrams

`inetPton` is the system's: the address of a dotted text, in host order.
-/

/-- 10/8, 172.16/12, 192.168/16, 169.254/16 and 127/8. -/
def isPrivateAddr (address : UInt32) : Bool :=
  let o1 := (address >>> 24).toUInt8
  let o2 := (address >>> 16).toUInt8
  o1 == 10 || (o1 == 172 && o2 ≥ 16 && o2 ≤ 31) || (o1 == 192 && o2 == 168) ||
    (o1 == 169 && o2 == 254) || o1 == 127

structure Datagram where
  packet : Bytes
  address : UInt32
  port : UInt16
deriving DecidableEq

def sendBeaconTo (inetPton : Bytes → Option UInt32) (beacon : Beacon) (ip : Bytes) (port : UInt16) :
    Option Datagram :=
  match inetPton ip with
  | none => none
  | some address =>
      if isPrivateAddr address then some ⟨encodeBeacon beacon, address, port⟩
      else none -- never to a routed address

/-- The beacon in what `recvfrom` has returned. Its address is the sender's, which
we can reach, and not the one that it states. -/
def recvDecodeOnce (data source : Bytes) : Option Beacon :=
  match decodeBeacon data ⟨[], [], [], 0, 0, 0⟩ with
  | .ok (true, out) => some (if source.isEmpty then out else { out with ip := source })
  | _ => none

end Skittermouse.Net

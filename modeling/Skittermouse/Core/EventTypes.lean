import Skittermouse.Data.Words

namespace Skittermouse.Core

open Skittermouse.Data

/-- A machine id is a `std::string`: any bytes, compared bytewise. -/
abbrev PeerId := Bytes

def kProtocolVersion : UInt8 := 1

inductive MessageType where
  | mouseMove
  | mouseButton
  | keyEvent
  | switchOwner
  | heartbeat
  | clipboardUpdate
  | filePromiseMeta
  | fileChunk
  | pairingMsg
  | peerHello
  | filePromiseAnnounce
deriving DecidableEq, Repr

def MessageType.code : MessageType → UInt8
  | .mouseMove => 1
  | .mouseButton => 2
  | .keyEvent => 3
  | .switchOwner => 4
  | .heartbeat => 5
  | .clipboardUpdate => 6
  | .filePromiseMeta => 7
  | .fileChunk => 8
  | .pairingMsg => 9
  | .peerHello => 10
  | .filePromiseAnnounce => 11

structure InputEvent where
  protocolVersion : UInt8
  type : UInt8
  dx : Int16
  dy : Int16
  code : UInt8
  down : UInt8
  timestampMs : UInt32
deriving DecidableEq

end Skittermouse.Core

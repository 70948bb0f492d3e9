import Skittermouse.Core.Config
import Skittermouse.Net.DiscoverySocket
import Skittermouse.Net.DiscoveryTable
import Skittermouse.Platform.NetThread

namespace Skittermouse.Platform

open Skittermouse.Data Skittermouse.Core Skittermouse.Net

/-! # The discovery thread and the picker

One thread broadcasts our beacon, listens for others and answers them. The picker of
"Add device" shows what it has found, and a paired device is dialed at the address
of its latest beacon. One step goes from one access to something shared to the next.
-/

def kDiscoveryPort : UInt16 := 47802

/-- Where the thread stands; behind `top` with the beacon that has come in. -/
inductive DiscoveryPhase where
  | top
  | heard (beacon : Beacon)
  | noted (beacon : Beacon)
  | changed (beacon : Beacon)
  | answering (beacon : Beacon)

/-- `DiscoveryPickState` and the selection of its list box. -/
structure DiscoveryPicker where
  items : List Beacon
  selected : Option Nat
  /-- The machine that the user has clicked, until it leaves the list. -/
  clicked : Option Bytes
deriving DecidableEq

structure Reply where
  id : PeerId
  now : UInt64
  datagram : Datagram
deriving DecidableEq

structure DiscoveryApp where
  self : PeerId
  discovered : DiscoveryTable
  config : Config
  peerIp : OrdMap PeerId Bytes
  lastBroadcast : UInt64
  lastReply : OrdMap PeerId UInt64
  phase : DiscoveryPhase
  picker : Option DiscoveryPicker
  picked : Option Beacon
  /-- What went into the table since it was cleared, newest first. -/
  heard : List (Bytes × DiscoveryEntry)
  /-- The addresses that beacons and pairings have brought, newest first. -/
  addresses : List (PeerId × Bytes)
  pairings : List (PeerId × PairedDevice)
  /-- When each machine was to be answered, and the answers that went out, newest first. -/
  replies : List (PeerId × UInt64)
  sent : List Reply

/-- What the system answers in one step: the time, whether the receiver is open, and
what `recvfrom` returns, with the address of its sender. -/
structure DiscoveryInput where
  now : UInt64
  open_ : Bool
  received : Option (Bytes × Bytes)

inductive DiscoveryAction where
  | thread (input : DiscoveryInput)
  | clear
  | openPicker (now : UInt64)
  | refresh (now : UInt64)
  | click (row : Nat)
  | pick
  | cancel
  | paired (device : PairedDevice)

/-- A device whose address is not the one its beacon comes from. -/
def stale (beacon : Beacon) (device : PairedDevice) : Bool :=
  device.id == beacon.machineId && device.lastIp != beacon.ip

/-- A device with the address of the beacon, if it is the beacon's. -/
def moved (beacon : Beacon) (device : PairedDevice) : PairedDevice :=
  if stale beacon device then { device with lastIp := beacon.ip } else device

namespace DiscoveryApp

def init (self : PeerId) (config : Config) : DiscoveryApp :=
  { self, discovered := .init, config, peerIp := ∅, lastBroadcast := 0, lastReply := ∅
    phase := .top, picker := none, picked := none, heard := [], addresses := [], pairings := []
    replies := [], sent := [] }

def selfBeacon (self : PeerId) : Beacon := ⟨self, self, [], kMeshPort, 0, 0⟩

def listen (app : DiscoveryApp) (input : DiscoveryInput) : DiscoveryApp :=
  let app :=
    if input.now - app.lastBroadcast ≥ 400 then { app with lastBroadcast := input.now } else app
  if !input.open_ then app
  else match input.received with
  | none => app
  | some (data, source) => match recvDecodeOnce data source with
    | none => app
    | some beacon => if beacon.machineId ≠ app.self then { app with phase := .heard beacon } else app

/-- The reconnect refresh: a paired device is dialed where its beacon comes from. -/
def reconnect (app : DiscoveryApp) (beacon : Beacon) : DiscoveryApp :=
  if beacon.ip.isEmpty then { app with phase := .answering beacon }
  else
    { app with
      config.devices := app.config.devices.map (moved beacon)
      addresses := (beacon.machineId, beacon.ip) :: app.addresses
      phase := if app.config.devices.any (stale beacon) then .changed beacon else .answering beacon }

/-- A beacon goes straight back, at most every 700 ms to each machine. -/
def answer (inetPton : Bytes → Option UInt32) (app : DiscoveryApp) (beacon : Beacon) (t : UInt64) :
    DiscoveryApp :=
  let lr := (app.lastReply.find? beacon.machineId).getD 0
  if !beacon.ip.isEmpty ∧ (lr = 0 ∨ t - lr ≥ 700) then
    { app with
      lastReply := app.lastReply.insert beacon.machineId t
      replies := (beacon.machineId, t) :: app.replies
      sent :=
        match sendBeaconTo inetPton (selfBeacon app.self) beacon.ip kDiscoveryPort with
        | none => app.sent
        | some datagram => ⟨beacon.machineId, t, datagram⟩ :: app.sent
      phase := .top }
  else { app with lastReply := app.lastReply.insert beacon.machineId lr, phase := .top }

def threadStep (inetPton : Bytes → Option UInt32) (app : DiscoveryApp) (input : DiscoveryInput) :
    DiscoveryApp :=
  match app.phase with
  | .top => app.listen input
  | .heard beacon =>
      { app with
        discovered := app.discovered.onBeacon beacon input.now
        heard := (beacon.machineId, ⟨beacon, input.now⟩) :: app.heard
        phase := .noted beacon }
  | .noted beacon => app.reconnect beacon
  | .changed beacon =>
      { app with peerIp := app.peerIp.insert beacon.machineId beacon.ip, phase := .answering beacon }
  | .answering beacon => app.answer inetPton beacon input.now

def shown (app : DiscoveryApp) (now : UInt64) : List Beacon :=
  (app.discovered.live now 6000).filter fun beacon =>
    !app.config.devices.any fun device => device.id == beacon.machineId

def rowOf (items : List Beacon) (id : Bytes) : Option Nat :=
  (List.range items.length).reverse.find? fun row =>
    (items[row]?).any fun beacon => beacon.machineId == id

/-- `refreshDiscoveryList`: the selection stays with its machine. -/
def refreshDiscoveryList (app : DiscoveryApp) (now : UInt64) : DiscoveryApp :=
  match app.picker with
  | none => app
  | some picker =>
      let shown := app.shown now
      let selId := (picker.selected.bind fun row => picker.items[row]?.map (·.machineId)).getD []
      let selected :=
        match rowOf shown selId with
        | some row => some row
        | none => if !shown.isEmpty ∧ selId.isEmpty then some 0 else none
      let listed (id : Bytes) : Bool := shown.any fun beacon => beacon.machineId == id
      { app with picker := some { items := shown, selected, clicked := picker.clicked.filter listed } }

def step (inetPton : Bytes → Option UInt32) : DiscoveryAction → DiscoveryApp → DiscoveryApp
  | .thread input, app => app.threadStep inetPton input
  | .clear, app => { app with discovered := .init, heard := [] }
  | .openPicker now, app =>
      { app with picker := some ⟨[], none, none⟩, picked := none }.refreshDiscoveryList now
  | .refresh now, app => app.refreshDiscoveryList now
  | .click row, app => match app.picker with
    | none => app
    | some picker => match picker.items[row]? with
      | none => app
      | some beacon =>
          { app with picker := some { picker with selected := some row, clicked := some beacon.machineId } }
  | .pick, app => match app.picker with
    | none => app
    | some picker => match picker.selected.bind fun row => picker.items[row]? with
      | none => app
      | some beacon => { app with picker := none, picked := some beacon }
  | .cancel, app => { app with picker := none }
  | .paired device, app =>
      { app with
        config := app.config.addDevice device
        addresses := (device.id, device.lastIp) :: app.addresses
        pairings := (device.id, device) :: app.pairings }

end DiscoveryApp

end Skittermouse.Platform

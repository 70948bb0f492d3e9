import Skittermouse.App.ConnectionTable
import Skittermouse.Core.Config
import Skittermouse.Core.WakeFlow
import Skittermouse.Mesh.Frame
import Skittermouse.Net.WolSender
import Skittermouse.Platform.WinMouse

namespace Skittermouse.Platform

open Skittermouse.Data Skittermouse.Core Skittermouse.Net Skittermouse.App

/-! # The tray application

One thread, the UI thread, owns the mesh, the hooks and the wake-up flow. It
handles one window message after the other; the hooks run on it as well. What
the node reports runs inside its own calls: a change of owner in the middle of a
poll stops the capture before the next message of the poll is read. So the calls
that report are repeated here around the whole tray.
-/

/-- A link that the network thread hands to the UI thread. -/
structure HandedLink (τ : Type) where
  peerId : PeerId
  transport : Option τ
  outbound : Bool

structure Tray (τ : Type) where
  cm : ConnectionTable τ
  /-- `config.devices`. -/
  devices : List PairedDevice
  capture : WinCapture
  mouse : MouseHook
  driving : Bool
  wake : WakeFlow
  pendingLinks : List (HandedLink τ)
  connectedIds : OrdMap PeerId Unit
  /-- `GetTickCount64`, which stands still while one message is handled. -/
  tick : UInt64
  /-- Whether Windows lets hooks be set at present. -/
  hooked : Bool
  screen : VirtualScreen

/-- `onInject` together with `Injector`: what `SendInput` is asked for. -/
inductive SendInput where
  | move (dx dy : Int32)
  | button (code : UInt8) (down : Bool)
  | key (virtualKey : UInt16) (down : Bool)
deriving DecidableEq

/-- The injector knows the left, the right and the middle button. -/
def injectButton (button : UInt8) (down : Bool) : List SendInput :=
  if button = 1 ∨ button = 2 ∨ button = 3 then [.button button down] else []

def onInject (event : InputEvent) : List SendInput :=
  if event.type = MessageType.mouseMove.code then [.move event.dx.toInt32 event.dy.toInt32]
  else if event.type = MessageType.mouseButton.code then injectButton event.code (event.down ≠ 0)
  else if event.type = MessageType.keyEvent.code then [.key event.code.toUInt16 (event.down ≠ 0)]
  else []

namespace Tray

variable {τ : Type}

def init (τ : Type) (self : PeerId) (priority : List PeerId) (devices : List PairedDevice)
    (modifiers : UInt32) (key : UInt16) : Tray τ :=
  { cm := { ConnectionTable.init τ self with mesh := (Host.init Nat τ self).setPriority priority }
    devices
    capture := (WinCapture.init.setEscape modifiers key true).setSwallow true
    mouse := .init
    driving := false
    wake := .init
    pendingLinks := []
    connectedIds := ∅
    tick := 0
    hooked := true
    screen := { x := 0, y := 0, cx := 0, cy := 0 } }

def mesh (tray : Tray τ) : Host Nat τ := tray.cm.mesh

def onMesh (tray : Tray τ) (change : Host Nat τ → Host Nat τ) : Tray τ :=
  { tray with cm.mesh := change tray.cm.mesh }

variable [Transport τ]

def captureSink (tray : Tray τ) (event : CapturedEvent) : Tray τ :=
  let ts := tray.tick.toUInt32
  match event.kind with
  | .mouseMove => tray.onMesh (·.forwardMouseMove event.dx.toInt16 event.dy.toInt16 ts)
  | .mouseButton => tray.onMesh (·.forwardMouseButton event.code event.down ts)
  | .key => tray.onMesh (·.forwardKey event.code event.down ts)

/-- `capture->start`. -/
def startCapture (tray : Tray τ) : Tray τ :=
  { tray with
    capture := (tray.capture.start tray.hooked).2
    mouse := tray.mouse.start tray.screen tray.hooked tray.capture.swallow }

/-- The hooks follow the driving state: installed only while this machine drives
a peer and owns input, else removed, with every key held let go. -/
def syncCapture (tray : Tray τ) : Tray τ :=
  -- a remote drives -> we're a sink
  let tray := if !tray.mesh.isLocalOwner then { tray with driving := false } else tray
  let want := tray.driving && tray.mesh.isLocalOwner
  if want && !tray.capture.installed then tray.startCapture
  else if !want && tray.capture.installed then
    { tray with capture := tray.capture.stop }.onMesh (·.releaseHeldKeys tray.tick.toUInt32)
  else tray

/-- The node reports a change of owner, and the tray reconciles its hooks. -/
def onOwnerChanged (tray : Tray τ) (owner : PeerId) : Tray τ :=
  (tray.onMesh (·.emit (.ownerChanged owner))).syncCapture

variable (library : CLibrary)

/-- Wake the target up if it is plausible that it can be woken. -/
def onSwitchUnavailable (tray : Tray τ) (id : PeerId) : Tray τ :=
  match tray.devices.find? fun device => device.id == id with
  | none => tray
  | some device =>
      if device.wolCapable ∧ device.mac ≠ [] ∧ (parseMac library device.mac).isSome then
        { tray with wake := .begin id tray.tick 45000 }
      else tray

def requestSwitchTo (tray : Tray τ) (target : PeerId) : Tray τ :=
  if target ≠ tray.mesh.node.self ∧ tray.mesh.isPeerOnline target = false then
    (tray.onMesh (·.emit (.switchUnavailable target))).onSwitchUnavailable library target
  else
    let before := tray.mesh.owner
    let tray := tray.onMesh fun host =>
      let issued := host.issueClaim target
      issued.2.broadcast (claimMessage issued.1)
    if tray.mesh.owner ≠ before then tray.onOwnerChanged tray.mesh.owner else tray

def handleClaim (tray : Tray τ) (claim : OwnershipClaim) : Tray τ :=
  let before := tray.mesh.owner
  let tray := tray.onMesh (·.applyClaim claim)
  if tray.mesh.owner ≠ before then tray.onOwnerChanged tray.mesh.owner else tray

/-- Only an ownership claim comes to report a change of owner. -/
def handle (tray : Tray τ) (sender : PeerId) (data : Bytes) (now : UInt64) : Tray τ :=
  match readClaim data with
  | some claim => (tray.onMesh (·.hear sender data now)).handleClaim claim
  | none => tray.onMesh (·.handle .silent sender data now)

def drain (sender : PeerId) (pointer : Nat) (now : UInt64) : Nat → Tray τ → Tray τ
  | 0, tray => tray
  | fuel + 1, tray => match tray.mesh.heap.find? pointer with
    | none => tray
    | some transport =>
        let (received, transport) := Transport.recv transport Host.kPollBufferSize
        let tray := tray.onMesh fun host => { host with heap := host.heap.insert pointer transport }
        match received with
        | none | some [] => tray
        | some data => (tray.handle sender data now).drain sender pointer now fuel

def drainPeer (now : UInt64) (tray : Tray τ) : PeerId × Option Nat → Tray τ
  | (_, none) => tray
  | (id, some pointer) => tray.drain id pointer now (tray.mesh.backlog pointer + 1)

def failSafe (tray : Tray τ) (now : UInt64) : Tray τ :=
  if tray.mesh.isLocalOwner = false ∧
      tray.mesh.node.heartbeat.isAlive tray.mesh.owner now tray.mesh.node.heartbeatTimeoutMs =
        false then
    (tray.onMesh fun host => (host.issueClaim host.node.self).2.emit .reverted).onOwnerChanged
      tray.mesh.node.self
  else tray

def refreshOnlineAndFailSafe (tray : Tray τ) (now : UInt64) : Tray τ :=
  let ids := tray.mesh.node.peers.entries.map Prod.fst
  let online := tray.mesh.node.self :: ids.filter fun id =>
    tray.mesh.node.heartbeat.isAlive id now tray.mesh.node.heartbeatTimeoutMs
  let tray := tray.onMesh fun host =>
    let noted := ids.foldl (Host.noteLiveness now) host
    { noted with node.election := noted.node.election.setOnline online }
  tray.failSafe now

def removePeer (tray : Tray τ) (id : PeerId) : Tray τ :=
  let tray := tray.onMesh (·.forgetPeer id)
  tray.refreshOnlineAndFailSafe tray.mesh.node.now

def pollMesh (tray : Tray τ) (now : UInt64) : Tray τ :=
  let tray := tray.onMesh fun host => { host with node.now := now }
  (tray.mesh.node.peers.entries.foldl (drainPeer now) tray).refreshOnlineAndFailSafe now

def resolveNext (tray : Tray τ) (link : PendingLink) : Tray τ :=
  let resolved := { tray with cm := tray.cm.resolveNext link }
  match tray.cm.resolve link with
  | .promote id _ => { resolved with connectedIds := tray.connectedIds.insert id () }
  | _ => resolved

def reapNext (tray : Tray τ) (id : PeerId) : Tray τ :=
  match tray.cm.connected.find? id with
  | none => tray
  | some address =>
      if tray.cm.isUp address then tray
      else
        let removed := tray.removePeer id
        { removed with
          cm := { removed.cm with
            calls := .peerDisconnected id :: removed.cm.calls
            connected := removed.cm.connected.erase id }.destroy address
          connectedIds := removed.connectedIds.erase id }

def pollLinks (tray : Tray τ) (now : UInt64) : Tray τ :=
  let resolved := tray.cm.pending.foldl resolveNext { tray with cm.pending := [] }
  let reaped := (resolved.cm.connected.entries.map Prod.fst).foldl reapNext resolved
  (reaped.pollMesh now).onMesh (·.sendHeartbeats now)

/-- One link of the queue goes to the connection manager. -/
def register (cm : ConnectionTable τ) (link : HandedLink τ) : ConnectionTable τ :=
  if link.outbound then cm.addOutgoing link.peerId link.transport else cm.addIncoming link.transport

def pumpMesh (tray : Tray τ) : Tray τ :=
  { tray with cm := tray.pendingLinks.foldl register tray.cm, pendingLinks := [] }.pollLinks tray.tick

/-- Start driving a peer. An offline one takes the switch path, for the wake-up flow. -/
def controlPeer (tray : Tray τ) (peerId : PeerId) : Tray τ :=
  if tray.mesh.isPeerOnline peerId = false then tray.requestSwitchTo library peerId
  else
    let tray := tray.requestSwitchTo library tray.mesh.node.self
    { tray with driving := true }.syncCapture

def anyOnline (tray : Tray τ) : Bool := tray.devices.any fun device => tray.mesh.isPeerOnline device.id

/-- If we're driving but every peer went offline, control comes back. -/
def releaseIfAlone (tray : Tray τ) : Tray τ :=
  if tray.driving && !tray.anyOnline then { tray with driving := false } else tray

/-- Resolve any wake-up attempt in progress. -/
def resolveWake (tray : Tray τ) : Tray τ :=
  if tray.wake.isWaking then
    let target := tray.wake.target
    let tray := { tray with wake := tray.wake.update tray.tick (tray.mesh.isPeerOnline target) }
    match tray.wake.status with
    -- now reachable -> switch
    | .connected => { tray.requestSwitchTo library target with wake := .reset }
    | .timedOut => { tray with wake := .reset }
    | _ => tray
  else tray

def onTimer (tray : Tray τ) : Tray τ :=
  (tray.pumpMesh.releaseIfAlone.syncCapture).resolveWake library

def stopDriving (tray : Tray τ) : Tray τ := { tray with driving := false }.syncCapture

def onDevice (tray : Tray τ) (index : Nat) : Tray τ :=
  match tray.devices[index]? with
  | none => tray
  | some device => if tray.driving then tray.stopDriving else tray.controlPeer library device.id

def onClipboard (tray : Tray τ) (files : List FilePromiseItem) (text : Option Bytes) : Tray τ :=
  if files ≠ [] then tray.onMesh (·.announceFilePromise files)
  else match text with
  | some text => tray.onMesh (·.onLocalClipboardChange text)
  | none => tray

/-- A call of the keyboard hook. The reclaim chord posts a message. -/
def answer (tray : Tray τ) : CaptureCall → Tray τ
  | .sink event => tray.captureSink event
  | .onEscape => tray

def onKey (tray : Tray τ) (stroke : KeyStroke) : Tray τ :=
  if tray.capture.installed then
    let (calls, _, capture) := tray.capture.onKey stroke
    calls.foldl answer { tray with capture }
  else tray

def onMouse (tray : Tray τ) (stroke : MouseStroke) : Tray τ :=
  if tray.capture.installed then
    let (reply, mouse) := tray.mouse.onMouse tray.capture.swallow stroke
    reply.calls.foldl captureSink { tray with mouse }
  else tray

end Tray

/-- What the UI thread handles, and what the other threads and the network do
between two messages. -/
inductive TrayMessage (τ : Type) where
  | key (stroke : KeyStroke)
  | mouse (stroke : MouseStroke)
  | device (index : Nat)
  /-- The hotkey, once the picker is closed; empty if nothing was picked. -/
  | picked (sel : PeerId)
  | escape
  | pump
  | timer
  | clipboard (files : List FilePromiseItem) (text : Option Bytes)
  | handLink (link : HandedLink τ)
  | setDevices (devices : List PairedDevice)
  | disturb (address : Nat) (transport : τ)

/-- A message with what Windows says while it is handled. -/
structure TrayTurn (τ : Type) where
  tick : UInt64
  hooked : Bool
  screen : VirtualScreen
  message : TrayMessage τ

def Tray.dispatch {τ : Type} [Transport τ] (library : CLibrary) (tray : Tray τ) :
    TrayMessage τ → Tray τ
  | .key stroke => tray.onKey stroke
  | .mouse stroke => tray.onMouse stroke
  | .device index => tray.onDevice library index
  | .picked sel => if sel = [] then tray else tray.controlPeer library sel
  | .escape => if tray.driving then tray.stopDriving else tray
  | .pump => tray.pumpMesh
  | .timer => tray.onTimer library
  | .clipboard files text => tray.onClipboard files text
  | .handLink link => { tray with pendingLinks := tray.pendingLinks ++ [link] }
  | .setDevices devices => { tray with devices }
  | .disturb address transport => tray.onMesh fun host =>
      { host with heap := host.heap.modify address fun _ => transport }

def trayStep {τ : Type} [Transport τ] (library : CLibrary) (turn : TrayTurn τ)
    (tray : Tray τ) : Tray τ :=
  { tray with tick := turn.tick, hooked := turn.hooked, screen := turn.screen }.dispatch library
    turn.message

end Skittermouse.Platform

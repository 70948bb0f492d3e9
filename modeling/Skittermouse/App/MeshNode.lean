import Skittermouse.Core.ClipboardSync
import Skittermouse.Core.Heartbeat
import Skittermouse.Core.InputPipeline
import Skittermouse.Core.OwnershipState
import Skittermouse.Core.ServerElection
import Skittermouse.Net.FilePromiseAnnounce
import Skittermouse.Net.OwnershipCodec
import Skittermouse.Net.Transport

namespace Skittermouse.App

open Skittermouse.Data Skittermouse.Core Skittermouse.Net

/-! # One machine of the mesh

A node holds plain pointers to transports that others own, so a node and the
transports it can reach form one state, the host. Pointers are any ordered
type `π`: a connection table numbers its transports, a connection manager and a
mesh of machines name each transport after the peer it leads to.
-/

structure MeshNode (π : Type) where
  self : PeerId
  /-- A registered peer may have a null transport. -/
  peers : OrdMap PeerId (Option π)
  peerOnline : OrdMap PeerId Bool
  /-- Peers already flagged as mismatched. -/
  versionWarned : OrdMap PeerId Unit
  ownership : OwnershipState
  election : ServerElection
  heartbeat : Heartbeat
  clipboard : ClipboardSync
  pipeline : InputPipeline
  now : UInt64
  lastHeartbeatSent : UInt64
  heartbeatTimeoutMs : UInt64
  heartbeatIntervalMs : UInt64

/-- What a node reports. The first group are the OS-layer hooks as they are
called, with the sender added to an injection; the rest is bookkeeping that no
operation reads. -/
inductive MeshEvent where
  | inject (sender : PeerId) (event : InputEvent)
  | remoteClipboard (text : Bytes)
  | remoteFilePromise (sender : PeerId) (files : List FilePromiseItem)
  | ownerChanged (owner : PeerId)
  | peerOnline (id : PeerId)
  | peerOffline (id : PeerId)
  | switchUnavailable (target : PeerId)
  | versionMismatch (sender : PeerId)
  | handled (sender : PeerId) (now : UInt64) (data : Bytes)
  /-- An input event that reached a node which owns input itself. -/
  | ignored (sender : PeerId) (event : InputEvent)
  | claimed (claim : OwnershipClaim)
  | reverted
deriving DecidableEq

structure Host (π τ : Type) [LinearOrder π] where
  node : MeshNode π
  heap : OrdMap π τ
  /-- Newest first. -/
  trace : List MeshEvent

/-- What the OS layer does when the owner changes: nothing that touches the
node, or the stuck-key release of the tray's `syncCapture`. -/
inductive OwnerHook where
  | silent
  | releaseHeld

def MeshNode.init (π : Type) (self : PeerId) : MeshNode π :=
  { self
    peers := ∅
    peerOnline := ∅
    versionWarned := ∅
    ownership := .init self
    election := ServerElection.init.addToPriority self
    heartbeat := .init
    clipboard := .init
    pipeline := .init
    now := 0
    lastHeartbeatSent := 0
    heartbeatTimeoutMs := 2000
    heartbeatIntervalMs := 500 }

/-- The transports a loop over the peers reaches, in its order. -/
def MeshNode.pointers {π : Type} (node : MeshNode π) : List π := node.peers.entries.filterMap Prod.snd

namespace Host

variable {π τ : Type} [LinearOrder π]

def init (π τ : Type) [LinearOrder π] (self : PeerId) : Host π τ :=
  { node := .init π self, heap := ∅, trace := [] }

def isLocalOwner (host : Host π τ) : Bool := host.node.ownership.isLocalOwner

def owner (host : Host π τ) : PeerId := host.node.ownership.owner

def primary (host : Host π τ) : Option PeerId := host.node.election.currentServer

def emit (host : Host π τ) (event : MeshEvent) : Host π τ :=
  { host with trace := event :: host.trace }

def setPriority (host : Host π τ) (priority : List PeerId) : Host π τ :=
  { host with node.election := host.node.election.setPriority priority }

def addPeer (host : Host π τ) (id : PeerId) (transport : Option π) : Host π τ :=
  { host with
    node.peers := host.node.peers.insert id transport
    node.election := host.node.election.addToPriority id }

def isPeerOnline (host : Host π τ) (id : PeerId) : Bool :=
  if id = host.node.self then true
  else host.node.heartbeat.isAlive id host.node.now host.node.heartbeatTimeoutMs

/-- A peer's liveness against the last known one; a flip is reported once. -/
def noteLiveness (now : UInt64) (host : Host π τ) (id : PeerId) : Host π τ :=
  let alive := host.node.heartbeat.isAlive id now host.node.heartbeatTimeoutMs
  if alive = (host.node.peerOnline.find? id).getD false then host
  else
    { host with node.peerOnline := host.node.peerOnline.insert id alive }.emit
      (if alive then .peerOnline id else .peerOffline id)

section Sending

variable [Transport τ]

def broadcast (host : Host π τ) (message : Bytes) : Host π τ :=
  { host with
    heap := host.node.pointers.foldl
      (fun heap pointer => heap.modify pointer fun transport =>
        (Transport.send transport message).2) host.heap }

def releaseHeldKeys (host : Host π τ) (ts : UInt32) : Host π τ :=
  let (releases, pipeline) := host.node.pipeline.releaseAll ts
  releases.foldl broadcast { host with node.pipeline := pipeline }

def onOwnerChanged (hook : OwnerHook) (host : Host π τ) (owner : PeerId) : Host π τ :=
  let host := host.emit (.ownerChanged owner)
  match hook with
  | .silent => host
  | .releaseHeld =>
      if host.isLocalOwner then host else host.releaseHeldKeys host.node.now.toUInt32

def applyClaim (host : Host π τ) (claim : OwnershipClaim) : Host π τ :=
  { host with node.ownership := (host.node.ownership.applyClaim claim).2 }.emit (.claimed claim)

def issueClaim (host : Host π τ) (target : PeerId) : OwnershipClaim × Host π τ :=
  let (claim, ownership) := host.node.ownership.requestSwitchTo target
  (claim, { host with node.ownership := ownership }.emit (.claimed claim))

def requestSwitchTo (hook : OwnerHook) (host : Host π τ) (target : PeerId) : Host π τ :=
  if target ≠ host.node.self ∧ host.isPeerOnline target = false then
    host.emit (.switchUnavailable target)
  else
    let before := host.owner
    let (claim, host) := host.issueClaim target
    let host := host.broadcast (claimMessage claim)
    if host.owner ≠ before then host.onOwnerChanged hook host.owner else host

def forwardMouseMove (host : Host π τ) (dx dy : Int16) (ts : UInt32) : Host π τ :=
  if host.isLocalOwner then
    let (message, pipeline) := host.node.pipeline.onMouseMove dx dy ts
    { host with node.pipeline := pipeline }.broadcast message
  else host

def forwardMouseButton (host : Host π τ) (button : UInt8) (down : Bool) (ts : UInt32) : Host π τ :=
  if host.isLocalOwner then
    let (message, pipeline) := host.node.pipeline.onMouseButton button down ts
    { host with node.pipeline := pipeline }.broadcast message
  else host

def forwardKey (host : Host π τ) (code : UInt8) (down : Bool) (ts : UInt32) : Host π τ :=
  if host.isLocalOwner then
    let (message, pipeline) := host.node.pipeline.onKey code down ts
    { host with node.pipeline := pipeline }.broadcast message
  else host

def onLocalClipboardChange (host : Host π τ) (text : Bytes) : Host π τ :=
  let (genuine, clipboard) := host.node.clipboard.shouldBroadcastLocalChange text
  let host := { host with node.clipboard := clipboard }
  if genuine then host.broadcast (encodeVarMessage .clipboardUpdate text) else host

def announceFilePromise (host : Host π τ) (files : List FilePromiseItem) : Host π τ :=
  if files = [] then host
  else host.broadcast (encodeVarMessage .filePromiseAnnounce (encodeFilePromiseAnnounce files))

/-- `InputEvent{}` with the version, the type and the low half of the time. -/
def heartbeatEvent (now : UInt64) : InputEvent :=
  { zeroEvent with
    protocolVersion := kProtocolVersion
    type := MessageType.heartbeat.code
    timestampMs := now.toUInt32 }

def sendHeartbeats (host : Host π τ) (now : UInt64) : Host π τ :=
  let host := { host with node.now := now }
  if host.node.lastHeartbeatSent ≠ 0 ∧
      now - host.node.lastHeartbeatSent < host.node.heartbeatIntervalMs then host
  else
    { host.broadcast (encodeInputEvent (heartbeatEvent now)) with node.lastHeartbeatSent := now }

/-- The fail-safe: a silent remote owner is replaced locally, with no broadcast. -/
def failSafe (hook : OwnerHook) (host : Host π τ) (now : UInt64) : Host π τ :=
  if host.isLocalOwner = false ∧
      host.node.heartbeat.isAlive host.owner now host.node.heartbeatTimeoutMs = false then
    ((host.issueClaim host.node.self).2.emit .reverted).onOwnerChanged hook host.node.self
  else host

def refreshOnlineAndFailSafe (hook : OwnerHook) (host : Host π τ) (now : UInt64) : Host π τ :=
  let ids := host.node.peers.entries.map Prod.fst
  let online := host.node.self :: ids.filter fun id =>
    host.node.heartbeat.isAlive id now host.node.heartbeatTimeoutMs
  let host := ids.foldl (noteLiveness now) host
  { host with node.election := host.node.election.setOnline online }.failSafe hook now

/-- `removePeer` up to the refresh. -/
def forgetPeer (host : Host π τ) (id : PeerId) : Host π τ :=
  let wasOnline := host.node.peerOnline.find? id
  let host := if wasOnline = some true then host.emit (.peerOffline id) else host
  { host with
    node.peers := host.node.peers.erase id
    node.heartbeat := host.node.heartbeat.forget id
    node.peerOnline := host.node.peerOnline.erase id
    -- A fresh connection may warn again if it is still mismatched.
    node.versionWarned := host.node.versionWarned.erase id }

def removePeer (hook : OwnerHook) (host : Host π τ) (id : PeerId) : Host π τ :=
  (host.forgetPeer id).refreshOnlineAndFailSafe hook host.node.now

/-- The part of `handle` after a `SwitchOwner` payload has been decoded. -/
def handleClaim (hook : OwnerHook) (host : Host π τ) (claim : OwnershipClaim) : Host π τ :=
  let before := host.owner
  let host := host.applyClaim claim
  if host.owner ≠ before then host.onOwnerChanged hook host.owner else host

def handleMessage (hook : OwnerHook) (host : Host π τ) (sender : PeerId)
    (message : DecodedMessage) : Host π τ :=
  if message.isFixed then
    match message.type with
    -- Sinks inject forwarded input from the current owner.
    | .mouseMove | .mouseButton | .keyEvent =>
        if host.isLocalOwner then host.emit (.ignored sender message.fixed)
        else host.emit (.inject sender message.fixed)
    | _ => host
  else
    match message.type with
    | .switchOwner => match decodeOwnershipClaim message.payload with
      | some claim => host.handleClaim hook claim
      | none => host
    | .clipboardUpdate =>
        { host with node.clipboard := host.node.clipboard.noteAppliedRemote message.payload }.emit
          (.remoteClipboard message.payload)
    | .filePromiseAnnounce => match decodeFilePromiseAnnounce message.payload with
      | some files => host.emit (.remoteFilePromise sender files)
      | none => host
    | _ => host

/-- Any message proves the sender is alive. -/
def hear (host : Host π τ) (sender : PeerId) (data : Bytes) (now : UInt64) : Host π τ :=
  { host with node.heartbeat := host.node.heartbeat.onHeartbeat sender now }.emit
    (.handled sender now data)

def handle (hook : OwnerHook) (host : Host π τ) (sender : PeerId) (data : Bytes) (now : UInt64) :
    Host π τ :=
  let host := host.hear sender data now
  match decodeMessage data with
  | .versionMismatch =>
      if host.node.versionWarned.contains sender then host
      else { host with node.versionWarned := host.node.versionWarned.insert sender () }.emit
        (.versionMismatch sender)
  | .ok message _ => host.handleMessage hook sender message
  | _ => host

def kPollBufferSize : Nat := 8192

/-- The receive loop over one peer's transport, for as many rounds as `fuel`. -/
def drain (hook : OwnerHook) (sender : PeerId) (pointer : π) (now : UInt64) :
    Nat → Host π τ → Host π τ
  | 0, host => host
  | fuel + 1, host => match host.heap.find? pointer with
    | none => host
    | some transport =>
        let (received, transport) := Transport.recv transport kPollBufferSize
        let host := { host with heap := host.heap.insert pointer transport }
        match received with
        | none | some [] => host
        | some data => (host.handle hook sender data now).drain hook sender pointer now fuel

/-- How many rounds the loop can take: each round but the last eats backlog. -/
def backlog (host : Host π τ) (pointer : π) : Nat :=
  match host.heap.find? pointer with
  | some transport => Transport.backlog transport
  | none => 0

def drainPeer (hook : OwnerHook) (now : UInt64) (host : Host π τ) :
    PeerId × Option π → Host π τ
  | (_, none) => host
  | (id, some pointer) => host.drain hook id pointer now (host.backlog pointer + 1)

def poll (hook : OwnerHook) (host : Host π τ) (now : UInt64) : Host π τ :=
  let host := { host with node.now := now }
  (host.node.peers.entries.foldl (drainPeer hook now) host).refreshOnlineAndFailSafe hook now

end Sending

end Host

inductive MeshCall where
  | setPriority (priority : List PeerId)
  | requestSwitchTo (target : PeerId)
  | forwardMouseMove (dx dy : Int16) (ts : UInt32)
  | forwardMouseButton (button : UInt8) (down : Bool) (ts : UInt32)
  | forwardKey (code : UInt8) (down : Bool) (ts : UInt32)
  | releaseHeldKeys (ts : UInt32)
  | clipboardChange (text : Bytes)
  | announceFilePromise (files : List FilePromiseItem)
  | sendHeartbeats (now : UInt64)
  | poll (now : UInt64)

def Host.perform {π τ : Type} [LinearOrder π] [Transport τ] (hook : OwnerHook)
    (host : Host π τ) : MeshCall → Host π τ
  | .setPriority priority => host.setPriority priority
  | .requestSwitchTo target => host.requestSwitchTo hook target
  | .forwardMouseMove dx dy ts => host.forwardMouseMove dx dy ts
  | .forwardMouseButton button down ts => host.forwardMouseButton button down ts
  | .forwardKey code down ts => host.forwardKey code down ts
  | .releaseHeldKeys ts => host.releaseHeldKeys ts
  | .clipboardChange text => host.onLocalClipboardChange text
  | .announceFilePromise files => host.announceFilePromise files
  | .sendHeartbeats now => host.sendHeartbeats now
  | .poll now => host.poll hook now

end Skittermouse.App

import Skittermouse.App.SecureLink
import Skittermouse.Platform.TrayWin

namespace Skittermouse.Platform

open Skittermouse.Data Skittermouse.Core Skittermouse.Net Skittermouse.Pairing Skittermouse.App

/-! # The network thread

Blocking socket work stays off the UI thread: a thread of its own dials the paired
devices and accepts sockets, seals the links, and hands them to the UI thread.
The two share what the mutexes guard. One step of the thread goes from one access to
something shared, or from one blocking call, to the next.
-/

def kMeshPort : UInt16 := 47800

/-- A device that one round of the loop may dial, with its key if it has one. -/
structure Dialable where
  id : PeerId
  host : Bytes
  port : UInt16
  psk : Option Psk

inductive NetPhase (aead : Aead) (σ : Type) where
  | top
  /-- In the loop over `toDial`, with the time at its start. -/
  | dialing (now : UInt64) (toDial : List Dialable)
  | connecting (now : UInt64) (device : Dialable) (psk : Psk) (rest : List Dialable)
  /-- Connected, and `peerIp` written. -/
  | sealing (now : UInt64) (device : Dialable) (psk : Psk) (raw : σ) (rest : List Dialable)
  | accepting
  | handshaking (handshake : InboundHandshake aead σ) (keys : KeyStore) (inboundIp : Bytes)
      (polls : Nat)
  /-- The caller's link is sealed, and `peerIp` written. -/
  | handing (link : SecureLink aead σ)

/-- A call of `connect`, with the time at the start of its round. -/
structure Dial where
  id : PeerId
  host : Bytes
  port : UInt16
  psk : Psk
  now : UInt64

/-- What the two threads share, and what the network thread has for itself. -/
structure NetApp (aead : Aead) (σ : Type) where
  tray : Tray (EncryptedTransport aead σ)
  self : PeerId
  keys : KeyStore
  peerIp : OrdMap PeerId Bytes
  lastDial : OrdMap PeerId UInt64
  phase : NetPhase aead σ
  dials : List Dial
  handed : List (HandedLink (EncryptedTransport aead σ))

/-- What the system answers in one step: the time, the socket that `connect` or
`wsAcceptOne` comes back with, the caller's address, and what has become of
the socket in a handshake meanwhile. -/
structure NetInput (σ : Type) where
  now : UInt64
  raw : Option σ
  ip : Bytes
  meanwhile : σ → σ

inductive NetAction (aead : Aead) (σ : Type) where
  | net (input : NetInput σ)
  | ui (turn : TrayTurn (EncryptedTransport aead σ))
  /-- Another thread has stored a key or changed the devices. -/
  | store (keys : KeyStore) (devices : List PairedDevice)

namespace NetApp

variable {aead : Aead} {σ : Type}

def init (self : PeerId) (priority : List PeerId) (devices : List PairedDevice) (keys : KeyStore)
    (modifiers : UInt32) (key : UInt16) : NetApp aead σ :=
  { tray := .init _ self priority devices modifiers key
    self
    keys
    peerIp := ∅
    lastDial := ∅
    phase := .top
    dials := []
    handed := [] }

def dialable (keys : KeyStore) (device : PairedDevice) : Dialable :=
  { id := device.id
    host := device.lastIp
    port := if device.port ≠ 0 then device.port else kMeshPort
    psk := keys.getPsk device.id }

/-- The devices worth a dial, as `stateMutex` shows them. -/
def toDial (app : NetApp aead σ) : List Dialable :=
  (app.tray.devices.filter fun device => !(device.id == app.self || device.lastIp.isEmpty)).map
    (dialable app.keys)

def dialNext (app : NetApp aead σ) (now : UInt64) (device : Dialable) (rest : List Dialable) :
    NetApp aead σ :=
  let skip := { app with phase := .dialing now rest }
  match device.psk with
  | none => skip
  | some psk =>
      if app.tray.connectedIds.contains device.id then skip
      else if (app.lastDial.find? device.id).any fun last => now - last < 3000 then skip
      else
        { app with
          lastDial := app.lastDial.insert device.id now
          dials := ⟨device.id, device.host, device.port, psk, now⟩ :: app.dials
          phase := .connecting now device psk rest }

def hand (app : NetApp aead σ) (link : SecureLink aead σ) (outbound : Bool) : NetApp aead σ :=
  let handed := { peerId := link.peerId, transport := some link.transport, outbound }
  { app with
    tray := { app.tray with pendingLinks := app.tray.pendingLinks ++ [handed] }
    handed := app.handed ++ [handed] }

variable [Transport σ]

/-- One poll of the caller's handshake; after 200 of them it is given up. -/
def pollHandshake (app : NetApp aead σ) (handshake : InboundHandshake aead σ) (keys : KeyStore)
    (inboundIp : Bytes) : Nat → NetApp aead σ
  | 0 => { app with phase := .top }
  | polls + 1 =>
      let handshake := handshake.poll keys
      match handshake.status with
      | .needMore => { app with phase := .handshaking handshake keys inboundIp polls }
      | .ok => match handshake.take with
        | none => { app with phase := .top }
        | some link =>
            { app with
              peerIp := if inboundIp ≠ [] then app.peerIp.insert link.peerId inboundIp else app.peerIp
              phase := .handing link }
      | .notPaired | .error => { app with phase := .top }

def netStep (input : NetInput σ) (app : NetApp aead σ) : NetApp aead σ :=
  match app.phase with
  | .top => { app with phase := .dialing input.now app.toDial }
  | .dialing _ [] => { app with phase := .accepting }
  | .dialing now (device :: rest) => app.dialNext now device rest
  | .connecting now device psk rest => match input.raw with
    | none => { app with phase := .dialing now rest }
    | some raw =>
        { app with
          peerIp := app.peerIp.insert device.id device.host -- for the /files dial
          phase := .sealing now device psk raw rest }
  | .sealing now device psk raw rest =>
      let next := { app with phase := .dialing now rest }
      match secureOutbound (some raw) (KeyStore.setPsk ⟨∅⟩ device.id psk) app.self device.id with
      | some link => next.hand link true
      | none => next
  | .accepting => match input.raw with
    | none => { app with phase := .top }
    | some raw =>
        { app with phase := .handshaking (.start (some raw) app.self) app.keys input.ip 200 }
  | .handshaking handshake keys inboundIp polls =>
      app.pollHandshake { handshake with raw := handshake.raw.map input.meanwhile } keys inboundIp polls
  | .handing link => { app with phase := .top }.hand link false

/-- The UI thread handles a message. A link is handed over by the network thread alone. -/
def uiStep (library : CLibrary) (turn : TrayTurn (EncryptedTransport aead σ))
    (app : NetApp aead σ) : NetApp aead σ :=
  match turn.message with
  | .handLink _ => app
  | _ => { app with tray := trayStep library turn app.tray }

def step (library : CLibrary) : NetAction aead σ → NetApp aead σ → NetApp aead σ
  | .net input, app => app.netStep input
  | .ui turn, app => app.uiStep library turn
  | .store keys devices, app => { app with keys, tray := { app.tray with devices } }

end NetApp

end Skittermouse.Platform

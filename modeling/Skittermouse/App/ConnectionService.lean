import Skittermouse.App.ConnectionManager
import Skittermouse.App.SecureLink

namespace Skittermouse.App

open Skittermouse.Data Skittermouse.Core Skittermouse.Net Skittermouse.Pairing

/-- A configured peer: its id, host and port. The last two only reach `dial_`. -/
structure ServicePeer where
  id : PeerId
  host : Bytes
  port : UInt16

structure ConnectionService (aead : Aead) (τ : Type) where
  manager : ConnectionManager (EncryptedTransport aead τ)
  keys : KeyStore
  self : PeerId
  peers : List ServicePeer
  lastDial : OrdMap PeerId UInt64
  pendingIn : List (InboundHandshake aead τ)
  dialCooldownMs : UInt64

namespace ConnectionService

variable {aead : Aead} {τ : Type}

def init (keys : KeyStore) (self : PeerId) (peers : List ServicePeer) : ConnectionService aead τ :=
  { manager := .init self, keys, self, peers, lastDial := ∅, pendingIn := [], dialCooldownMs := 2000 }

variable [Transport τ]

/-- One turn of the loop over the peers. `raw` is what `dial_` returns for the
peer if it is called: a connected socket, or nothing. -/
def dialPeer (now : UInt64) (service : ConnectionService aead τ) (peer : ServicePeer)
    (raw : Option τ) : ConnectionService aead τ :=
  if peer.id = service.self ∨ service.manager.isConnected peer.id then service
  else
    let last := (service.lastDial.find? peer.id).getD 0
    if last ≠ 0 ∧ now - last < service.dialCooldownMs then service
    else
      let service := { service with lastDial := service.lastDial.insert peer.id now }
      match secureOutbound raw service.keys service.self peer.id with
      | none => service
      | some link =>
          { service with manager := service.manager.addOutgoing peer.id (some link.transport) }

/-- At most one inbound socket is accepted in a poll. -/
def accept (service : ConnectionService aead τ) : Option τ → ConnectionService aead τ
  | none => service
  | some raw => { service with pendingIn := service.pendingIn ++ [.start (some raw) service.self] }

/-- One turn of the loop over `pendingIn_`; the handshakes that need more
collect in the pending list. -/
def advanceNext (service : ConnectionService aead τ) (handshake : InboundHandshake aead τ) :
    ConnectionService aead τ :=
  let handshake := handshake.poll service.keys
  match handshake.status with
  | .ok =>
      { service with
        manager := service.manager.addIncoming (handshake.take.map SecureLink.transport) }
  | .needMore => { service with pendingIn := service.pendingIn ++ [handshake] }
  | .notPaired | .error => service

def advance (service : ConnectionService aead τ) : ConnectionService aead τ :=
  service.pendingIn.foldl advanceNext { service with pendingIn := [] }

/-- `dialed` is what `dial_` returns for the peer at each position of the list,
and `accepted` what `accept_` returns. -/
def pollConnections (service : ConnectionService aead τ) (now : UInt64) (dialed : Nat → Option τ)
    (accepted : Option τ) : ConnectionService aead τ :=
  let service := service.peers.zipIdx.foldl
    (fun service (peer, index) => service.dialPeer now peer (dialed index)) service
  (service.accept accepted).advance

end ConnectionService

end Skittermouse.App

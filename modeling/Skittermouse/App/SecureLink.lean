import Skittermouse.Net.PeerHello
import Skittermouse.Pairing.KeyStore

namespace Skittermouse.App

open Skittermouse.Data Skittermouse.Core Skittermouse.Net Skittermouse.Pairing

structure SecureLink (aead : Aead) (τ : Type) where
  peerId : PeerId
  transport : EncryptedTransport aead τ

variable {aead : Aead} {τ : Type}

/-- A link as its constructor leaves it: nothing sealed and nothing received yet. -/
def SecureLink.Fresh (link : SecureLink aead τ) (keys : KeyStore) (self : PeerId) : Prop :=
  ∃ raw psk, keys.getPsk link.peerId = some psk ∧
    link.transport = .create raw psk (linkRoleFor self link.peerId)

theorem SecureLink.Fresh.sendCtr {link : SecureLink aead τ} {keys : KeyStore} {self : PeerId}
    (fresh : link.Fresh keys self) : link.transport.sendCtr = 0 := by
  obtain ⟨raw, psk, _, built⟩ := fresh
  rw [built]
  rfl

variable [Transport τ]

/-- We dialed a known peer: announce our id in the clear, then seal the link
with the paired key. No link without a socket or without a key. -/
def secureOutbound (raw : Option τ) (keys : KeyStore) (self peer : PeerId) :
    Option (SecureLink aead τ) :=
  match raw with
  | none => none
  | some raw => match keys.getPsk peer with
    | none => none
    | some psk =>
        let raw := (Transport.send raw (encodePeerHello self)).2
        some { peerId := peer, transport := .create raw psk (linkRoleFor self peer) }

inductive HandshakeStatus where
  | needMore
  | ok
  | notPaired
  | error
deriving DecidableEq

structure InboundHandshake (aead : Aead) (τ : Type) where
  raw : Option τ
  self : PeerId
  result : Option (SecureLink aead τ)
  status : HandshakeStatus

namespace InboundHandshake

def start (raw : Option τ) (self : PeerId) : InboundHandshake aead τ :=
  { raw, self, result := none, status := .needMore }

def fail (handshake : InboundHandshake aead τ) (raw : Option τ) (status : HandshakeStatus) :
    InboundHandshake aead τ :=
  { handshake with raw, status }

/-- Reads the clear id-hint if it is there, and seals the link once it is known. -/
def poll (handshake : InboundHandshake aead τ) (keys : KeyStore) : InboundHandshake aead τ :=
  if handshake.status ≠ .needMore then handshake
  else match handshake.raw with
  | none => handshake.fail none .error
  | some raw =>
      if Transport.isConnected raw = false then handshake.fail (some raw) .error
      else match Transport.recv raw 512 with
      | (some [], raw) => { handshake with raw := some raw }
      | (none, raw) => handshake.fail (some raw) .error
      | (some hint, raw) => match decodePeerHello hint with
        | none => handshake.fail (some raw) .error
        | some claimed =>
            -- junk / self-connection
            if claimed = [] ∨ claimed = handshake.self then handshake.fail (some raw) .error
            else match keys.getPsk claimed with
            | none => handshake.fail (some raw) .notPaired
            | some psk =>
                { handshake with
                  raw := none
                  result := some
                    { peerId := claimed
                      transport := .create raw psk (linkRoleFor handshake.self claimed) }
                  status := .ok }

def take (handshake : InboundHandshake aead τ) : Option (SecureLink aead τ) := handshake.result

end InboundHandshake

theorem secureOutbound_fresh {raw : Option τ} {keys : KeyStore} {self peer : PeerId}
    {link : SecureLink aead τ} (sealed : secureOutbound raw keys self peer = some link) :
    link.peerId = peer ∧ link.Fresh keys self := by
  unfold secureOutbound at sealed
  split at sealed
  · contradiction
  · split at sealed
    · contradiction
    · rename_i psk found
      cases sealed
      exact ⟨rfl, _, psk, found, rfl⟩

namespace InboundHandshake

theorem poll_fresh {handshake : InboundHandshake aead τ} {keys : KeyStore}
    (pending : handshake.status = .needMore) (ok : (handshake.poll keys).status = .ok) :
    ∃ link, (handshake.poll keys).take = some link ∧ link.Fresh keys handshake.self ∧
      link.peerId ≠ [] ∧ link.peerId ≠ handshake.self := by
  revert ok
  unfold poll
  rw [if_neg (not_not.mpr pending)]
  split
  · intro failed; cases failed
  · split
    · intro failed; cases failed
    · split
      · intro waiting
        rw [pending] at waiting
        contradiction
      · intro failed; cases failed
      · split
        · intro failed; cases failed
        · split
          · intro failed; cases failed
          · rename_i usable
            split
            · intro failed; cases failed
            · rename_i psk found
              intro _
              exact ⟨_, rfl, ⟨_, psk, found, rfl⟩, fun empty => usable (.inl empty),
                fun own => usable (.inr own)⟩

end InboundHandshake

end Skittermouse.App

import Skittermouse.Pairing.EcdhHandshake

namespace Skittermouse.Pairing

open Skittermouse.Data Skittermouse.Core Skittermouse.Net

inductive PairingStatus where
  | needMore
  | ok
  | error
deriving DecidableEq

inductive PairingPhase where
  | awaitCommit
  | awaitReveal
deriving DecidableEq

structure PairingExchange (τ : Type) where
  transport : τ
  self : PeerId
  handshake : EcdhHandshake
  peerId : PeerId
  code : Bytes
  psk : Psk
  started : Bool
  status : PairingStatus
  phase : PairingPhase
  nonce : Bytes
  peerCommit : Bytes
deriving DecidableEq

namespace PairingExchange

def kPubLen : Nat := kEcPointLen
def kPairingNonceLen : Nat := 32
def kCommitLen : Nat := 32
def kBufferLen : Nat := 512

def commitInput (point nonce : Bytes) (id : PeerId) : Bytes := point ++ nonce ++ id

/-- The reveal: `[idLen:1][id][point:64][nonce:32]`. -/
def revealMessage (id : PeerId) (point nonce : Bytes) : Bytes :=
  UInt8.ofNat id.length :: (id ++ point ++ nonce)

/-- The fields of a reveal, or nothing where its length does not fit them. -/
def revealFields (data : Bytes) : Option (PeerId × Bytes × Bytes) :=
  let idLen := (data.headD 0).toNat
  if data.length ≠ 1 + idLen + kPubLen + kPairingNonceLen ∨ idLen = 0 then none
  else some ((data.drop 1).take idLen, (data.drop (1 + idLen)).take kPubLen,
    (data.drop (1 + idLen + kPubLen)).take kPairingNonceLen)

variable {τ : Type}

def create (transport : τ) (self : PeerId) : PairingExchange τ :=
  { transport, self, handshake := .init, peerId := [], code := []
    psk := ⟨List.replicate 32 0, List.length_replicate⟩
    started := false, status := .needMore, phase := .awaitCommit, nonce := []
    peerCommit := List.replicate kCommitLen 0 }

def fail (exchange : PairingExchange τ) : PairingExchange τ := { exchange with status := .error }

def outOfBounds (exchange : PairingExchange τ) : Bool :=
  exchange.handshake.publicPoint.length != kPubLen || exchange.self.length == 0 ||
    decide (exchange.self.length > 255)

variable [Transport τ]

def sendCommit (crypto : Crypto) (exchange : PairingExchange τ) (random : Bytes) :
    Bool × PairingExchange τ :=
  if exchange.outOfBounds then (false, exchange)
  else if random.length ≠ kPairingNonceLen then (false, { exchange with nonce := random })
  else
    let commit := crypto.sha256 (commitInput exchange.handshake.publicPoint random exchange.self)
    let (started, transport) := Transport.send exchange.transport commit.val
    (started, { exchange with transport, nonce := random, started })

/-- `generated` and `random` are what key generation and `randomBytes` return. -/
def start (crypto : Crypto) (exchange : PairingExchange τ) (generated : Option EcdhKeyPair)
    (random : Bytes) : Bool × PairingExchange τ :=
  if exchange.started then (true, exchange)
  else match exchange.handshake.begin generated with
  | (false, handshake) => (false, { exchange with handshake })
  | (true, handshake) => sendCommit crypto { exchange with handshake } random

/-- The first message is the peer's commitment, which we answer with our reveal. -/
def takeCommit (exchange : PairingExchange τ) (data : Bytes) : PairingExchange τ :=
  if data.length ≠ kCommitLen then exchange.fail -- a commitment is exactly one SHA-256 digest
  else
    let exchange := { exchange with peerCommit := data }
    let (sent, transport) := Transport.send exchange.transport
      (revealMessage exchange.self exchange.handshake.publicPoint exchange.nonce)
    let exchange := { exchange with transport }
    if sent then { exchange with phase := .awaitReveal } else exchange.fail

/-- The second message is the peer's reveal. -/
def takeReveal (crypto : Crypto) (exchange : PairingExchange τ) (data : Bytes) : PairingExchange τ :=
  match revealFields data with
  | none => exchange.fail -- malformed
  | some (peerId, peerPub, peerNonce) =>
      let exchange := { exchange with peerId }
      if peerId = exchange.self then exchange.fail -- paired with ourselves
      else if (crypto.sha256 (commitInput peerPub peerNonce peerId)).val ≠ exchange.peerCommit then
        exchange.fail -- commitment mismatch
      else match exchange.handshake.computeShared crypto peerPub with
      | (false, handshake) => { exchange with handshake }.fail
      | (true, handshake) =>
          let code := handshake.verificationCode crypto exchange.nonce peerNonce
          match handshake.derivePsk crypto exchange.self peerId with
          | none => { exchange with handshake, code }.fail
          | some psk => { exchange with handshake, code, psk, status := .ok }

def poll (crypto : Crypto) (exchange : PairingExchange τ) : PairingStatus × PairingExchange τ :=
  if exchange.status ≠ .needMore then (exchange.status, exchange)
  else
    let (received, transport) := Transport.recv exchange.transport kBufferLen
    let exchange := { exchange with transport }
    let after := match received with
      | some [] => exchange -- peer message not here yet
      | none => exchange.fail
      | some data => match exchange.phase with
        | .awaitCommit => exchange.takeCommit data
        | .awaitReveal => exchange.takeReveal crypto data
    (after.status, after)

variable {id : PeerId} {point nonce data : Bytes}

theorem revealMessage_length (point_ : point.length = kPubLen)
    (nonce_ : nonce.length = kPairingNonceLen) :
    (revealMessage id point nonce).length = 1 + id.length + kPubLen + kPairingNonceLen := by
  simp only [revealMessage, List.length_cons, List.length_append, point_, nonce_]
  omega

theorem revealFields_message (some_ : id ≠ []) (short : id.length ≤ 255)
    (point_ : point.length = kPubLen) (nonce_ : nonce.length = kPairingNonceLen) :
    revealFields (revealMessage id point nonce) = some (id, point, nonce) := by
  have idLen : ((revealMessage id point nonce).headD 0).toNat = id.length :=
    UInt8.toNat_ofNat_of_lt' (Nat.lt_succ_of_le short)
  have whole := @revealMessage_length id point nonce point_ nonce_
  have positive := List.length_pos_iff.mpr some_
  simp only [revealFields, idLen, whole]
  rw [if_neg (by omega)]
  have behind : ∀ count, (revealMessage id point nonce).drop (1 + count) =
      (id ++ point ++ nonce).drop count := fun count => by
    rw [Nat.add_comm, revealMessage, List.drop_succ_cons]
  have front : (revealMessage id point nonce).drop 1 = id ++ (point ++ nonce) := by
    rw [revealMessage, List.drop_one, List.tail_cons, List.append_assoc]
  rw [Nat.add_assoc, behind, behind, front, List.take_left' rfl, List.append_assoc,
    List.drop_left' rfl, ← List.append_assoc, List.take_left' point_,
    List.drop_left' (by rw [List.length_append, point_]), ← nonce_, List.take_length]

/-- A message with fields is the reveal of these fields. -/
theorem revealFields_eq_some (fields : revealFields data = some (id, point, nonce)) :
    data = revealMessage id point nonce ∧ point.length = kPubLen ∧
      nonce.length = kPairingNonceLen ∧ id ≠ [] := by
  unfold revealFields at fields
  dsimp only at fields
  split at fields
  · contradiction
  · rename_i wellFormed
    obtain ⟨size, some_⟩ := not_or.mp wellFormed
    rw [not_not] at size
    cases data with
    | nil => contradiction
    | cons first rest =>
        rw [List.headD_cons] at fields size some_
        rw [List.length_cons] at size
        have behind : ∀ count, (first :: rest).drop (1 + count) = rest.drop count :=
          fun count => by rw [Nat.add_comm, List.drop_succ_cons]
        rw [Nat.add_assoc 1 first.toNat kPubLen, behind, behind, List.drop_one, List.tail_cons,
          Option.some.injEq, Prod.mk.injEq, Prod.mk.injEq] at fields
        obtain ⟨rfl, rfl, rfl⟩ := fields
        have idLen : (rest.take first.toNat).length = first.toNat := by
          rw [List.length_take]
          omega
        have whole : rest = rest.take first.toNat ++ (rest.drop first.toNat).take kPubLen ++
            (rest.drop (first.toNat + kPubLen)).take kPairingNonceLen := by
          have last : (rest.drop (first.toNat + kPubLen)).length ≤ kPairingNonceLen := by
            rw [List.length_drop]
            omega
          rw [List.take_of_length_le last, ← List.drop_drop, List.append_assoc,
            List.take_append_drop, List.take_append_drop]
        refine ⟨?_, ?_, ?_, ?_⟩
        · rw [revealMessage, idLen, UInt8.ofNat_toNat, ← whole]
        · rw [List.length_take, List.length_drop]
          omega
        · rw [List.length_take, List.length_drop]
          omega
        · exact List.ne_nil_of_length_pos (by omega)

end PairingExchange

end Skittermouse.Pairing

import Skittermouse.Core.EventTypes
import Skittermouse.Net.Transport

namespace Skittermouse.Net

open Skittermouse.Data Skittermouse.Core

/-- A 32-byte AES-256 key, which is also what pairing stores for a peer. -/
def Psk : Type := { bytes : Bytes // bytes.length = 32 }

instance : DecidableEq Psk := inferInstanceAs (DecidableEq { bytes : Bytes // bytes.length = 32 })

/-- AES-256-GCM, which the platform supplies. Encryption yields as many
ciphertext bytes as plaintext bytes and a 16-byte tag, and decryption inverts it. -/
structure Aead where
  encrypt : Psk → Bytes → Bytes → Option (Bytes × Bytes)
  decrypt : Psk → Bytes → Bytes → Bytes → Option Bytes
  encrypt_sizes : ∀ {key nonce plaintext ciphertext tag},
    encrypt key nonce plaintext = some (ciphertext, tag) →
      ciphertext.length = plaintext.length ∧ tag.length = 16
  decrypt_size : ∀ {key nonce ciphertext tag plaintext},
    decrypt key nonce ciphertext tag = some plaintext → plaintext.length = ciphertext.length
  decrypt_encrypt : ∀ {key nonce plaintext ciphertext tag},
    encrypt key nonce plaintext = some (ciphertext, tag) →
      decrypt key nonce ciphertext tag = some plaintext

def kNonceLen : Nat := 12
def kTagLen : Nat := 16
def kOverhead : Nat := kNonceLen + kTagLen

inductive Role where
  | initiator
  | responder
deriving DecidableEq

def Role.code : Role → UInt8
  | .initiator => 0
  | .responder => 1

def Role.other : Role → Role
  | .initiator => .responder
  | .responder => .initiator

def makeNonce (role : UInt8) (ctr : UInt64) : Bytes := [role, 0, 0, 0] ++ beBytes 8 ctr.toNat

def readCounter (nonce : Bytes) : UInt64 := UInt64.ofNat (beValue (nonce.drop 4))

@[simp] theorem makeNonce_length (role : UInt8) (ctr : UInt64) :
    (makeNonce role ctr).length = kNonceLen := by
  simp [makeNonce, kNonceLen]

theorem readCounter_makeNonce (role : UInt8) (ctr : UInt64) :
    readCounter (makeNonce role ctr) = ctr := by
  have value : beValue (beBytes 8 ctr.toNat) = ctr.toNat :=
    beValue_beBytes_of_lt (by have := ctr.toNat_lt; omega)
  simp [readCounter, makeNonce, value]

theorem makeNonce_inj {role other : UInt8} {ctr otherCtr : UInt64}
    (same : makeNonce role ctr = makeNonce other otherCtr) : role = other ∧ ctr = otherCtr := by
  have counters := congrArg readCounter same
  rw [readCounter_makeNonce, readCounter_makeNonce] at counters
  exact ⟨(List.cons.inj same).1, counters⟩

/-- The decorator over an owned inner transport. `scratch` is the size of the
receive buffer, which grows with the largest `cap` ever asked for. -/
structure EncryptedTransport (aead : Aead) (τ : Type) where
  inner : τ
  key : Psk
  sendRole : UInt8
  recvRole : UInt8
  sendCtr : UInt64
  lastRecvCtr : UInt64
  haveRecv : Bool
  scratch : Nat

def linkRoleFor (self peer : PeerId) : Role := if self < peer then .initiator else .responder

namespace EncryptedTransport

variable {aead : Aead} {τ : Type}

def create (inner : τ) (key : Psk) (role : Role) : EncryptedTransport aead τ :=
  { inner, key, sendRole := role.code, recvRole := role.other.code
    sendCtr := 0, lastRecvCtr := 0, haveRecv := false, scratch := 0 }

/-- The part of `send` before the inner transport sees anything: the frame to
hand over, and the advanced counter. -/
def sealFrame (link : EncryptedTransport aead τ) (data : Bytes) :
    Option (Bytes × EncryptedTransport aead τ) :=
  if data = [] then none
  else
    let nonce := makeNonce link.sendRole link.sendCtr
    match aead.encrypt link.key nonce data with
    | none => none
    | some (ciphertext, tag) =>
        -- Refuse to wrap the counter.
        if link.sendCtr = UInt64.ofNat (2 ^ 64 - 1) then none
        else some (nonce ++ tag ++ ciphertext, { link with sendCtr := link.sendCtr + 1 })

/-- The checks of `recv` on one frame: the plaintext and the frame's counter. -/
def openFrame (link : EncryptedTransport aead τ) (frame : Bytes) (cap : Nat) :
    Option (Bytes × UInt64) :=
  if frame.length < kOverhead then none
  else
    let nonce := frame.take kNonceLen
    if nonce.head? ≠ some link.recvRole then none
    else
      let ctr := readCounter nonce
      if link.haveRecv && decide (ctr ≤ link.lastRecvCtr) then none
      else
        let tag := (frame.drop kNonceLen).take kTagLen
        let ciphertext := frame.drop kOverhead
        if ciphertext.length > cap then none
        else match aead.decrypt link.key nonce ciphertext tag with
          | none => none
          | some plaintext => some (plaintext, ctr)

section Operations

variable [Transport τ]

def send (link : EncryptedTransport aead τ) (data : Bytes) : Bool × EncryptedTransport aead τ :=
  match link.sealFrame data with
  | none => (false, link)
  | some (frame, link) =>
      let (sent, inner) := Transport.send link.inner frame
      (sent, { link with inner })

def recv (link : EncryptedTransport aead τ) (cap : Nat) :
    Option Bytes × EncryptedTransport aead τ :=
  let scratch := max link.scratch (cap + kOverhead)
  let (received, inner) := Transport.recv link.inner scratch
  let link := { link with inner, scratch }
  match received with
  | none => (none, link)
  | some [] => (some [], link)
  | some frame => match link.openFrame frame cap with
    | none => (none, link)
    | some (plaintext, ctr) => (some plaintext, { link with haveRecv := true, lastRecvCtr := ctr })

end Operations

theorem frame_fields {nonce tag ciphertext : Bytes} (nonceSize : nonce.length = kNonceLen)
    (tagSize : tag.length = kTagLen) :
    (nonce ++ tag ++ ciphertext).take kNonceLen = nonce ∧
      ((nonce ++ tag ++ ciphertext).drop kNonceLen).take kTagLen = tag ∧
      (nonce ++ tag ++ ciphertext).drop kOverhead = ciphertext := by
  refine ⟨?_, ?_, List.drop_left' (by rw [List.length_append, nonceSize, tagSize]; rfl)⟩
  · rw [List.append_assoc, List.take_left' nonceSize]
  · rw [List.append_assoc, List.drop_left' nonceSize, List.take_left' tagSize]

/-- What `recv` makes of a frame's fields before it looks at counters. -/
def authenticate (aead : Aead) (key : Psk) (frame : Bytes) : Option Bytes :=
  aead.decrypt key (frame.take kNonceLen) (frame.drop kOverhead) ((frame.drop kNonceLen).take kTagLen)

theorem openFrame_eq_some {link : EncryptedTransport aead τ} {frame plaintext : Bytes} {cap : Nat}
    {ctr : UInt64} (opened : link.openFrame frame cap = some (plaintext, ctr)) :
    (frame.take kNonceLen).head? = some link.recvRole ∧
      authenticate aead link.key frame = some plaintext := by
  unfold openFrame at opened
  dsimp only at opened
  split at opened
  · contradiction
  · split at opened
    · contradiction
    · rename_i role
      split at opened
      · contradiction
      · split at opened
        · contradiction
        · split at opened
          · contradiction
          · rename_i decrypted
            cases opened
            exact ⟨not_not.mp role, decrypted⟩

theorem openFrame_counter {link : EncryptedTransport aead τ} {frame plaintext : Bytes} {cap : Nat}
    {ctr : UInt64} (opened : link.openFrame frame cap = some (plaintext, ctr)) :
    ctr = readCounter (frame.take kNonceLen) ∧ (link.haveRecv = true → link.lastRecvCtr < ctr) := by
  unfold openFrame at opened
  dsimp only at opened
  split at opened
  · contradiction
  · split at opened
    · contradiction
    · split at opened
      · contradiction
      · rename_i later
        split at opened
        · contradiction
        · split at opened
          · contradiction
          · cases opened
            refine ⟨rfl, fun received => ?_⟩
            simp only [received, Bool.true_and, decide_eq_true_eq] at later
            exact UInt64.not_le.mp later

theorem sealFrame_eq_some {link after : EncryptedTransport aead τ} {data frame : Bytes}
    (sealed : link.sealFrame data = some (frame, after)) :
    data ≠ [] ∧ link.sendCtr ≠ UInt64.ofNat (2 ^ 64 - 1) ∧
    ∃ ciphertext tag,
      aead.encrypt link.key (makeNonce link.sendRole link.sendCtr) data = some (ciphertext, tag) ∧
      frame = makeNonce link.sendRole link.sendCtr ++ tag ++ ciphertext ∧
      after = { link with sendCtr := link.sendCtr + 1 } := by
  unfold sealFrame at sealed
  split at sealed
  · contradiction
  · rename_i nonempty
    dsimp only at sealed
    split at sealed
    · contradiction
    · rename_i ciphertext tag encrypted
      split at sealed
      · contradiction
      · rename_i room
        cases sealed
        exact ⟨nonempty, room, ciphertext, tag, encrypted, rfl, rfl⟩

theorem openFrame_fits {link : EncryptedTransport aead τ} {frame plaintext : Bytes} {cap : Nat}
    {ctr : UInt64} (opened : link.openFrame frame cap = some (plaintext, ctr)) :
    plaintext.length ≤ cap := by
  unfold openFrame at opened
  dsimp only at opened
  split at opened
  · contradiction
  · split at opened
    · contradiction
    · split at opened
      · contradiction
      · split at opened
        · contradiction
        · rename_i fits
          split at opened
          · contradiction
          · rename_i decrypted
            cases opened
            rw [aead.decrypt_size decrypted]
            exact not_lt.mp fits

variable [Transport τ]

theorem recv_fits {link : EncryptedTransport aead τ} {cap : Nat} {message : Bytes}
    (received : (link.recv cap).1 = some message) : message.length ≤ cap := by
  unfold recv at received
  dsimp only at received
  split at received
  · contradiction
  · cases received
    exact Nat.zero_le _
  · split at received
    · contradiction
    · rename_i opened
      cases received
      exact openFrame_fits opened

theorem recv_fst (link : EncryptedTransport aead τ) (cap : Nat) :
    (link.recv cap).1 =
      match (Transport.recv link.inner (max link.scratch (cap + kOverhead))).1 with
      | none => none
      | some [] => some []
      | some frame => (link.openFrame frame cap).map Prod.fst := by
  have opens : ∀ inner scratch frame,
      ({ link with inner, scratch } : EncryptedTransport aead τ).openFrame frame cap =
        link.openFrame frame cap := fun _ _ _ => rfl
  simp only [recv, opens]
  split
  · rfl
  · rfl
  · rename_i frame _ _
    cases link.openFrame frame cap <;> rfl

theorem recv_cases (link : EncryptedTransport aead τ) (cap : Nat) :
    (((link.recv cap).1 = none ∨ (link.recv cap).1 = some []) ∧
      (link.recv cap).2.haveRecv = link.haveRecv ∧
      (link.recv cap).2.lastRecvCtr = link.lastRecvCtr) ∨
    ∃ frame plaintext ctr,
      (Transport.recv link.inner (max link.scratch (cap + kOverhead))).1 = some frame ∧
      link.openFrame frame cap = some (plaintext, ctr) ∧ (link.recv cap).1 = some plaintext ∧
      (link.recv cap).2.haveRecv = true ∧ (link.recv cap).2.lastRecvCtr = ctr := by
  have opens : ∀ inner scratch frame,
      ({ link with inner, scratch } : EncryptedTransport aead τ).openFrame frame cap =
        link.openFrame frame cap := fun _ _ _ => rfl
  simp only [recv, opens]
  split
  · exact .inl ⟨.inl rfl, rfl, rfl⟩
  · exact .inl ⟨.inr rfl, rfl, rfl⟩
  · rename_i frame _ found
    cases opened : link.openFrame frame cap with
    | none => exact .inl ⟨.inl rfl, rfl, rfl⟩
    | some result => exact .inr ⟨frame, result.1, result.2, found, opened, rfl, rfl, rfl⟩

theorem recv_inner (link : EncryptedTransport aead τ) (cap : Nat) :
    (link.recv cap).2.inner =
      (Transport.recv link.inner (max link.scratch (cap + kOverhead))).2 := by
  unfold recv
  dsimp only
  split
  · rfl
  · rfl
  · split <;> rfl

theorem recv_keeps (link : EncryptedTransport aead τ) (cap : Nat) :
    (link.recv cap).2.key = link.key ∧ (link.recv cap).2.sendRole = link.sendRole ∧
      (link.recv cap).2.sendCtr = link.sendCtr ∧ (link.recv cap).2.recvRole = link.recvRole := by
  unfold recv
  dsimp only
  split
  · exact ⟨rfl, rfl, rfl, rfl⟩
  · exact ⟨rfl, rfl, rfl, rfl⟩
  · split <;> exact ⟨rfl, rfl, rfl, rfl⟩

theorem recv_authentic {link : EncryptedTransport aead τ} {cap : Nat} {message : Bytes}
    (received : (link.recv cap).1 = some message) (nonempty : message ≠ []) :
    ∃ frame, (Transport.recv link.inner (max link.scratch (cap + kOverhead))).1 = some frame ∧
      (frame.take kNonceLen).head? = some link.recvRole ∧
      authenticate aead link.key frame = some message := by
  unfold recv at received
  dsimp only at received
  split at received
  · contradiction
  · cases received
    contradiction
  · rename_i frame _ found
    split at received
    · contradiction
    · rename_i opened
      cases received
      exact ⟨frame, found, openFrame_eq_some opened⟩

theorem send_frame (link : EncryptedTransport aead τ) (data : Bytes) :
    ∃ inner sendCtr, (link.send data).2 = { link with inner, sendCtr } := by
  cases sealed : link.sealFrame data with
  | none => exact ⟨link.inner, link.sendCtr, by rw [send, sealed]⟩
  | some result =>
      obtain ⟨frame, after⟩ := result
      obtain ⟨_, _, _, _, _, _, rfl⟩ := sealFrame_eq_some sealed
      exact ⟨_, _, by rw [send, sealed]⟩

theorem recv_data {link : EncryptedTransport aead τ} {cap : Nat} {message : Bytes}
    (received : (link.recv cap).1 = some message) (nonempty : message ≠ []) :
    ∃ frame, (Transport.recv link.inner (max link.scratch (cap + kOverhead))).1 = some frame ∧
      frame ≠ [] := by
  unfold recv at received
  dsimp only at received
  split at received
  · contradiction
  · cases received
    contradiction
  · rename_i frame notEmpty found
    exact ⟨frame, found, fun empty => notEmpty empty⟩

theorem send_inner_backlog (link : EncryptedTransport aead τ) (data : Bytes) :
    Transport.backlog (link.send data).2.inner ≤ Transport.backlog link.inner := by
  unfold send
  split
  · exact Nat.le_refl _
  · rename_i sealed
    obtain ⟨_, _, _, _, _, _, rfl⟩ := sealFrame_eq_some sealed
    exact Transport.send_backlog _ _

instance : Transport (EncryptedTransport aead τ) where
  isConnected link := Transport.isConnected link.inner
  send := send
  recv := recv
  close link := { link with inner := Transport.close link.inner }
  backlog link := Transport.backlog link.inner
  recv_fits := recv_fits
  recv_backlog {link cap message} received nonempty := by
    obtain ⟨frame, found, notEmpty⟩ := recv_data received nonempty
    rw [recv_inner]
    exact Transport.recv_backlog found notEmpty
  send_backlog := send_inner_backlog

end EncryptedTransport

/-- A stand-in cipher for concrete runs: it leaves the text as it is, and its
tag is a part of the key and the length of the text. -/
def plainTag (key : Psk) (text : Bytes) : Bytes := key.val.take 8 ++ leBytes 8 text.length

def tagAead : Aead where
  encrypt key _ plaintext := some (plaintext, plainTag key plaintext)
  decrypt key _ ciphertext tag := if tag = plainTag key ciphertext then some ciphertext else none
  encrypt_sizes {key nonce plaintext ciphertext tag} encrypted := by
    cases encrypted
    refine ⟨rfl, ?_⟩
    rw [plainTag, List.length_append, List.length_take, key.property, leBytes_length]
    decide
  decrypt_size {key nonce ciphertext tag plaintext} decrypted := by
    split at decrypted
    · cases decrypted
      rfl
    · contradiction
  decrypt_encrypt {key nonce plaintext ciphertext tag} encrypted := by
    cases encrypted
    exact if_pos rfl

def repeatedPsk (byte : UInt8) : Psk := ⟨List.replicate 32 byte, List.length_replicate⟩

end Skittermouse.Net

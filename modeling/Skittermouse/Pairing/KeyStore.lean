import Skittermouse.Data.OrdMap
import Skittermouse.Net.EncryptedTransport

namespace Skittermouse.Pairing

open Skittermouse.Data Skittermouse.Core Skittermouse.Net

structure Nonce where
  bytes : Bytes
  length : bytes.length = kNonceLen

structure KeyStore where
  psks : OrdMap PeerId Psk

namespace KeyStore

def setPsk (keys : KeyStore) (id : PeerId) (psk : Psk) : KeyStore := ⟨keys.psks.insert id psk⟩

def getPsk (keys : KeyStore) (id : PeerId) : Option Psk := keys.psks.find? id

def removePsk (keys : KeyStore) (id : PeerId) : KeyStore := ⟨keys.psks.erase id⟩

/-- `[idlen:2][id][psk:32]`; the length field keeps the low 16 bits. -/
def encodeKey (entry : PeerId × Psk) : Bytes :=
  beBytes 2 entry.1.length ++ entry.1 ++ entry.2.val

/-- `[count:4]` and the entries. -/
def plaintext (keys : KeyStore) : Bytes :=
  beBytes 4 keys.psks.entries.length ++ keys.psks.entries.flatMap encodeKey

/-- `[nonce:12][tag:16][ciphertext]`, and nothing when the encryption fails. -/
def serializeEncrypted (aead : Aead) (nonce : Nonce) (protectionKey : Psk) (keys : KeyStore) : Bytes :=
  match aead.encrypt protectionKey nonce.bytes keys.plaintext with
  | none => []
  | some (ciphertext, tag) => nonce.bytes ++ tag ++ ciphertext

def takeKey (data : Bytes) : Option ((PeerId × Psk) × Bytes) :=
  match takeField 2 data with
  | none => none
  | some (length, rest) => match takeField (beValue length) rest with
    | none => none
    | some (id, rest) => match taken : takeField 32 rest with
      | none => none
      | some (psk, rest) => some ((id, ⟨psk, (takeField_eq_some taken).2⟩), rest)

/-- Of two entries with one id the first is kept. -/
def parsePlaintext (plain : Bytes) : Option (OrdMap PeerId Psk) :=
  match takeField 4 plain with
  | none => none
  | some (count, rest) => match takeMany takeKey (beValue count) rest with
    | none => none
    | some (entries, _) =>
        some (entries.foldl (fun parsed entry => parsed.emplace entry.1 entry.2) ∅)

/-- The store is replaced only when every entry could be read. -/
def loadEncrypted (aead : Aead) (blob : Bytes) (protectionKey : Psk) (keys : KeyStore) :
    Bool × KeyStore :=
  if blob.length < kNonceLen + kTagLen then (false, keys)
  else
    let nonce := blob.take kNonceLen
    let tag := (blob.drop kNonceLen).take kTagLen
    let ciphertext := blob.drop (kNonceLen + kTagLen)
    match aead.decrypt protectionKey nonce ciphertext tag with
    | none => (false, keys)
    | some plain => match parsePlaintext plain with
      | none => (false, keys)
      | some psks => (true, ⟨psks⟩)

end KeyStore

inductive Party where
  | left
  | right
deriving DecidableEq

namespace Party

def other : Party → Party
  | .left => .right
  | .right => .left

theorem other_ne (party : Party) : party.other ≠ party := by
  cases party <;> exact nofun

theorem other_other (party : Party) : party.other.other = party := by
  cases party <;> rfl

theorem eq_or_other (party acting : Party) : party = acting ∨ party.other = acting := by
  cases party <;> cases acting <;> simp [other]

end Party

end Skittermouse.Pairing

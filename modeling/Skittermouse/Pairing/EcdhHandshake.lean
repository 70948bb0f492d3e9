import Skittermouse.Net.EncryptedTransport

namespace Skittermouse.Pairing

open Skittermouse.Data Skittermouse.Core Skittermouse.Net

def Hash256 : Type := { bytes : Bytes // bytes.length = 32 }

instance : DecidableEq Hash256 := inferInstanceAs (DecidableEq { bytes : Bytes // bytes.length = 32 })

structure EcdhKeyPair where
  publicPoint : Bytes
  privateBlob : Bytes
deriving DecidableEq

structure Crypto where
  sha256 : Bytes → Hash256
  hmacSha256 : Bytes → Bytes → Hash256
  ecdhComputeShared : EcdhKeyPair → Bytes → Option Bytes

def kEcPointLen : Nat := 64
def kSharedLen : Nat := 32

/-- A key pair of the curve: with any other, both sides compute one shared secret. -/
structure Crypto.OnCurve (crypto : Crypto) (generates : EcdhKeyPair → Prop) : Prop where
  point : ∀ pair, generates pair → pair.publicPoint.length = kEcPointLen
  shared : ∀ mine theirs, generates mine → generates theirs → ∃ secret : Bytes,
    secret.length = kSharedLen ∧ crypto.ecdhComputeShared mine theirs.publicPoint = some secret ∧
      crypto.ecdhComputeShared theirs mine.publicPoint = some secret

def expandFor (crypto : Crypto) (prk info : Bytes) (okmLen : Nat) :
    Nat → Bytes → Bytes → UInt8 → Bytes
  | 0, _, okm, _ => okm
  | fuel + 1, block, okm, counter =>
      if okm.length < okmLen ∧ counter ≠ 0 then
        let block := (crypto.hmacSha256 prk (block ++ info ++ [counter])).val
        expandFor crypto prk info okmLen fuel block (okm ++ block.take (okmLen - okm.length))
          (counter + 1)
      else okm

/-- An empty salt stands for 32 zero bytes. The round counter is one byte. -/
def hkdfReserved (crypto : Crypto) (ikm salt info : Bytes) (okmLen : Nat) : Bytes :=
  let salt := if salt = [] then List.replicate 32 0 else salt
  let prk := (crypto.hmacSha256 salt ikm).val
  expandFor crypto prk info okmLen 255 [] [] 1

/-- Nothing where `okm.reserve` throws: for more than a vector can hold, or more memory
than there is. -/
def hkdfSha256 (crypto : Crypto) (memory : Nat) (ikm salt info : Bytes) (okmLen : UInt64) :
    Option Bytes :=
  if okmLen.toNat ≤ kMaxRequest ∧ okmLen.toNat ≤ memory then
    some (hkdfReserved crypto ikm salt info okmLen.toNat)
  else none

theorem expandFor_done (crypto : Crypto) (prk info block : Bytes) {okm : Bytes} {okmLen : Nat}
    (enough : okmLen ≤ okm.length) (fuel : Nat) (counter : UInt8) :
    expandFor crypto prk info okmLen fuel block okm counter = okm := by
  cases fuel with
  | zero => rfl
  | succ fuel => rw [expandFor, if_neg fun going => not_le.mpr going.1 enough]

theorem hkdfReserved_length (crypto : Crypto) (ikm salt info : Bytes) :
    (hkdfReserved crypto ikm salt info 32).length = 32 := by
  simp only [hkdfReserved]
  generalize (crypto.hmacSha256 (if salt = [] then List.replicate 32 0 else salt) ikm).val = prk
  change (expandFor crypto prk info 32 (254 + 1) [] [] 1).length = 32
  have first : ([] : Bytes).length < 32 ∧ (1 : UInt8) ≠ 0 := by decide
  rw [expandFor, if_pos first]
  generalize crypto.hmacSha256 prk ([] ++ info ++ [1]) = block
  have full : (([] : Bytes) ++ block.val.take (32 - ([] : Bytes).length)).length = 32 := by
    rw [List.nil_append, List.length_take, block.property]
    rfl
  rw [expandFor_done crypto prk info block.val full.ge]
  exact full

/-- `memcmp` over the bytes that both have. -/
def memcmp : Bytes → Bytes → Ordering
  | left :: lefts, right :: rights =>
      if left = right then memcmp lefts rights else if left < right then .lt else .gt
  | _, _ => .eq

def sixDigits (value : Nat) : Bytes :=
  [100000, 10000, 1000, 100, 10, 1].map fun unit => UInt8.ofNat (48 + value / unit % 10)

/-- The first four bytes as a number, without the high bit, modulo a million. -/
def truncate6 (mac : Hash256) : Bytes :=
  sixDigits (beValue (mac.val.take 4) % 2 ^ 31 % 1000000)

def pairingContext : Bytes := [112, 97, 105, 114, 105, 110, 103]

/-- The nonces in the order that both peers put them in. -/
def sortedNonces (nonceA nonceB : Bytes) : Bytes × Bytes :=
  if memcmp nonceA nonceB = .gt ∨ (memcmp nonceA nonceB = .eq ∧ nonceB.length < nonceA.length) then
    (nonceB, nonceA)
  else (nonceA, nonceB)

def verificationCode (crypto : Crypto) (shared nonceA nonceB : Bytes) : Bytes :=
  let (lo, hi) := sortedNonces nonceA nonceB
  truncate6 (crypto.hmacSha256 shared (pairingContext ++ lo ++ hi))

theorem memcmp_swap (left right : Bytes) : memcmp right left = (memcmp left right).swap := by
  fun_induction memcmp left right with
  | case1 left lefts rights ih => rw [memcmp, if_pos rfl, ih]
  | case2 left lefts right rights apart below =>
      rw [memcmp, if_neg (Ne.symm apart), if_neg (lt_asymm below)]
      rfl
  | case3 left lefts right rights apart above =>
      have below : right < left := lt_of_le_of_ne (not_lt.mp above) (Ne.symm apart)
      rw [memcmp, if_neg (Ne.symm apart), if_pos below]
      rfl
  | case4 left right none =>
      cases left with
      | nil => cases right <;> rfl
      | cons first lefts =>
          cases right with
          | nil => rfl
          | cons second rights => exact absurd rfl (none first lefts second rights rfl)

theorem memcmp_eq {left right : Bytes} (same : memcmp left right = .eq)
    (size : left.length = right.length) : left = right := by
  fun_induction memcmp left right with
  | case1 left lefts rights ih => rw [ih same (Nat.succ.inj size)]
  | case2 => contradiction
  | case3 => contradiction
  | case4 left right none =>
      cases left with
      | nil => exact (List.length_eq_zero_iff.mp size.symm).symm
      | cons first lefts =>
          cases right with
          | nil => contradiction
          | cons second rights => exact absurd rfl (none first lefts second rights rfl)

theorem sortedNonces_swap (nonceA nonceB : Bytes) :
    sortedNonces nonceB nonceA = sortedNonces nonceA nonceB := by
  unfold sortedNonces
  rw [memcmp_swap nonceA nonceB]
  cases compared : memcmp nonceA nonceB with
  | lt => simp [Ordering.swap]
  | gt => simp [Ordering.swap]
  | eq =>
      simp only [Ordering.swap, reduceCtorEq, false_or, true_and]
      rcases lt_trichotomy nonceA.length nonceB.length with less | same | more
      · rw [if_pos less, if_neg (lt_asymm less)]
      · rw [memcmp_eq compared same]
      · rw [if_pos more, if_neg (lt_asymm more)]

theorem verificationCode_swap (crypto : Crypto) (shared nonceA nonceB : Bytes) :
    verificationCode crypto shared nonceB nonceA = verificationCode crypto shared nonceA nonceB := by
  rw [verificationCode, sortedNonces_swap, verificationCode]

theorem verificationCode_length (crypto : Crypto) (shared nonceA nonceB : Bytes) :
    (verificationCode crypto shared nonceA nonceB).length = 6 := rfl

structure EcdhHandshake where
  pair : EcdhKeyPair
  shared : Bytes
deriving DecidableEq

namespace EcdhHandshake

def init : EcdhHandshake := ⟨⟨[], []⟩, []⟩

/-- `generated` is what the platform's generator comes up with, if it works. -/
def begin (handshake : EcdhHandshake) (generated : Option EcdhKeyPair) : Bool × EcdhHandshake :=
  match generated with
  | none => (false, handshake)
  | some pair => (true, { handshake with pair })

def publicPoint (handshake : EcdhHandshake) : Bytes := handshake.pair.publicPoint

def computeShared (crypto : Crypto) (handshake : EcdhHandshake) (peerPublicPoint : Bytes) :
    Bool × EcdhHandshake :=
  match crypto.ecdhComputeShared handshake.pair peerPublicPoint with
  | none => (false, handshake)
  | some shared => (true, { handshake with shared })

def hasShared (handshake : EcdhHandshake) : Bool := handshake.shared.length == kSharedLen

def verificationCode (crypto : Crypto) (handshake : EcdhHandshake) (saltA saltB : Bytes) : Bytes :=
  if handshake.hasShared then Pairing.verificationCode crypto handshake.shared saltA saltB else []

def pskInfo : Bytes :=
  [115, 107, 105, 116, 116, 101, 114, 109, 111, 117, 115, 101, 45, 112, 115, 107, 45, 118, 49]

/-- The salt is the two ids, the lower first, with a bar between them. -/
def pskSalt (idA idB : PeerId) : Bytes :=
  let lo := if idA < idB then idA else idB
  let hi := if idA < idB then idB else idA
  lo ++ [124] ++ hi

/-- The 32 bytes of a key are taken to find room. -/
def derivePsk (crypto : Crypto) (handshake : EcdhHandshake) (idA idB : PeerId) : Option Psk :=
  if handshake.hasShared then do
    let okm ← hkdfSha256 crypto kMaxRequest handshake.shared (pskSalt idA idB) pskInfo 32
    if size : okm.length = 32 then some ⟨okm, size⟩ else none
  else none

theorem pskSalt_swap (idA idB : PeerId) : pskSalt idB idA = pskSalt idA idB := by
  unfold pskSalt
  rcases lt_trichotomy idA idB with below | rfl | above
  · simp only [if_pos below, if_neg (lt_asymm below)]
  · rfl
  · simp only [if_pos above, if_neg (lt_asymm above)]

/-- With a shared secret there is a key, and it depends on the secret and the
two ids alone. -/
theorem derivePsk_shared (crypto : Crypto) {handshake : EcdhHandshake} (idA idB : PeerId)
    (has : handshake.shared.length = kSharedLen) :
    ∃ psk : Psk, handshake.derivePsk crypto idA idB = some psk ∧
      hkdfSha256 crypto kMaxRequest handshake.shared (pskSalt idA idB) pskInfo 32 = some psk.val := by
  have shared : handshake.hasShared = true := beq_iff_eq.mpr has
  have derived : hkdfSha256 crypto kMaxRequest handshake.shared (pskSalt idA idB) pskInfo 32 =
      some (hkdfReserved crypto handshake.shared (pskSalt idA idB) pskInfo 32) :=
    if_pos ⟨by decide, by decide⟩
  refine ⟨⟨_, hkdfReserved_length crypto handshake.shared (pskSalt idA idB) pskInfo⟩, ?_, derived⟩
  rw [derivePsk, if_pos shared, derived]
  exact dif_pos (hkdfReserved_length crypto _ _ _)

end EcdhHandshake

def firstBytes (data : Bytes) : Hash256 :=
  ⟨(data ++ List.replicate 32 0).take 32, by
    rw [List.length_take, List.length_append, List.length_replicate]
    omega⟩

def plainCrypto : Crypto where
  sha256 data := firstBytes data.reverse
  hmacSha256 key data := firstBytes (List.zipWith (· ^^^ ·) key data)
  ecdhComputeShared mine point :=
    some (List.zipWith (· ^^^ ·) (mine.publicPoint.take 32) (point.take 32))

theorem plainCrypto_onCurve :
    plainCrypto.OnCurve fun pair => pair.publicPoint.length = kEcPointLen := by
  refine ⟨fun _ point => point, fun mine theirs minePoint theirPoint => ⟨_, ?_, rfl, ?_⟩⟩
  · rw [List.length_zipWith, List.length_take, List.length_take, minePoint, theirPoint]
    rfl
  · simp only [plainCrypto, Option.some.injEq]
    exact List.zipWith_comm_of_comm fun left right => UInt8.xor_comm left right

end Skittermouse.Pairing

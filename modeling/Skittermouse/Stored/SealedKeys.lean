import Skittermouse.Pairing.KeyStore

namespace Skittermouse.Stored

open Skittermouse.Data Skittermouse.Core Skittermouse.Net Skittermouse.Pairing

/-! # Sealed keys

The keys of the paired devices under the machine's protection key. What comes
back is the map that went in, and a blob that cannot be read leaves the keys
alone.
-/

variable {aead : Aead} {nonce : Nonce} {protectionKey : Psk} {keys : KeyStore}

theorem takeKey_encodeKey {entry : PeerId × Psk} (short : entry.1.length ≤ 65535) (rest : Bytes) :
    KeyStore.takeKey (KeyStore.encodeKey entry ++ rest) = some (entry, rest) := by
  have width : beValue (beBytes 2 entry.1.length) = entry.1.length :=
    beValue_beBytes_of_lt (by omega)
  have id := takeField_append (entry.2.val ++ rest) (rfl : entry.1.length = entry.1.length)
  have psk := takeField_append rest entry.2.property
  simp only [KeyStore.encodeKey, List.append_assoc, KeyStore.takeKey,
    takeField_append _ (beBytes_length 2 _), width, id]
  split
  · rename_i none
    exact absurd (psk.symm.trans none) nofun
  · rename_i field behind taken
    obtain ⟨rfl, rfl⟩ := Prod.mk.inj (Option.some.inj (psk.symm.trans taken))
    rfl

theorem parsePlaintext_plaintext (few : keys.psks.entries.length < 2 ^ 32)
    (short : ∀ entry ∈ keys.psks.entries, entry.1.length ≤ 65535) :
    KeyStore.parsePlaintext keys.plaintext = some keys.psks := by
  have count : beValue (beBytes 4 keys.psks.entries.length) = keys.psks.entries.length :=
    beValue_beBytes_of_lt (by omega)
  have entries := takeMany_flatMap
    (fun entry member rest => takeKey_encodeKey (short entry member) rest) []
  rw [List.append_nil] at entries
  simp only [KeyStore.parsePlaintext, KeyStore.plaintext, takeField_append _ (beBytes_length 4 _),
    count, entries, OrdMap.foldl_emplace_entries]

theorem loadEncrypted_sealed (other : KeyStore) {ciphertext tag : Bytes}
    (encrypted : aead.encrypt protectionKey nonce.bytes keys.plaintext = some (ciphertext, tag))
    (parsed : KeyStore.parsePlaintext keys.plaintext = some keys.psks) :
    other.loadEncrypted aead (nonce.bytes ++ tag ++ ciphertext) protectionKey = (true, keys) := by
  have tagSize : tag.length = kTagLen := (aead.encrypt_sizes encrypted).2
  have nonceSize := nonce.length
  have long : ¬ (nonce.bytes ++ tag ++ ciphertext).length < kNonceLen + kTagLen := by
    rw [List.length_append, List.length_append, nonceSize, tagSize]
    omega
  have first : (nonce.bytes ++ tag ++ ciphertext).take kNonceLen = nonce.bytes := by
    rw [List.append_assoc, List.take_left' nonceSize]
  have second : ((nonce.bytes ++ tag ++ ciphertext).drop kNonceLen).take kTagLen = tag := by
    rw [List.append_assoc, List.drop_left' nonceSize, List.take_left' tagSize]
  have third : (nonce.bytes ++ tag ++ ciphertext).drop (kNonceLen + kTagLen) = ciphertext :=
    List.drop_left' (by rw [List.length_append, nonceSize, tagSize])
  simp only [KeyStore.loadEncrypted, if_neg long, first, second, third,
    aead.decrypt_encrypt encrypted, parsed]

theorem loadEncrypted_cases (aead : Aead) (blob : Bytes) (protectionKey : Psk) (keys : KeyStore) :
    keys.loadEncrypted aead blob protectionKey = (false, keys) ∨
      ∃ psks, keys.loadEncrypted aead blob protectionKey = (true, ⟨psks⟩) := by
  unfold KeyStore.loadEncrypted
  split
  · exact .inl rfl
  · dsimp only
    split
    · exact .inl rfl
    · split
      · exact .inl rfl
      · exact .inr ⟨_, rfl⟩

/-- A sealed store loads as it was into any store, and a blob that does not load
leaves the store as it was. -/
theorem sealed_keys_load (aead : Aead) :
    (∀ (keys other : KeyStore) (nonce : Nonce) (protectionKey : Psk),
        keys.psks.entries.length < 2 ^ 32 →
        (∀ entry ∈ keys.psks.entries, entry.1.length ≤ 65535) →
        keys.serializeEncrypted aead nonce protectionKey ≠ [] →
          other.loadEncrypted aead (keys.serializeEncrypted aead nonce protectionKey) protectionKey =
            (true, keys)) ∧
      ∀ (keys : KeyStore) (blob : Bytes) (protectionKey : Psk),
        (keys.loadEncrypted aead blob protectionKey).1 = false →
          (keys.loadEncrypted aead blob protectionKey).2 = keys := by
  constructor
  · intro keys other nonce protectionKey few short written
    rw [KeyStore.serializeEncrypted] at written ⊢
    split at written
    · exact absurd rfl written
    · rename_i ciphertext tag encrypted
      exact loadEncrypted_sealed other encrypted (parsePlaintext_plaintext few short)
  · intro keys blob protectionKey refused
    rcases loadEncrypted_cases aead blob protectionKey keys with unchanged | ⟨psks, replaced⟩
    · rw [unchanged]
    · rw [replaced] at refused
      contradiction

def pairedKeys : KeyStore :=
  (KeyStore.setPsk ⟨∅⟩ [2] ⟨List.replicate 32 7, rfl⟩).setPsk [1] ⟨List.replicate 32 9, rfl⟩

def zeroNonce : Nonce := ⟨List.replicate 12 0, rfl⟩

def protection : Psk := ⟨List.replicate 32 5, rfl⟩

theorem paired_keys_load :
    KeyStore.loadEncrypted tagAead (pairedKeys.serializeEncrypted tagAead zeroNonce protection)
      protection ⟨∅⟩ = (true, pairedKeys) :=
  (sealed_keys_load tagAead).1 pairedKeys ⟨∅⟩ zeroNonce protection (by decide) (by decide)
    (by decide)

end Skittermouse.Stored

import Skittermouse.Net.FilePromiseAnnounce
import Skittermouse.Net.OwnershipCodec

namespace Skittermouse.Net

open Skittermouse.Data Skittermouse.Core

/-! # What a node broadcasts, and what the codecs make of it at the other end -/

inductive MeshMessage where
  /-- Forwarded input and heartbeats. -/
  | event (event : InputEvent)
  | claim (claim : OwnershipClaim)
  | clipboard (text : Bytes)
  | announce (files : List FilePromiseItem)
deriving DecidableEq

namespace MeshMessage

def encode : MeshMessage → Bytes
  | .event input => encodeInputEvent input
  | .claim issued => claimMessage issued
  | .clipboard text => encodeVarMessage .clipboardUpdate text
  | .announce files => encodeVarMessage .filePromiseAnnounce (encodeFilePromiseAnnounce files)

/-- An event carries the current version and a fixed type, and a claim names
machines whose ids fit the wire. -/
def WellFormed : MeshMessage → Prop
  | .event input => input.protocolVersion = kProtocolVersion ∧
      ∃ type, isFixedType type = true ∧ input.type = type.code
  | .claim issued => issued.target.length ≤ 255 ∧ issued.origin.length ≤ 255
  | .clipboard _ | .announce _ => True

end MeshMessage

/-- The message that the decoders find in received bytes. -/
def readMessage (data : Bytes) : Option MeshMessage :=
  match decodeMessage data with
  | .ok message _ =>
      if message.isFixed then some (.event message.fixed)
      else match message.type with
        | .switchOwner => (decodeOwnershipClaim message.payload).map .claim
        | .clipboardUpdate => some (.clipboard message.payload)
        | .filePromiseAnnounce => (decodeFilePromiseAnnounce message.payload).map .announce
        | _ => none
  | _ => none

theorem encodeFilePromiseItem_length (item : FilePromiseItem) :
    (encodeFilePromiseItem item).length = 10 + min item.name.length 0xFFFF := by
  simp [encodeFilePromiseItem]
  omega

theorem encodeFilePromiseItem_length_le {files : List FilePromiseItem} {item : FilePromiseItem}
    (member : item ∈ files) :
    (encodeFilePromiseItem item).length ≤ (files.flatMap encodeFilePromiseItem).length := by
  obtain ⟨before, after, rfl⟩ := List.append_of_mem member
  simp only [List.flatMap_append, List.flatMap_cons, List.length_append]
  omega

theorem length_le_flatMap_items (files : List FilePromiseItem) :
    files.length ≤ (files.flatMap encodeFilePromiseItem).length := by
  induction files with
  | nil => exact Nat.zero_le _
  | cons item rest ih =>
      simp only [List.flatMap_cons, List.length_cons, List.length_append,
        encodeFilePromiseItem_length]
      omega

theorem encodeFilePromiseAnnounce_length (files : List FilePromiseItem) :
    (encodeFilePromiseAnnounce files).length = 4 + (files.flatMap encodeFilePromiseItem).length := by
  rw [encodeFilePromiseAnnounce, List.length_append, leBytes_length]

theorem readMessage_encode {message : MeshMessage} (formed : message.WellFormed)
    (short : message.encode.length ≤ 0xFFFF) : readMessage message.encode = some message := by
  cases message with
  | event event =>
      obtain ⟨version, type, fixed, code⟩ := formed
      have decoded := decodeMessage_encodeInputEvent version code fixed []
      rw [List.append_nil] at decoded
      rw [MeshMessage.encode, readMessage, decoded]
      rfl
  | claim claim =>
      have size := encodeOwnershipClaim_length_le claim
      have decoded := decodeMessage_encodeVarMessage (nofun : MessageType.switchOwner ≠ .peerHello) rfl
        (by rw [kMaxVarPayload]; omega : (encodeOwnershipClaim claim).length ≤ kMaxVarPayload) []
      have read := decodeOwnershipClaim_encode claim []
      rw [List.append_nil] at decoded read
      simp [MeshMessage.encode, claimMessage, readMessage, decoded, read,
        clipClaim_eq formed.1 formed.2]
  | clipboard text =>
      rw [MeshMessage.encode, encodeVarMessage_length] at short
      have decoded := decodeMessage_encodeVarMessage
        (nofun : MessageType.clipboardUpdate ≠ .peerHello) rfl
        (by rw [kMaxVarPayload]; omega : text.length ≤ kMaxVarPayload) []
      rw [List.append_nil] at decoded
      simp [MeshMessage.encode, readMessage, decoded]
  | announce files =>
      rw [MeshMessage.encode, encodeVarMessage_length] at short
      have size := encodeFilePromiseAnnounce_length files
      have decoded := decodeMessage_encodeVarMessage
        (nofun : MessageType.filePromiseAnnounce ≠ .peerHello) rfl
        (by rw [kMaxVarPayload]; omega :
          (encodeFilePromiseAnnounce files).length ≤ kMaxVarPayload) []
      have few : files.length < 2 ^ 32 := by
        have count := length_le_flatMap_items files
        omega
      have names : ∀ item ∈ files, item.name.length ≤ 0xFFFF := by
        intro item member
        have whole := encodeFilePromiseItem_length_le member
        rw [encodeFilePromiseItem_length] at whole
        simp only [kVarHeaderSize] at short
        omega
      have read := decodeFilePromiseAnnounce_encode few names []
      rw [List.append_nil] at decoded read
      simp [MeshMessage.encode, readMessage, decoded, read]

theorem readInputEvent_length {data : Bytes} {event : InputEvent}
    (read : readInputEvent data = some event) : kInputEventSize ≤ data.length := by
  unfold readInputEvent at read
  split at read
  · simp only [kInputEventSize, List.length_cons]
    omega
  · contradiction

theorem decodeMessage_length {data : Bytes} {message : DecodedMessage} {consumed : Nat}
    (decoded : decodeMessage data = .ok message consumed) :
    (message.isFixed = true → kInputEventSize ≤ data.length) ∧
      (message.isFixed = false → kVarHeaderSize + message.payload.length ≤ data.length) := by
  unfold decodeMessage at decoded
  split at decoded
  · split at decoded
    · contradiction
    · split at decoded
      · contradiction
      · split at decoded
        · split at decoded
          · contradiction
          · rename_i read
            cases decoded
            exact ⟨fun _ => readInputEvent_length read, Bool.noConfusion⟩
        · split at decoded
          · contradiction
          · rename_i header
            split at decoded
            · contradiction
            · split at decoded
              · contradiction
              · rename_i body
                cases decoded
                obtain ⟨rfl, size⟩ := takeField_eq_some header
                obtain ⟨rfl, width⟩ := takeField_eq_some body
                refine ⟨Bool.noConfusion, fun _ => ?_⟩
                simp only [kVarHeaderSize, List.length_cons, List.length_append]
                omega
  · contradiction

theorem getStr_length {data text rest : Bytes} (got : getStr data = some (text, rest)) :
    text.length ≤ 255 ∧ data.length = 1 + text.length + rest.length := by
  cases data with
  | nil => contradiction
  | cons size body =>
      obtain ⟨rfl, width⟩ := takeField_eq_some got
      have bound := size.toNat_lt
      simp only [List.length_cons, List.length_append]
      omega

theorem decodeOwnershipClaim_length {data : Bytes} {claim : OwnershipClaim}
    (decoded : decodeOwnershipClaim data = some claim) :
    (encodeOwnershipClaim claim).length ≤ data.length := by
  unfold decodeOwnershipClaim at decoded
  split at decoded
  · contradiction
  · rename_i first
    split at decoded
    · contradiction
    · rename_i second
      split at decoded
      · contradiction
      · rename_i third
        cases decoded
        obtain ⟨_, firstSize⟩ := getStr_length first
        obtain ⟨_, secondSize⟩ := getStr_length second
        obtain ⟨rfl, width⟩ := takeField_eq_some third
        simp only [List.length_append] at secondSize
        simp [encodeOwnershipClaim, putStr]
        omega

theorem decodeFilePromiseItem_length {data rest : Bytes} {item : FilePromiseItem}
    (decoded : decodeFilePromiseItem data = some (item, rest)) :
    (encodeFilePromiseItem item).length + rest.length ≤ data.length := by
  unfold decodeFilePromiseItem at decoded
  split at decoded
  · contradiction
  · rename_i first
    split at decoded
    · contradiction
    · rename_i second
      split at decoded
      · contradiction
      · rename_i third
        cases decoded
        obtain ⟨rfl, firstSize⟩ := takeField_eq_some first
        obtain ⟨rfl, secondSize⟩ := takeField_eq_some second
        obtain ⟨rfl, thirdSize⟩ := takeField_eq_some third
        rw [encodeFilePromiseItem_length]
        simp only [List.length_append]
        omega

theorem decodeFilePromiseItems_length {count : Nat} {data : Bytes} {files : List FilePromiseItem}
    (decoded : decodeFilePromiseItems count data = some files) :
    (files.flatMap encodeFilePromiseItem).length ≤ data.length := by
  induction count generalizing data files with
  | zero =>
      cases decoded
      exact Nat.zero_le _
  | succ count ih =>
      unfold decodeFilePromiseItems at decoded
      split at decoded
      · contradiction
      · rename_i first
        split at decoded
        · contradiction
        · rename_i rest
          cases decoded
          have item := decodeFilePromiseItem_length first
          have others := ih rest
          simp only [List.flatMap_cons, List.length_append]
          omega

theorem decodeFilePromiseAnnounce_length {data : Bytes} {files : List FilePromiseItem}
    (decoded : decodeFilePromiseAnnounce data = some files) :
    (encodeFilePromiseAnnounce files).length ≤ data.length := by
  unfold decodeFilePromiseAnnounce at decoded
  split at decoded
  · contradiction
  · rename_i header
    obtain ⟨rfl, width⟩ := takeField_eq_some header
    have items := decodeFilePromiseItems_length decoded
    rw [encodeFilePromiseAnnounce_length, List.length_append]
    omega

theorem readMessage_length {data : Bytes} {message : MeshMessage}
    (read : readMessage data = some message) : message.encode.length ≤ data.length := by
  unfold readMessage at read
  split at read
  · rename_i decoded
    obtain ⟨fixedSize, varSize⟩ := decodeMessage_length decoded
    split at read
    · rename_i fixed
      cases read
      rw [MeshMessage.encode, encodeInputEvent_length]
      exact fixedSize fixed
    · rename_i varying
      have size := varSize (Bool.not_eq_true _ ▸ varying)
      split at read
      · obtain ⟨claim, found, rfl⟩ := Option.map_eq_some_iff.mp read
        have payload := decodeOwnershipClaim_length found
        rw [MeshMessage.encode, claimMessage, encodeVarMessage_length]
        omega
      · cases read
        rw [MeshMessage.encode, encodeVarMessage_length]
        exact size
      · obtain ⟨files, found, rfl⟩ := Option.map_eq_some_iff.mp read
        have payload := decodeFilePromiseAnnounce_length found
        rw [MeshMessage.encode, encodeVarMessage_length]
        omega
      · contradiction
  · contradiction

end Skittermouse.Net

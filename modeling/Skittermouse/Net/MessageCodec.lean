import Skittermouse.Core.EventTypes

namespace Skittermouse.Net

open Skittermouse.Data Skittermouse.Core

/-- The genuine 12-byte messages; everything else is a `VarHeader` and a payload. -/
def isFixedType : MessageType → Bool
  | .mouseMove | .mouseButton | .keyEvent | .heartbeat => true
  | _ => false

/-- `isKnownType` and the cast after it. Type 10, the peer hello, never reaches
the mesh codec and is not accepted by it. -/
def knownType? : UInt8 → Option MessageType
  | 1 => some .mouseMove
  | 2 => some .mouseButton
  | 3 => some .keyEvent
  | 4 => some .switchOwner
  | 5 => some .heartbeat
  | 6 => some .clipboardUpdate
  | 7 => some .filePromiseMeta
  | 8 => some .fileChunk
  | 9 => some .pairingMsg
  | 11 => some .filePromiseAnnounce
  | _ => none

def kMaxVarPayload : Nat := 64 * 1024 * 1024

/-- `sizeof(VarHeader)`. -/
def kVarHeaderSize : Nat := 6

/-- `sizeof(InputEvent)`. -/
def kInputEventSize : Nat := 12

/-- The packed struct as it lies in memory on a little-endian machine. -/
def encodeInputEvent (event : InputEvent) : Bytes :=
  [event.protocolVersion, event.type] ++ leBytes 2 event.dx.toUInt16.toNat ++
    leBytes 2 event.dy.toUInt16.toNat ++ [event.code, event.down] ++
    leBytes 4 event.timestampMs.toNat

/-- The `memcpy` into an `InputEvent`, when the buffer holds one. -/
def readInputEvent : Bytes → Option InputEvent
  | version :: type :: x0 :: x1 :: y0 :: y1 :: code :: down :: t0 :: t1 :: t2 :: t3 :: _ =>
      some
        { protocolVersion := version
          type
          dx := (UInt16.ofNat (leValue [x0, x1])).toInt16
          dy := (UInt16.ofNat (leValue [y0, y1])).toInt16
          code
          down
          timestampMs := UInt32.ofNat (leValue [t0, t1, t2, t3]) }
  | _ => none

def encodeVarMessage (type : MessageType) (payload : Bytes) : Bytes :=
  [kProtocolVersion, type.code] ++ leBytes 4 payload.length ++ payload

structure DecodedMessage where
  type : MessageType
  /-- `fixed` is the message when set, `payload` otherwise. -/
  isFixed : Bool
  fixed : InputEvent
  payload : Bytes
deriving DecidableEq

inductive DecodeResult where
  | ok (message : DecodedMessage) (consumed : Nat)
  | needMore
  | versionMismatch
  | malformed
deriving DecidableEq

/-- `InputEvent{}`: the zeroed struct a variable-length message leaves untouched. -/
def zeroEvent : InputEvent :=
  { protocolVersion := 0, type := 0, dx := 0, dy := 0, code := 0, down := 0, timestampMs := 0 }

def decodeMessage (data : Bytes) : DecodeResult :=
  match data with
  | version :: rawType :: body =>
      if version ≠ kProtocolVersion then .versionMismatch
      else match knownType? rawType with
        | none => .malformed
        | some type =>
            if isFixedType type then
              match readInputEvent data with
              | none => .needMore
              | some fixed => .ok { type, isFixed := true, fixed, payload := [] } kInputEventSize
            else match takeField 4 body with
              | none => .needMore
              | some (header, rest) =>
                  -- A hostile length is rejected before anything is added to it.
                  if leValue header > kMaxVarPayload then .malformed
                  else match takeField (leValue header) rest with
                    | none => .needMore
                    | some (payload, _) =>
                        .ok { type, isFixed := false, fixed := zeroEvent, payload }
                          (kVarHeaderSize + leValue header)
  | _ => .needMore

@[simp] theorem encodeInputEvent_length (event : InputEvent) :
    (encodeInputEvent event).length = kInputEventSize := by
  simp [encodeInputEvent, kInputEventSize]

@[simp] theorem encodeVarMessage_length (type : MessageType) (payload : Bytes) :
    (encodeVarMessage type payload).length = kVarHeaderSize + payload.length := by
  simp [encodeVarMessage, kVarHeaderSize]
  omega

theorem knownType?_code {type : MessageType} (known : type ≠ .peerHello) :
    knownType? type.code = some type := by
  cases type <;> first | rfl | contradiction

theorem knownType?_eq_some {raw : UInt8} {type : MessageType}
    (known : knownType? raw = some type) : raw = type.code := by
  unfold knownType? at known
  split at known <;> first | contradiction | (cases known; rfl)

private theorem word16_roundtrip (value : UInt16) :
    ∃ low high, leBytes 2 value.toNat = [low, high] ∧
      UInt16.ofNat (leValue [low, high]) = value := by
  refine ⟨_, _, rfl, ?_⟩
  change UInt16.ofNat (leValue (leBytes 2 value.toNat)) = value
  rw [leValue_leBytes_of_lt (by have := value.toNat_lt; omega), UInt16.ofNat_toNat]

private theorem word32_roundtrip (value : UInt32) :
    ∃ b0 b1 b2 b3, leBytes 4 value.toNat = [b0, b1, b2, b3] ∧
      UInt32.ofNat (leValue [b0, b1, b2, b3]) = value := by
  refine ⟨_, _, _, _, rfl, ?_⟩
  change UInt32.ofNat (leValue (leBytes 4 value.toNat)) = value
  rw [leValue_leBytes_of_lt (by have := value.toNat_lt; omega), UInt32.ofNat_toNat]

theorem readInputEvent_encode (event : InputEvent) (rest : Bytes) :
    readInputEvent (encodeInputEvent event ++ rest) = some event := by
  obtain ⟨x0, x1, dx, dxValue⟩ := word16_roundtrip event.dx.toUInt16
  obtain ⟨y0, y1, dy, dyValue⟩ := word16_roundtrip event.dy.toUInt16
  obtain ⟨t0, t1, t2, t3, time, timeValue⟩ := word32_roundtrip event.timestampMs
  simp only [encodeInputEvent, dx, dy, time, List.cons_append, List.nil_append, readInputEvent,
    dxValue, dyValue, timeValue, Int16.toInt16_toUInt16]

theorem decodeMessage_encodeInputEvent {event : InputEvent} {type : MessageType}
    (version : event.protocolVersion = kProtocolVersion) (code : event.type = type.code)
    (fixed : isFixedType type = true) (rest : Bytes) :
    decodeMessage (encodeInputEvent event ++ rest) =
      .ok { type, isFixed := true, fixed := event, payload := [] } kInputEventSize := by
  have known : knownType? event.type = some type := by
    rw [code]
    exact knownType?_code (by rintro rfl; contradiction)
  have read := readInputEvent_encode event rest
  obtain ⟨body, shape⟩ : ∃ body, encodeInputEvent event ++ rest =
      event.protocolVersion :: event.type :: body := ⟨_, rfl⟩
  rw [shape] at read ⊢
  simp only [decodeMessage, version, ne_eq, not_true_eq_false, if_false, known, fixed, if_true]
  rw [version] at read
  rw [read]

theorem decodeMessage_encodeVarMessage {type : MessageType} {payload : Bytes}
    (known : type ≠ .peerHello) (varying : isFixedType type = false)
    (bound : payload.length ≤ kMaxVarPayload) (rest : Bytes) :
    decodeMessage (encodeVarMessage type payload ++ rest) =
      .ok { type, isFixed := false, fixed := zeroEvent, payload }
        (kVarHeaderSize + payload.length) := by
  have width : leValue (leBytes 4 payload.length) = payload.length :=
    leValue_leBytes_of_lt (by unfold kMaxVarPayload at bound; omega)
  have header := takeField_append (payload ++ rest) (leBytes_length 4 payload.length)
  have body := takeField_append rest (rfl : payload.length = payload.length)
  simp only [encodeVarMessage, List.cons_append, List.nil_append, List.append_assoc,
    decodeMessage, ne_eq, not_true_eq_false, if_false, knownType?_code known, varying,
    Bool.false_eq_true, header, width, not_lt.mpr bound, body]

theorem decodeMessage_take {type : MessageType} {payload : Bytes} {count consumed : Nat}
    {message : DecodedMessage} (known : type ≠ .peerHello) (varying : isFixedType type = false)
    (decoded : decodeMessage ((encodeVarMessage type payload).take count) = .ok message consumed) :
    message.isFixed = false ∧ message.type = type ∧ message.payload <+: payload ∧
      kVarHeaderSize + message.payload.length ≤ count := by
  match count with
  | 0 | 1 => contradiction
  | count + 2 =>
      simp only [encodeVarMessage, List.cons_append, List.nil_append, List.take_succ_cons,
        decodeMessage, ne_eq, not_true_eq_false, if_false, knownType?_code known, varying,
        Bool.false_eq_true] at decoded
      split at decoded
      · contradiction
      · rename_i header behind taken
        split at decoded
        · contradiction
        · split at decoded
          · contradiction
          · rename_i found left body
            cases decoded
            obtain ⟨pieces, width⟩ := takeField_eq_some taken
            obtain ⟨rfl, _⟩ := takeField_eq_some body
            obtain ⟨more, whole⟩ := List.take_prefix count (leBytes 4 payload.length ++ payload)
            have size := congrArg List.length pieces
            rw [pieces, List.append_assoc] at whole
            obtain ⟨_, inside⟩ := List.append_inj whole (width.trans (leBytes_length 4 _).symm)
            refine ⟨rfl, rfl, ⟨left ++ more, by rw [← inside, List.append_assoc]⟩, ?_⟩
            simp only [List.length_take, List.length_append] at size
            simp only [kVarHeaderSize]
            omega

end Skittermouse.Net

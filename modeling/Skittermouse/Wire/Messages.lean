import Mathlib.Data.List.Infix
import Skittermouse.Data.Buffer
import Skittermouse.Net.MeshMessage

namespace Skittermouse.Wire

open Skittermouse.Data Skittermouse.Core Skittermouse.Net

/-! # Messages on the wire

`decodeMessage` as it stands in the source: it reads a buffer by position, and
writes `out` and `consumed` only when a whole message is there.
-/

inductive DecodeStatus where
  | ok
  | needMore
  | versionMismatch
  | malformed
deriving DecidableEq

/-- The half of the decoder for the types of variable length. -/
def decodeVarMessageInto (data : Bytes) (type : MessageType) (out : DecodedMessage) (consumed : Nat) :
    Checked (DecodeStatus × DecodedMessage × Nat) := do
  if data.length < kVarHeaderSize then return (.needMore, out, consumed)
  let header ← spanAt data 0 kVarHeaderSize
  let payloadLength := leValue (header.drop 2)
  if payloadLength > kMaxVarPayload then return (.malformed, out, consumed)
  let total := kVarHeaderSize + payloadLength
  if data.length < total then return (.needMore, out, consumed)
  let payload ← spanAt data kVarHeaderSize payloadLength
  return (.ok, { out with isFixed := false, type, payload }, total)

/-- The result, and what `out` and `consumed` hold afterwards. -/
def decodeMessageInto (data : Bytes) (out : DecodedMessage) (consumed : Nat) :
    Checked (DecodeStatus × DecodedMessage × Nat) := do
  if data.length < 2 then return (.needMore, out, consumed)
  let version ← byteAt data 0
  let rawType ← byteAt data 1
  if version ≠ kProtocolVersion then return (.versionMismatch, out, consumed)
  match knownType? rawType with
  | none => return (.malformed, out, consumed)
  | some type =>
      if isFixedType type then
        if data.length < kInputEventSize then return (.needMore, out, consumed)
        let copy ← spanAt data 0 kInputEventSize
        -- The copy fills the whole struct.
        let fixed := (readInputEvent copy).getD out.fixed
        return (.ok, { out with isFixed := true, type, fixed }, kInputEventSize)
      decodeVarMessageInto data type out consumed

def reencode (message : DecodedMessage) : Bytes :=
  if message.isFixed then encodeInputEvent message.fixed
  else encodeVarMessage message.type message.payload

/-- An input event of the current version and of a fixed type, or a message of
another known type with a payload of at most 64 MiB. -/
def Encoding (bytes : Bytes) : Prop :=
  (∃ event type, event.protocolVersion = kProtocolVersion ∧ event.type = MessageType.code type ∧
      isFixedType type = true ∧ bytes = encodeInputEvent event) ∨
    ∃ type payload, (knownType? type.code).isSome = true ∧ isFixedType type = false ∧
      payload.length ≤ kMaxVarPayload ∧ bytes = encodeVarMessage type payload

/-- `out` after a message was decoded into it. The half that is not used keeps
what was there. -/
def fillIn (out message : DecodedMessage) : DecodedMessage :=
  if message.isFixed then { out with isFixed := true, type := message.type, fixed := message.fixed }
  else { out with isFixed := false, type := message.type, payload := message.payload }

theorem readInputEvent_take (data : Bytes) (whole : kInputEventSize ≤ data.length) :
    ∃ event, readInputEvent (data.take kInputEventSize) = some event ∧
      readInputEvent data = some event := by
  match data with
  | _ :: _ :: _ :: _ :: _ :: _ :: _ :: _ :: _ :: _ :: _ :: _ :: _ => exact ⟨_, rfl, rfl⟩
  | [] | [_] | [_, _] | [_, _, _] | [_, _, _, _] | [_, _, _, _, _] | [_, _, _, _, _, _]
  | [_, _, _, _, _, _, _] | [_, _, _, _, _, _, _, _] | [_, _, _, _, _, _, _, _, _]
  | [_, _, _, _, _, _, _, _, _, _] | [_, _, _, _, _, _, _, _, _, _, _] =>
      simp [kInputEventSize] at whole

theorem readInputEvent_short {data : Bytes} (short : data.length < kInputEventSize) :
    readInputEvent data = none := by
  cases read : readInputEvent data with
  | none => rfl
  | some event =>
      have whole := readInputEvent_length read
      omega

/-- The outcome of a decoding, written into `out` and `consumed`. -/
def written (out : DecodedMessage) (consumed : Nat) : DecodeResult → DecodeStatus × DecodedMessage × Nat
  | .ok message length => (.ok, fillIn out message, length)
  | .needMore => (.needMore, out, consumed)
  | .versionMismatch => (.versionMismatch, out, consumed)
  | .malformed => (.malformed, out, consumed)

theorem decodeVarMessageInto_eq (version rawType : UInt8) (body : Bytes) (type : MessageType)
    (out : DecodedMessage) (consumed : Nat) :
    decodeVarMessageInto (version :: rawType :: body) type out consumed =
      .ok (written out consumed (match takeField 4 body with
        | none => .needMore
        | some (header, rest) =>
            if leValue header > kMaxVarPayload then .malformed
            else match takeField (leValue header) rest with
              | none => .needMore
              | some (payload, _) =>
                  .ok { type, isFixed := false, fixed := zeroEvent, payload }
                    (kVarHeaderSize + leValue header))) := by
  have size : (version :: rawType :: body).length = 2 + body.length := by
    simp only [List.length_cons]
    omega
  rw [decodeVarMessageInto]
  by_cases whole : 4 ≤ body.length
  · have room : ¬ (version :: rawType :: body).length < kVarHeaderSize := by
      rw [size, kVarHeaderSize]
      omega
    have header : takeField 4 body = some (body.take 4, body.drop 4) := if_pos whole
    have copied : ((version :: rawType :: body).take kVarHeaderSize).drop 2 = body.take 4 := rfl
    rw [if_neg room, spanAt_eq (by omega), List.drop_zero, checked_bind, copied, header]
    simp only []
    by_cases huge : leValue (body.take 4) > kMaxVarPayload
    · rw [if_pos huge, if_pos huge]
      rfl
    · rw [if_neg huge, if_neg huge]
      by_cases enough : leValue (body.take 4) ≤ (body.drop 4).length
      · have inside : kVarHeaderSize + leValue (body.take 4) ≤ (version :: rawType :: body).length := by
          rw [List.length_drop] at enough
          rw [size, kVarHeaderSize]
          omega
        rw [if_neg (not_lt.mpr inside), spanAt_eq inside, checked_bind, takeField, if_pos enough]
        rfl
      · have short : (version :: rawType :: body).length < kVarHeaderSize + leValue (body.take 4) := by
          rw [List.length_drop] at enough
          rw [size, kVarHeaderSize]
          omega
        rw [if_pos short, takeField, if_neg enough]
        rfl
  · have short : (version :: rawType :: body).length < kVarHeaderSize := by
      rw [size, kVarHeaderSize]
      omega
    rw [if_pos short, takeField, if_neg whole]
    rfl

/-- The decoder reads inside its buffer only, and does to `out` and `consumed`
what the decoder of the nodes returns. -/
theorem decodeMessageInto_eq (data : Bytes) (out : DecodedMessage) (consumed : Nat) :
    decodeMessageInto data out consumed = .ok (written out consumed (decodeMessage data)) := by
  match data with
  | [] | [_] => rfl
  | version :: rawType :: body =>
      have two : ¬ (version :: rawType :: body).length < 2 := by
        simp only [List.length_cons]
        omega
      have first : byteAt (version :: rawType :: body) 0 = .ok version := rfl
      have second : byteAt (version :: rawType :: body) 1 = .ok rawType := rfl
      simp only [decodeMessageInto, if_neg two, first, second, checked_bind, decodeMessage]
      by_cases current : version = kProtocolVersion
      · rw [if_neg (not_not.mpr current), if_neg (not_not.mpr current)]
        cases knownType? rawType with
        | none => rfl
        | some type =>
            simp only []
            cases isFixedType type with
            | true =>
                rw [if_pos rfl, if_pos rfl]
                by_cases whole : (version :: rawType :: body).length < kInputEventSize
                · rw [if_pos whole, readInputEvent_short whole]
                  rfl
                · obtain ⟨event, copied, read⟩ := readInputEvent_take _ (not_lt.mp whole)
                  rw [if_neg whole, spanAt_eq (by omega), List.drop_zero, checked_bind, copied, read]
                  rfl
            | false =>
                simp only [Bool.false_eq_true, if_false]
                exact decodeVarMessageInto_eq version rawType body type out consumed
      · rw [if_pos current, if_pos current]
        rfl

theorem word16_sound (low high : UInt8) :
    leBytes 2 (UInt16.ofNat (leValue [low, high])).toInt16.toUInt16.toNat = [low, high] := by
  have small := leValue_lt [low, high]
  rw [UInt16.toUInt16_toInt16, UInt16.toNat_ofNat_of_lt' (by simpa using small)]
  exact leBytes_leValue [low, high]

theorem word32_sound (t0 t1 t2 t3 : UInt8) :
    leBytes 4 (UInt32.ofNat (leValue [t0, t1, t2, t3])).toNat = [t0, t1, t2, t3] := by
  have small := leValue_lt [t0, t1, t2, t3]
  rw [UInt32.toNat_ofNat_of_lt' (by simpa using small)]
  exact leBytes_leValue [t0, t1, t2, t3]

theorem readInputEvent_sound {data : Bytes} {event : InputEvent}
    (read : readInputEvent data = some event) : encodeInputEvent event <+: data := by
  unfold readInputEvent at read
  split at read
  · rename_i rest
    cases read
    refine ⟨rest, ?_⟩
    simp only [encodeInputEvent, word16_sound, word32_sound, List.cons_append, List.nil_append]
  · contradiction

theorem prefix_eq_take {front whole : Bytes} (inside : front <+: whole) :
    whole.take front.length = front := (List.prefix_iff_eq_take.mp inside).symm

theorem decodeMessage_sound {data : Bytes} {message : DecodedMessage} {consumed : Nat}
    (decoded : decodeMessage data = .ok message consumed) :
    consumed ≤ data.length ∧ reencode message = data.take consumed ∧ Encoding (reencode message) := by
  suffices whole : reencode message <+: data ∧ (reencode message).length = consumed ∧
      Encoding (reencode message) by
    obtain ⟨inside, rfl, encoding⟩ := whole
    exact ⟨inside.length_le, (prefix_eq_take inside).symm, encoding⟩
  unfold decodeMessage at decoded
  split at decoded
  · rename_i version rawType body
    split at decoded
    · contradiction
    · rename_i current
      split at decoded
      · contradiction
      · rename_i type known
        have code := knownType?_eq_some known
        split at decoded
        · rename_i fixed
          split at decoded
          · contradiction
          · rename_i event read
            cases decoded
            have inside := readInputEvent_sound read
            obtain ⟨behind, whole⟩ := inside
            obtain ⟨versionSame, tail⟩ := List.cons.inj whole
            obtain ⟨typeSame, _⟩ := List.cons.inj tail
            refine ⟨⟨behind, whole⟩, encodeInputEvent_length event, .inl ⟨event, type, ?_, ?_, fixed, rfl⟩⟩
            · rw [versionSame, not_not.mp current]
            · rw [typeSame, code]
        · rename_i varying
          split at decoded
          · contradiction
          · rename_i header rest found
            split at decoded
            · contradiction
            · rename_i small
              split at decoded
              · contradiction
              · rename_i payload left taken
                cases decoded
                obtain ⟨rfl, four⟩ := takeField_eq_some found
                obtain ⟨rfl, size⟩ := takeField_eq_some taken
                have length := leBytes_leValue header
                rw [four, ← size] at length
                refine ⟨⟨left, ?_⟩, ?_, .inr ⟨type, payload, ?_, by simpa using varying, ?_, rfl⟩⟩
                · simp only [reencode, Bool.false_eq_true, if_false, encodeVarMessage, length, code,
                    not_not.mp current, List.cons_append, List.nil_append, List.append_assoc]
                · simp only [reencode, Bool.false_eq_true, if_false, encodeVarMessage_length, size]
                · rw [← code, known]
                  rfl
                · rw [size]
                  exact not_lt.mp small
  · contradiction

theorem Encoding.decodes {bytes : Bytes} (encoding : Encoding bytes) :
    ∃ message, ∀ rest, decodeMessage (bytes ++ rest) = .ok message bytes.length := by
  rcases encoding with ⟨event, type, version, code, fixed, rfl⟩ | ⟨type, payload, known, varying, small, rfl⟩
  · rw [encodeInputEvent_length]
    exact ⟨_, decodeMessage_encodeInputEvent version code fixed⟩
  · have meshed : type ≠ .peerHello := by
      rintro rfl
      contradiction
    rw [encodeVarMessage_length]
    exact ⟨_, decodeMessage_encodeVarMessage meshed varying small⟩

theorem Encoding.cut {bytes front : Bytes} (encoding : Encoding bytes) (inside : front <+: bytes)
    (cut : front ≠ bytes) : decodeMessage front = .needMore := by
  have shorter : front.length < bytes.length :=
    lt_of_le_of_ne inside.length_le fun same => cut (inside.eq_of_length same)
  match front with
  | [] | [_] => rfl
  | version :: rawType :: body =>
      rcases encoding with ⟨event, type, current, code, fixed, rfl⟩ | ⟨type, payload, known, varying, small, rfl⟩
      · obtain ⟨behind, whole⟩ := inside
        obtain ⟨rfl, tail⟩ := List.cons.inj whole
        obtain ⟨rfl, _⟩ := List.cons.inj tail
        rw [encodeInputEvent_length] at shorter
        have found : knownType? type.code = some type :=
          knownType?_code (by rintro rfl; contradiction)
        simp only [decodeMessage, current, ne_eq, not_true_eq_false, if_false, code, found, fixed,
          if_true]
        rw [current, code] at shorter
        rw [readInputEvent_short shorter]
      · rw [encodeVarMessage_length, kVarHeaderSize, List.length_cons, List.length_cons] at shorter
        simp only [encodeVarMessage, List.cons_append, List.nil_append, List.cons_prefix_cons] at inside
        obtain ⟨rfl, rfl, inside⟩ := inside
        have found : knownType? type.code = some type :=
          knownType?_code (by rintro rfl; contradiction)
        simp only [decodeMessage, ne_eq, not_true_eq_false, if_false, found, varying,
          Bool.false_eq_true]
        by_cases whole : 4 ≤ body.length
        · have header : takeField 4 body = some (body.take 4, body.drop 4) := if_pos whole
          have length : body.take 4 = leBytes 4 payload.length := by
            have front := inside.take 4
            rw [List.take_left' (leBytes_length 4 _)] at front
            exact front.eq_of_length (by simp [whole])
          have width : leValue (leBytes 4 payload.length) = payload.length :=
            leValue_leBytes_of_lt (by unfold kMaxVarPayload at small; omega)
          have short : ¬ payload.length ≤ (body.drop 4).length := by
            rw [List.length_drop]
            omega
          rw [header]
          simp only [length, width, if_neg (not_lt.mpr small), takeField, if_neg short]
        · rw [takeField, if_neg whole]

theorem reencode_fillIn (out message : DecodedMessage) :
    reencode (fillIn out message) = reencode message := by
  unfold fillIn
  split
  · rename_i fixed
    simp [reencode, fixed]
  · rename_i varying
    simp [reencode, varying]

/-- What the decoder leaves in `out` and `consumed` when it accepts. -/
theorem decodeMessageInto_ok {data : Bytes} {out left : DecodedMessage} {consumed length : Nat} :
    decodeMessageInto data out consumed = .ok (.ok, left, length) ↔
      ∃ message, decodeMessage data = .ok message length ∧ left = fillIn out message := by
  rw [decodeMessageInto_eq]
  cases decodeMessage data <;> simp [written, eq_comm, and_comm]

/-- The decoder accepts exactly the encodings, in front of any other bytes, and
gives back what they encode. -/
theorem message_codec_exact :
    (∀ data out consumed length,
      (∃ left, decodeMessageInto data out consumed = .ok (.ok, left, length)) ↔
        length ≤ data.length ∧ Encoding (data.take length)) ∧
    (∀ data out consumed left length, decodeMessageInto data out consumed = .ok (.ok, left, length) →
      reencode left = data.take length ∧
        ∀ more, decodeMessageInto (data ++ more) out consumed = .ok (.ok, left, length)) ∧
    (∀ bytes front out consumed, Encoding bytes → front <+: bytes → front ≠ bytes →
      decodeMessageInto front out consumed = .ok (.needMore, out, consumed)) ∧
    ∀ data out consumed, ∃ status left length,
      decodeMessageInto data out consumed = .ok (status, left, length) ∧
        (status ≠ .ok → left = out ∧ length = consumed) := by
  refine ⟨fun data out consumed length => ⟨?_, ?_⟩, fun data out consumed left length decoded => ?_,
    fun bytes front out consumed encoding inside cut => ?_, fun data out consumed => ?_⟩
  · rintro ⟨left, decoded⟩
    obtain ⟨message, found, _⟩ := decodeMessageInto_ok.mp decoded
    obtain ⟨inside, same, encoding⟩ := decodeMessage_sound found
    exact ⟨inside, same ▸ encoding⟩
  · rintro ⟨inside, encoding⟩
    obtain ⟨message, decodes⟩ := encoding.decodes
    have decoded := decodes (data.drop length)
    rw [List.take_append_drop, List.length_take, min_eq_left inside] at decoded
    exact ⟨_, decodeMessageInto_ok.mpr ⟨message, decoded, rfl⟩⟩
  · obtain ⟨message, found, rfl⟩ := decodeMessageInto_ok.mp decoded
    obtain ⟨inside, same, encoding⟩ := decodeMessage_sound found
    refine ⟨(reencode_fillIn out message).trans same, fun more => ?_⟩
    obtain ⟨other, decodes⟩ := (same ▸ encoding : Encoding (data.take length)).decodes
    have here := decodes (data.drop length)
    rw [List.take_append_drop, found] at here
    have longer := decodes (data.drop length ++ more)
    rw [← List.append_assoc, List.take_append_drop, ← here] at longer
    exact decodeMessageInto_ok.mpr ⟨message, longer, rfl⟩
  · rw [decodeMessageInto_eq, encoding.cut inside cut]
    rfl
  · rw [decodeMessageInto_eq]
    cases decodeMessage data with
    | ok message length => exact ⟨.ok, _, length, rfl, fun refused => absurd rfl refused⟩
    | needMore => exact ⟨.needMore, out, consumed, rfl, fun _ => ⟨rfl, rfl⟩⟩
    | versionMismatch => exact ⟨.versionMismatch, out, consumed, rfl, fun _ => ⟨rfl, rfl⟩⟩
    | malformed => exact ⟨.malformed, out, consumed, rfl, fun _ => ⟨rfl, rfl⟩⟩

def emptyMessage : DecodedMessage :=
  { type := .heartbeat, isFixed := false, fixed := zeroEvent, payload := [] }

/-- A clipboard text behind its header, and the header alone. -/
theorem clipboard_text_decodes :
    (∃ left, decodeMessageInto [1, 6, 2, 0, 0, 0, 0x68, 0x69] emptyMessage 0 = .ok (.ok, left, 8) ∧
      reencode left = [1, 6, 2, 0, 0, 0, 0x68, 0x69]) ∧
    decodeMessageInto [1, 6, 2, 0, 0, 0] emptyMessage 0 = .ok (.needMore, emptyMessage, 0) := by
  have encoding : Encoding [1, 6, 2, 0, 0, 0, 0x68, 0x69] :=
    .inr ⟨.clipboardUpdate, [0x68, 0x69], rfl, rfl, by decide, rfl⟩
  refine ⟨?_, message_codec_exact.2.2.1 _ _ emptyMessage 0 encoding ⟨[0x68, 0x69], rfl⟩ (by decide)⟩
  obtain ⟨left, decoded⟩ := (message_codec_exact.1 [1, 6, 2, 0, 0, 0, 0x68, 0x69] emptyMessage 0
    8).mpr ⟨by decide, encoding⟩
  exact ⟨left, decoded, (message_codec_exact.2.1 _ emptyMessage 0 left 8 decoded).1⟩

end Skittermouse.Wire

import Skittermouse.Data.Format
import Skittermouse.Data.Reassembly

namespace Skittermouse.Net

open Skittermouse.Data

inductive WsOpcode where
  | continuation
  | text
  | binary
  | close
  | ping
  | pong
deriving DecidableEq

def WsOpcode.code : WsOpcode → UInt8
  | .continuation => 0x0
  | .text => 0x1
  | .binary => 0x2
  | .close => 0x8
  | .ping => 0x9
  | .pong => 0xA

/-- `opcode` is whatever the four bits of a frame say, which need not be the
code of a `WsOpcode`. -/
structure WsFrame where
  opcode : UInt8
  fin : Bool
  payload : Bytes
deriving DecidableEq

def kMaxPayload : Nat := 100 * 1024 * 1024

/-- Every byte against the key byte at its position modulo four. -/
def wsMask (key : Bytes) (data : Bytes) : Bytes :=
  data.mapIdx fun index byte => byte ^^^ key.getD (index % 4) 0

def wsLengthField (maskBit : UInt8) (length : Nat) : Bytes :=
  if length < 126 then [maskBit ||| UInt8.ofNat length]
  else if length ≤ 0xFFFF then (maskBit ||| 126) :: beBytes 2 length
  else (maskBit ||| 127) :: beBytes 8 length

/-- `random` is what `randomBytes` returns where the frame is masked. -/
def wsEncodeFrame (op : WsOpcode) (payload : Bytes) (masked : Bool) (random : Bytes) (fin : Bool) :
    Bytes :=
  let first := (if fin then 0x80 else 0x00) ||| op.code
  let header := first :: wsLengthField (if masked then 0x80 else 0x00) payload.length
  if masked then
    let key := if random.length = 4 then random else [0, 0, 0, 0]
    header ++ key ++ wsMask key payload
  else header ++ payload

/-- The payload length that the second byte stands for, and what follows it. -/
def wsReadLength (short : UInt8) (rest : Bytes) : Option (Nat × Bytes) :=
  if short = 126 then (takeField 2 rest).map fun (field, rest) => (beValue field, rest)
  else if short = 127 then (takeField 8 rest).map fun (field, rest) => (beValue field, rest)
  else some (short.toNat, rest)

def wsReadMask (masked : Bool) (rest : Bytes) : Option (Bytes × Bytes) :=
  if masked then takeField 4 rest else some ([0, 0, 0, 0], rest)

def wsDecodeFrame (bytes : Bytes) : Decoded WsFrame :=
  match bytes with
  | first :: second :: body =>
      let masked := decide (second &&& 0x80 ≠ 0)
      match wsReadLength (second &&& 0x7f) body with
      | none => .needMore
      | some (length, rest) =>
          if length > kMaxPayload then .failed
          else match wsReadMask masked rest with
          | none => .needMore
          | some (key, rest) => match takeField length rest with
            | none => .needMore -- incomplete
            | some (data, rest) =>
                .frame
                  { opcode := first &&& 0x0f
                    fin := decide (first &&& 0x80 ≠ 0)
                    payload := if masked then wsMask key data else data }
                  (bytes.length - rest.length)
  | _ => .needMore

theorem wsReadLength_field {short : UInt8} {bytes rest : Bytes} {length : Nat}
    (read : wsReadLength short bytes = some (length, rest)) :
    ∃ taken, bytes = taken ++ rest ∧
      ∀ other, wsReadLength short (taken ++ other) = some (length, other) := by
  unfold wsReadLength at read ⊢
  split at read
  · rename_i extended
    obtain ⟨fits, same⟩ := (Format.bigEndian 2).encode_take read
    refine ⟨beBytes 2 length, same, fun other => ?_⟩
    rw [if_pos extended]
    exact (Format.bigEndian 2).take_encode other fits
  · rename_i apart
    split at read
    · rename_i extended
      obtain ⟨fits, same⟩ := (Format.bigEndian 8).encode_take read
      refine ⟨beBytes 8 length, same, fun other => ?_⟩
      rw [if_neg apart, if_pos extended]
      exact (Format.bigEndian 8).take_encode other fits
    · rename_i short
      cases read
      refine ⟨[], rfl, fun other => ?_⟩
      rw [if_neg apart, if_neg short, List.nil_append]

theorem wsReadMask_field {masked : Bool} {bytes key rest : Bytes}
    (read : wsReadMask masked bytes = some (key, rest)) :
    ∃ taken, bytes = taken ++ rest ∧
      ∀ other, wsReadMask masked (taken ++ other) = some (key, other) := by
  cases masked with
  | false =>
      cases read
      exact ⟨[], rfl, fun other => rfl⟩
  | true =>
      obtain ⟨rfl, size⟩ := takeField_eq_some read
      exact ⟨key, rfl, fun other => takeField_append other size⟩

theorem wsDecodeFrame_field {bytes : Bytes} {frame : WsFrame} {consumed : Nat}
    (found : wsDecodeFrame bytes = .frame frame consumed) :
    ∃ taken rest, bytes = taken ++ rest ∧ taken.length = consumed ∧ 0 < consumed ∧
      ∀ other, wsDecodeFrame (taken ++ other) = .frame frame consumed := by
  unfold wsDecodeFrame at found
  split at found
  · rename_i first second body
    dsimp only at found
    split at found
    · contradiction
    · rename_i readLength
      split at found
      · contradiction
      · rename_i fits
        split at found
        · contradiction
        · rename_i readMask
          split at found
          · contradiction
          · rename_i data rest taken
            obtain ⟨extension, rfl, length⟩ := wsReadLength_field readLength
            obtain ⟨key, rfl, mask⟩ := wsReadMask_field readMask
            obtain ⟨rfl, size⟩ := takeField_eq_some taken
            cases found
            refine ⟨first :: second :: (extension ++ (key ++ data)), rest, ?_, ?_, ?_,
              fun other => ?_⟩
            · simp only [List.cons_append, List.append_assoc]
            · simp only [List.length_cons, List.length_append]
              omega
            · simp only [List.length_cons, List.length_append]
              omega
            · simp only [List.cons_append, List.append_assoc, wsDecodeFrame, length, if_neg fits,
                mask, takeField_append other size, List.length_cons, List.length_append]
              congr 1
              omega
  · contradiction

theorem wsDecodeFrame_failed {bytes : Bytes} (broken : wsDecodeFrame bytes = .failed)
    (more : Bytes) : wsDecodeFrame (bytes ++ more) = .failed := by
  unfold wsDecodeFrame at broken
  split at broken
  · rename_i first second body
    dsimp only at broken
    split at broken
    · contradiction
    · rename_i readLength
      split at broken
      · rename_i exceeds
        obtain ⟨extension, rfl, length⟩ := wsReadLength_field readLength
        simp only [List.cons_append, List.append_assoc, wsDecodeFrame, length, if_pos exceeds]
      · split at broken
        · contradiction
        · split at broken <;> contradiction
  · contradiction

def wsDecoder : StreamDecoder UInt8 WsFrame where
  decode := wsDecodeFrame
  empty := rfl
  progress found := by
    obtain ⟨taken, rest, rfl, size, positive, _⟩ := wsDecodeFrame_field found
    exact ⟨positive, by rw [List.length_append]; omega⟩
  stable {bytes} more decided := by
    cases verdict : wsDecodeFrame bytes with
    | needMore => exact absurd verdict decided
    | failed => exact wsDecodeFrame_failed verdict more
    | frame frame consumed =>
        obtain ⟨taken, rest, rfl, _, _, reads⟩ := wsDecodeFrame_field verdict
        rw [List.append_assoc]
        exact reads (rest ++ more)
  exact found := by
    obtain ⟨taken, rest, rfl, rfl, _, reads⟩ := wsDecodeFrame_field found
    rw [List.take_left]
    have alone := reads []
    rwa [List.append_nil] at alone

theorem wsMask_length (key data : Bytes) : (wsMask key data).length = data.length :=
  List.length_mapIdx

theorem wsMask_wsMask (key data : Bytes) : wsMask key (wsMask key data) = data := by
  apply List.ext_getElem?
  intro index
  simp only [wsMask, List.getElem?_mapIdx, Option.map_map]
  cases data[index]? with
  | none => rfl
  | some byte =>
      simp only [Option.map_some, Function.comp_apply, UInt8.xor_assoc, UInt8.xor_self,
        UInt8.xor_zero]

theorem first_byte (op : WsOpcode) (fin : Bool) :
    ((if fin then 0x80 else 0x00) ||| op.code) &&& 0x0f = op.code ∧
      decide (((if fin then 0x80 else 0x00) ||| op.code) &&& 0x80 ≠ 0) = fin := by
  cases op <;> cases fin <;> decide

theorem second_byte (masked : Bool) {short : Nat} (small : short < 128) :
    ((if masked then 0x80 else 0x00) ||| UInt8.ofNat short) &&& 0x7f = UInt8.ofNat short ∧
      decide (((if masked then 0x80 else 0x00) ||| UInt8.ofNat short) &&& 0x80 ≠ 0) = masked := by
  have every : ∀ (masked : Bool) (short : Fin 128),
      ((if masked then 0x80 else 0x00) ||| UInt8.ofNat short) &&& 0x7f = UInt8.ofNat short ∧
        decide (((if masked then 0x80 else 0x00) ||| UInt8.ofNat short) &&& 0x80 ≠ 0) = masked := by
    decide
  exact every masked ⟨short, small⟩

theorem wsReadLength_encoded (masked : Bool) {length : Nat} (small : length < 2 ^ 64) (rest : Bytes) :
    ∃ second extension, wsLengthField (if masked then 0x80 else 0x00) length = second :: extension ∧
      decide (second &&& 0x80 ≠ 0) = masked ∧
      wsReadLength (second &&& 0x7f) (extension ++ rest) = some (length, rest) := by
  unfold wsLengthField
  split
  · rename_i short
    have small : length < 128 := by omega
    obtain ⟨low, mask⟩ := second_byte masked small
    refine ⟨_, [], rfl, mask, ?_⟩
    have value : (UInt8.ofNat length).toNat = length := UInt8.toNat_ofNat_of_lt' (by
      change length < 256
      omega)
    have apart : ∀ code : UInt8, length ≠ code.toNat → UInt8.ofNat length ≠ code :=
      fun code other same => other (value.symm.trans (congrArg UInt8.toNat same))
    have below : length ≠ (126 : UInt8).toNat ∧ length ≠ (127 : UInt8).toNat :=
      ⟨Nat.ne_of_lt short, Nat.ne_of_lt (Nat.lt_succ_of_lt short)⟩
    rw [low, wsReadLength, if_neg (apart 126 below.1), if_neg (apart 127 below.2), value]
    rfl
  · split
    · obtain ⟨low, mask⟩ := @second_byte masked 126 (by decide)
      refine ⟨_, _, rfl, mask, ?_⟩
      have field := takeField_append rest (beBytes_length 2 length)
      have value : beValue (beBytes 2 length) = length := beValue_beBytes_of_lt (by omega)
      have code : (((if masked then 0x80 else 0x00) ||| 126) &&& 0x7f : UInt8) = 126 := low
      simp only [code, wsReadLength, if_true, field, Option.map_some, value]
    · obtain ⟨low, mask⟩ := @second_byte masked 127 (by decide)
      refine ⟨_, _, rfl, mask, ?_⟩
      have field := takeField_append rest (beBytes_length 8 length)
      have value : beValue (beBytes 8 length) = length := beValue_beBytes_of_lt (by omega)
      have code : (((if masked then 0x80 else 0x00) ||| 127) &&& 0x7f : UInt8) = 127 := low
      have apart : (127 : UInt8) ≠ 126 := by decide
      simp only [code, wsReadLength, if_neg apart, if_true, field, Option.map_some, value]

theorem wsDecodeFrame_encoded (op : WsOpcode) {payload : Bytes} (masked : Bool) (random : Bytes)
    (fin : Bool) (fits : payload.length ≤ kMaxPayload) (rest : Bytes) :
    wsDecodeFrame (wsEncodeFrame op payload masked random fin ++ rest) =
      .frame { opcode := op.code, fin, payload }
        (wsEncodeFrame op payload masked random fin).length := by
  obtain ⟨opcode, final⟩ := first_byte op fin
  have small : payload.length < 2 ^ 64 := by
    unfold kMaxPayload at fits
    omega
  have data := takeField_append rest (rfl : payload.length = payload.length)
  cases masked with
  | false =>
      obtain ⟨second, extension, field, mask, length⟩ :=
        wsReadLength_encoded false small (payload ++ rest)
      simp only [wsEncodeFrame, Bool.false_eq_true, if_false] at field ⊢
      simp only [field, List.cons_append, List.append_assoc, wsDecodeFrame, mask, length,
        not_lt.mpr fits, if_false, wsReadMask, Bool.false_eq_true, data, opcode, final,
        List.length_cons, List.length_append]
      congr 1
      omega
  | true =>
      generalize picked : (if random.length = 4 then random else [0, 0, 0, 0]) = key
      have width : key.length = 4 := by
        rw [← picked]
        split
        · assumption
        · rfl
      obtain ⟨second, extension, field, mask, length⟩ :=
        wsReadLength_encoded true small (key ++ (wsMask key payload ++ rest))
      have maskKey := takeField_append (wsMask key payload ++ rest) width
      have masked := takeField_append rest (wsMask_length key payload)
      simp only [wsEncodeFrame, if_true, picked] at field ⊢
      simp only [field, List.cons_append, List.append_assoc, wsDecodeFrame, mask, length,
        not_lt.mpr fits, if_false, wsReadMask, if_true, maskKey, masked, wsMask_wsMask,
        opcode, final, List.length_cons, List.length_append]
      congr 1
      omega

end Skittermouse.Net

import Skittermouse.Data.Exec
import Skittermouse.Data.Spans
import Skittermouse.Net.FileSession

namespace Skittermouse.Files

open Skittermouse.Data Skittermouse.Net

/-! # Chunks in any order

A receiver takes whatever chunk payloads arrive. What it writes depends on a
bounds test in 64-bit arithmetic, and what it counts is the lengths it wrote.
-/

inductive ReceiverCall where
  | acceptMeta (payload : Bytes)
  | acceptChunk (payload : Bytes)
deriving DecidableEq

def receiverStep : ReceiverCall → FileReceiver → FileReceiver
  | .acceptMeta payload, receiver => (receiver.acceptMeta payload).2
  | .acceptChunk payload, receiver => (receiver.acceptChunk payload).2

def receiverAfter (calls : List ReceiverCall) : FileReceiver := exec receiverStep .init calls

/-- A chunk payload changes nothing, or fills its own place in a promised file. -/
def WritesInBounds (receiver : FileReceiver) (payload : Bytes) : Prop :=
  match receiver.acceptChunk payload with
  | (false, after) => after.buffers = receiver.buffers ∧ after.received = receiver.received
  | (true, after) => ∃ chunk, decodeFileChunk payload = some chunk ∧
      chunk.index.toNat < receiver.fileCount ∧
      ∃ buffer, receiver.buffers[chunk.index.toNat]? = some buffer ∧
        chunk.offset.toNat + chunk.data.length ≤ buffer.length ∧
        after.buffers = receiver.buffers.set chunk.index.toNat
          (buffer.take chunk.offset.toNat ++
            (chunk.data ++ buffer.drop (chunk.offset.toNat + chunk.data.length)))

/-- The end of the chunk is a 64-bit number, or comes round to one behind the buffer. -/
def EndFits (receiver : FileReceiver) (payload : Bytes) : Prop :=
  ∀ chunk, decodeFileChunk payload = some chunk →
    ∀ buffer, receiver.buffers[chunk.index.toNat]? = some buffer →
      chunk.offset.toNat + chunk.data.length < 2 ^ 64 ∨
        buffer.length < (chunk.offset.toNat + chunk.data.length) % 2 ^ 64

/-- Every file of the promise has a buffer of the promised size and a count. -/
structure Sized (receiver : FileReceiver) : Prop where
  buffers : receiver.buffers.map List.length = receiver.entries.map fun entry => entry.size.toNat
  received : receiver.received.length = receiver.entries.length

variable {receiver : FileReceiver} {payload buffer : Bytes} {chunk : FileChunk}

theorem getElem?_overwrite (buffer : Bytes) (offset : Nat) (chunk : Bytes) (position : Nat) :
    (overwrite buffer offset chunk)[position]? = buffer[position]?.map fun byte =>
      if offset ≤ position then chunk.getD (position - offset) byte else byte :=
  List.getElem?_mapIdx

@[simp] theorem overwrite_length (buffer : Bytes) (offset : Nat) (chunk : Bytes) :
    (overwrite buffer offset chunk).length = buffer.length := List.length_mapIdx

theorem overwrite_eq {offset : Nat} {chunk : Bytes}
    (within : offset + chunk.length ≤ buffer.length) :
    overwrite buffer offset chunk =
      buffer.take offset ++ (chunk ++ buffer.drop (offset + chunk.length)) := by
  have front : (buffer.take offset).length = offset := by
    rw [List.length_take]
    omega
  have middle : ((buffer.drop offset).take chunk.length).length = chunk.length := by
    rw [List.length_take, List.length_drop]
    omega
  have pieces : buffer = buffer.take offset ++
      ((buffer.drop offset).take chunk.length ++ buffer.drop (offset + chunk.length)) := by
    rw [← List.drop_drop, List.take_append_drop, List.take_append_drop]
  have written := overwrite_middle (buffer.take offset) ((buffer.drop offset).take chunk.length)
    (buffer.drop (offset + chunk.length)) chunk middle
  rwa [front, ← pieces] at written

/-- What a chunk does to a receiver: nothing, or a copy that passed the bounds test. -/
theorem acceptChunk_cases (receiver : FileReceiver) (payload : Bytes) :
    (receiver.acceptChunk payload = (false, receiver) ∧
      ∀ chunk, decodeFileChunk payload = some chunk →
        ∀ buffer, receiver.buffers[chunk.index.toNat]? = some buffer →
          chunk.offset + UInt64.ofNat chunk.data.length > UInt64.ofNat buffer.length) ∨
      ∃ chunk buffer, decodeFileChunk payload = some chunk ∧
        receiver.buffers[chunk.index.toNat]? = some buffer ∧
        ¬chunk.offset + UInt64.ofNat chunk.data.length > UInt64.ofNat buffer.length ∧
        receiver.acceptChunk payload = (true,
          { receiver with
            buffers := receiver.buffers.set chunk.index.toNat
              (overwrite buffer chunk.offset.toNat chunk.data)
            received := receiver.received.modify chunk.index.toNat
              (· + UInt64.ofNat chunk.data.length) }) := by
  rw [FileReceiver.acceptChunk]
  split
  · rename_i undecoded
    exact .inl ⟨rfl, fun _ decoded => absurd (undecoded.symm.trans decoded) nofun⟩
  · rename_i chunk decoded
    split
    · rename_i missing
      refine .inl ⟨rfl, fun other same buffer found => ?_⟩
      obtain rfl := Option.some.inj (decoded.symm.trans same)
      exact absurd (missing.symm.trans found) nofun
    · rename_i buffer found
      split
      · rename_i beyond
        refine .inl ⟨rfl, fun other same held there => ?_⟩
        obtain rfl := Option.some.inj (decoded.symm.trans same)
        obtain rfl := Option.some.inj (found.symm.trans there)
        exact beyond
      · rename_i passed
        exact .inr ⟨chunk, buffer, decoded, found, passed, rfl⟩

theorem Sized.acceptMeta (sized : Sized receiver) (payload : Bytes) :
    Sized (receiver.acceptMeta payload).2 := by
  rw [FileReceiver.acceptMeta]
  split
  · exact sized
  · constructor <;> simp [Function.comp_def]

theorem Sized.acceptChunk (sized : Sized receiver) (payload : Bytes) :
    Sized (receiver.acceptChunk payload).2 := by
  rcases acceptChunk_cases receiver payload with ⟨refused, _⟩ | ⟨chunk, buffer, _, found, _, taken⟩
  · rwa [refused]
  · rw [taken]
    refine ⟨?_, ?_⟩
    · have same : (receiver.buffers.map List.length)[chunk.index.toNat]? = some buffer.length := by
        rw [List.getElem?_map, found, Option.map_some]
      obtain ⟨bound, there⟩ := List.getElem?_eq_some_iff.mp same
      have unchanged : (receiver.buffers.map List.length).set chunk.index.toNat buffer.length =
          receiver.buffers.map List.length := by
        rw [← there]
        exact List.set_getElem_self bound
      rw [List.map_set, overwrite_length, unchanged]
      exact sized.buffers
    · rw [List.length_modify]
      exact sized.received

theorem Sized.after (calls : List ReceiverCall) : Sized (receiverAfter calls) := by
  have preserved (call : ReceiverCall) (receiver : FileReceiver) (sized : Sized receiver) :
      Sized (receiverStep call receiver) := by
    cases call with
    | acceptMeta payload => exact sized.acceptMeta payload
    | acceptChunk payload => exact sized.acceptChunk payload
  exact exec_preserves preserved ⟨rfl, rfl⟩ calls

theorem Sized.fileCount (sized : Sized receiver) :
    receiver.buffers.length = receiver.fileCount := by
  have lengths := congrArg List.length sized.buffers
  rwa [List.length_map, List.length_map] at lengths

theorem Sized.buffer_lt (sized : Sized receiver) {index : Nat}
    (found : receiver.buffers[index]? = some buffer) : buffer.length < 2 ^ 64 := by
  have there : (receiver.buffers.map List.length)[index]? = some buffer.length := by
    rw [List.getElem?_map, found, Option.map_some]
  rw [sized.buffers, List.getElem?_map] at there
  obtain ⟨entry, _, size⟩ := Option.map_eq_some_iff.mp there
  exact size ▸ entry.size.toNat_lt

/-- The bounds test on whole numbers: it sees the end of the chunk modulo 2^64. -/
theorem passes_iff (small : buffer.length < 2 ^ 64) :
    ¬chunk.offset + UInt64.ofNat chunk.data.length > UInt64.ofNat buffer.length ↔
      (chunk.offset.toNat + chunk.data.length) % 2 ^ 64 ≤ buffer.length := by
  rw [gt_iff_lt, UInt64.lt_iff_toNat_lt, UInt64.toNat_add, UInt64.toNat_ofNat_of_lt' small,
    UInt64.toNat_ofNat', Nat.add_mod_mod, not_lt]

/-- Chunks are written in bounds exactly when their ends do not come round. -/
theorem writes_in_bounds_iff (calls : List ReceiverCall) (payload : Bytes) :
    WritesInBounds (receiverAfter calls) payload ↔ EndFits (receiverAfter calls) payload := by
  have sized := Sized.after calls
  generalize receiverAfter calls = receiver at sized
  rcases acceptChunk_cases receiver payload with
    ⟨refused, beyond⟩ | ⟨chunk, buffer, decoded, found, passed, taken⟩
  · rw [WritesInBounds, refused]
    refine iff_of_true ⟨rfl, rfl⟩ fun chunk decoded buffer found => .inr ?_
    have small := sized.buffer_lt found
    have behind := (passes_iff small).not.mp (not_not.mpr (beyond chunk decoded buffer found))
    exact not_le.mp behind
  · have small := sized.buffer_lt found
    have low := (passes_iff small).mp passed
    have inFiles : chunk.index.toNat < receiver.fileCount :=
      sized.fileCount ▸ (List.getElem?_eq_some_iff.mp found).1
    rw [WritesInBounds, taken]
    constructor
    · rintro ⟨other, same, _, held, there, within, _⟩ chunk' decoded' buffer' found'
      obtain rfl := Option.some.inj (decoded'.symm.trans same)
      obtain rfl := Option.some.inj (there.symm.trans found')
      exact .inl (within.trans_lt (sized.buffer_lt found'))
    · intro fits
      have within : chunk.offset.toNat + chunk.data.length ≤ buffer.length := by
        rcases fits chunk decoded buffer found with fits | behind
        · rwa [Nat.mod_eq_of_lt fits] at low
        · exact absurd low (not_le.mpr behind)
      refine ⟨chunk, decoded, inFiles, buffer, found, within, ?_⟩
      rw [overwrite_eq within]

/-- One byte at the last 64-bit offset ends at zero and passes the bounds test. -/
theorem last_offset_accepted :
    ¬ WritesInBounds (receiverAfter [.acceptMeta (encodeFilePromiseMeta [⟨[], 4⟩])])
      (encodeFileChunk ⟨0, UInt64.ofNat (2 ^ 64 - 1), [1]⟩) := by
  have promised : receiverAfter [.acceptMeta (encodeFilePromiseMeta [⟨[], 4⟩])] =
      ⟨[⟨[], 4⟩], [[0, 0, 0, 0]], [0]⟩ := by decide
  have accepted : (FileReceiver.acceptChunk ⟨[⟨[], 4⟩], [[0, 0, 0, 0]], [0]⟩
      (encodeFileChunk ⟨0, UInt64.ofNat (2 ^ 64 - 1), [1]⟩)) =
        (true, ⟨[⟨[], 4⟩], [[0, 0, 0, 0]], [1]⟩) := by decide
  rw [promised, WritesInBounds, accepted]
  rintro ⟨chunk, decoded, _, buffer, found, within, _⟩
  rw [decodeFileChunk_encode, Option.some.injEq] at decoded
  subst decoded
  obtain rfl : [0, 0, 0, 0] = buffer := Option.some.inj found
  exact absurd within (by decide)

end Skittermouse.Files

import Mathlib.Data.UInt
import Mathlib.Data.List.Induction
import Skittermouse.Files.Chunks

namespace Skittermouse.Files

open Skittermouse.Data Skittermouse.Net

/-! # What the counts of a receiver say

A receiver has a promise and then takes chunks, each a true slice of its file,
in any order and as often as they come. One running total of the lengths stands
for what has arrived.
-/

/-- The payload carries a true slice of one of the files. -/
def TrueSlice (files : List Bytes) (payload : Bytes) : Prop :=
  ∃ chunk, decodeFileChunk payload = some chunk ∧
    ∃ file, files[chunk.index.toNat]? = some file ∧
      chunk.offset.toNat + chunk.data.length ≤ file.length ∧
      chunk.data = (file.drop chunk.offset.toNat).take chunk.data.length

def chunksOf (index : Nat) (payloads : List Bytes) : List FileChunk :=
  (payloads.filterMap decodeFileChunk).filter fun chunk => chunk.index.toNat == index

def totalOf (index : Nat) (payloads : List Bytes) : UInt64 :=
  ((chunksOf index payloads).map fun chunk => UInt64.ofNat chunk.data.length).sum

def spansOf (index : Nat) (payloads : List Bytes) : List Span :=
  (chunksOf index payloads).map fun chunk => ⟨chunk.offset.toNat, chunk.data.length⟩

def receive (receiver : FileReceiver) (payloads : List Bytes) : FileReceiver :=
  exec receiverStep receiver (payloads.map .acceptChunk)

/-- The count of a file is a front of it that is there, and a file that is
complete is all there. -/
structure CountsHold (receiver : FileReceiver) (index : Nat) (file : Bytes) : Prop where
  within : (receiver.receivedOf index).toNat ≤ file.length
  front : (receiver.data index).take (receiver.receivedOf index).toNat =
    file.take (receiver.receivedOf index).toNat
  whole : receiver.complete index = true → receiver.data index = file

/-- The lengths so far add up to no more than the file, and what lies below
their sum has come or is zero anyway. -/
def NoGap (index : Nat) (file : Bytes) (payloads : List Bytes) : Prop :=
  (totalOf index payloads).toNat ≤ file.length ∧
    ∀ position < (totalOf index payloads).toNat,
      position ∈ covered (spansOf index payloads) ∨ file[position]? = some 0

instance (index : Nat) (file : Bytes) (payloads : List Bytes) :
    Decidable (NoGap index file payloads) := inferInstanceAs (Decidable (_ ∧ _))

/-- The receiver has the promise of these files and has taken these payloads. -/
structure Filling (files : List Bytes) (payloads : List Bytes) (receiver : FileReceiver) : Prop where
  sizes : receiver.entries.map (fun entry => entry.size.toNat) = files.map List.length
  shown : ∀ index file, files[index]? = some file →
    ∃ buffer, receiver.buffers[index]? = some buffer ∧
      Reveals 0 file (covered (spansOf index payloads)) buffer
  counted : ∀ index file, files[index]? = some file →
    receiver.received[index]? = some (totalOf index payloads)

variable {files payloads : List Bytes} {receiver : FileReceiver} {payload file : Bytes}
  {chunk : FileChunk} {index : Nat}

theorem chunksOf_concat (decoded : decodeFileChunk payload = some chunk) :
    chunksOf index (payloads ++ [payload]) =
      if chunk.index.toNat = index then chunksOf index payloads ++ [chunk]
      else chunksOf index payloads := by
  simp only [chunksOf, List.filterMap_append, List.filter_append, List.filterMap_cons, decoded,
    List.filterMap_nil, List.filter_cons, List.filter_nil, beq_iff_eq]
  split
  · rfl
  · rw [List.append_nil]

theorem totalOf_concat (decoded : decodeFileChunk payload = some chunk) :
    totalOf index (payloads ++ [payload]) =
      if chunk.index.toNat = index then totalOf index payloads + UInt64.ofNat chunk.data.length
      else totalOf index payloads := by
  rw [totalOf, chunksOf_concat decoded]
  split
  · rw [List.map_append, List.sum_append, List.map_singleton, List.sum_singleton, totalOf]
  · rfl

theorem covered_concat_payload (decoded : decodeFileChunk payload = some chunk) :
    covered (spansOf index (payloads ++ [payload])) =
      if chunk.index.toNat = index then
        covered (spansOf index payloads) ∪ Span.positions ⟨chunk.offset.toNat, chunk.data.length⟩
      else covered (spansOf index payloads) := by
  rw [spansOf, chunksOf_concat decoded]
  split
  · rw [List.map_append, List.map_singleton, covered_concat, spansOf]
  · rfl

theorem Filling.size_lt (filling : Filling files payloads receiver)
    (found : files[index]? = some file) : file.length < 2 ^ 64 := by
  have there : (files.map List.length)[index]? = some file.length := by
    rw [List.getElem?_map, found, Option.map_some]
  rw [← filling.sizes, List.getElem?_map] at there
  obtain ⟨entry, _, size⟩ := Option.map_eq_some_iff.mp there
  exact size ▸ entry.size.toNat_lt

theorem Filling.promised {entries : List FileEntry} {promise : Bytes} (before : FileReceiver)
    (decoded : decodeFilePromiseMeta promise = some entries)
    (sizes : entries.map (fun entry => entry.size.toNat) = files.map List.length) :
    Filling files [] (before.acceptMeta promise).2 := by
  have at_ (index : Nat) (file : Bytes) (found : files[index]? = some file) :
      ∃ entry, entries[index]? = some entry ∧ entry.size.toNat = file.length := by
    have there : (files.map List.length)[index]? = some file.length := by
      rw [List.getElem?_map, found, Option.map_some]
    rwa [← sizes, List.getElem?_map, Option.map_eq_some_iff] at there
  simp only [FileReceiver.acceptMeta, decoded]
  refine ⟨sizes, ?_, ?_⟩
  · intro index file found
    obtain ⟨entry, listed, size⟩ := at_ index file found
    refine ⟨List.replicate file.length 0, ?_, ?_⟩
    · rw [List.getElem?_map, listed, Option.map_some, size]
    · exact covered_nil ▸ Reveals.start 0 file
  · intro index file found
    obtain ⟨entry, listed, _⟩ := at_ index file found
    rw [List.getElem?_map, listed, Option.map_some]
    rfl

theorem Reveals.overwrite {places : Set Nat} {buffer data : Bytes} {offset : Nat}
    (reveals : Reveals 0 file places buffer) (within : offset + data.length ≤ file.length)
    (slice : data = (file.drop offset).take data.length) :
    Reveals 0 file (places ∪ Span.positions ⟨offset, data.length⟩) (overwrite buffer offset data) := by
  refine reveals.write (overwrite_length buffer offset data) ?_ ?_
  · rintro position ⟨lower, upper⟩
    change offset ≤ position at lower
    change position < offset + data.length at upper
    have inBuffer : position < buffer.length := by
      rw [reveals.length]
      omega
    have inData : position - offset < data.length := by omega
    have byte : data[position - offset]? = file[position]? := by
      have taken := congrArg (fun bytes : Bytes => bytes[position - offset]?) slice
      simp only [List.getElem?_take_of_lt inData, List.getElem?_drop, Nat.add_sub_of_le lower] at taken
      exact taken
    rw [getElem?_overwrite, List.getElem?_eq_getElem inBuffer, Option.map_some, if_pos lower,
      List.getD_eq_getElem?_getD, ← byte, List.getElem?_eq_getElem inData, Option.getD_some]
  · intro position outside
    have same (byte : UInt8) : (if offset ≤ position then data.getD (position - offset) byte
        else byte) = byte := by
      split
      · rename_i lower
        have past : data.length ≤ position - offset := by
          by_contra short
          exact outside ⟨lower, (by change position < offset + data.length; omega)⟩
        rw [List.getD_eq_getElem?_getD, List.getElem?_eq_none past, Option.getD_none]
      · rfl
    simp only [getElem?_overwrite, same, Option.map_id']

theorem Filling.acceptChunk (filling : Filling files payloads receiver)
    (decoded : decodeFileChunk payload = some chunk) (found : files[chunk.index.toNat]? = some file)
    (within : chunk.offset.toNat + chunk.data.length ≤ file.length) :
    ∃ buffer, receiver.buffers[chunk.index.toNat]? = some buffer ∧
      receiver.acceptChunk payload = (true,
        { receiver with
          buffers := receiver.buffers.set chunk.index.toNat
            (overwrite buffer chunk.offset.toNat chunk.data)
          received := receiver.received.modify chunk.index.toNat
            (· + UInt64.ofNat chunk.data.length) }) := by
  obtain ⟨buffer, there, reveals⟩ := filling.shown _ file found
  have small : buffer.length < 2 ^ 64 := reveals.length ▸ filling.size_lt found
  have passed : (chunk.offset.toNat + chunk.data.length) % 2 ^ 64 ≤ buffer.length := by
    rw [reveals.length]
    exact (Nat.mod_le _ _).trans within
  refine ⟨buffer, there, ?_⟩
  simp only [FileReceiver.acceptChunk, decoded, there, if_neg ((passes_iff small).mpr passed)]

theorem Filling.step (filling : Filling files payloads receiver) (slice : TrueSlice files payload) :
    Filling files (payloads ++ [payload]) (receiver.acceptChunk payload).2 := by
  obtain ⟨chunk, decoded, written, found, within, slice⟩ := slice
  obtain ⟨buffer, there, accepted⟩ := filling.acceptChunk decoded found within
  rw [accepted]
  refine ⟨filling.sizes, ?_, ?_⟩
  · intro index file listed
    rw [covered_concat_payload decoded]
    by_cases same : chunk.index.toNat = index
    · subst same
      obtain rfl := Option.some.inj (found.symm.trans listed)
      obtain ⟨held, here, reveals⟩ := filling.shown _ _ found
      obtain rfl := Option.some.inj (there.symm.trans here)
      refine ⟨_, List.getElem?_set_self (List.getElem?_eq_some_iff.mp there).1, ?_⟩
      rw [if_pos rfl]
      exact Reveals.overwrite reveals within slice
    · obtain ⟨held, here, reveals⟩ := filling.shown index file listed
      exact ⟨held, by rwa [List.getElem?_set_ne same], by rwa [if_neg same]⟩
  · intro index file listed
    rw [List.getElem?_modify, filling.counted index file listed, totalOf_concat decoded]
    split
    · rfl
    · rfl

theorem Filling.receive {before : FileReceiver} (filling : Filling files [] before)
    (slices : ∀ payload ∈ payloads, TrueSlice files payload) :
    Filling files payloads (receive before payloads) := by
  induction payloads using List.reverseRecOn with
  | nil => exact filling
  | append_singleton front payload ih =>
      have earlier := ih fun payload member => slices payload (List.mem_append_left _ member)
      rw [Files.receive, List.map_append, List.map_singleton, exec_concat]
      exact earlier.step (slices payload (List.mem_append_right _ List.mem_cons_self))

theorem Filling.countsHold_iff (filling : Filling files payloads receiver)
    (found : files[index]? = some file) :
    CountsHold receiver index file ↔ NoGap index file payloads := by
  obtain ⟨buffer, there, reveals⟩ := filling.shown index file found
  have data : receiver.data index = buffer := by
    rw [FileReceiver.data, List.getD_eq_getElem?_getD, there, Option.getD_some]
  have received : receiver.receivedOf index = totalOf index payloads := by
    rw [FileReceiver.receivedOf, List.getD_eq_getElem?_getD, filling.counted index file found,
      Option.getD_some]
  constructor
  · intro holds
    have within := received ▸ holds.within
    refine ⟨within, (reveals.take_eq_iff within).mp ?_⟩
    rw [← data, ← received]
    exact holds.front
  · rintro ⟨within, shown⟩
    have front := (reveals.take_eq_iff within).mpr shown
    refine ⟨received ▸ within, data ▸ received ▸ front, ?_⟩
    intro complete
    have enough : file.length ≤ (totalOf index payloads).toNat := by
      have sizes : (receiver.entries.map fun entry => entry.size.toNat)[index]? = some file.length := by
        rw [filling.sizes, List.getElem?_map, found, Option.map_some]
      rw [List.getElem?_map] at sizes
      obtain ⟨entry, listed, size⟩ := Option.map_eq_some_iff.mp sizes
      rw [FileReceiver.complete, listed, received] at complete
      exact size ▸ UInt64.le_iff_toNat_le.mp (of_decide_eq_true complete)
    rw [data]
    rwa [List.take_of_length_le enough, List.take_of_length_le (reveals.length ▸ enough)] at front

/-- At every point of a transfer the count of a file is right exactly when at
every point its chunks leave no gap below their total. -/
theorem counts_hold_iff {before : FileReceiver} {promise : Bytes} {entries : List FileEntry}
    (promised : decodeFilePromiseMeta promise = some entries)
    (sizes : entries.map (fun entry => entry.size.toNat) = files.map List.length)
    (slices : ∀ payload ∈ payloads, TrueSlice files payload)
    (found : files[index]? = some file) :
    (∀ front, front <+: payloads →
        CountsHold (receive (before.acceptMeta promise).2 front) index file) ↔
      ∀ front, front <+: payloads → NoGap index file front := by
  have point (front : List Bytes) (start : front <+: payloads) :
      CountsHold (receive (before.acceptMeta promise).2 front) index file ↔ NoGap index file front := by
    have filling := (Filling.promised before promised sizes).receive
      fun payload member => slices payload (start.subset member)
    exact filling.countsHold_iff found
  exact forall₂_congr point

def twoBytes : Bytes := encodeFilePromiseMeta [⟨[], 2⟩]

def sliceOf (offset : UInt64) (data : Bytes) : Bytes := encodeFileChunk ⟨0, offset, data⟩

theorem trueSlice_sliceOf {offset : UInt64} {data : Bytes}
    (within : offset.toNat + data.length ≤ 2)
    (slice : data = ([1, 2].drop offset.toNat).take data.length) :
    TrueSlice [[1, 2]] (sliceOf offset data) :=
  ⟨⟨0, offset, data⟩, decodeFileChunk_encode _, [1, 2], rfl, within, slice⟩

theorem in_order_counts_hold :
    (∀ payload ∈ [sliceOf 0 [1], sliceOf 1 [2]], TrueSlice [[1, 2]] payload) ∧
      ∀ front, front <+: [sliceOf 0 [1], sliceOf 1 [2]] →
        CountsHold (receive (FileReceiver.init.acceptMeta twoBytes).2 front) 0 [1, 2] := by
  have promised : decodeFilePromiseMeta twoBytes = some [⟨[], 2⟩] := by decide
  have slices : ∀ payload ∈ [sliceOf 0 [1], sliceOf 1 [2]], TrueSlice [[1, 2]] payload := by
    intro payload member
    obtain rfl | rfl : payload = sliceOf 0 [1] ∨ payload = sliceOf 1 [2] := by simpa using member
    · exact trueSlice_sliceOf (by decide) rfl
    · exact trueSlice_sliceOf (by decide) rfl
  refine ⟨slices, (counts_hold_iff promised rfl slices rfl).mpr fun front start => ?_⟩
  rw [List.prefix_iff_eq_take.mp start]
  rcases front.length with _ | _ | count
  · decide
  · decide
  · rw [List.take_of_length_le (Nat.le_add_left 2 count)]
    decide

/-- The second byte first: one byte is counted, and it is not the first. -/
theorem second_byte_first :
    TrueSlice [[1, 2]] (sliceOf 1 [2]) ∧
      ((FileReceiver.init.acceptMeta twoBytes).2.acceptChunk (sliceOf 1 [2])).1 = true ∧
      ¬ CountsHold (receive (FileReceiver.init.acceptMeta twoBytes).2 [sliceOf 1 [2]]) 0 [1, 2] := by
  refine ⟨trueSlice_sliceOf (by decide) rfl, by decide, ?_⟩
  intro holds
  exact absurd holds.front (by decide)

end Skittermouse.Files

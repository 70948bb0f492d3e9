import Skittermouse.Net.FileChannel
import Skittermouse.Wire.FileLists

/-! # A sender and the receiver that follows it

The sender's chunks leave in the order of its cursors. A receiver that has
taken the promise and every chunk so far holds what the cursors have passed.
-/

namespace Skittermouse.Files

open Skittermouse.Data Skittermouse.Core Skittermouse.Net

structure Sound (sender : FileSender) : Prop where
  few : sender.files.length < 2 ^ 32
  cursors : sender.cursors.length = sender.files.length
  small : ∀ file ∈ sender.files, file.2.length < 2 ^ 64
  within : ∀ (index : Nat) (file : Bytes × Bytes) (cursor : Nat), sender.files[index]? = some file →
    sender.cursors[index]? = some cursor → cursor ≤ file.2.length

variable {sender after : FileSender} {chunkSize : Nat} {index : UInt32} {chunk : Bytes}

theorem nextChunk_some (got : sender.nextChunk index chunkSize = (chunk, after)) (some_ : chunk ≠ []) :
    ∃ name data cursor, sender.files[index.toNat]? = some (name, data) ∧
      sender.cursors[index.toNat]? = some cursor ∧ cursor < data.length ∧ chunkSize ≠ 0 ∧
      chunk = encodeFileChunk
        { index, offset := UInt64.ofNat cursor, data := (data.drop cursor).take chunkSize } ∧
      after = { sender with
        cursors := sender.cursors.set index.toNat
          (cursor + ((data.drop cursor).take chunkSize).length) } := by
  unfold FileSender.nextChunk at got
  split at got
  · rename_i name data cursor file place
    split at got
    · cases got
      contradiction
    · rename_i going
      cases got
      exact ⟨name, data, cursor, file, place, not_le.mp fun past => going (.inr past),
        fun zero => going (.inl zero), rfl, rfl⟩
  · cases got
    contradiction

/-- The sender hands out these chunks, each in a message of its own. -/
inductive Streams (chunkSize : Nat) : FileSender → List Bytes → FileSender → Prop where
  | done (sender : FileSender) : Streams chunkSize sender [] sender
  | chunk {sender next after : FileSender} {index : UInt32} {chunk : Bytes} {messages : List Bytes}
      (got : sender.nextChunk index chunkSize = (chunk, next)) (nonempty : chunk ≠ [])
      (later : Streams chunkSize next messages after) :
      Streams chunkSize sender (encodeVarMessage .fileChunk chunk :: messages) after

variable {messages : List Bytes} {next : FileSender}

theorem Streams.trans {others : List Bytes} (first : Streams chunkSize sender messages next)
    (second : Streams chunkSize next others after) :
    Streams chunkSize sender (messages ++ others) after := by
  induction first with
  | done => exact second
  | chunk got nonempty later ih => exact .chunk got nonempty (ih second)

theorem Streams.front {others : List Bytes} (streams : Streams chunkSize sender (messages ++ others) after) :
    ∃ next, Streams chunkSize sender messages next := by
  induction messages generalizing sender with
  | nil => exact ⟨sender, .done sender⟩
  | cons message messages ih =>
      cases streams with
      | chunk got nonempty later =>
          obtain ⟨next, first⟩ := ih later
          exact ⟨next, .chunk got nonempty first⟩

theorem Streams.files (streams : Streams chunkSize sender messages after) :
    after.files = sender.files := by
  induction streams with
  | done => rfl
  | chunk got nonempty later ih =>
      obtain ⟨_, _, _, _, _, _, _, _, rfl⟩ := nextChunk_some got nonempty
      exact ih

theorem Sound.nextChunk (sound : Sound sender)
    (got : sender.nextChunk index chunkSize = (chunk, after)) (nonempty : chunk ≠ []) :
    Sound after := by
  obtain ⟨name, data, cursor, file, place, before, _, _, rfl⟩ := nextChunk_some got nonempty
  refine ⟨sound.few, ?_, sound.small, fun other held passed found at_ => ?_⟩
  · rw [List.length_set]
    exact sound.cursors
  · rw [List.getElem?_set] at at_
    split at at_
    · rename_i same
      rw [same, found] at file
      cases file
      split at at_
      · cases at_
        simp only [List.length_take, List.length_drop]
        omega
      · contradiction
    · exact sound.within other held passed found at_

theorem Streams.sound (streams : Streams chunkSize sender messages after) (sound : Sound sender) :
    Sound after := by
  induction streams with
  | done => exact sound
  | chunk got nonempty later ih => exact ih (sound.nextChunk got nonempty)

theorem Streams.complete {file : Nat} (streams : Streams chunkSize sender messages after)
    (complete : sender.complete file = true) : after.complete file = true := by
  induction streams with
  | done => exact complete
  | @chunk sender next after index chunk messages got nonempty later ih =>
      obtain ⟨name, data, cursor, found, place, before, _, _, rfl⟩ := nextChunk_some got nonempty
      refine ih ?_
      unfold FileSender.complete at complete ⊢
      have apart : index.toNat ≠ file := by
        rintro rfl
        rw [found, place] at complete
        exact absurd (of_decide_eq_true complete) (not_le.mpr before)
      rw [List.getElem?_set_ne apart]
      exact complete

def entryOf (file : Bytes × Bytes) : FileEntry := ⟨file.1, UInt64.ofNat file.2.length⟩

def filled (data : Bytes) (cursor : Nat) : Bytes :=
  data.take cursor ++ List.replicate (data.length - cursor) 0

/-- The receiver holds what the cursors of the sender have passed. -/
structure Follows (sender : FileSender) (receiver : FileReceiver) : Prop where
  entries : receiver.entries = sender.files.map entryOf
  buffers : receiver.buffers = List.zipWith (fun file cursor => filled file.2 cursor)
    sender.files sender.cursors
  received : receiver.received = sender.cursors.map UInt64.ofNat

theorem filled_length {data : Bytes} {cursor : Nat} (within : cursor ≤ data.length) :
    (filled data cursor).length = data.length := by
  rw [filled, List.length_append, List.length_take, List.length_replicate]
  omega

theorem overwrite_filled (data : Bytes) {cursor count : Nat} (within : cursor ≤ data.length) :
    overwrite (filled data cursor) cursor ((data.drop cursor).take count) =
      filled data (cursor + ((data.drop cursor).take count).length) := by
  have taken : (data.take cursor).length = cursor := by
    rw [List.length_take]
    omega
  generalize slice : (data.drop cursor).take count = chunk
  have size : chunk.length ≤ data.length - cursor := by
    rw [← slice, List.length_take, List.length_drop]
    omega
  have split : filled data cursor = data.take cursor ++
      (List.replicate chunk.length 0 ++ List.replicate (data.length - cursor - chunk.length) 0) := by
    rw [filled, List.replicate_append_replicate, Nat.add_sub_cancel' size]
  have joined : data.take (cursor + chunk.length) = data.take cursor ++ chunk := by
    have width : chunk.length = min count (data.length - cursor) := by
      rw [← slice, List.length_take, List.length_drop]
    rw [List.take_add, ← slice, slice, width, ← List.length_drop, ← List.take_take,
      List.take_length, slice]
  have written := overwrite_middle (data.take cursor) (List.replicate chunk.length 0)
    (List.replicate (data.length - cursor - chunk.length) 0) chunk List.length_replicate
  rw [taken] at written
  rw [split, written, filled, joined, List.append_assoc, Nat.sub_sub]

variable {receiver : FileReceiver}

theorem acceptMessage_chunk (receiver : FileReceiver) {payload : Bytes}
    (bound : payload.length ≤ kMaxVarPayload) :
    FileChannel.acceptMessage receiver (encodeVarMessage .fileChunk payload) =
      (receiver.acceptChunk payload).2 := by
  have decoded := @decodeMessage_encodeVarMessage .fileChunk payload (by decide) rfl bound []
  rw [List.append_nil] at decoded
  simp only [FileChannel.acceptMessage, decoded, Bool.false_eq_true, if_false]

theorem acceptMessage_meta (receiver : FileReceiver) {payload : Bytes}
    (bound : payload.length ≤ kMaxVarPayload) :
    FileChannel.acceptMessage receiver (encodeVarMessage .filePromiseMeta payload) =
      (receiver.acceptMeta payload).2 := by
  have decoded := @decodeMessage_encodeVarMessage .filePromiseMeta payload (by decide) rfl bound []
  rw [List.append_nil] at decoded
  simp only [FileChannel.acceptMessage, decoded, Bool.false_eq_true, if_false]

theorem Follows.buffer {file cursor : Nat} {name data : Bytes} (follows : Follows sender receiver)
    (found : sender.files[file]? = some (name, data)) (place : sender.cursors[file]? = some cursor) :
    receiver.buffers[file]? = some (filled data cursor) := by
  rw [follows.buffers, List.getElem?_zipWith, found, place]

theorem Follows.acceptChunk (sound : Sound sender) (follows : Follows sender receiver)
    {name data : Bytes} {cursor : Nat} (found : sender.files[index.toNat]? = some (name, data))
    (place : sender.cursors[index.toNat]? = some cursor) (count : Nat) :
    receiver.acceptChunk (encodeFileChunk
        { index, offset := UInt64.ofNat cursor, data := (data.drop cursor).take count }) =
      (true, { receiver with
        buffers := receiver.buffers.set index.toNat
          (filled data (cursor + ((data.drop cursor).take count).length))
        received := receiver.received.modify index.toNat
          (· + UInt64.ofNat ((data.drop cursor).take count).length) }) := by
  have within : cursor ≤ data.length := sound.within _ _ _ found place
  have small : data.length < 2 ^ 64 := sound.small _ (List.mem_of_getElem? found)
  have written := @overwrite_filled data cursor count within
  generalize slice : (data.drop cursor).take count = chunk at written ⊢
  have size : chunk.length ≤ data.length - cursor := by
    rw [← slice, List.length_take, List.length_drop]
    omega
  have at_ : (UInt64.ofNat cursor).toNat = cursor := UInt64.toNat_ofNat_of_lt' (within.trans_lt small)
  have inside : ¬UInt64.ofNat cursor + UInt64.ofNat chunk.length >
      UInt64.ofNat (filled data cursor).length := by
    rw [filled_length within, gt_iff_lt, UInt64.lt_iff_toNat_lt, UInt64.toNat_add, at_,
      UInt64.toNat_ofNat_of_lt' small, UInt64.toNat_ofNat']
    omega
  simp only [FileReceiver.acceptChunk, decodeFileChunk_encode, follows.buffer found place,
    if_neg inside, at_, written]

theorem Follows.nextChunk (sound : Sound sender) (follows : Follows sender receiver)
    (got : sender.nextChunk index chunkSize = (chunk, after)) (nonempty : chunk ≠ [])
    (bound : chunk.length ≤ kMaxVarPayload) :
    Follows after (FileChannel.acceptMessage receiver (encodeVarMessage .fileChunk chunk)) := by
  obtain ⟨name, data, cursor, found, place, before, _, rfl, rfl⟩ := nextChunk_some got nonempty
  rw [acceptMessage_chunk receiver bound, follows.acceptChunk sound found place chunkSize]
  refine ⟨follows.entries, ?_, ?_⟩
  · apply List.ext_getElem?
    intro other
    simp only [List.getElem?_set, List.getElem?_zipWith, follows.buffers, List.length_zipWith]
    by_cases same : index.toNat = other
    · subst same
      have inFiles := (List.getElem?_eq_some_iff.mp found).1
      have inCursors := (List.getElem?_eq_some_iff.mp place).1
      simp only [if_true, Nat.lt_min, inFiles, inCursors, and_self, found]
    · simp only [if_neg same]
  · apply List.ext_getElem?
    intro other
    simp only [follows.received, List.getElem?_modify, List.getElem?_map, List.getElem?_set]
    by_cases same : index.toNat = other
    · subst same
      have inCursors := (List.getElem?_eq_some_iff.mp place).1
      simp only [if_true, inCursors, place, Option.map_eq_map, Option.map_some, UInt64.ofNat_add]
    · simp only [if_neg same, Option.map_eq_map, Option.map_id']

theorem payload_bound {type : MessageType} {payload : Bytes}
    (fits : (encodeVarMessage type payload).length ≤ FileChannel.kMaxFileMessage) :
    payload.length ≤ kMaxVarPayload := by
  rw [encodeVarMessage_length, FileChannel.kMaxFileMessage] at fits
  unfold kMaxVarPayload
  omega

theorem Streams.follows (streams : Streams chunkSize sender messages after) (sound : Sound sender)
    (follows : Follows sender receiver)
    (fit : ∀ message ∈ messages, message.length ≤ FileChannel.kMaxFileMessage) :
    Follows after (messages.foldl FileChannel.acceptMessage receiver) := by
  induction streams generalizing receiver with
  | done => exact follows
  | chunk got nonempty later ih =>
      have bound := payload_bound (fit _ List.mem_cons_self)
      exact ih (sound.nextChunk got nonempty) (follows.nextChunk sound got nonempty bound)
        fun message member => fit message (List.mem_cons_of_mem _ member)

structure Fresh (sender : FileSender) : Prop where
  cursors : sender.cursors = List.replicate sender.files.length 0
  few : sender.files.length < 2 ^ 32
  small : ∀ file ∈ sender.files, file.2.length < 2 ^ 64
  short : ∀ file ∈ sender.files, file.1.length ≤ 0xFFFF

theorem Fresh.sound (fresh : Fresh sender) : Sound sender := by
  refine ⟨fresh.few, ?_, fresh.small, fun index file cursor found place => ?_⟩
  · rw [fresh.cursors, List.length_replicate]
  · rw [fresh.cursors, List.getElem?_replicate] at place
    split at place
    · cases place
      exact Nat.zero_le _
    · contradiction

theorem zipWith_replicate_length {α β γ : Type} (combine : α → β → γ) (items : List α) (value : β) :
    List.zipWith combine items (List.replicate items.length value) =
      items.map fun item => combine item value := by
  induction items with
  | nil => rfl
  | cons item items ih => rw [List.length_cons, List.replicate_succ, List.zipWith_cons_cons, ih]; rfl

theorem Fresh.follows (fresh : Fresh sender) (receiver : FileReceiver)
    (fits : (encodeVarMessage .filePromiseMeta sender.promiseMeta).length ≤
      FileChannel.kMaxFileMessage) :
    Follows sender (FileChannel.acceptMessage receiver
      (encodeVarMessage .filePromiseMeta sender.promiseMeta)) := by
  have decoded : decodeFilePromiseMeta sender.promiseMeta = some (sender.files.map entryOf) := by
    refine Wire.decodeFilePromiseMeta_encode ?_ ?_
    · rw [List.length_map]
      exact fresh.few
    · intro entry member
      obtain ⟨file, there, rfl⟩ := List.mem_map.mp member
      exact fresh.short file there
  rw [acceptMessage_meta receiver (payload_bound fits), FileReceiver.acceptMeta]
  simp only [decoded]
  refine ⟨rfl, ?_, ?_⟩
  · have sizes : sender.files.map (fun file => List.replicate (entryOf file).size.toNat (0 : UInt8)) =
        sender.files.map fun file => filled file.2 0 := by
      refine List.map_congr_left fun file member => ?_
      rw [entryOf, UInt64.toNat_ofNat_of_lt' (fresh.small file member), filled, List.take_zero,
        List.nil_append, Nat.sub_zero]
    rw [List.map_map, fresh.cursors, zipWith_replicate_length]
    exact sizes
  · rw [List.map_const', List.length_map, fresh.cursors, List.map_replicate]
    rfl

variable {file cursor : Nat} {name data : Bytes}

theorem Follows.receivedOf (follows : Follows sender receiver) (sound : Sound sender)
    (found : sender.files[file]? = some (name, data)) (place : sender.cursors[file]? = some cursor) :
    (receiver.receivedOf file).toNat = cursor := by
  have small : data.length < 2 ^ 64 := sound.small _ (List.mem_of_getElem? found)
  have within : cursor ≤ data.length := sound.within _ _ _ found place
  rw [FileReceiver.receivedOf, List.getD_eq_getElem?_getD, follows.received, List.getElem?_map, place,
    Option.map_some, Option.getD_some, UInt64.toNat_ofNat_of_lt' (within.trans_lt small)]

theorem Follows.complete (follows : Follows sender receiver) (sound : Sound sender)
    (found : sender.files[file]? = some (name, data)) (place : sender.cursors[file]? = some cursor) :
    receiver.complete file = decide (cursor = data.length) := by
  have small : data.length < 2 ^ 64 := sound.small _ (List.mem_of_getElem? found)
  have within : cursor ≤ data.length := sound.within _ _ _ found place
  have entry : receiver.entries[file]? = some (entryOf (name, data)) := by
    rw [follows.entries, List.getElem?_map, found, Option.map_some]
  rw [FileReceiver.complete, entry]
  simp only [entryOf, UInt64.le_iff_toNat_le, UInt64.toNat_ofNat_of_lt' small,
    follows.receivedOf sound found place, decide_eq_decide]
  omega

theorem Sound.place (sound : Sound sender) (found : sender.files[file]? = some (name, data)) :
    ∃ cursor, sender.cursors[file]? = some cursor := by
  have below := (List.getElem?_eq_some_iff.mp found).1
  rw [← sound.cursors] at below
  exact ⟨_, List.getElem?_eq_getElem below⟩

end Skittermouse.Files

import Skittermouse.Net.FileTransfer

namespace Skittermouse.Net

open Skittermouse.Data

/-- The files by name and contents, and how much of each has been handed out. -/
structure FileSender where
  files : List (Bytes × Bytes)
  cursors : List Nat

namespace FileSender

def init : FileSender := ⟨[], []⟩

def addFile (sender : FileSender) (name data : Bytes) : FileSender :=
  ⟨sender.files ++ [(name, data)], sender.cursors ++ [0]⟩

def fileCount (sender : FileSender) : Nat := sender.files.length

def promiseMeta (sender : FileSender) : Bytes :=
  encodeFilePromiseMeta (sender.files.map fun (name, data) => ⟨name, UInt64.ofNat data.length⟩)

theorem length_le_promiseMeta (sender : FileSender) :
    sender.files.length ≤ sender.promiseMeta.length := by
  have many := length_le_encodeFilePromiseMeta
    (sender.files.map fun (name, data) => ⟨name, UInt64.ofNat data.length⟩)
  rwa [List.length_map] at many

def nextChunk (sender : FileSender) (index : UInt32) (chunkSize : Nat) : Bytes × FileSender :=
  match sender.files[index.toNat]?, sender.cursors[index.toNat]? with
  | some (_, data), some cursor =>
      if chunkSize = 0 ∨ data.length ≤ cursor then ([], sender)
      else
        let slice := (data.drop cursor).take chunkSize
        (encodeFileChunk { index, offset := UInt64.ofNat cursor, data := slice },
          { sender with cursors := sender.cursors.set index.toNat (cursor + slice.length) })
  | _, _ => ([], sender)

def complete (sender : FileSender) (index : Nat) : Bool :=
  match sender.files[index]?, sender.cursors[index]? with
  | some (_, data), some cursor => decide (data.length ≤ cursor)
  | _, _ => false

end FileSender

/-- A copy over part of a buffer. Outside the buffer it would be undefined; the
model writes nothing there. -/
def overwrite (buffer : Bytes) (offset : Nat) (chunk : Bytes) : Bytes :=
  buffer.mapIdx fun index byte => if offset ≤ index then chunk.getD (index - offset) byte else byte

theorem overwrite_middle (front middle behind chunk : Bytes) (size : middle.length = chunk.length) :
    overwrite (front ++ (middle ++ behind)) front.length chunk = front ++ (chunk ++ behind) := by
  apply List.ext_getElem?
  intro index
  rw [overwrite, List.getElem?_mapIdx]
  by_cases before : index < front.length
  · rw [List.getElem?_append_left before, List.getElem?_append_left before]
    simp only [if_neg (not_le.mpr before), Option.map_id']
  · have from_ : front.length ≤ index := not_lt.mp before
    rw [List.getElem?_append_right from_, List.getElem?_append_right from_]
    simp only [if_pos from_]
    by_cases inside : index - front.length < chunk.length
    · have there : index - front.length < middle.length := size.symm ▸ inside
      rw [List.getElem?_append_left there, List.getElem?_append_left inside,
        List.getElem?_eq_getElem there, List.getElem?_eq_getElem inside, Option.map_some,
        List.getD_eq_getElem?_getD, List.getElem?_eq_getElem inside, Option.getD_some]
    · have past : chunk.length ≤ index - front.length := not_lt.mp inside
      rw [List.getElem?_append_right (size.symm ▸ past), List.getElem?_append_right past, size]
      simp only [List.getD_eq_getElem?_getD, List.getElem?_eq_none past, Option.getD_none,
        Option.map_id']

structure FileReceiver where
  entries : List FileEntry
  buffers : List Bytes
  received : List UInt64
deriving DecidableEq

namespace FileReceiver

def init : FileReceiver := ⟨[], [], []⟩

def fileCount (receiver : FileReceiver) : Nat := receiver.entries.length

/-- The buffer of a file, sized by the promise. Outside the promise it would be undefined. -/
def data (receiver : FileReceiver) (index : Nat) : Bytes := receiver.buffers.getD index []

def receivedOf (receiver : FileReceiver) (index : Nat) : UInt64 := receiver.received.getD index 0

def acceptMeta (receiver : FileReceiver) (payload : Bytes) : Bool × FileReceiver :=
  match decodeFilePromiseMeta payload with
  | none => (false, receiver)
  | some entries =>
      (true,
        { entries
          buffers := entries.map fun entry => List.replicate entry.size.toNat 0
          received := entries.map fun _ => 0 })

/-- The bounds test adds two 64-bit numbers. -/
def acceptChunk (receiver : FileReceiver) (payload : Bytes) : Bool × FileReceiver :=
  match decodeFileChunk payload with
  | none => (false, receiver)
  | some chunk => match receiver.buffers[chunk.index.toNat]? with
    | none => (false, receiver)
    | some buffer =>
        if chunk.offset + UInt64.ofNat chunk.data.length > UInt64.ofNat buffer.length then
          (false, receiver) -- out of bounds
        else
          (true,
            { receiver with
              buffers := receiver.buffers.set chunk.index.toNat
                (overwrite buffer chunk.offset.toNat chunk.data)
              received := receiver.received.modify chunk.index.toNat
                (· + UInt64.ofNat chunk.data.length) })

def complete (receiver : FileReceiver) (index : Nat) : Bool :=
  match receiver.entries[index]? with
  | some entry => decide (entry.size ≤ receiver.receivedOf index)
  | none => false

def allComplete (receiver : FileReceiver) : Bool :=
  (List.range receiver.fileCount).all receiver.complete && !receiver.entries.isEmpty

end FileReceiver

end Skittermouse.Net

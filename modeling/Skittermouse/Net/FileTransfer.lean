import Skittermouse.Data.Words

namespace Skittermouse.Net

open Skittermouse.Data

structure FileEntry where
  name : Bytes
  size : UInt64
deriving DecidableEq

/-- The length field keeps the low 16 bits of the length of the name. -/
def encodeFileEntry (entry : FileEntry) : Bytes :=
  beBytes 2 entry.name.length ++ entry.name ++ beBytes 8 entry.size.toNat

def encodeFilePromiseMeta (files : List FileEntry) : Bytes :=
  beBytes 4 files.length ++ files.flatMap encodeFileEntry

def takeFileEntry (data : Bytes) : Option (FileEntry × Bytes) :=
  match takeField 2 data with
  | none => none
  | some (length, rest) => match takeField (beValue length) rest with
    | none => none
    | some (name, rest) => match takeField 8 rest with
      | none => none
      | some (size, rest) => some ({ name, size := UInt64.ofNat (beValue size) }, rest)

def decodeFilePromiseMeta (data : Bytes) : Option (List FileEntry) :=
  match takeField 4 data with
  | none => none
  | some (count, rest) => (takeMany takeFileEntry (beValue count) rest).map Prod.fst

structure FileChunk where
  index : UInt32
  offset : UInt64
  data : Bytes
deriving DecidableEq

def encodeFileChunk (chunk : FileChunk) : Bytes :=
  beBytes 4 chunk.index.toNat ++ beBytes 8 chunk.offset.toNat ++ chunk.data

def decodeFileChunk (data : Bytes) : Option FileChunk :=
  match takeField 4 data with
  | none => none
  | some (index, rest) => match takeField 8 rest with
    | none => none
    | some (offset, chunk) =>
        some { index := UInt32.ofNat (beValue index), offset := UInt64.ofNat (beValue offset), data := chunk }

theorem length_le_encodeFilePromiseMeta (files : List FileEntry) :
    files.length ≤ (encodeFilePromiseMeta files).length := by
  rw [encodeFilePromiseMeta, List.length_append]
  induction files with
  | nil => exact Nat.zero_le _
  | cons entry files ih =>
      simp only [List.length_cons, List.flatMap_cons, List.length_append, encodeFileEntry,
        beBytes_length] at ih ⊢
      omega

theorem decodeFileChunk_encode (chunk : FileChunk) : decodeFileChunk (encodeFileChunk chunk) = some chunk := by
  have index : beValue (beBytes 4 chunk.index.toNat) = chunk.index.toNat :=
    beValue_beBytes_of_lt (by have := chunk.index.toNat_lt; omega)
  have offset : beValue (beBytes 8 chunk.offset.toNat) = chunk.offset.toNat :=
    beValue_beBytes_of_lt (by have := chunk.offset.toNat_lt; omega)
  simp only [encodeFileChunk, List.append_assoc, decodeFileChunk,
    takeField_append _ (beBytes_length 4 _), takeField_append _ (beBytes_length 8 _), index, offset,
    UInt32.ofNat_toNat, UInt64.ofNat_toNat]

theorem encodeFileChunk_length (chunk : FileChunk) :
    (encodeFileChunk chunk).length = 12 + chunk.data.length := by
  simp only [encodeFileChunk, List.length_append, beBytes_length]

end Skittermouse.Net

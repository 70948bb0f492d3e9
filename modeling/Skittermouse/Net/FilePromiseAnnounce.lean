import Skittermouse.Net.MessageCodec

namespace Skittermouse.Net

open Skittermouse.Data Skittermouse.Core

structure FilePromiseItem where
  name : Bytes
  size : UInt64
deriving DecidableEq

/-- A two-byte length, at most 65535 bytes of the name, and the file size. -/
def encodeFilePromiseItem (item : FilePromiseItem) : Bytes :=
  leBytes 2 (min item.name.length 0xFFFF) ++ item.name.take 0xFFFF ++ leBytes 8 item.size.toNat

def encodeFilePromiseAnnounce (files : List FilePromiseItem) : Bytes :=
  leBytes 4 files.length ++ files.flatMap encodeFilePromiseItem

def decodeFilePromiseItem (data : Bytes) : Option (FilePromiseItem × Bytes) :=
  match takeField 2 data with
  | none => none
  | some (size, rest) => match takeField (leValue size) rest with
    | none => none
    | some (name, rest) => match takeField 8 rest with
      | none => none
      | some (size, rest) => some ({ name, size := UInt64.ofNat (leValue size) }, rest)

/-- The decode loop: `count` items, or failure at the first that is cut short. -/
def decodeFilePromiseItems : Nat → Bytes → Option (List FilePromiseItem)
  | 0, _ => some []
  | count + 1, data => match decodeFilePromiseItem data with
    | none => none
    | some (item, rest) => match decodeFilePromiseItems count rest with
      | none => none
      | some items => some (item :: items)

def decodeFilePromiseAnnounce (data : Bytes) : Option (List FilePromiseItem) :=
  match takeField 4 data with
  | none => none
  | some (count, rest) => decodeFilePromiseItems (leValue count) rest

theorem decodeFilePromiseItem_encode {item : FilePromiseItem}
    (short : item.name.length ≤ 0xFFFF) (rest : Bytes) :
    decodeFilePromiseItem (encodeFilePromiseItem item ++ rest) = some (item, rest) := by
  have width : leValue (leBytes 2 item.name.length) = item.name.length :=
    leValue_leBytes_of_lt (by omega)
  have size : leValue (leBytes 8 item.size.toNat) = item.size.toNat :=
    leValue_leBytes_of_lt (by have := item.size.toNat_lt; omega)
  have name := takeField_append (leBytes 8 item.size.toNat ++ rest)
    (rfl : item.name.length = item.name.length)
  simp only [encodeFilePromiseItem, min_eq_left short, List.take_of_length_le short,
    List.append_assoc, decodeFilePromiseItem, takeField_append _ (leBytes_length 2 _), width,
    name, takeField_append rest (leBytes_length 8 _), size, UInt64.ofNat_toNat]

theorem decodeFilePromiseItems_encode {files : List FilePromiseItem}
    (short : ∀ item ∈ files, item.name.length ≤ 0xFFFF) (rest : Bytes) :
    decodeFilePromiseItems files.length (files.flatMap encodeFilePromiseItem ++ rest) =
      some files := by
  induction files with
  | nil => rfl
  | cons item files ih =>
      simp only [List.length_cons, List.flatMap_cons, List.append_assoc, decodeFilePromiseItems,
        decodeFilePromiseItem_encode (short item (by simp)),
        ih fun other member => short other (by simp [member])]

theorem decodeFilePromiseAnnounce_encode {files : List FilePromiseItem}
    (few : files.length < 2 ^ 32) (short : ∀ item ∈ files, item.name.length ≤ 0xFFFF)
    (rest : Bytes) :
    decodeFilePromiseAnnounce (encodeFilePromiseAnnounce files ++ rest) = some files := by
  have count : leValue (leBytes 4 files.length) = files.length :=
    leValue_leBytes_of_lt (by omega)
  simp only [encodeFilePromiseAnnounce, List.append_assoc, decodeFilePromiseAnnounce,
    takeField_append _ (leBytes_length 4 _), count, decodeFilePromiseItems_encode short rest]

end Skittermouse.Net

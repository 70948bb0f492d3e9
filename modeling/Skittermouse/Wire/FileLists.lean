import Skittermouse.Data.Buffer
import Skittermouse.Net.FilePromiseAnnounce
import Skittermouse.Net.FileTransfer

namespace Skittermouse.Wire

open Skittermouse.Data Skittermouse.Net

/-! # Lists of files on the wire

The promise of the file channel and the announcement in the mesh carry the same
lists in opposite byte order. Both are decoded by a loop that believes the
count, and that stops at the first entry that does not lie in the buffer.
-/

/-- One round of the loop: the size is checked for together with the name. -/
def fileEntryAt (data : Bytes) (pos : Nat) : Checked (Option (FileEntry × Nat)) := do
  if pos + 2 > data.length then return none
  let nl ← beAt data pos 0 2
  let pos := pos + 2
  if pos + nl + 8 > data.length then return none
  let name ← spanAt data pos nl
  let pos := pos + nl
  let size ← beAt data pos 0 8
  return some ({ name, size := UInt64.ofNat size }, pos + 8)

/-- Whether the list is accepted, and the entries in `out`, which is cleared first. -/
def decodeFilePromiseMetaInto (data : Bytes) : Checked (Bool × List FileEntry) := do
  if data.length < 4 then return (false, [])
  let count ← beAt data 0 0 4
  manyAt (fileEntryAt data) count 4 []

/-- One round of the loop: the size is checked for behind the name. -/
def filePromiseItemAt (data : Bytes) (pos : Nat) : Checked (Option (FilePromiseItem × Nat)) := do
  if pos + 2 > data.length then return none
  let nlen ← leAt data pos 0 0 2
  let pos := pos + 2
  if pos + nlen > data.length then return none
  let name ← spanAt data pos nlen
  let pos := pos + nlen
  if pos + 8 > data.length then return none
  let size ← leAt data pos 0 0 8
  return some ({ name, size := UInt64.ofNat size }, pos + 8)

def decodeFilePromiseAnnounceInto (data : Bytes) : Checked (Bool × List FilePromiseItem) := do
  if 4 > data.length then return (false, [])
  let count ← leAt data 0 0 0 4
  manyAt (filePromiseItemAt data) count 4 []

def namedSize (order : Nat → Format Nat) : Format (Bytes × Nat) :=
  (Format.sized (order 2)).pair (order 8)

def fileEntryFormat : Format FileEntry :=
  (namedSize .bigEndian).retype
    (fun (name, size) => { name, size := UInt64.ofNat size })
    (fun entry => (entry.name, entry.size.toNat))
    (fun entry => by simp)
    (fun (name, size) fits => by
      have small : size < 256 ^ 8 := fits.2
      simp only [UInt64.toNat_ofNat', Prod.mk.injEq, true_and]
      exact Nat.mod_eq_of_lt (by omega))

def filePromiseItemFormat : Format FilePromiseItem :=
  (namedSize .littleEndian).retype
    (fun (name, size) => { name, size := UInt64.ofNat size })
    (fun item => (item.name, item.size.toNat))
    (fun item => by simp)
    (fun (name, size) fits => by
      have small : size < 256 ^ 8 := fits.2
      simp only [UInt64.toNat_ofNat', Prod.mk.injEq, true_and]
      exact Nat.mod_eq_of_lt (by omega))

def fileListFormat : Format (List FileEntry) := .counted (.bigEndian 4) fileEntryFormat

def announcedListFormat : Format (List FilePromiseItem) :=
  .counted (.littleEndian 4) filePromiseItemFormat

theorem fileEntryFormat_fits (entry : FileEntry) :
    fileEntryFormat.Fits entry ↔ entry.name.length ≤ 0xFFFF := by
  have size := entry.size.toNat_lt
  simp only [fileEntryFormat, namedSize, Format.retype, Format.pair, Format.sized, Format.bigEndian]
  omega

theorem filePromiseItemFormat_fits (item : FilePromiseItem) :
    filePromiseItemFormat.Fits item ↔ item.name.length ≤ 0xFFFF := by
  have size := item.size.toNat_lt
  simp only [filePromiseItemFormat, namedSize, Format.retype, Format.pair, Format.sized,
    Format.littleEndian]
  omega

theorem fileListFormat_fits (files : List FileEntry) : fileListFormat.Fits files ↔
    files.length < 2 ^ 32 ∧ ∀ entry ∈ files, entry.name.length ≤ 0xFFFF := by
  simp only [fileListFormat, Format.counted, fileEntryFormat_fits]
  exact Iff.rfl

theorem announcedListFormat_fits (files : List FilePromiseItem) : announcedListFormat.Fits files ↔
    files.length < 2 ^ 32 ∧ ∀ item ∈ files, item.name.length ≤ 0xFFFF := by
  simp only [announcedListFormat, Format.counted, filePromiseItemFormat_fits]
  exact Iff.rfl

theorem fileListFormat_encode (files : List FileEntry) :
    fileListFormat.encode files = encodeFilePromiseMeta files := rfl

theorem filePromiseItemFormat_encode {item : FilePromiseItem} (short : item.name.length ≤ 0xFFFF) :
    filePromiseItemFormat.encode item = encodeFilePromiseItem item := by
  rw [encodeFilePromiseItem, min_eq_left short, List.take_of_length_le short]
  rfl

theorem announcedListFormat_encode {files : List FilePromiseItem}
    (fits : announcedListFormat.Fits files) :
    announcedListFormat.encode files = encodeFilePromiseAnnounce files := by
  have short := ((announcedListFormat_fits files).mp fits).2
  have items : files.flatMap filePromiseItemFormat.encode = files.flatMap encodeFilePromiseItem :=
    List.flatMap_congr fun item member => filePromiseItemFormat_encode (short item member)
  rw [encodeFilePromiseAnnounce, ← items]
  rfl

variable {data front rest : Bytes}

theorem fileEntryAt_agrees (split : data = front ++ rest) :
    Agrees data (fileEntryAt data front.length) (fileEntryFormat.take rest) := by
  simp only [fileEntryAt, fileEntryFormat, namedSize, Format.retype, Format.pair, Format.sized,
    Format.bigEndian_take]
  rcases read_cases split 2 with ⟨short, cut⟩ | ⟨length, left, found, count⟩
  · rw [if_pos short, cut]
    exact .none
  · simp only [if_neg count.room, count.big, found, checked_bind, Option.map_some]
    rw [← count.next]
    rcases read_cases count.split (beValue length) with ⟨short, cut⟩ | ⟨name, behind, named, text⟩
    · rw [if_pos (by omega), cut]
      exact .none
    · simp only [named]
      rw [← text.next]
      rcases read_cases text.split 8 with ⟨short, cut⟩ | ⟨size, last, sized, number⟩
      · rw [if_pos short, cut]
        exact .none
      · rw [if_neg number.room, text.span, checked_bind, number.big, checked_bind, sized,
          ← number.next]
        exact .some _ _ _ number.split

theorem filePromiseItemAt_agrees (split : data = front ++ rest) :
    Agrees data (filePromiseItemAt data front.length) (filePromiseItemFormat.take rest) := by
  simp only [filePromiseItemAt, filePromiseItemFormat, namedSize, Format.retype, Format.pair,
    Format.sized, Format.littleEndian_take]
  rcases read_cases split 2 with ⟨short, cut⟩ | ⟨length, left, found, count⟩
  · rw [if_pos short, cut]
    exact .none
  · simp only [if_neg count.room, count.little, found, checked_bind, Option.map_some]
    rw [← count.next]
    rcases read_cases count.split (leValue length) with ⟨short, cut⟩ | ⟨name, behind, named, text⟩
    · rw [if_pos short, cut]
      exact .none
    · simp only [if_neg text.room, named, text.span, checked_bind]
      rw [← text.next]
      rcases read_cases text.split 8 with ⟨short, cut⟩ | ⟨size, last, sized, number⟩
      · rw [if_pos short, cut]
        exact .none
      · rw [if_neg number.room, number.little, checked_bind, sized, ← number.next]
        exact .some _ _ _ number.split

theorem ten_le_fileEntry (entry : FileEntry) : 10 ≤ (fileEntryFormat.encode entry).length := by
  simp only [fileEntryFormat, namedSize, Format.retype, Format.pair, Format.sized, Format.bigEndian,
    List.length_append, beBytes_length]
  omega

theorem ten_le_filePromiseItem (item : FilePromiseItem) :
    10 ≤ (filePromiseItemFormat.encode item).length := by
  simp only [filePromiseItemFormat, namedSize, Format.retype, Format.pair, Format.sized,
    Format.littleEndian, List.length_append, leBytes_length]
  omega

/-- Whatever the count says, the loop stays inside the buffer, and each round
it gets through takes ten bytes or more. -/
theorem decodeFilePromiseMetaInto_cases (data : Bytes) :
    ∃ accepted found, decodeFilePromiseMetaInto data = .ok (accepted, found) ∧
      10 * found.length ≤ data.length ∧
      ((accepted = true ∧ ∃ rest, fileListFormat.take data = some (found, rest)) ∨
        accepted = false ∧ fileListFormat.take data = none) := by
  have number (field rest : Bytes) (lies : Lies data [] field rest 4) :
      beAt data 0 0 4 = .ok (beValue field) := lies.big
  exact counted_cases fileEntryFormat (fun _ _ => fileEntryAt_agrees) ten_le_fileEntry beValue
    (fun bytes => Format.bigEndian_take 4) number

theorem decodeFilePromiseAnnounceInto_cases (data : Bytes) :
    ∃ accepted found, decodeFilePromiseAnnounceInto data = .ok (accepted, found) ∧
      10 * found.length ≤ data.length ∧
      ((accepted = true ∧ ∃ rest, announcedListFormat.take data = some (found, rest)) ∨
        accepted = false ∧ announcedListFormat.take data = none) := by
  have number (field rest : Bytes) (lies : Lies data [] field rest 4) :
      leAt data 0 0 0 4 = .ok (leValue field) := lies.little
  exact counted_cases filePromiseItemFormat (fun _ _ => filePromiseItemAt_agrees)
    ten_le_filePromiseItem leValue (fun bytes => Format.littleEndian_take 4) number

theorem decodeFilePromiseMetaInto_decodes : Decodes fileListFormat decodeFilePromiseMetaInto := by
  intro data
  obtain ⟨accepted, found, decoded, _, taken⟩ := decodeFilePromiseMetaInto_cases data
  exact ⟨accepted, found, decoded, taken⟩

theorem decodeFilePromiseAnnounceInto_decodes :
    Decodes announcedListFormat decodeFilePromiseAnnounceInto := by
  intro data
  obtain ⟨accepted, found, decoded, _, taken⟩ := decodeFilePromiseAnnounceInto_cases data
  exact ⟨accepted, found, decoded, taken⟩

theorem takeFileEntry_eq (bytes : Bytes) : takeFileEntry bytes = fileEntryFormat.take bytes := by
  simp only [takeFileEntry, fileEntryFormat, namedSize, Format.retype, Format.pair, Format.sized,
    Format.bigEndian_take]
  cases takeField 2 bytes with
  | none => rfl
  | some length =>
      simp only [Option.map_some]
      cases takeField (beValue length.1) length.2 with
      | none => rfl
      | some name =>
          cases sized : takeField 8 name.2 with
          | none => simp [sized]
          | some size => simp [sized]

theorem decodeFilePromiseItem_eq (bytes : Bytes) :
    decodeFilePromiseItem bytes = filePromiseItemFormat.take bytes := by
  simp only [decodeFilePromiseItem, filePromiseItemFormat, namedSize, Format.retype, Format.pair,
    Format.sized, Format.littleEndian_take]
  cases takeField 2 bytes with
  | none => rfl
  | some length =>
      simp only [Option.map_some]
      cases takeField (leValue length.1) length.2 with
      | none => rfl
      | some name =>
          cases sized : takeField 8 name.2 with
          | none => simp [sized]
          | some size => simp [sized]

theorem decodeFilePromiseMeta_eq (data : Bytes) :
    decodeFilePromiseMeta data = (fileListFormat.take data).map Prod.fst := by
  have entries : takeFileEntry = fileEntryFormat.take := funext takeFileEntry_eq
  simp only [decodeFilePromiseMeta, fileListFormat, Format.counted, Format.bigEndian_take, entries]
  cases takeField 4 data <;> rfl

theorem decodeFilePromiseMeta_encode {files : List FileEntry} (few : files.length < 2 ^ 32)
    (short : ∀ entry ∈ files, entry.name.length ≤ 0xFFFF) :
    decodeFilePromiseMeta (encodeFilePromiseMeta files) = some files := by
  have taken := fileListFormat.take_encode [] ((fileListFormat_fits files).mpr ⟨few, short⟩)
  rw [List.append_nil, fileListFormat_encode] at taken
  rw [decodeFilePromiseMeta_eq, taken, Option.map_some]

theorem decodeFilePromiseMeta_front {files entries : List FileEntry} {front rest : Bytes}
    (few : files.length < 2 ^ 32) (short : ∀ entry ∈ files, entry.name.length ≤ 0xFFFF)
    (whole : encodeFilePromiseMeta files = front ++ rest)
    (decoded : decodeFilePromiseMeta front = some entries) : rest = [] := by
  by_contra more
  have inside : front <+: fileListFormat.encode files := ⟨rest, whole.symm⟩
  have cut : front ≠ fileListFormat.encode files := by
    intro same
    rw [fileListFormat_encode, whole] at same
    exact more (List.self_eq_append_right.mp same)
  rw [decodeFilePromiseMeta_eq,
    fileListFormat.take_cut ((fileListFormat_fits files).mpr ⟨few, short⟩) inside cut] at decoded
  contradiction

theorem decodeFilePromiseItems_eq (count : Nat) (data : Bytes) :
    decodeFilePromiseItems count data =
      (takeMany filePromiseItemFormat.take count data).map Prod.fst := by
  induction count generalizing data with
  | zero => rfl
  | succ count ih =>
      simp only [decodeFilePromiseItems, takeMany, decodeFilePromiseItem_eq, ih]
      cases filePromiseItemFormat.take data with
      | none => rfl
      | some first =>
          simp only []
          cases takeMany filePromiseItemFormat.take count first.2 <;> rfl

theorem decodeFilePromiseAnnounce_eq (data : Bytes) :
    decodeFilePromiseAnnounce data = (announcedListFormat.take data).map Prod.fst := by
  simp only [decodeFilePromiseAnnounce, announcedListFormat, Format.counted, Format.littleEndian_take,
    decodeFilePromiseItems_eq]
  cases takeField 4 data <;> rfl

/-- A decoder of file lists accepts exactly what begins with the encoding of a
list, refuses what lacks some of it, and reads and loops inside the buffer only. -/
structure ExactList (name : α → Bytes) (encode : List α → Bytes)
    (decode : Bytes → Checked (Bool × List α)) : Prop where
  accepts : ∀ data files, decode data = .ok (true, files) ↔
    (files.length < 2 ^ 32 ∧ ∀ file ∈ files, (name file).length ≤ 0xFFFF) ∧ encode files <+: data
  refuses_cut : ∀ files front, files.length < 2 ^ 32 →
    (∀ file ∈ files, (name file).length ≤ 0xFFFF) → front <+: encode files → front ≠ encode files →
    ∃ left, decode front = .ok (false, left)
  inside : ∀ data, ∃ accepted found, decode data = .ok (accepted, found) ∧
    10 * found.length ≤ data.length

theorem file_lists_exact :
    ExactList FileEntry.name encodeFilePromiseMeta decodeFilePromiseMetaInto ∧
      ExactList FilePromiseItem.name encodeFilePromiseAnnounce decodeFilePromiseAnnounceInto := by
  refine ⟨⟨fun data files => ?_, fun files front few short inside cut => ?_, fun data => ?_⟩,
    ⟨fun data files => ?_, fun files front few short inside cut => ?_, fun data => ?_⟩⟩
  · rw [decodeFilePromiseMetaInto_decodes.accepts_iff, ← fileListFormat_fits, fileListFormat_encode]
  · exact decodeFilePromiseMetaInto_decodes.refuses_cut ((fileListFormat_fits files).mpr ⟨few, short⟩)
      inside cut
  · obtain ⟨accepted, found, decoded, bound, _⟩ := decodeFilePromiseMetaInto_cases data
    exact ⟨accepted, found, decoded, bound⟩
  · rw [decodeFilePromiseAnnounceInto_decodes.accepts_iff, ← announcedListFormat_fits]
    exact and_congr_right fun fits => by rw [announcedListFormat_encode fits]
  · have fits := (announcedListFormat_fits files).mpr ⟨few, short⟩
    rw [← announcedListFormat_encode fits] at inside cut
    exact decodeFilePromiseAnnounceInto_decodes.refuses_cut fits inside cut
  · obtain ⟨accepted, found, decoded, bound, _⟩ := decodeFilePromiseAnnounceInto_cases data
    exact ⟨accepted, found, decoded, bound⟩

/-- A promise of one file, cut off behind the name. -/
theorem cut_promise_refused : ∃ left,
    decodeFilePromiseMetaInto [0, 0, 0, 1, 0, 1, 0x41] = .ok (false, left) :=
  file_lists_exact.1.refuses_cut [⟨[0x41], 5⟩] _ (by decide) (by decide)
    ⟨[0, 0, 0, 0, 0, 0, 0, 5], by decide⟩ (by decide)

end Skittermouse.Wire

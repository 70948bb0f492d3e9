import Skittermouse.Net.FileSession
import Skittermouse.Wire.FileLists

namespace Skittermouse.Files

open Skittermouse.Data Skittermouse.Net Skittermouse.Wire

/-! # Announced sizes and memory

The sizes of a promise are arbitrary numbers, and the receiver makes a buffer of
each of them. A request for memory that is too large throws, and neither the
receiver nor the threads that feed it catch anything.
-/

/-- How many bytes the vectors and strings of the library ask for, and nothing
where the room is there already. Room that a receiver has kept is part of this. -/
structure Library where
  name : Nat → Option Nat
  append : Nat → Option Nat
  buffers : Nat → Option Nat
  counts : Nat → Option Nat
  resize : Nat → Nat → Option Nat
  /-- An assignment that throws has emptied its vector by then. -/
  empties : Bool

def Granted (limit : Nat) (request : Option Nat) : Prop :=
  ∀ bytes ∈ request, bytes ≤ limit ∧ bytes ≤ kMaxRequest

instance (limit : Nat) (request : Option Nat) : Decidable (Granted limit request) :=
  inferInstanceAs (Decidable (∀ bytes ∈ request, bytes ≤ limit ∧ bytes ≤ kMaxRequest))

inductive Outcome where
  | returned (accepted : Bool)
  | threw
deriving DecidableEq

section

variable (library : Library) (limit : Nat)

/-- The loop of `decodeFilePromiseMeta`, or nothing where it throws. -/
def decodeEntriesWithin (data : Bytes) :
    Nat → Nat → List FileEntry → Checked (Option (Bool × List FileEntry))
  | 0, _, out => .ok (some (true, out))
  | count + 1, pos, out => do
      match ← fileEntryAt data pos with
      | none => return some (false, out)
      | some (entry, next) =>
          if ¬ Granted limit (library.name entry.name.length) then return none
          if ¬ Granted limit (library.append out.length) then return none
          decodeEntriesWithin data count next (out ++ [entry])

def decodeFilePromiseMetaWithin (data : Bytes) : Checked (Option (Bool × List FileEntry)) := do
  if data.length < 4 then return some (false, [])
  let count ← beAt data 0 0 4
  decodeEntriesWithin library limit data count 4 []

/-- A vector whose assignment has thrown. -/
def Library.afterThrow (values : List α) : List α := if library.empties then [] else values

def resizeBuffers (receiver : FileReceiver) : Nat → List FileEntry → Outcome × FileReceiver
  | _, [] => (.returned true, receiver)
  | index, entry :: rest =>
      if Granted limit (library.resize index entry.size.toNat) then
        resizeBuffers
          { receiver with buffers := receiver.buffers.set index (List.replicate entry.size.toNat 0) }
          (index + 1) rest
      else (.threw, receiver)

/-- `FileReceiver::acceptMeta`, statement by statement. -/
def acceptMetaWithin (receiver : FileReceiver) (data : Bytes) : Checked (Outcome × FileReceiver) := do
  match ← decodeFilePromiseMetaWithin library limit data with
  | none => return (.threw, receiver)
  | some (false, _) => return (.returned false, receiver)
  | some (true, entries) =>
      let receiver := { receiver with entries }
      if ¬ Granted limit (library.buffers entries.length) then
        return (.threw, { receiver with buffers := library.afterThrow receiver.buffers })
      let receiver := { receiver with buffers := List.replicate entries.length [] }
      if ¬ Granted limit (library.counts entries.length) then
        return (.threw, { receiver with received := library.afterThrow receiver.received })
      let receiver := { receiver with received := List.replicate entries.length 0 }
      return resizeBuffers library limit receiver 0 entries

/-- The promise is taken, with a buffer of its size and no bytes for each file, or it
is refused and the receiver is as before. -/
def TakenOrRefused (receiver : FileReceiver) (data : Bytes) : Outcome × FileReceiver → Prop
  | (.returned true, after) => decodeFilePromiseMeta data = some after.entries ∧
      after.buffers.map List.length = after.entries.map (fun entry => entry.size.toNat) ∧
      after.received = after.entries.map fun _ => 0
  | (.returned false, after) => after = receiver
  | (.threw, _) => False

def SafelyAnnounced (receiver : FileReceiver) (data : Bytes) : Prop :=
  ∃ result, acceptMetaWithin library limit receiver data = .ok result ∧
    TakenOrRefused receiver data result

/-- The entries that the decoder comes to, with their names, find room. -/
def EntriesGranted (start : Nat) (entries : List FileEntry) : Prop :=
  ∀ entry ∈ entries.zipIdx start,
    Granted limit (library.name entry.1.name.length) ∧ Granted limit (library.append entry.2)

def SizesGranted (start : Nat) (entries : List FileEntry) : Prop :=
  ∀ entry ∈ entries.zipIdx start, Granted limit (library.resize entry.2 entry.1.size.toNat)

/-- Every entry that the decoder comes to finds room, and for a promise that is
accepted so do both vectors and every announced size. -/
def Affordable (data : Bytes) : Prop :=
  ∀ accepted entries, decodeFilePromiseMetaInto data = .ok (accepted, entries) →
    EntriesGranted library limit 0 entries ∧
      (accepted = true → Granted limit (library.buffers entries.length) ∧
        Granted limit (library.counts entries.length) ∧ SizesGranted library limit 0 entries)

end

variable {library : Library} {limit start count pos : Nat} {data : Bytes}
  {entry : FileEntry} {entries : List FileEntry}

theorem entriesGranted_cons : EntriesGranted library limit start (entry :: entries) ↔
    (Granted limit (library.name entry.name.length) ∧ Granted limit (library.append start)) ∧
      EntriesGranted library limit (start + 1) entries := by
  rw [EntriesGranted, List.zipIdx_cons, List.forall_mem_cons, EntriesGranted]

theorem sizesGranted_cons : SizesGranted library limit start (entry :: entries) ↔
    Granted limit (library.resize start entry.size.toNat) ∧
      SizesGranted library limit (start + 1) entries := by
  rw [SizesGranted, List.zipIdx_cons, List.forall_mem_cons, SizesGranted]

/-- The decoder throws exactly when one of the entries that it comes to finds no room. -/
theorem decodeEntriesWithin_cases {out whole : List FileEntry} {accepted : Bool}
    (read : manyAt (fileEntryAt data) count pos out = .ok (accepted, whole)) :
    ∃ found, whole = out ++ found ∧
      ((EntriesGranted library limit out.length found ∧
          decodeEntriesWithin library limit data count pos out = .ok (some (accepted, whole))) ∨
        ¬ EntriesGranted library limit out.length found ∧
          decodeEntriesWithin library limit data count pos out = .ok none) := by
  induction count generalizing pos out with
  | zero =>
      cases read
      exact ⟨[], by simp, .inl ⟨by simp [EntriesGranted], rfl⟩⟩
  | succ count ih =>
      simp only [manyAt, decodeEntriesWithin] at read ⊢
      cases item : fileEntryAt data pos with
      | error overread =>
          rw [item] at read
          contradiction
      | ok value =>
          rw [item, checked_bind] at read
          simp only [checked_bind]
          cases value with
          | none =>
              cases read
              exact ⟨[], by simp, .inl ⟨by simp [EntriesGranted], rfl⟩⟩
          | some pair =>
              obtain ⟨entry, next⟩ := pair
              obtain ⟨found, rfl, granted⟩ := ih read
              refine ⟨entry :: found, by simp, ?_⟩
              rw [List.length_append, List.length_singleton] at granted
              rw [entriesGranted_cons]
              by_cases name : Granted limit (library.name entry.name.length)
              · by_cases room : Granted limit (library.append out.length)
                · simpa [name, room] using granted
                · right
                  simp [name, room]
              · right
                simp [name]

theorem decodeWithin_cases (library : Library) (limit : Nat) (data : Bytes) :
    ∃ accepted entries, decodeFilePromiseMetaInto data = .ok (accepted, entries) ∧
      ((EntriesGranted library limit 0 entries ∧
          decodeFilePromiseMetaWithin library limit data = .ok (some (accepted, entries))) ∨
        ¬ EntriesGranted library limit 0 entries ∧
          decodeFilePromiseMetaWithin library limit data = .ok none) := by
  obtain ⟨accepted, entries, decoded, _⟩ := decodeFilePromiseMetaInto_cases data
  refine ⟨accepted, entries, decoded, ?_⟩
  rw [decodeFilePromiseMetaInto] at decoded
  rw [decodeFilePromiseMetaWithin]
  by_cases short : data.length < 4
  · rw [if_pos short] at decoded ⊢
    cases decoded
    exact .inl ⟨by simp [EntriesGranted], rfl⟩
  · rw [if_neg short] at decoded ⊢
    cases counted : beAt data 0 0 4 with
    | error overread =>
        rw [counted] at decoded
        contradiction
    | ok count =>
        rw [counted] at decoded
        obtain ⟨found, rfl, granted⟩ := decodeEntriesWithin_cases decoded
        exact granted

theorem resizeBuffers_cases {receiver : FileReceiver} (sized : List Bytes)
    (empty : receiver.buffers = sized ++ List.replicate entries.length []) :
    (SizesGranted library limit sized.length entries ∧
        resizeBuffers library limit receiver sized.length entries = (.returned true, { receiver with
          buffers := sized ++ entries.map fun entry => List.replicate entry.size.toNat 0 })) ∨
      ¬ SizesGranted library limit sized.length entries ∧
        (resizeBuffers library limit receiver sized.length entries).1 = .threw := by
  induction entries generalizing receiver sized with
  | nil =>
      have whole : sized = receiver.buffers := by simpa using empty.symm
      refine .inl ⟨by simp [SizesGranted], ?_⟩
      rw [resizeBuffers, List.map_nil, List.append_nil, whole]
  | cons entry entries ih =>
      rw [sizesGranted_cons, resizeBuffers]
      by_cases room : Granted limit (library.resize sized.length entry.size.toNat)
      · have filled : receiver.buffers.set sized.length (List.replicate entry.size.toNat 0) =
            (sized ++ [List.replicate entry.size.toNat 0]) ++ List.replicate entries.length [] := by
          rw [empty, List.length_cons, List.replicate_succ, List.set_append_right _ _ le_rfl,
            Nat.sub_self, List.set_cons_zero, List.append_assoc, List.singleton_append]
        have later := @ih { receiver with
          buffers := receiver.buffers.set sized.length (List.replicate entry.size.toNat 0) } _ filled
        rw [List.length_append, List.length_singleton] at later
        rw [if_pos room]
        simpa [room] using later
      · right
        simp [room]

theorem affordable_iff {accepted : Bool}
    (decoded : decodeFilePromiseMetaInto data = .ok (accepted, entries)) :
    Affordable library limit data ↔ EntriesGranted library limit 0 entries ∧
      (accepted = true → Granted limit (library.buffers entries.length) ∧
        Granted limit (library.counts entries.length) ∧ SizesGranted library limit 0 entries) := by
  constructor
  · intro affordable
    exact affordable accepted entries decoded
  · intro granted accepted' entries' decoded'
    rw [decoded] at decoded'
    cases decoded'
    exact granted

theorem acceptMetaWithin_affordable (receiver : FileReceiver)
    (affordable : Affordable library limit data) :
    acceptMetaWithin library limit receiver data =
      .ok (.returned (receiver.acceptMeta data).1, (receiver.acceptMeta data).2) := by
  obtain ⟨accepted, entries, decoded, granted⟩ := decodeWithin_cases library limit data
  obtain ⟨entriesGranted, behind⟩ := (affordable_iff decoded).mp affordable
  have within := granted.resolve_right fun refused => refused.1 entriesGranted
  rw [acceptMetaWithin, within.2, checked_bind, FileReceiver.acceptMeta, decodeFilePromiseMeta_eq]
  obtain ⟨accepted', entries', decoded', taken⟩ := decodeFilePromiseMetaInto_decodes data
  rw [decoded] at decoded'
  cases decoded'
  rcases taken with ⟨rfl, rest, taken⟩ | ⟨rfl, nothing⟩
  · obtain ⟨buffers, counts, sizes⟩ := behind rfl
    have resized := @resizeBuffers_cases library limit entries
      { entries, buffers := List.replicate entries.length [], received := List.replicate entries.length 0 }
      [] rfl
    have sized := resized.resolve_right fun refused => refused.1 sizes
    rw [taken]
    simp only [buffers, counts, not_true_eq_false, if_false]
    rw [← List.length_nil, sized.2]
    simp
  · rw [nothing]
    rfl

theorem acceptMetaWithin_throws (receiver : FileReceiver)
    (unaffordable : ¬ Affordable library limit data) :
    ∃ after, acceptMetaWithin library limit receiver data = .ok (.threw, after) := by
  obtain ⟨accepted, entries, decoded, granted⟩ := decodeWithin_cases library limit data
  rw [affordable_iff decoded] at unaffordable
  rw [acceptMetaWithin]
  rcases granted with ⟨entriesGranted, within⟩ | ⟨_, within⟩
  · rw [within, checked_bind]
    cases accepted with
    | false => exact absurd ⟨entriesGranted, nofun⟩ unaffordable
    | true =>
        by_cases buffers : Granted limit (library.buffers entries.length)
        · by_cases counts : Granted limit (library.counts entries.length)
          · have resized := @resizeBuffers_cases library limit entries
              { entries
                buffers := List.replicate entries.length []
                received := List.replicate entries.length 0 } [] rfl
            rcases resized with ⟨sizes, _⟩ | ⟨_, threw⟩
            · exact absurd ⟨entriesGranted, fun _ => ⟨buffers, counts, sizes⟩⟩ unaffordable
            · simp only [buffers, counts, not_true_eq_false, if_false]
              exact ⟨_, congrArg Except.ok (Prod.ext threw rfl)⟩
          · simp only [buffers, counts, not_true_eq_false, if_false, not_false_eq_true, if_true]
            exact ⟨_, rfl⟩
        · simp only [buffers, not_false_eq_true, if_true]
          exact ⟨_, rfl⟩
  · rw [within]
    exact ⟨receiver, rfl⟩

theorem acceptMeta_takenOrRefused (receiver : FileReceiver) (data : Bytes) :
    TakenOrRefused receiver data (.returned (receiver.acceptMeta data).1, (receiver.acceptMeta data).2) := by
  rw [FileReceiver.acceptMeta]
  cases decoded : decodeFilePromiseMeta data with
  | none => exact rfl
  | some entries => exact ⟨decoded, by simp, by simp⟩

/-- An announcement is taken or refused as a whole exactly when every request for
memory on the way is granted. -/
theorem safely_announced_iff (library : Library) (limit : Nat) (receiver : FileReceiver) (data : Bytes) :
    SafelyAnnounced library limit receiver data ↔ Affordable library limit data := by
  constructor
  · rintro ⟨result, accepted, safe⟩
    by_contra unaffordable
    obtain ⟨after, threw⟩ := acceptMetaWithin_throws receiver unaffordable
    rw [threw] at accepted
    cases accepted
    exact safe
  · intro affordable
    exact ⟨_, acceptMetaWithin_affordable receiver affordable, acceptMeta_takenOrRefused receiver data⟩

/-- Vectors that double and strings that hold 15 bytes by themselves, for a receiver
that has no room yet. -/
def doubling : Library where
  name length := if length ≤ 15 then none else some (length + 1)
  append others := if others &&& (others - 1) = 0 then some (40 * max 1 (2 * others)) else none
  buffers count := some (24 * count)
  counts count := some (8 * count)
  resize _ size := if size = 0 then none else some size
  empties := false

def hugeFile : Bytes := encodeFilePromiseMeta [⟨[0x41], 0xFFFFFFFFFFFFFFFF⟩]

/-- With a tebibyte at most for each request, the receiver is left with the new
entry and an empty buffer. -/
theorem huge_file_half_announced :
    acceptMetaWithin doubling (2 ^ 40) .init hugeFile = .ok (.threw, {
        entries  := [⟨[0x41], 0xFFFFFFFFFFFFFFFF⟩]
        buffers  := [[]]
        received := [0] }) ∧
      ¬ SafelyAnnounced doubling (2 ^ 40) .init hugeFile := by
  have threw : acceptMetaWithin doubling (2 ^ 40) .init hugeFile = .ok (.threw, {
      entries  := [⟨[0x41], 0xFFFFFFFFFFFFFFFF⟩]
      buffers  := [[]]
      received := [0] }) := by
    decide
  refine ⟨threw, ?_⟩
  rintro ⟨result, accepted, safe⟩
  rw [threw] at accepted
  cases accepted
  exact safe

end Skittermouse.Files

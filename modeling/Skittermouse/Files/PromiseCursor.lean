import Skittermouse.Data.Cursor
import Skittermouse.Data.Exec
import Skittermouse.Files.Chunks
import Skittermouse.Platform.FilePromiseWin

namespace Skittermouse.Files

open Skittermouse.Data Skittermouse.Net Skittermouse.Platform

/-! # A promised stream is a cursor in its file

A source hands over as much as it likes of what comes next, and may fail at any
call. Every read of a stream is a read of a cursor in the file all the same.
-/

/-- What a source may answer where `rest` is still to come: an error, the end if
there is no more, or some of the bytes that come next. -/
inductive Answers (rest : Bytes) (cap : UInt32) : SourceAnswer → Prop where
  | failed (written : Bytes) : Answers rest cap ⟨-1, written⟩
  | ended (written : Bytes) (done : rest = []) : Answers rest cap ⟨0, written⟩
  | produced (answer : SourceAnswer) (positive : 0 < answer.count)
      (fits : answer.count.toNatClampNeg ≤ cap.toNat)
      (within : answer.count.toNatClampNeg ≤ rest.length)
      (correct : answer.written.take answer.count.toNatClampNeg =
        rest.take answer.count.toNatClampNeg) : Answers rest cap answer

/-- The contract, at every call and for every file. -/
def Serves (files : UInt32 → Bytes) (source : FileByteSource) : Prop :=
  ∀ call index offset cap, 0 < cap →
    Answers ((files index).drop offset.toNat) cap (source call index offset cap)

def handedOver (answer : SourceAnswer) : Bytes :=
  answer.written.take answer.count.toNatClampNeg

def delivered (answers : List SourceAnswer) : Bytes := answers.flatMap handedOver

theorem delivered_append (answers : List SourceAnswer) (last : SourceAnswer) :
    delivered (answers ++ [last]) = delivered answers ++ handedOver last := by
  simp [delivered]

/-- Where the loop stands after some rounds: the buffer holds what a cursor has
read, and position and count have moved by that much. -/
structure Progressed (start : Cursor UInt8) (cb : UInt32) (progress : ReadProgress) : Prop where
  within : progress.total.toNat ≤ cb.toNat
  room : cb.toNat ≤ progress.out.length
  read : start.read progress.total.toNat =
    (delivered progress.answers, ⟨start.content, progress.pos.toNat⟩)
  full : (delivered progress.answers).length = progress.total.toNat
  buffer : progress.out.take progress.total.toNat = delivered progress.answers
  left : progress.ended = none ∨ progress.ended = some .readFault ∨
    (progress.ended = some .ok ∧ start.content.length ≤ progress.pos.toNat)

def readVariant (cb : UInt32) (progress : ReadProgress) : Nat :=
  cb.toNat - progress.total.toNat + if progress.ended = none then 1 else 0

theorem readGoing_iff {cb : UInt32} {progress : ReadProgress} :
    PromiseStream.readGoing cb progress = true ↔
      progress.ended = none ∧ progress.total.toNat < cb.toNat := by
  rw [PromiseStream.readGoing, decide_eq_true_iff, UInt32.lt_iff_toNat_lt]

theorem take_overwrite {buffer chunk : Bytes} {offset size : Nat} (within : size ≤ chunk.length)
    (room : offset + size ≤ buffer.length) :
    (overwrite buffer offset chunk).take (offset + size) = buffer.take offset ++ chunk.take size := by
  apply List.ext_getElem?
  intro position
  have front : (buffer.take offset).length = offset := by
    rw [List.length_take]
    omega
  rw [List.getElem?_take, getElem?_overwrite]
  by_cases before : position < offset
  · rw [if_pos (by omega), List.getElem?_append_left (by omega), List.getElem?_take, if_pos before]
    simp only [if_neg (Nat.not_le.mpr before), Option.map_id']
  · rw [List.getElem?_append_right (by omega), List.getElem?_take, front]
    by_cases inside : position < offset + size
    · have there : position < buffer.length := by omega
      have source : position - offset < chunk.length := by omega
      rw [if_pos inside, if_pos (by omega), List.getElem?_eq_getElem there, Option.map_some,
        if_pos (Nat.not_lt.mp before), List.getD_eq_getElem?_getD, List.getElem?_eq_getElem source]
      rfl
    · rw [if_neg inside, if_neg (by omega)]

section

variable {start : Cursor UInt8} {cb : UInt32} {progress : ReadProgress} {answer : SourceAnswer}

theorem Progressed.stop {code : Hresult} (progressed : Progressed start cb progress)
    (empty : handedOver answer = [])
    (why : code = .readFault ∨ (code = .ok ∧ start.content.length ≤ progress.pos.toNat)) :
    Progressed start cb
      { progress with
        out     := overwrite progress.out progress.total.toNat answer.written
        answers := progress.answers ++ [answer]
        ended   := some code } := by
  have same : delivered (progress.answers ++ [answer]) = delivered progress.answers := by
    rw [delivered_append, empty, List.append_nil]
  have within := progressed.within
  have room := progressed.room
  refine ⟨within, ?_, same ▸ progressed.read, same ▸ progressed.full, ?_, ?_⟩
  · rw [overwrite_length]
    exact room
  · have kept := @take_overwrite progress.out answer.written progress.total.toNat 0 (Nat.zero_le _)
      (by omega)
    rw [Nat.add_zero, List.take_zero, List.append_nil] at kept
    exact kept.trans (progressed.buffer.trans same.symm)
  · rcases why with rfl | ⟨rfl, done⟩
    · exact .inr (.inl rfl)
    · exact .inr (.inr ⟨rfl, done⟩)

theorem Progressed.advance_total (progressed : Progressed start cb progress)
    (positive : 0 < answer.count)
    (fits : answer.count.toNatClampNeg ≤ (cb - progress.total).toNat) :
    (progress.total + answer.count.toUInt32).toNat =
      progress.total.toNat + answer.count.toNatClampNeg := by
  have inside := progressed.within
  have bound := cb.toNat_lt
  rw [UInt32.toNat_sub_of_le _ _ (UInt32.le_iff_toNat_le.mpr inside)] at fits
  rw [UInt32.toNat_add, Int32.toNat_toUInt32_of_le (Int32.le_of_lt positive),
    Nat.mod_eq_of_lt (by omega)]

theorem Progressed.advance (progressed : Progressed start cb progress)
    (small : start.content.length < 2 ^ 64) (positive : 0 < answer.count)
    (fits : answer.count.toNatClampNeg ≤ (cb - progress.total).toNat)
    (within : answer.count.toNatClampNeg ≤ (start.content.drop progress.pos.toNat).length)
    (correct : answer.written.take answer.count.toNatClampNeg =
      (start.content.drop progress.pos.toNat).take answer.count.toNatClampNeg) :
    Progressed start cb
      { pos     := progress.pos + answer.count.toInt64.toUInt64
        total   := progress.total + answer.count.toUInt32
        out     := overwrite progress.out progress.total.toNat answer.written
        ended   := none
        answers := progress.answers ++ [answer] } := by
  have inside := progressed.within
  have room := progressed.room
  have nonnegative : 0 ≤ answer.count := Int32.le_of_lt positive
  have grows : 0 < answer.count.toNatClampNeg := (Int32.toNatClampNeg_pos_iff _).mpr positive
  have total := progressed.advance_total positive fits
  have size64 : answer.count.toInt64.toUInt64.toNat = answer.count.toNatClampNeg := by
    have wide : 0 ≤ answer.count.toInt64 := by
      rw [Int64.le_iff_toInt_le, Int32.toInt_toInt64]
      exact Int32.le_iff_toInt_le.mp nonnegative
    rw [Int64.toNat_toUInt64_of_le wide, Int32.toNatClampNeg_toInt64]
  rw [UInt32.toNat_sub_of_le _ _ (UInt32.le_iff_toNat_le.mpr inside)] at fits
  have left := within
  rw [List.length_drop] at left
  have pos : (progress.pos + answer.count.toInt64.toUInt64).toNat =
      progress.pos.toNat + answer.count.toNatClampNeg := by
    rw [UInt64.toNat_add, size64, Nat.mod_eq_of_lt (by omega)]
  have next : (⟨start.content, progress.pos.toNat⟩ : Cursor UInt8).read answer.count.toNatClampNeg =
      (handedOver answer, ⟨start.content, progress.pos.toNat + answer.count.toNatClampNeg⟩) := by
    rw [Cursor.read_of_le within, handedOver, correct]
    rfl
  have length : (handedOver answer).length = answer.count.toNatClampNeg := by
    rw [handedOver, correct, List.length_take, Nat.min_eq_left within]
  have chunk : answer.count.toNatClampNeg ≤ answer.written.length := by
    rw [handedOver, List.length_take] at length
    omega
  refine ⟨?_, ?_, ?_, ?_, ?_, .inl rfl⟩
  · rw [total]
    omega
  · rw [overwrite_length]
    exact room
  · rw [total, pos, Cursor.read_add, progressed.read, next, delivered_append]
  · rw [delivered_append, List.length_append, progressed.full, length, total]
  · rw [total, take_overwrite chunk (by omega), progressed.buffer, delivered_append, handedOver]

end

theorem readRound_progressed {files : UInt32 → Bytes} {source : FileByteSource} {firstCall : Nat}
    {index : UInt32} {start : Cursor UInt8} {cb : UInt32} {progress : ReadProgress}
    (serves : Serves files source) (same : start.content = files index)
    (small : start.content.length < 2 ^ 64) (progressed : Progressed start cb progress)
    (goes : PromiseStream.readGoing cb progress = true) :
    Progressed start cb (PromiseStream.readRound source firstCall index cb progress) ∧
      readVariant cb (PromiseStream.readRound source firstCall index cb progress) <
        readVariant cb progress := by
  obtain ⟨going, short⟩ := readGoing_iff.mp goes
  have inside := progressed.within
  have wanted : 0 < cb - progress.total := by
    rw [UInt32.lt_iff_toNat_lt, UInt32.toNat_sub_of_le _ _ (UInt32.le_iff_toNat_le.mpr inside)]
    exact Nat.sub_pos_of_lt short
  have answered := serves (firstCall + progress.answers.length) index progress.pos _ wanted
  rw [← same] at answered
  rw [PromiseStream.readRound]
  generalize source (firstCall + progress.answers.length) index progress.pos (cb - progress.total) =
    answer at answered ⊢
  cases answered with
  | failed written =>
      have negative : (-1 : Int32) < 0 := by decide
      have stopped := @Progressed.stop start cb progress ⟨-1, written⟩ _ progressed rfl (.inl rfl)
      simp only [if_pos negative]
      refine ⟨stopped, ?_⟩
      simp [readVariant, going]
  | ended written done =>
      have positive : ¬(0 : Int32) < 0 := by decide
      have past : start.content.length ≤ progress.pos.toNat := List.drop_eq_nil_iff.mp done
      have stopped := @Progressed.stop start cb progress ⟨0, written⟩ _ progressed rfl
        (.inr ⟨rfl, past⟩)
      simp only [if_neg positive, if_true]
      refine ⟨stopped, ?_⟩
      simp [readVariant, going]
  | produced answer positive fits within correct =>
      have advanced := progressed.advance small positive fits within correct
      have grows : 0 < answer.count.toNatClampNeg := (Int32.toNatClampNeg_pos_iff _).mpr positive
      have nonzero : answer.count ≠ 0 := by
        intro zero
        rw [zero] at grows
        contradiction
      have total := progressed.advance_total positive fits
      simp only [if_neg (Int32.not_lt.mpr (Int32.le_of_lt positive)), if_neg nonzero]
      refine ⟨advanced, ?_⟩
      simp only [readVariant, going, if_true, total]
      omega

/-- A read that has a buffer hands over what a cursor reads next. All of it
when it succeeds, and what came before the error when it does not. -/
structure ReadsNext (file : Bytes) (request : ReadRequest) (stream : PromiseStream)
    (reply : ReadReply) (after : PromiseStream) : Prop where
  buffer : ∃ out, reply.buffer = some out ∧
    out.take (delivered reply.answers).length = delivered reply.answers
  correct : delivered reply.answers =
    (file.drop stream.pos.toNat).take (delivered reply.answers).length
  within : (delivered reply.answers).length ≤ request.cb.toNat
  reported : reply.pcbRead = request.pcbRead.map fun _ =>
    UInt32.ofNat (delivered reply.answers).length
  advanced : after.pos.toNat = stream.pos.toNat + (delivered reply.answers).length
  kept : after.index = stream.index ∧ after.size = stream.size
  complete : reply.result = .readFault ∨ reply.result = .ok ∧
    delivered reply.answers = (file.drop stream.pos.toNat).take request.cb.toNat ∧
    (delivered reply.answers).length = min request.cb.toNat (stream.size.toNat - stream.pos.toNat)

theorem read_null {source : FileByteSource} {firstCall : Nat} {request : ReadRequest}
    {stream : PromiseStream} (absent : request.pv = none) :
    stream.read source firstCall request =
      some (⟨.invalidPointer, none, request.pcbRead, []⟩, stream) := by
  rw [PromiseStream.read, absent]

/-- A loop that ended without an error has read all that was wanted, or all
that there is. -/
theorem Progressed.complete {start : Cursor UInt8} {cb : UInt32} {progress : ReadProgress}
    (progressed : Progressed start cb progress)
    (stopped : PromiseStream.readGoing cb progress = false) :
    progress.ended.getD .ok = .readFault ∨ progress.ended.getD .ok = .ok ∧
      delivered progress.answers = (start.read cb.toNat).1 := by
  have within := progressed.within
  have split := @Cursor.read_add _ start progress.total.toNat (cb.toNat - progress.total.toNat)
  rw [progressed.read, Nat.add_sub_cancel' within] at split
  rcases progressed.left with open_ | fault | ⟨done, past⟩
  · have all : ¬progress.total.toNat < cb.toNat := by
      intro short
      rw [readGoing_iff.mpr ⟨open_, short⟩] at stopped
      contradiction
    have last : cb.toNat - progress.total.toNat = 0 := by omega
    rw [last, Cursor.read_zero, List.append_nil] at split
    exact .inr ⟨by rw [open_]; rfl, by rw [split]⟩
  · exact .inl (by rw [fault]; rfl)
  · have nothing : (⟨start.content, progress.pos.toNat⟩ : Cursor UInt8).rest = [] :=
      List.drop_eq_nil_iff.mpr past
    rw [Cursor.read_of_rest_nil nothing, List.append_nil] at split
    exact .inr ⟨by rw [done]; rfl, by rw [split]⟩

theorem read_next {files : UInt32 → Bytes} {source : FileByteSource} (serves : Serves files source)
    {request : ReadRequest} {stream : PromiseStream} (firstCall : Nat)
    (size : stream.size.toNat = (files stream.index).length) (given : request.pv ≠ none) :
    ∃ reply after, stream.read source firstCall request = some (reply, after) ∧
      ReadsNext (files stream.index) request stream reply after := by
  obtain ⟨out, pv⟩ := Option.ne_none_iff_exists'.mp given
  let start : Cursor UInt8 := ⟨files stream.index, stream.pos.toNat⟩
  let begin_ : ReadProgress := ⟨stream.pos, 0, out, none, []⟩
  have small : start.content.length < 2 ^ 64 := size ▸ stream.size.toNat_lt
  have begun : Progressed start request.cb begin_ :=
    ⟨Nat.zero_le _, request.room out pv, Cursor.read_zero, rfl, rfl, .inl rfl⟩
  have enough : readVariant request.cb begin_ ≤ request.cb.toNat + 1 := Nat.le_refl _
  obtain ⟨progress, ended, progressed, stopped⟩ := whileLoop_total (readVariant request.cb)
    (fun _ inside goes => @readRound_progressed files source firstCall stream.index start _ _ serves
      rfl small inside goes) begun enough
  have answered : stream.read source firstCall request =
      some (⟨progress.ended.getD .ok, some progress.out, request.pcbRead.map fun _ => progress.total,
        progress.answers⟩, { stream with pos := progress.pos }) := by
    rw [PromiseStream.read, pv]
    simp only [ended, Option.map_some, begin_]
  have full := progressed.full
  have got : (start.read progress.total.toNat).1 = delivered progress.answers := by
    rw [progressed.read]
  have position : stream.pos.toNat + (start.read progress.total.toNat).1.length =
      progress.pos.toNat := by
    have moved := congrArg (fun both => both.2.position) progressed.read
    exact moved
  refine ⟨_, _, answered, ⟨progress.out, rfl, ?_⟩, ?_, ?_, ?_, ?_, ⟨rfl, rfl⟩, ?_⟩
  · rw [full]
    exact progressed.buffer
  · rw [full]
    exact got.symm
  · rw [full]
    exact progressed.within
  · rw [full, UInt32.ofNat_toNat]
  · rw [← got]
    exact position.symm
  · rcases progressed.complete stopped with fault | ⟨fine, whole⟩
    · exact .inl fault
    · refine .inr ⟨fine, whole, ?_⟩
      rw [whole, Cursor.read_length, size]

variable {overflow : Int64 → Int64 → Int64}

theorem seek_kept (move : Int64) (origin : UInt32) (newPos : Option UInt64) (stream : PromiseStream) :
    (stream.seek overflow move origin newPos).2.1.index = stream.index ∧
      (stream.seek overflow move origin newPos).2.1.size = stream.size := by
  rw [PromiseStream.seek]
  split
  · exact ⟨rfl, rfl⟩
  · simp only
    split <;> exact ⟨rfl, rfl⟩

theorem seek_rejected {move : Int64} {origin : UInt32} {newPos : Option UInt64}
    {stream : PromiseStream} (rejected : (stream.seek overflow move origin newPos).1 ≠ .ok) :
    (stream.seek overflow move origin newPos).2 = (stream, newPos) := by
  rw [PromiseStream.seek] at rejected ⊢
  split
  case h_1 => rfl
  case h_2 base found =>
    simp only [found] at rejected ⊢
    split
    case isTrue => rfl
    case isFalse accepted =>
      rw [if_neg accepted] at rejected
      exact absurd rfl rejected

theorem seek_reaches {move base : Int64} {origin : UInt32} (newPos : Option UInt64)
    {stream : PromiseStream} (from_ : stream.seekBase origin = some base)
    (nonnegative : 0 ≤ base.toInt + move.toInt) (small : base.toInt + move.toInt < 2 ^ 63) :
    ∃ after, stream.seek overflow move origin newPos =
        (.ok, after, newPos.map fun _ => after.pos) ∧
      (after.pos.toNat : Int) = base.toInt + move.toInt := by
  have fits : -2 ^ 63 ≤ base.toInt + move.toInt ∧ base.toInt + move.toInt < 2 ^ 63 := ⟨by omega, small⟩
  have sum : (base + move).toInt = base.toInt + move.toInt := by
    rw [Int64.toInt_add, Int.bmod_eq_of_le (by omega) (by omega)]
  have positive : 0 ≤ base + move := by
    rw [Int64.le_iff_toInt_le, sum]
    exact nonnegative
  refine ⟨{ stream with pos := (base + move).toUInt64 }, ?_, ?_⟩
  · simp only [PromiseStream.seek, from_, PromiseStream.addSigned, if_pos fits,
      if_neg (Int64.not_lt.mpr positive)]
  · change (((base + move).toUInt64.toNat : Nat) : Int) = _
    rw [Int64.toNat_toUInt64_of_le positive, ← Int64.toInt_eq_toNatClampNeg positive, sum]

theorem clone_copy {hasOut hasMemory : Bool} {stream copy : PromiseStream}
    (copied : (stream.clone hasOut hasMemory).2 = some copy) : copy = stream := by
  rw [PromiseStream.clone] at copied
  split at copied
  · contradiction
  · split at copied
    · contradiction
    · exact (Option.some.inj copied).symm

def Fits (files : UInt32 → Bytes) (state : PromiseStreams) : Prop :=
  ∀ stream ∈ state.streams, stream.size.toNat = (files stream.index).length

section

variable {files : UInt32 → Bytes} {source : FileByteSource} {state : PromiseStreams}

theorem Fits.set {place calls : Nat} {stream after : PromiseStream} (fits : Fits files state)
    (opened : state.streams[place]? = some stream)
    (kept : after.index = stream.index ∧ after.size = stream.size) :
    Fits files ⟨state.streams.set place after, calls⟩ := by
  intro other member
  rcases List.mem_or_eq_of_mem_set member with old | rfl
  · exact fits other old
  · rw [kept.1, kept.2]
    exact fits stream (List.mem_of_getElem? opened)

theorem Fits.step (serves : Serves files source) (call : StreamCall) (fits : Fits files state) :
    Fits files (PromiseStreams.step source overflow call state) := by
  cases call with
  | read place request =>
      cases opened : state.streams[place]? with
      | none => simpa only [PromiseStreams.step, opened] using fits
      | some stream =>
          simp only [PromiseStreams.step, opened]
          by_cases given : request.pv = none
          · rw [read_null given]
            exact fits.set opened ⟨rfl, rfl⟩
          · obtain ⟨reply, after, answered, next⟩ :=
              read_next serves state.calls (fits stream (List.mem_of_getElem? opened)) given
            rw [answered]
            exact fits.set opened next.kept
  | seek place move origin newPos =>
      cases opened : state.streams[place]? with
      | none => simpa only [PromiseStreams.step, opened] using fits
      | some stream =>
          simp only [PromiseStreams.step, opened]
          exact fits.set opened (seek_kept move origin newPos stream)
  | clone place hasOut hasMemory =>
      cases opened : state.streams[place]? with
      | none => simpa only [PromiseStreams.step, opened] using fits
      | some stream =>
          simp only [PromiseStreams.step, opened]
          intro other member
          rcases List.mem_append.mp member with old | new
          · exact fits other old
          · rw [clone_copy (Option.mem_toList.mp new)]
            exact fits stream (List.mem_of_getElem? opened)

theorem Fits.exec (serves : Serves files source) (history : List StreamCall) (fits : Fits files state) :
    Fits files (exec (PromiseStreams.step source overflow) state history) := by
  have preserved : ∀ call state, Fits files state →
      Fits files (PromiseStreams.step source overflow call state) :=
    fun call _ fits => fits.step serves call
  exact exec_preserves preserved fits history

end

def cursorOf (files : UInt32 → Bytes) (stream : PromiseStream) : Cursor UInt8 :=
  ⟨files stream.index, stream.pos.toNat⟩

theorem ReadsNext.cursor {files : UInt32 → Bytes} {request : ReadRequest} {reply : ReadReply}
    {stream after : PromiseStream} (next : ReadsNext (files stream.index) request stream reply after) :
    (cursorOf files stream).read (delivered reply.answers).length =
      (delivered reply.answers, cursorOf files after) := by
  have taken : (cursorOf files stream).rest.take (delivered reply.answers).length =
      delivered reply.answers := next.correct.symm
  rw [Cursor.read, taken, cursorOf, cursorOf, next.advanced, next.kept.1]

def handedBy (source : FileByteSource) (place : Nat) (call : StreamCall) (state : PromiseStreams) :
    Bytes :=
  match call with
  | .read reads request =>
      if reads = place then
        match state.streams[place]?.bind fun stream => stream.read source state.calls request with
        | some (reply, _) => delivered reply.answers
        | none => []
      else []
  | _ => []

def received (source : FileByteSource) (overflow : Int64 → Int64 → Int64) (place : Nat) :
    PromiseStreams → List StreamCall → Bytes
  | _, [] => []
  | state, call :: rest =>
      handedBy source place call state ++
        received source overflow place (PromiseStreams.step source overflow call state) rest

def SeeksAt (place : Nat) : StreamCall → Prop
  | .seek sought _ _ _ => sought = place
  | _ => False

section

variable {files : UInt32 → Bytes} {source : FileByteSource} {state : PromiseStreams}
  {stream : PromiseStream} {place : Nat}

theorem read_cursor (serves : Serves files source) (fits : Fits files state) (request : ReadRequest)
    (opened : state.streams[place]? = some stream) :
    ∃ after, (PromiseStreams.step source overflow (.read place request) state).streams[place]? =
        some after ∧
      (cursorOf files stream).read (handedBy source place (.read place request) state).length =
        (handedBy source place (.read place request) state, cursorOf files after) := by
  have inside : place < state.streams.length := (List.getElem?_eq_some_iff.mp opened).1
  by_cases absent : request.pv = none
  · refine ⟨stream, ?_, ?_⟩
    · simp only [PromiseStreams.step, opened, read_null absent]
      exact List.getElem?_set_self inside
    · simp only [handedBy, if_true, opened, Option.bind_some, read_null absent]
      exact Cursor.read_zero
  · obtain ⟨reply, after, answered, next⟩ :=
      read_next serves state.calls (fits stream (List.mem_of_getElem? opened)) absent
    refine ⟨after, ?_, ?_⟩
    · simp only [PromiseStreams.step, opened, answered]
      exact List.getElem?_set_self inside
    · simp only [handedBy, if_true, opened, Option.bind_some, answered]
      exact next.cursor

theorem step_elsewhere (call : StreamCall) (opened : state.streams[place]? = some stream)
    (unread : ∀ request, call ≠ .read place request) (unsought : ¬SeeksAt place call) :
    (PromiseStreams.step source overflow call state).streams[place]? = some stream := by
  cases call with
  | read reads request =>
      have apart : reads ≠ place := fun same => unread request (by rw [same])
      simp only [PromiseStreams.step]
      split
      · exact opened
      · split
        · exact opened
        · rw [List.getElem?_set_ne apart]
          exact opened
  | seek sought move origin newPos =>
      have apart : sought ≠ place := unsought
      simp only [PromiseStreams.step]
      split
      · exact opened
      · rw [List.getElem?_set_ne apart]
        exact opened
  | clone cloned hasOut hasMemory =>
      simp only [PromiseStreams.step]
      split
      · exact opened
      · rw [List.getElem?_append_left (List.getElem?_eq_some_iff.mp opened).1]
        exact opened

theorem step_cursor (serves : Serves files source) (fits : Fits files state) (call : StreamCall)
    (opened : state.streams[place]? = some stream) (unsought : ¬SeeksAt place call) :
    ∃ after, (PromiseStreams.step source overflow call state).streams[place]? = some after ∧
      (cursorOf files stream).read (handedBy source place call state).length =
        (handedBy source place call state, cursorOf files after) := by
  by_cases reads : ∃ request, call = .read place request
  · obtain ⟨request, rfl⟩ := reads
    exact read_cursor serves fits request opened
  · have unread : ∀ request, call ≠ .read place request := fun request same => reads ⟨request, same⟩
    have nothing : handedBy source place call state = [] := by
      cases call with
      | read other request =>
          exact if_neg fun same => unread request (by rw [same])
      | seek => rfl
      | clone => rfl
    rw [nothing]
    exact ⟨stream, step_elsewhere call opened unread unsought, Cursor.read_zero⟩

/-- However many reads there are, and whatever happens to the other streams,
what a stream hands over between two seeks is one piece of its file. -/
theorem received_contiguous (serves : Serves files source) (fits : Fits files state)
    (opened : state.streams[place]? = some stream) {calls : List StreamCall}
    (unsought : ∀ call ∈ calls, ¬SeeksAt place call) :
    ∃ after, (exec (PromiseStreams.step source overflow) state calls).streams[place]? = some after ∧
      (cursorOf files stream).read (received source overflow place state calls).length =
        (received source overflow place state calls, cursorOf files after) := by
  induction calls generalizing state stream with
  | nil => exact ⟨stream, opened, Cursor.read_zero⟩
  | cons call rest ih =>
      obtain ⟨middle, reached, first⟩ :=
        @step_cursor overflow files source state stream place serves fits call opened (unsought call List.mem_cons_self)
      obtain ⟨after, last, second⟩ := ih (fits.step serves call) reached
        fun later member => unsought later (List.mem_cons_of_mem call member)
      refine ⟨after, last, ?_⟩
      rw [received, List.length_append, Cursor.read_add, first, second]

end

def wholeSource (files : UInt32 → Bytes) : FileByteSource := fun _ index offset cap =>
  let rest := (files index).drop offset.toNat
  let count := min cap.toNat rest.length
  ⟨Int32.ofNat count, rest.take count⟩

theorem wholeSource_serves {files : UInt32 → Bytes} (small : ∀ index, (files index).length < 2 ^ 31) :
    Serves files (wholeSource files) := by
  intro call index offset cap wanted
  have room : 0 < cap.toNat := UInt32.lt_iff_toNat_lt.mp wanted
  have size := small index
  rw [wholeSource]
  cases rest : (files index).drop offset.toNat with
  | nil =>
      simp only [List.length_nil, Nat.min_zero]
      exact .ended _ rfl
  | cons byte bytes =>
      have length := congrArg List.length rest
      rw [List.length_drop, List.length_cons] at length
      have count : (Int32.ofNat (min cap.toNat (byte :: bytes).length)).toNatClampNeg =
          min cap.toNat (byte :: bytes).length :=
        Int32.toNatClampNeg_ofNat_of_lt (by rw [List.length_cons]; omega)
      apply Answers.produced
      · rw [← Int32.toNatClampNeg_pos_iff, count, List.length_cons]
        omega
      · rw [count]
        exact Nat.min_le_left _ _
      · rw [count]
        exact Nat.min_le_right _ _
      · rw [count, List.take_take, Nat.min_self]

/-- What the calls on one stream do, in the state that they find. -/
structure CursorCalls (files : UInt32 → Bytes) (source : FileByteSource)
    (overflow : Int64 → Int64 → Int64) (state : PromiseStreams) (place : Nat)
    (stream : PromiseStream) : Prop where
  read : ∀ request, request.pv ≠ none → ∃ reply after,
    stream.read source state.calls request = some (reply, after) ∧
    (state.step source overflow (.read place request)).streams = state.streams.set place after ∧
    ReadsNext (files stream.index) request stream reply after
  readNull : ∀ request, request.pv = none → stream.read source state.calls request =
    some (⟨.invalidPointer, none, request.pcbRead, []⟩, stream)
  seek : ∀ move origin newPos, (stream.seek overflow move origin newPos).1 ≠ .ok →
    (stream.seek overflow move origin newPos).2 = (stream, newPos)
  clone : ∀ hasOut hasMemory copy, (stream.clone hasOut hasMemory).2 = some copy → copy = stream

/-- After any calls, every open stream is a cursor in its file. A read that has
a buffer reads on from the position, one that has none fails before anything
happens, a rejected seek moves nothing, and a clone starts where its stream is. -/
theorem promiseStream_cursor {files : UInt32 → Bytes} {source : FileByteSource}
    (serves : Serves files source) (overflow : Int64 → Int64 → Int64) {initial : PromiseStreams}
    (fits : Fits files initial) (history : List StreamCall) {place : Nat} {stream : PromiseStream}
    (opened : (exec (PromiseStreams.step source overflow) initial history).streams[place]? =
      some stream) :
    CursorCalls files source overflow (exec (PromiseStreams.step source overflow) initial history)
      place stream := by
  have size := @Fits.exec overflow files source initial serves history fits stream
    (List.mem_of_getElem? opened)
  refine ⟨fun request given => ?_, fun request absent => read_null absent,
    fun move origin newPos => seek_rejected, fun hasOut hasMemory copy => clone_copy⟩
  obtain ⟨reply, after, answered, next⟩ := read_next serves _ size given
  refine ⟨reply, after, answered, ?_, next⟩
  simp only [PromiseStreams.step, opened, answered]

theorem promiseStream_cursor_short :
    CursorCalls (fun _ => [1, 2, 3]) (wholeSource fun _ => [1, 2, 3]) (· + ·)
      (exec (PromiseStreams.step (wholeSource fun _ => [1, 2, 3]) (· + ·)) ⟨[⟨0, 3, 0⟩], 0⟩
        [.read 0 ⟨some [0, 0], 2, some 0, by decide⟩, .clone 0 true true]) 1 ⟨0, 3, 2⟩ :=
  promiseStream_cursor (wholeSource_serves fun _ => by decide) _
    (fun stream member => by
      rw [List.mem_singleton.mp member]
      rfl) _ (by decide)

/-- A read without a buffer fails, and what the caller finds in its counter is
what stood there. -/
theorem readNull_reports_stale :
    ¬∀ (files : UInt32 → Bytes) (source : FileByteSource), Serves files source →
      ∀ firstCall request (stream : PromiseStream) reply after,
        stream.size.toNat = (files stream.index).length →
        stream.read source firstCall request = some (reply, after) → reply.result ≠ .ok →
        reply.pcbRead = request.pcbRead.map fun _ =>
          UInt32.ofNat (delivered reply.answers).length := by
  intro claimed
  have reported := claimed (fun _ => [1, 2, 3]) _ (wholeSource_serves fun _ => by decide) 0
    ⟨none, 2, some 7, nofun⟩ ⟨0, 3, 0⟩ _ _ rfl rfl (by decide)
  exact absurd reported (by decide)

end Skittermouse.Files

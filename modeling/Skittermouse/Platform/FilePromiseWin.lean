import Mathlib.Algebra.Group.Int.Defs
import Skittermouse.Data.Loop
import Skittermouse.Net.FileSession

namespace Skittermouse.Platform

open Skittermouse.Data Skittermouse.Net

/-! # The stream behind a pasted file

One read-only `IStream` for each promised file. Its bytes come from a source
that may block, hand over less than it was asked for, or fail.
-/

inductive Hresult where
  | ok
  | invalidPointer
  | invalidFunction
  | readFault
  | outOfMemory
deriving DecidableEq

/-- The number that the source returns, and what it has written to the buffer. -/
structure SourceAnswer where
  count : Int32
  written : Bytes
deriving DecidableEq

/-- Calls are numbered, since the same arguments need not get the same answer. -/
abbrev FileByteSource := (call : Nat) → (index : UInt32) → (offset : UInt64) → (cap : UInt32) → SourceAnswer

structure PromiseStream where
  index : UInt32
  size : UInt64
  pos : UInt64
deriving DecidableEq

/-- The arguments of `Read`. A pointer that is null is absent, the counter comes
with what stands in it, and the caller's buffer holds what it asks for. -/
structure ReadRequest where
  pv : Option Bytes
  cb : UInt32
  pcbRead : Option UInt32
  room : ∀ buffer ∈ pv, cb.toNat ≤ buffer.length

/-- Where the loop of `Read` stands. `ended` is set by what leaves the loop, and
`answers` are the source's so far. -/
structure ReadProgress where
  pos : UInt64
  total : UInt32
  out : Bytes
  ended : Option Hresult
  answers : List SourceAnswer

structure ReadReply where
  result : Hresult
  buffer : Option Bytes
  pcbRead : Option UInt32
  answers : List SourceAnswer
deriving DecidableEq

namespace PromiseStream

section

variable (source : FileByteSource) (firstCall : Nat)

def readGoing (cb : UInt32) (progress : ReadProgress) : Bool :=
  progress.ended = none ∧ progress.total < cb

def readRound (index : UInt32) (cb : UInt32) (progress : ReadProgress) : ReadProgress :=
  let answer := source (firstCall + progress.answers.length) index progress.pos (cb - progress.total)
  let out := overwrite progress.out progress.total.toNat answer.written
  let answers := progress.answers ++ [answer]
  if answer.count < 0 then { progress with out, answers, ended := some .readFault }
  else if answer.count = 0 then { progress with out, answers, ended := some .ok }
  else
    { pos     := progress.pos + answer.count.toInt64.toUInt64
      total   := progress.total + answer.count.toUInt32
      out     := out
      ended   := none
      answers := answers }

/-- `firstCall` numbers the source's calls from here on. There is no reply when
a source that keeps to no contract keeps the loop going. -/
def read (request : ReadRequest) (stream : PromiseStream) : Option (ReadReply × PromiseStream) :=
  match request.pv with
  | none => some (⟨.invalidPointer, none, request.pcbRead, []⟩, stream)
  | some out =>
      (whileLoop (readGoing request.cb) (readRound source firstCall stream.index request.cb)
        (request.cb.toNat + 1) ⟨stream.pos, 0, out, none, []⟩).map fun progress =>
          (⟨progress.ended.getD .ok, some progress.out, request.pcbRead.map fun _ => progress.total,
            progress.answers⟩, { stream with pos := progress.pos })

end

/-- A signed sum. Where it leaves the range, the language leaves it open. -/
def addSigned (overflow : Int64 → Int64 → Int64) (left right : Int64) : Int64 :=
  if -2 ^ 63 ≤ left.toInt + right.toInt ∧ left.toInt + right.toInt < 2 ^ 63 then left + right
  else overflow left right

/-- `STREAM_SEEK_SET`, `STREAM_SEEK_CUR` and `STREAM_SEEK_END`. -/
def seekBase (origin : UInt32) (stream : PromiseStream) : Option Int64 :=
  if origin = 0 then some 0
  else if origin = 1 then some stream.pos.toInt64
  else if origin = 2 then some stream.size.toInt64
  else none

/-- The result, the stream, and what stands in `newPos` if it was given. -/
def seek (overflow : Int64 → Int64 → Int64) (move : Int64) (origin : UInt32) (newPos : Option UInt64)
    (stream : PromiseStream) : Hresult × PromiseStream × Option UInt64 :=
  match seekBase origin stream with
  | none => (.invalidFunction, stream, newPos)
  | some base =>
      let np := addSigned overflow base move
      if np < 0 then (.invalidFunction, stream, newPos)
      else (.ok, { stream with pos := np.toUInt64 }, newPos.map fun _ => np.toUInt64)

/-- `hasOut` and `hasMemory` say whether there is a place for the copy. -/
def clone (hasOut hasMemory : Bool) (stream : PromiseStream) : Hresult × Option PromiseStream :=
  if hasOut = false then (.invalidPointer, none)
  else if hasMemory = false then (.outOfMemory, none)
  else (.ok, some ⟨stream.index, stream.size, stream.pos⟩)

end PromiseStream

/-- The streams that exist, and how often the source has been called. -/
structure PromiseStreams where
  streams : List PromiseStream
  calls : Nat

inductive StreamCall where
  | read (place : Nat) (request : ReadRequest)
  | seek (place : Nat) (move : Int64) (origin : UInt32) (newPos : Option UInt64)
  | clone (place : Nat) (hasOut hasMemory : Bool)

namespace PromiseStreams

def step (source : FileByteSource) (overflow : Int64 → Int64 → Int64) (call : StreamCall)
    (state : PromiseStreams) : PromiseStreams :=
  match call with
  | .read place request => match state.streams[place]? with
      | none => state
      | some stream => match stream.read source state.calls request with
          | none => state
          | some (reply, after) =>
              ⟨state.streams.set place after, state.calls + reply.answers.length⟩
  | .seek place move origin newPos => match state.streams[place]? with
      | none => state
      | some stream =>
          { state with streams := state.streams.set place (stream.seek overflow move origin newPos).2.1 }
  | .clone place hasOut hasMemory => match state.streams[place]? with
      | none => state
      | some stream =>
          { state with streams := state.streams ++ (stream.clone hasOut hasMemory).2.toList }

end PromiseStreams

end Skittermouse.Platform

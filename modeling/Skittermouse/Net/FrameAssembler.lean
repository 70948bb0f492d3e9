import Skittermouse.Net.WsFrame

namespace Skittermouse.Net

open Skittermouse.Data

structure WsFrameAssembler where
  buf : Bytes
deriving DecidableEq

namespace WsFrameAssembler

def init : WsFrameAssembler := ⟨[]⟩

def feed (assembler : WsFrameAssembler) (data : Bytes) : WsFrameAssembler := ⟨assembler.buf ++ data⟩

def next (assembler : WsFrameAssembler) : Option WsFrame × WsFrameAssembler :=
  if assembler.buf = [] then (none, assembler)
  else match wsDecodeFrame assembler.buf with
  | .frame frame consumed => (some frame, ⟨assembler.buf.drop consumed⟩)
  -- protocol error
  | .failed => (none, ⟨[]⟩)
  | .needMore => (none, assembler)

def buffered (assembler : WsFrameAssembler) : Nat := assembler.buf.length

def popFor : Nat → WsFrameAssembler → List WsFrame × WsFrameAssembler
  | 0, assembler => ([], assembler)
  | fuel + 1, assembler => match assembler.next with
    | (none, assembler) => ([], assembler)
    | (some frame, assembler) =>
        let (frames, assembler) := popFor fuel assembler
        (frame :: frames, assembler)

def popAll (assembler : WsFrameAssembler) : List WsFrame × WsFrameAssembler :=
  assembler.popFor (assembler.buffered + 1)

def readAll : WsFrameAssembler → List Bytes → List WsFrame × WsFrameAssembler
  | assembler, [] => ([], assembler)
  | assembler, chunk :: chunks =>
      let (frames, assembler) := (assembler.feed chunk).popAll
      let (later, assembler) := readAll assembler chunks
      (frames ++ later, assembler)

theorem next_eq (assembler : WsFrameAssembler) :
    assembler.next = ((wsDecoder.next assembler.buf).1, ⟨(wsDecoder.next assembler.buf).2⟩) := by
  unfold next StreamDecoder.next
  split
  · rename_i empty
    simp only [wsDecoder, empty, wsDecodeFrame]
    rw [← empty]
  · have decode : wsDecoder.decode assembler.buf = wsDecodeFrame assembler.buf := rfl
    rw [decode]
    cases wsDecodeFrame assembler.buf <;> rfl

theorem popFor_eq (fuel : Nat) (assembler : WsFrameAssembler) :
    assembler.popFor fuel = ((wsDecoder.drainFor fuel assembler.buf).1,
      ⟨(wsDecoder.drainFor fuel assembler.buf).2⟩) := by
  induction fuel generalizing assembler with
  | zero => rfl
  | succ fuel ih =>
      simp only [popFor, StreamDecoder.drainFor, next_eq]
      cases wsDecoder.next assembler.buf with
      | mk popped buf =>
          cases popped with
          | none => rfl
          | some frame => simp only [ih]

theorem popAll_eq (assembler : WsFrameAssembler) :
    assembler.popAll = ((wsDecoder.drain assembler.buf).1, ⟨(wsDecoder.drain assembler.buf).2⟩) :=
  popFor_eq _ assembler

theorem readAll_eq (assembler : WsFrameAssembler) (chunks : List Bytes) :
    assembler.readAll chunks = ((wsDecoder.feedAll assembler.buf chunks).1,
      ⟨(wsDecoder.feedAll assembler.buf chunks).2⟩) := by
  induction chunks generalizing assembler with
  | nil => rfl
  | cons chunk chunks ih => simp only [readAll, StreamDecoder.feedAll, popAll_eq, feed, ih]

end WsFrameAssembler

end Skittermouse.Net

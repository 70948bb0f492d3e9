import Skittermouse.Data.Exec
import Skittermouse.Net.FrameAssembler

/-! # Frames that arrive in pieces

The assembler is fed as the bytes arrive. On a stream of encoded frames neither
the pieces nor the moments at which frames are popped matter. On a stream with
a protocol error the pieces do matter: what was fed together with the error is
discarded, and what is fed after it is read as a new stream.
-/

namespace Skittermouse.Framing

open Skittermouse.Data Skittermouse.Net

structure SentFrame where
  op : WsOpcode
  payload : Bytes
  masked : Bool
  random : Bytes
  fin : Bool
  fits : payload.length ≤ kMaxPayload

def SentFrame.encode (sent : SentFrame) : Bytes :=
  wsEncodeFrame sent.op sent.payload sent.masked sent.random sent.fin

def SentFrame.frame (sent : SentFrame) : WsFrame :=
  { opcode := sent.op.code, fin := sent.fin, payload := sent.payload }

def encodeAll (frames : List SentFrame) : Bytes := frames.flatMap SentFrame.encode

inductive AssemblerCall where
  | feed (data : Bytes)
  | next

def AssemblerCall.data : AssemblerCall → Bytes
  | .feed data => data
  | .next => []

def fed (calls : List AssemblerCall) : Bytes := calls.flatMap AssemblerCall.data

structure Reading where
  assembler : WsFrameAssembler
  popped : List WsFrame

def Reading.init : Reading := ⟨.init, []⟩

def readStep : AssemblerCall → Reading → Reading
  | .feed data, reading => { reading with assembler := reading.assembler.feed data }
  | .next, reading =>
      let (frame, assembler) := reading.assembler.next
      { assembler, popped := reading.popped ++ frame.toList }

theorem SentFrame.parses (sent : SentFrame) {rest : Bytes} {later : List WsFrame}
    {left : Option Bytes} (behind : wsDecoder.Parses rest later left) :
    wsDecoder.Parses (sent.encode ++ rest) (sent.frame :: later) left := by
  have found : wsDecoder.decode (sent.encode ++ rest) = .frame sent.frame sent.encode.length :=
    wsDecodeFrame_encoded sent.op sent.masked sent.random sent.fin sent.fits rest
  refine .frame found ?_
  rw [List.drop_left]
  exact behind

theorem parses_encodeAll_append (frames : List SentFrame) {rest : Bytes} {later : List WsFrame}
    {left : Option Bytes} (behind : wsDecoder.Parses rest later left) :
    wsDecoder.Parses (encodeAll frames ++ rest) (frames.map SentFrame.frame ++ later) left := by
  induction frames with
  | nil => exact behind
  | cons sent frames ih =>
      rw [encodeAll, List.flatMap_cons, List.append_assoc]
      exact sent.parses ih

theorem parses_encodeAll (frames : List SentFrame) :
    wsDecoder.Parses (encodeAll frames) (frames.map SentFrame.frame) (some []) := by
  have parses := parses_encodeAll_append frames (.needMore wsDecoder.empty)
  rwa [List.append_nil, List.append_nil] at parses

theorem accounts_step {call : AssemblerCall} {reading : Reading} {before more : Bytes}
    {frames : List WsFrame} {left : Bytes}
    (accounts : wsDecoder.Accounts before reading.popped reading.assembler.buf)
    (parses : wsDecoder.Parses (before ++ call.data ++ more) frames (some left)) :
    wsDecoder.Accounts (before ++ call.data) (readStep call reading).popped
      (readStep call reading).assembler.buf := by
  cases call with
  | feed data => exact accounts.feed data
  | next =>
      simp only [AssemblerCall.data, List.append_nil] at parses ⊢
      simp only [readStep, WsFrameAssembler.next_eq]
      exact accounts.next parses

theorem accounts_calls {calls : List AssemblerCall} {reading : Reading} {before more : Bytes}
    {frames : List WsFrame} {left : Bytes}
    (accounts : wsDecoder.Accounts before reading.popped reading.assembler.buf)
    (parses : wsDecoder.Parses (before ++ fed calls ++ more) frames (some left)) :
    wsDecoder.Accounts (before ++ fed calls) (exec readStep reading calls).popped
      (exec readStep reading calls).assembler.buf := by
  induction calls generalizing reading before with
  | nil =>
      rw [fed, List.flatMap_nil, List.append_nil]
      exact accounts
  | cons call calls ih =>
      rw [fed, List.flatMap_cons, ← List.append_assoc] at parses ⊢
      have front : wsDecoder.Parses (before ++ call.data ++ (fed calls ++ more)) frames
          (some left) := by
        rw [← List.append_assoc]
        exact parses
      exact ih (accounts_step accounts front) parses

/-- Whatever the pieces and whenever frames are popped, the frames come out as
they were encoded; once everything is fed, what is left is what is popped. -/
theorem frames_reassembled (frames : List SentFrame) (calls : List AssemblerCall) :
    (fed calls <+: encodeAll frames →
      (exec readStep .init calls).popped <+: frames.map SentFrame.frame) ∧
    (fed calls = encodeAll frames →
      (exec readStep .init calls).popped ++ (exec readStep .init calls).assembler.popAll.1 =
        frames.map SentFrame.frame ∧
      (exec readStep .init calls).assembler.popAll.2.next.1 = none ∧
      (exec readStep .init calls).assembler.popAll.2.buffered = 0) := by
  have start : wsDecoder.Accounts [] Reading.init.popped Reading.init.assembler.buf :=
    StreamDecoder.accounts_empty wsDecoder
  have parses := parses_encodeAll frames
  constructor
  · rintro ⟨more, whole⟩
    rw [← whole] at parses
    exact (accounts_calls start parses).popped_front parses
  · intro whole
    rw [← whole] at parses
    have complete : wsDecoder.Parses ([] ++ fed calls ++ []) (frames.map SentFrame.frame)
        (some []) := by
      rw [List.append_nil]
      exact parses
    have accounts := accounts_calls start complete
    obtain ⟨all, empty⟩ := accounts.drain parses
    rw [WsFrameAssembler.popAll_eq, WsFrameAssembler.next_eq, WsFrameAssembler.buffered]
    exact ⟨all, StreamDecoder.next_drain _ _, congrArg List.length empty⟩

def hiThere : List SentFrame :=
  [⟨.text, [104, 105], true, [1, 2, 3, 4], true, by decide⟩, ⟨.ping, [], false, [], true, by decide⟩]

/-- The cuts fall inside the mask key and inside the second header. -/
theorem frames_reassembled_hi :
    (exec readStep .init [.feed ((encodeAll hiThere).take 4), .next,
      .feed (((encodeAll hiThere).drop 4).take 5), .next, .feed ((encodeAll hiThere).drop 9)]).popped ++
      [⟨WsOpcode.ping.code, true, []⟩] = hiThere.map SentFrame.frame :=
  ((frames_reassembled hiThere [.feed ((encodeAll hiThere).take 4), .next,
    .feed (((encodeAll hiThere).drop 4).take 5), .next, .feed ((encodeAll hiThere).drop 9)]).2
      (by decide)).1

def yields (chunks : List Bytes) : List WsFrame := (WsFrameAssembler.init.readAll chunks).1

theorem yields_eq (chunks : List Bytes) : yields chunks = (wsDecoder.feedAll [] chunks).1 := by
  rw [yields, WsFrameAssembler.readAll_eq]
  rfl

def Breaks (bytes : Bytes) : Prop := ∃ frames, wsDecoder.Parses bytes frames none

/-- The pieces never matter, if and only if no bytes after a protocol error begin
with a complete frame. -/
theorem cuts_agree_iff (stream : Bytes) :
    (∀ left right : List Bytes, left.flatten = stream → right.flatten = stream →
      yields left = yields right) ↔
    ∀ front behind, stream = front ++ behind → Breaks front →
      ∀ frame consumed, wsDecodeFrame behind ≠ .frame frame consumed := by
  simp only [yields_eq]
  exact StreamDecoder.feedAll_cuts_iff wsDecoder stream

def tooLong : Bytes := [0x82, 0x7f, 0xff, 0xff, 0xff, 0xff, 0xff, 0xff, 0xff, 0xff]

/-- A frame behind the error is lost with it, or is not. -/
theorem cut_after_error :
    [tooLong ++ [0x82, 1, 65]].flatten = [tooLong, [0x82, 1, 65]].flatten ∧
      yields [tooLong ++ [0x82, 1, 65]] ≠ yields [tooLong, [0x82, 1, 65]] := by
  decide

end Skittermouse.Framing

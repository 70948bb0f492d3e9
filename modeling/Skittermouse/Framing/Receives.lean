import Skittermouse.Framing.Splits
import Skittermouse.Net.FileChannel
import Skittermouse.Platform.WsTransport

/-! # What one receive can see

A receive looks at what is buffered and reads the socket once, for 4096 bytes
at most and over TLS for no more than a record. A frame that ends behind what this
one read hands over is readable and yet not received.
-/

namespace Skittermouse.Framing

open Skittermouse.Data Skittermouse.Core Skittermouse.Net Skittermouse.Platform WsTransport

/-- How much there is to receive: bytes in the buffer, bytes to read, and how far the
reads go. -/
structure Supply where
  buffered : Nat
  readable : Nat
  records : List Nat
deriving DecidableEq

namespace Supply

def nextRead (supply : Supply) : Nat := Socket.readLimit supply.records kReadSize

def reach (supply : Supply) : Nat := supply.buffered + supply.nextRead

def leftBehind (supply : Supply) (size : Nat) : Supply :=
  if size ≤ supply.buffered then { supply with buffered := supply.buffered - size }
  else
    { buffered := supply.buffered + min supply.nextRead supply.readable - size
      readable := supply.readable - supply.nextRead
      records := supply.records.tail }

/-- Each of the frames ends within what a receive sees once the frames before it are out. -/
def InReach : Supply → List Nat → Prop
  | _, [] => True
  | supply, size :: sizes =>
      size ≤ supply.reach ∧ InReach (supply.leftBehind size) sizes

end Supply

def supply (transport : WsTransport) : Supply :=
  ⟨transport.assembler.buf.length, transport.socket.readable.length, transport.socket.records⟩

variable {transport : WsTransport} {frame : WsFrame} {consumed cap : Nat}

theorem supply_reach (transport : WsTransport) :
    (supply transport).reach = transport.assembler.buf.length + (supply transport).nextRead := rfl

def afterRead (transport : WsTransport) : WsTransport :=
  { transport with
    assembler := transport.assembler.feed (transport.socket.readable.take (supply transport).nextRead)
    socket := { transport.socket with
      readable := transport.socket.readable.drop (supply transport).nextRead
      records := transport.socket.records.tail } }

theorem afterRead_stream (transport : WsTransport) :
    (afterRead transport).stream = transport.stream := by
  simp only [afterRead, WsFrameAssembler.feed, stream]
  rw [List.append_assoc, List.take_append_drop]

theorem afterRead_buffered (transport : WsTransport) :
    (afterRead transport).assembler.buf.length =
      transport.assembler.buf.length + min (supply transport).nextRead transport.socket.readable.length := by
  simp only [afterRead, WsFrameAssembler.feed, List.length_append, List.length_take]

theorem recv_reads (up : transport.connected = true)
    (waits : wsDecodeFrame transport.assembler.buf = .needMore)
    (some_ : transport.socket.readable ≠ []) (cap : Nat) :
    transport.recv cap =
      match (afterRead transport).assembler.next with
      | (some out, assembler) => (some (copyFrame out cap), { afterRead transport with assembler })
      | (none, assembler) => (some [], { afterRead transport with assembler }) := by
  rw [recv, if_neg (by rw [up]; exact nofun), next_needMore waits]
  simp only [Socket.recvRaw, if_neg some_]
  rfl

theorem readable_of_beyond (found : wsDecodeFrame transport.stream = .frame frame consumed)
    (beyond : transport.assembler.buf.length < consumed) : transport.socket.readable ≠ [] := by
  intro empty
  have bounds := wsDecoder.progress found
  rw [stream, empty, List.append_nil] at bounds
  omega

theorem recv_out_of_reach (up : transport.connected = true)
    (found : wsDecodeFrame transport.stream = .frame frame consumed)
    (beyond : (supply transport).reach < consumed) (cap : Nat) :
    ∃ after, transport.recv cap = (some [], after) ∧ after.stream = transport.stream := by
  rw [supply_reach] at beyond
  have before : transport.assembler.buf.length < consumed := by omega
  have buffered : wsDecodeFrame transport.assembler.buf = .needMore :=
    wsDecoder.decode_short found before
  have whole : wsDecodeFrame (afterRead transport).stream = .frame frame consumed := by
    rw [afterRead_stream, found]
  have waits : wsDecodeFrame (afterRead transport).assembler.buf = .needMore := by
    refine wsDecoder.decode_short whole ?_
    rw [afterRead_buffered]
    omega
  refine ⟨afterRead transport, ?_, afterRead_stream transport⟩
  rw [recv_reads up buffered (readable_of_beyond found before), next_needMore waits]

theorem recv_within_reach (up : transport.connected = true)
    (found : wsDecodeFrame transport.stream = .frame frame consumed)
    (within : consumed ≤ (supply transport).reach) (cap : Nat) :
    ∃ after, transport.recv cap = (some (copyFrame frame cap), after) ∧ after.connected = true ∧
      after.stream = transport.stream.drop consumed ∧
      supply after = (supply transport).leftBehind consumed := by
  by_cases inside : consumed ≤ transport.assembler.buf.length
  · have buffered : wsDecodeFrame transport.assembler.buf = .frame frame consumed :=
      wsDecoder.decode_front found inside
    refine ⟨{ transport with assembler := ⟨transport.assembler.buf.drop consumed⟩ }, ?_, up, ?_, ?_⟩
    · rw [recv, if_neg (by rw [up]; exact nofun), next_frame buffered]
    · rw [stream, stream, List.drop_append_of_le_length inside]
    · rw [Supply.leftBehind, if_pos (show consumed ≤ (supply transport).buffered from inside), supply,
        List.length_drop]
      rfl
  · have before : transport.assembler.buf.length < consumed := not_le.mp inside
    have reached : consumed ≤ (afterRead transport).assembler.buf.length := by
      have bounds := wsDecoder.progress found
      rw [stream, List.length_append] at bounds
      rw [supply_reach] at within
      rw [afterRead_buffered]
      omega
    have whole : wsDecodeFrame (afterRead transport).stream = .frame frame consumed := by
      rw [afterRead_stream, found]
    have buffered : wsDecodeFrame (afterRead transport).assembler.buf = .frame frame consumed :=
      wsDecoder.decode_front whole reached
    refine ⟨{ afterRead transport with
      assembler := ⟨(afterRead transport).assembler.buf.drop consumed⟩ }, ?_, up, ?_, ?_⟩
    · rw [recv_reads up (wsDecoder.decode_short found before) (readable_of_beyond found before),
        next_frame buffered]
    · rw [← afterRead_stream transport, stream, stream, List.drop_append_of_le_length reached]
    · rw [Supply.leftBehind, if_neg (show ¬ consumed ≤ (supply transport).buffered from inside), supply,
        List.length_drop, afterRead_buffered]
      simp only [afterRead, List.length_drop]
      rfl

theorem copyFrame_ne_nil (some_ : frame.payload ≠ []) (room : 0 < cap) : copyFrame frame cap ≠ [] := by
  intro empty
  rcases List.take_eq_nil_iff.mp empty with none | nothing
  · omega
  · exact some_ nothing

theorem recv_waits (waits : wsDecodeFrame transport.stream = .needMore) (cap : Nat) :
    ∃ got after, transport.recv cap = (got, after) ∧ (got = none ∨ got = some []) ∧
      after.stream = transport.stream := by
  have buffered : wsDecodeFrame transport.assembler.buf = .needMore := wsDecoder.decode_waits waits
  by_cases up : transport.connected = true
  · by_cases empty : transport.socket.readable = []
    · rw [recv, if_neg (by rw [up]; exact nofun), next_needMore buffered]
      simp only [Socket.recvRaw, if_pos empty]
      split <;> rename_i ended <;> split at ended <;> cases ended <;>
        first
        | exact ⟨_, _, rfl, .inl rfl, rfl⟩
        | exact ⟨_, _, rfl, .inr rfl, rfl⟩
    · have whole : wsDecodeFrame (afterRead transport).stream = .needMore := by
        rw [afterRead_stream, waits]
      have still : wsDecodeFrame (afterRead transport).assembler.buf = .needMore :=
        wsDecoder.decode_waits whole
      refine ⟨some [], afterRead transport, ?_, .inr rfl, afterRead_stream transport⟩
      rw [recv_reads up buffered empty, next_needMore still]
  · refine ⟨none, transport, ?_, .inl rfl, rfl⟩
    rw [recv, if_pos (Bool.eq_false_iff.mpr up)]

/-- The frames at the front of a stream with the bytes they take up, and an
incomplete frame behind them. -/
inductive Waiting : Bytes → List (WsFrame × Nat) → Bytes → Prop where
  | rest {bytes : Bytes} (waits : wsDecodeFrame bytes = .needMore) : Waiting bytes [] bytes
  | frame {bytes rest : Bytes} {frame : WsFrame} {consumed : Nat} {frames : List (WsFrame × Nat)}
      (found : wsDecodeFrame bytes = .frame frame consumed)
      (behind : Waiting (bytes.drop consumed) frames rest) :
      Waiting bytes ((frame, consumed) :: frames) rest

variable {frames : List (WsFrame × Nat)} {rest bytes : Bytes}

theorem Waiting.length_le (waiting : Waiting bytes frames rest) :
    rest.length + frames.length ≤ bytes.length := by
  induction waiting with
  | rest waits => exact Nat.le_refl _
  | frame found behind ih =>
      have bounds := wsDecoder.progress found
      rw [List.length_drop] at ih
      rw [List.length_cons]
      omega

theorem Waiting.receiveFor (waiting : Waiting transport.stream frames rest)
    (up : transport.connected = true) (some_ : ∀ item ∈ frames, item.1.payload ≠ []) {fuel : Nat}
    (enough : frames.length < fuel) (receiver : FileReceiver) :
    ((FileChannel.receiveFor fuel transport receiver).1.stream = rest ∧
      (FileChannel.receiveFor fuel transport receiver).2 = frames.foldl (fun receiver item =>
        FileChannel.acceptMessage receiver (copyFrame item.1 FileChannel.kMaxFileMessage)) receiver) ↔
    (supply transport).InReach (frames.map Prod.snd) := by
  generalize whole : transport.stream = bytes at waiting
  induction waiting generalizing transport fuel receiver with
  | rest waits =>
      obtain ⟨got, after, received, nothing, kept⟩ :=
        recv_waits (whole.symm ▸ waits) FileChannel.kMaxFileMessage
      have recv : Transport.recv transport FileChannel.kMaxFileMessage = (got, after) := received
      cases fuel with
      | zero => exact absurd enough (Nat.not_lt_zero _)
      | succ fuel =>
          rw [FileChannel.receiveFor, recv]
          refine iff_of_true ?_ trivial
          rcases nothing with rfl | rfl <;> exact ⟨kept.trans whole, rfl⟩
  | @frame bytes rest frame consumed frames found behind ih =>
      have there : wsDecodeFrame transport.stream = .frame frame consumed := whole ▸ found
      cases fuel with
      | zero => exact absurd enough (Nat.not_lt_zero _)
      | succ fuel =>
          by_cases within : consumed ≤ (supply transport).reach
          · obtain ⟨after, received, still, left, sizes⟩ :=
              recv_within_reach up there within FileChannel.kMaxFileMessage
            have recv : Transport.recv transport FileChannel.kMaxFileMessage = (_, after) := received
            obtain ⟨byte, message, shape⟩ := List.exists_cons_of_ne_nil
              (copyFrame_ne_nil (some_ _ List.mem_cons_self)
                (by decide : 0 < FileChannel.kMaxFileMessage))
            have later := ih still (fun item member => some_ item (List.mem_cons_of_mem _ member))
              (Nat.lt_of_succ_lt_succ enough) (FileChannel.acceptMessage receiver
                (copyFrame frame FileChannel.kMaxFileMessage)) (left.trans (by rw [whole]))
            rw [sizes] at later
            rw [FileChannel.receiveFor, recv, List.foldl_cons, List.map_cons, Supply.InReach, shape,
              and_iff_right within, ← later, shape]
          · obtain ⟨after, received, left⟩ :=
              recv_out_of_reach up there (not_le.mp within) FileChannel.kMaxFileMessage
            have recv : Transport.recv transport FileChannel.kMaxFileMessage = (some [], after) :=
              received
            rw [FileChannel.receiveFor, recv, List.map_cons, Supply.InReach]
            refine iff_of_false ?_ fun reach => within reach.1
            rintro ⟨same, _⟩
            have longer := (Waiting.frame found behind).length_le
            rw [← whole, ← left, same, List.length_cons] at longer
            omega

end Skittermouse.Framing

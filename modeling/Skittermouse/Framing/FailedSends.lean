import Skittermouse.Framing.Splits
import Skittermouse.Platform.WsTransport

/-! # Sends that fail halfway

A send that gives up in the middle of a frame leaves the front of the frame on
the wire and the transport connected. The peer takes what is sent next for the
rest of that frame.
-/

namespace Skittermouse.Framing

open Skittermouse.Data Skittermouse.Net Skittermouse.Platform

/-- A transport, and the payloads that have been passed to `send`. -/
structure Sending where
  transport : WsTransport
  sent : List Bytes

inductive SendAction where
  | send (payload : Bytes)
  | recv (cap : Nat)
  | close
  | arrive (bytes : Bytes)
  | ending (ending : SocketEnd)

def sendStep : SendAction → Sending → Sending
  | .send payload, sending =>
      { transport := (sending.transport.send payload).2, sent := sending.sent ++ [payload] }
  | .recv cap, sending => { sending with transport := (sending.transport.recv cap).2 }
  | .close, sending => { sending with transport := sending.transport.close }
  | .arrive bytes, sending =>
      { sending with transport.socket.readable := sending.transport.socket.readable ++ bytes }
  | .ending ending, sending => { sending with transport.socket.ending := ending }

def Whole (written : Bytes) : Prop := ∃ frames, written = encodeAll frames

/-- The socket will not accept a byte before the write loop gives up. -/
def refuses : List SocketWrite → Bool
  | .accepts count :: _ => count == 0
  | .writable :: outlook => refuses outlook
  | _ => true

/-- A call that puts bytes on the wire is made where a frame may begin, and with
a payload that the decoder accepts. -/
def AtBoundary : SendAction → Sending → Prop
  | .send payload, sending =>
      sending.transport.connected = false ∨ refuses sending.transport.socket.outlook = true ∨
        (payload.length ≤ kMaxPayload ∧ Whole sending.transport.socket.written)
  | _, _ => True

theorem writeLoop_prefix (outlook : List SocketWrite) (data : Bytes) :
    (Socket.writeLoop outlook data).2.1 <+: data := by
  fun_induction Socket.writeLoop outlook data with
  | case1 outlook => exact List.prefix_rfl
  | case2 data => exact List.nil_prefix
  | case3 => exact List.nil_prefix
  | case4 count outlook data nonempty some sent written left result ih =>
      rw [result] at ih
      conv => rhs; rw [← List.take_append_drop count data]
      exact List.prefix_append_right_inj _ |>.mpr ih
  | case5 outlook data nonempty ih => exact ih
  | case6 => exact List.nil_prefix
  | case7 => exact List.nil_prefix

theorem writeLoop_refuses {outlook : List SocketWrite} (data : Bytes)
    (refused : refuses outlook = true) : (Socket.writeLoop outlook data).2.1 = [] := by
  fun_induction Socket.writeLoop outlook data with
  | case1 outlook => rfl
  | case2 data => rfl
  | case3 => rfl
  | case4 count outlook data nonempty some sent written left result ih =>
      exact absurd (beq_iff_eq.mp refused) some
  | case5 outlook data nonempty ih => exact ih refused
  | case6 => rfl
  | case7 => rfl

/-- The bytes written are the front of some frames, whose payloads were sent in this order. -/
def OnTheWire (sending : Sending) : Prop :=
  ∃ frames : List SentFrame, sending.transport.socket.written <+: encodeAll frames ∧
    List.Sublist (frames.map SentFrame.payload) sending.sent

variable {sending : Sending}

theorem map_frame_payload (frames : List SentFrame) :
    (frames.map SentFrame.frame).map WsFrame.payload = frames.map SentFrame.payload := by
  rw [List.map_map]
  rfl

theorem encodeAll_payloads {frames others : List SentFrame}
    (front : encodeAll frames <+: encodeAll others) :
    frames.map SentFrame.payload <+: others.map SentFrame.payload := by
  obtain ⟨rest, whole⟩ := front
  have parses := parses_encodeAll others
  rw [← whole] at parses
  obtain ⟨first, left, second, front, _, same⟩ := parses.front
  obtain ⟨rfl, _⟩ := front.unique (parses_encodeAll frames)
  rw [← map_frame_payload, ← map_frame_payload, same, List.map_append]
  exact List.prefix_append _ _

theorem OnTheWire.sent {transport : WsTransport} {payload : Bytes} (wired : OnTheWire sending)
    (written : transport.socket.written = sending.transport.socket.written) :
    OnTheWire { transport, sent := sending.sent ++ [payload] } := by
  obtain ⟨frames, front, order⟩ := wired
  exact ⟨frames, written ▸ front, order.trans (List.sublist_append_left _ _)⟩

theorem OnTheWire.send (wired : OnTheWire sending) (payload : Bytes)
    (boundary : AtBoundary (.send payload) sending) : OnTheWire (sendStep (.send payload) sending) := by
  by_cases up : sending.transport.connected = false
  · refine wired.sent ?_
    rw [WsTransport.send, if_pos up]
  · have written : (sending.transport.send payload).2.socket.written =
        sending.transport.socket.written ++ (Socket.writeLoop sending.transport.socket.outlook
          (wsEncodeFrame .binary payload sending.transport.client
            (sending.transport.keys.headD []) true)).2.1 := by
      rw [WsTransport.send, if_neg up]
      rfl
    rcases boundary with down | refused | ⟨fits, frames, whole⟩
    · exact absurd down up
    · refine wired.sent ?_
      rw [written, writeLoop_refuses _ refused, List.append_nil]
    · obtain ⟨others, front, order⟩ := wired
      have payloads := encodeAll_payloads (whole ▸ front)
      let frame : SentFrame :=
        ⟨.binary, payload, sending.transport.client, sending.transport.keys.headD [], true, fits⟩
      refine ⟨frames ++ [frame], ?_, ?_⟩
      · have joined : encodeAll (frames ++ [frame]) = encodeAll frames ++ frame.encode := by
          simp only [encodeAll, List.flatMap_append, List.flatMap_singleton]
        have part := writeLoop_prefix sending.transport.socket.outlook frame.encode
        simp only [sendStep]
        rw [written, joined, whole]
        exact (List.prefix_append_right_inj _).mpr part
      · rw [List.map_append]
        exact (payloads.sublist.trans order).append (List.Sublist.refl [payload])

theorem recvRaw_written (socket : Socket) (cap : Nat) :
    (socket.recvRaw cap).2.written = socket.written := by
  unfold Socket.recvRaw
  split
  · split <;> rfl
  · rfl

theorem recv_written (transport : WsTransport) (cap : Nat) :
    (transport.recv cap).2.socket.written = transport.socket.written := by
  have read := recvRaw_written transport.socket WsTransport.kReadSize
  unfold WsTransport.recv
  generalize transport.socket.recvRaw WsTransport.kReadSize = result at read ⊢
  obtain ⟨outcome, socket⟩ := result
  split
  · rfl
  · split
    · rfl
    · cases outcome with
      | closed => exact read
      | wouldBlock => exact read
      | fails => exact read
      | data bytes =>
          dsimp only
          split <;> exact read

theorem OnTheWire.step (action : SendAction) (wired : OnTheWire sending)
    (boundary : AtBoundary action sending) : OnTheWire (sendStep action sending) := by
  cases action with
  | send payload => exact wired.send payload boundary
  | recv cap =>
      obtain ⟨frames, front, order⟩ := wired
      exact ⟨frames, (recv_written sending.transport cap).symm ▸ front, order⟩
  | close => exact wired
  | arrive bytes => exact wired
  | ending ending => exact wired

/-- While every call puts its bytes where a frame may begin, the peer reads what
was sent, in order. -/
theorem payloads_in_order {transport : WsTransport} (fresh : transport.socket.written = [])
    {actions : List SendAction} (boundaries : Along sendStep AtBoundary ⟨transport, []⟩ actions)
    {chunks : List Bytes}
    (arrived : chunks.flatten <+: (exec sendStep ⟨transport, []⟩ actions).transport.socket.written) :
    List.Sublist ((yields chunks).map WsFrame.payload)
      (exec sendStep ⟨transport, []⟩ actions).sent := by
  have start : OnTheWire ⟨transport, []⟩ :=
    ⟨[], fresh ▸ List.nil_prefix, List.Sublist.refl []⟩
  have wired : OnTheWire (exec sendStep ⟨transport, []⟩ actions) :=
    exec_invariant (fun action _ wired boundary => wired.step action boundary) start boundaries
  obtain ⟨frames, front, order⟩ := wired
  have yielded := (parses_encodeAll frames).feedAll_front (arrived.trans front)
  rw [← map_frame_payload] at order
  rw [yields_eq]
  exact (yielded.map WsFrame.payload).sublist.trans order

def acceptedTransport (outlook : List SocketWrite) : WsTransport :=
  { socket := ⟨[], .pending, [], outlook, []⟩, client := false, connected := true, assembler := .init
    keys := [] }

def sendTwice : List SendAction := [.send [1, 2, 3], .send [7, 8, 9]]

/-- The first frame is cut after three of its five bytes, and the peer reads
bytes of both frames as one payload. -/
theorem cut_frame_desynchronises :
    (exec sendStep ⟨acceptedTransport [.accepts 3, .timesOut, .accepts 5], []⟩
        sendTwice).transport.connected = true ∧
      ¬List.Sublist ((yields [(exec sendStep
          ⟨acceptedTransport [.accepts 3, .timesOut, .accepts 5], []⟩
          sendTwice).transport.socket.written]).map WsFrame.payload)
        (exec sendStep ⟨acceptedTransport [.accepts 3, .timesOut, .accepts 5], []⟩
          sendTwice).sent := by
  decide

/-- The first send waits once and then goes through. -/
theorem waiting_send_in_order :
    List.Sublist ((yields [(exec sendStep
        ⟨acceptedTransport [.accepts 3, .writable, .accepts 2, .accepts 5], []⟩
        sendTwice).transport.socket.written]).map WsFrame.payload) [[1, 2, 3], [7, 8, 9]] := by
  have boundaries : Along sendStep AtBoundary
      ⟨acceptedTransport [.accepts 3, .writable, .accepts 2, .accepts 5], []⟩ sendTwice :=
    ⟨.inr (.inr ⟨by decide, [], rfl⟩),
      .inr (.inr ⟨by decide, [⟨.binary, [1, 2, 3], false, [], true, by decide⟩], rfl⟩), trivial⟩
  exact payloads_in_order rfl boundaries (by simp only [List.flatten_singleton, List.prefix_rfl])

end Skittermouse.Framing

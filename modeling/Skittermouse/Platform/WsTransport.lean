import Skittermouse.Net.FrameAssembler
import Skittermouse.Net.Transport

namespace Skittermouse.Platform

open Skittermouse.Data Skittermouse.Net

/-! # A WebSocket transport over a socket

`WinWsTransport` and `PosixWsTransport` are the same program once the opening
handshake is done, the one over plain TCP and the other over TLS, where a read ends
with the record that it began in. What the socket will answer and what
`randomBytes` will return are a part of the state.
-/

inductive SocketWrite where
  | accepts (count : Nat)
  /-- The write would block, and the socket is writable within 100 ms. -/
  | writable
  | timesOut
  | fails
deriving DecidableEq

inductive SocketEnd where
  | pending
  | closed
  | broken
deriving DecidableEq

inductive SocketRead where
  | data (bytes : Bytes)
  | closed
  | wouldBlock
  | fails
deriving DecidableEq

structure Socket where
  readable : Bytes
  ending : SocketEnd
  written : Bytes
  /-- What it will answer to writes; after that, waiting for it times out. -/
  outlook : List SocketWrite
  /-- The most that each read of a `recv` to come hands over: over TLS what is left of a
  record. Over plain TCP, and when the list is used up, a read takes what it has room for. -/
  records : List Nat
deriving DecidableEq

namespace Socket

/-- A read hands over one byte at least where there is one. -/
def readLimit (records : List Nat) (cap : Nat) : Nat := min cap (max 1 (records.headD cap))

def recvRaw (socket : Socket) (cap : Nat) : SocketRead × Socket :=
  if socket.readable = [] then
    match socket.ending with
    | .pending => (.wouldBlock, socket)
    | .closed => (.closed, socket)
    | .broken => (.fails, socket)
  else
    let count := readLimit socket.records cap
    (.data (socket.readable.take count),
      { socket with readable := socket.readable.drop count, records := socket.records.tail })

/-- The write loop: whether all of the data was accepted, the bytes that were,
and what the socket will answer next. -/
def writeLoop : List SocketWrite → Bytes → Bool × Bytes × List SocketWrite
  | outlook, [] => (true, [], outlook)
  | [], _ => (false, [], [])
  | .accepts count :: outlook, data =>
      if count = 0 then (false, [], outlook)
      else
        let (sent, written, outlook) := writeLoop outlook (data.drop count)
        (sent, data.take count ++ written, outlook)
  | .writable :: outlook, data => writeLoop outlook data
  | .timesOut :: outlook, _ => (false, [], outlook)
  | .fails :: outlook, _ => (false, [], outlook)

def sendAll (socket : Socket) (data : Bytes) : Bool × Socket :=
  let (sent, written, outlook) := writeLoop socket.outlook data
  (sent, { socket with written := socket.written ++ written, outlook })

theorem recvRaw_data {socket after : Socket} {cap : Nat} {bytes : Bytes}
    (read : socket.recvRaw cap = (.data bytes, after)) :
    bytes ++ after.readable = socket.readable := by
  unfold recvRaw at read
  split at read
  · split at read <;> cases read
  · cases read
    exact List.take_append_drop _ _

theorem writeLoop_sent {outlook : List SocketWrite} {data : Bytes}
    (sent : (writeLoop outlook data).1 = true) : (writeLoop outlook data).2.1 = data := by
  fun_induction writeLoop outlook data with
  | case1 => rfl
  | case4 count outlook data nonempty some_ sent_ written left result ih =>
      rw [result] at ih
      dsimp only at ih sent ⊢
      rw [ih sent, List.take_append_drop]
  | case5 outlook data nonempty ih => exact ih sent
  | case2 | case3 | case6 | case7 => contradiction

theorem sendAll_sent {socket : Socket} {data : Bytes} (sent : (socket.sendAll data).1 = true) :
    socket.sendAll data = (true,
      { socket with
        written := socket.written ++ data
        outlook := (writeLoop socket.outlook data).2.2 }) := by
  unfold sendAll at sent ⊢
  dsimp only at sent ⊢
  rw [writeLoop_sent sent, sent]

end Socket

structure WsTransport where
  socket : Socket
  client : Bool
  connected : Bool
  assembler : WsFrameAssembler
  keys : List Bytes
deriving DecidableEq

namespace WsTransport

def kReadSize : Nat := 4096

def copyFrame (frame : WsFrame) (cap : Nat) : Bytes := frame.payload.take cap

def send (transport : WsTransport) (data : Bytes) : Bool × WsTransport :=
  if transport.connected = false then (false, transport)
  else
    let frame := wsEncodeFrame .binary data transport.client (transport.keys.headD []) true
    let (sent, socket) := transport.socket.sendAll frame
    (sent, { transport with
      socket
      keys := if transport.client then transport.keys.tail else transport.keys })

def recv (transport : WsTransport) (cap : Nat) : Option Bytes × WsTransport :=
  if transport.connected = false then (none, transport)
  else match transport.assembler.next with
  | (some out, assembler) => (some (copyFrame out cap), { transport with assembler })
  | (none, assembler) => match transport.socket.recvRaw kReadSize with
    | (.closed, socket) => (none, { transport with assembler, socket, connected := false })
    | (.wouldBlock, socket) => (some [], { transport with assembler, socket })
    | (.fails, socket) => (none, { transport with assembler, socket, connected := false })
    | (.data bytes, socket) => match (assembler.feed bytes).next with
      | (some out, assembler) => (some (copyFrame out cap), { transport with assembler, socket })
      | (none, assembler) => (some [], { transport with assembler, socket })

def close (transport : WsTransport) : WsTransport := { transport with connected := false }

def stream (transport : WsTransport) : Bytes := transport.assembler.buf ++ transport.socket.readable

variable {transport : WsTransport}

theorem next_some {assembler after : WsFrameAssembler} {frame : WsFrame}
    (popped : assembler.next = (some frame, after)) :
    ∃ consumed, wsDecodeFrame assembler.buf = .frame frame consumed ∧
      after.buf = assembler.buf.drop consumed := by
  rw [WsFrameAssembler.next_eq] at popped
  simp only [StreamDecoder.next, wsDecoder] at popped
  cases decided : wsDecodeFrame assembler.buf with
  | frame value consumed =>
      simp only [decided, Prod.mk.injEq, Option.some.injEq] at popped
      obtain ⟨rfl, rfl⟩ := popped
      exact ⟨consumed, rfl, rfl⟩
  | needMore => simp [decided] at popped
  | failed => simp [decided] at popped

theorem next_frame {assembler : WsFrameAssembler} {frame : WsFrame} {consumed : Nat}
    (found : wsDecodeFrame assembler.buf = .frame frame consumed) :
    assembler.next = (some frame, ⟨assembler.buf.drop consumed⟩) := by
  rw [WsFrameAssembler.next_eq]
  simp only [StreamDecoder.next, wsDecoder, found]

theorem next_needMore {assembler : WsFrameAssembler}
    (waits : wsDecodeFrame assembler.buf = .needMore) : assembler.next = (none, assembler) := by
  rw [WsFrameAssembler.next_eq]
  simp only [StreamDecoder.next, wsDecoder, waits]

theorem next_none_length {assembler after : WsFrameAssembler}
    (none : assembler.next = (none, after)) : after.buf.length ≤ assembler.buf.length := by
  rw [WsFrameAssembler.next_eq] at none
  simp only [StreamDecoder.next, wsDecoder] at none
  cases decided : wsDecodeFrame assembler.buf with
  | frame value consumed => simp [decided] at none
  | needMore =>
      simp only [decided, Prod.mk.injEq, true_and] at none
      rw [← none]
  | failed =>
      simp only [decided, Prod.mk.injEq, true_and] at none
      rw [← none]
      exact Nat.zero_le _

theorem recv_shrinks {cap : Nat} {message : Bytes} (received : (transport.recv cap).1 = some message)
    (nonempty : message ≠ []) : (transport.recv cap).2.stream.length < transport.stream.length := by
  unfold recv at received ⊢
  split at received
  · contradiction
  · rename_i up
    rw [if_neg up]
    split at received
    · rename_i out assembler popped
      obtain ⟨consumed, found, rest⟩ := next_some popped
      have bounds := wsDecoder.progress found
      simp only [stream, rest, List.length_append, List.length_drop]
      omega
    · rename_i assembler popped
      have kept := next_none_length popped
      split at received
      · contradiction
      · cases received
        contradiction
      · contradiction
      · rename_i bytes socket read
        have joined := Socket.recvRaw_data read
        split at received
        · rename_i out later poppedLater
          obtain ⟨consumed, found, rest⟩ := next_some poppedLater
          have bounds := wsDecoder.progress found
          have total := congrArg List.length joined
          simp only [stream, rest, WsFrameAssembler.feed, List.length_append,
            List.length_drop] at bounds total ⊢
          omega
        · cases received
          contradiction

theorem recv_fits {cap : Nat} {message : Bytes} (received : (transport.recv cap).1 = some message) :
    message.length ≤ cap := by
  have copied : ∀ frame : WsFrame, (copyFrame frame cap).length ≤ cap :=
    fun frame => List.length_take_le _ _
  unfold recv at received
  split at received
  · contradiction
  · split at received
    · cases received
      exact copied _
    · split at received
      · contradiction
      · cases received
        exact Nat.zero_le _
      · contradiction
      · split at received
        · cases received
          exact copied _
        · cases received
          exact Nat.zero_le _

theorem send_assembler (transport : WsTransport) (data : Bytes) :
    (transport.send data).2.stream = transport.stream := by
  unfold send
  split <;> rfl

instance : Transport WsTransport where
  isConnected := connected
  send := send
  recv := recv
  close := close
  backlog transport := transport.stream.length
  recv_fits := recv_fits
  recv_backlog := recv_shrinks
  send_backlog transport data := (congrArg List.length (send_assembler transport data)).le

end WsTransport

end Skittermouse.Platform

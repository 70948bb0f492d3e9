import Skittermouse.Data.Words

namespace Skittermouse.Net

open Skittermouse.Data

/-- The abstract transport. `recv` returns `none` for -1, `some []` for 0 and
the received bytes otherwise. `backlog` is ghost: it bounds how many receives
can still yield data, which is what ends a caller's drain loop. -/
class Transport (τ : Type) where
  isConnected : τ → Bool
  send : τ → Bytes → Bool × τ
  recv : τ → Nat → Option Bytes × τ
  close : τ → τ
  backlog : τ → Nat
  recv_fits : ∀ {transport cap message},
    (recv transport cap).1 = some message → message.length ≤ cap
  recv_backlog : ∀ {transport cap message}, (recv transport cap).1 = some message →
    message ≠ [] → backlog (recv transport cap).2 < backlog transport
  send_backlog : ∀ transport message, backlog (send transport message).2 ≤ backlog transport

/-- One end of a message link. Sending appends to `outbox`; what the network
has carried here waits in `inbox`. A message longer than the caller's buffer
is cut to it. `id` names the link, for both of its ends. -/
structure Wire where
  id : Nat
  connected : Bool
  inbox : List Bytes
  outbox : List Bytes
deriving DecidableEq

namespace Wire

def send (wire : Wire) (message : Bytes) : Bool × Wire :=
  if wire.connected then (true, { wire with outbox := wire.outbox ++ [message] }) else (false, wire)

def recv (wire : Wire) (cap : Nat) : Option Bytes × Wire :=
  if wire.connected then
    match wire.inbox with
    | [] => (some [], wire)
    | message :: rest => (some (message.take cap), { wire with inbox := rest })
  else (none, wire)

def close (wire : Wire) : Wire := { wire with connected := false }

instance : Transport Wire where
  isConnected := Wire.connected
  send := send
  recv := recv
  close := close
  backlog wire := wire.inbox.length
  recv_fits {wire cap message} received := by
    unfold recv at received
    split at received
    · split at received
      · cases received
        exact Nat.zero_le _
      · cases received
        exact List.length_take_le _ _
    · contradiction
  recv_backlog {wire cap message} received some := by
    unfold recv at received ⊢
    split at received
    · rename_i connected
      rw [if_pos connected]
      split at received
      · cases received
        contradiction
      · rename_i inbox
        simp [inbox]
    · contradiction
  send_backlog wire message := by
    unfold send
    split <;> exact Nat.le_refl _

theorem recv_nil {wire : Wire} (cap : Nat) (connected : wire.connected = true)
    (empty : wire.inbox = []) : Transport.recv wire cap = (some [], wire) := by
  simp [Transport.recv, recv, connected, empty]

theorem recv_cons {wire : Wire} {message : Bytes} {rest : List Bytes} (cap : Nat)
    (connected : wire.connected = true) (waiting : wire.inbox = message :: rest) :
    Transport.recv wire cap = (some (message.take cap), { wire with inbox := rest }) := by
  simp [Transport.recv, recv, connected, waiting]

theorem recv_head {wire : Wire} {cap : Nat} {message : Bytes}
    (received : (Transport.recv wire cap).1 = some message) (nonempty : message ≠ []) :
    ∃ whole rest, wire.inbox = whole :: rest ∧ message <+: whole := by
  simp only [Transport.recv, recv] at received
  split at received
  · split at received
    · cases received
      contradiction
    · rename_i whole rest queue
      cases received
      exact ⟨whole, rest, queue, List.take_prefix _ _⟩
  · contradiction

theorem recv_some {wire : Wire} {cap : Nat} {message : Bytes}
    (received : (Transport.recv wire cap).1 = some message) (nonempty : message ≠ []) :
    ∃ whole ∈ wire.inbox, message <+: whole := by
  obtain ⟨whole, rest, queue, head⟩ := recv_head received nonempty
  exact ⟨whole, queue ▸ List.mem_cons_self, head⟩

theorem send_eq {wire : Wire} (message : Bytes) (connected : wire.connected = true) :
    Transport.send wire message = (true, { wire with outbox := wire.outbox ++ [message] }) := by
  simp [Transport.send, send, connected]

end Wire

end Skittermouse.Net

import Skittermouse.App.ConnectionManager

namespace Skittermouse.App

open Skittermouse.Data Skittermouse.Core Skittermouse.Net

/-! # The connection manager and its transports as objects

`ConnectionManager` names a pointer after the entry that owns its transport. Here
a transport is an object with an address of its own, `pending_` and `connected_`
own objects, and the node holds plain addresses: whether those two agree is a
matter of the order in which `poll` does things.
-/

structure PendingLink where
  address : Nat
  expected : PeerId
deriving DecidableEq

inductive LinkCall where
  | peerConnected (id : PeerId)
  | peerDisconnected (id : PeerId)
deriving DecidableEq

structure ConnectionTable (τ : Type) where
  /-- The heap holds every transport that has not been destroyed. -/
  mesh : Host Nat τ
  pending : List PendingLink
  connected : OrdMap PeerId Nat
  /-- The next object's address; an address is not used twice. -/
  next : Nat
  /-- Whom each transport was dialed for. No operation reads this. -/
  dialed : OrdMap Nat PeerId
  calls : List LinkCall

namespace ConnectionTable

variable {τ : Type}

def init (τ : Type) (self : PeerId) : ConnectionTable τ :=
  { mesh := .init Nat τ self, pending := [], connected := ∅, next := 0, dialed := ∅, calls := [] }

def isConnected (table : ConnectionTable τ) (id : PeerId) : Bool := table.connected.contains id

def store (table : ConnectionTable τ) (address : Nat) (transport : τ) : ConnectionTable τ :=
  { table with mesh.heap := table.mesh.heap.insert address transport }

def destroy (table : ConnectionTable τ) (address : Nat) : ConnectionTable τ :=
  { table with mesh.heap := table.mesh.heap.erase address }

/-- `connected_` takes the transport over, and the node gets its address. -/
def promote (table : ConnectionTable τ) (id : PeerId) (address : Nat) : ConnectionTable τ :=
  { table with
    connected := table.connected.insert id address
    mesh := table.mesh.addPeer id (some address)
    calls := .peerConnected id :: table.calls }

variable [Transport τ]

def addOutgoing (table : ConnectionTable τ) (expected : PeerId) : Option τ → ConnectionTable τ
  | none => table
  | some transport =>
      { table.store table.next (ConnectionManager.announce transport table.mesh.node.self) with
        pending := table.pending ++ [⟨table.next, expected⟩]
        next := table.next + 1
        dialed := table.dialed.insert table.next expected }

def addIncoming (table : ConnectionTable τ) (transport : Option τ) : ConnectionTable τ :=
  table.addOutgoing [] transport

def resolve (table : ConnectionTable τ) (link : PendingLink) : ConnectionManager.Resolution τ :=
  match table.mesh.heap.find? link.address with
  | none => .drop
  | some transport =>
      if Transport.isConnected transport = false then .drop
      else match Transport.recv transport ConnectionManager.kHelloBufferSize with
      | (none, _) => .drop
      | (some [], transport) => .wait transport
      | (some data, transport) => match decodePeerHello data with
        | none => .drop
        | some id =>
            -- junk / self
            if id = [] ∨ id = table.mesh.node.self then .drop
            -- not who we dialed
            else if link.expected ≠ [] ∧ id ≠ link.expected then .drop
            -- duplicate link
            else if table.isConnected id then .drop
            else .promote id transport

def resolveNext (table : ConnectionTable τ) (link : PendingLink) : ConnectionTable τ :=
  match table.resolve link with
  | .wait transport =>
      { table.store link.address transport with pending := table.pending ++ [link] }
  | .drop => table.destroy link.address
  | .promote id transport => (table.store link.address transport).promote id link.address

def resolvePending (table : ConnectionTable τ) : ConnectionTable τ :=
  table.pending.foldl resolveNext { table with pending := [] }

def isUp (table : ConnectionTable τ) (address : Nat) : Bool :=
  (table.mesh.heap.find? address).any Transport.isConnected

/-- One turn of the loop over `connected_`: the node forgets a dead link before
its transport is destroyed. -/
def reapNext (hook : OwnerHook) (table : ConnectionTable τ) (id : PeerId) : ConnectionTable τ :=
  match table.connected.find? id with
  | none => table
  | some address =>
      if table.isUp address then table
      else
        { table with
          mesh := table.mesh.removePeer hook id
          calls := .peerDisconnected id :: table.calls
          connected := table.connected.erase id }.destroy address

def reap (hook : OwnerHook) (table : ConnectionTable τ) : ConnectionTable τ :=
  (table.connected.entries.map Prod.fst).foldl (reapNext hook) table

def poll (hook : OwnerHook) (table : ConnectionTable τ) (now : UInt64) : ConnectionTable τ :=
  let table := table.resolvePending.reap hook
  { table with mesh := (table.mesh.poll hook now).sendHeartbeats now }

end ConnectionTable

end Skittermouse.App

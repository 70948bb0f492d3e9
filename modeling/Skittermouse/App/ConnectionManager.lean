import Skittermouse.App.MeshNode
import Skittermouse.Net.PeerHello

namespace Skittermouse.App

open Skittermouse.Data Skittermouse.Core Skittermouse.Net

structure Pending (τ : Type) where
  transport : τ
  /-- Empty for an inbound link, whose identity is learned from its hello. -/
  expected : PeerId

/-- The heap of `mesh` is `connected_`: it owns the transports the node points
to, and such a pointer is named after the entry that owns its transport. -/
structure ConnectionManager (τ : Type) where
  mesh : Host PeerId τ
  pending : List (Pending τ)

namespace ConnectionManager

variable {τ : Type}

def init (self : PeerId) : ConnectionManager τ := { mesh := .init PeerId τ self, pending := [] }

def connected (manager : ConnectionManager τ) : OrdMap PeerId τ := manager.mesh.heap

def isConnected (manager : ConnectionManager τ) (id : PeerId) : Bool := manager.connected.contains id

/-- The link is registered under the id its hello has named. -/
def promote (manager : ConnectionManager τ) (id : PeerId) (transport : τ) : ConnectionManager τ :=
  { manager with
    mesh := { manager.mesh with heap := manager.mesh.heap.insert id transport }.addPeer id (some id) }

variable [Transport τ]

def announce (transport : τ) (self : PeerId) : τ :=
  (Transport.send transport (encodePeerHello self)).2

def addOutgoing (manager : ConnectionManager τ) (expected : PeerId) :
    Option τ → ConnectionManager τ
  | none => manager
  | some transport =>
      { manager with
        pending := manager.pending ++ [⟨announce transport manager.mesh.node.self, expected⟩] }

def addIncoming (manager : ConnectionManager τ) (transport : Option τ) : ConnectionManager τ :=
  manager.addOutgoing [] transport

inductive Resolution (τ : Type) where
  | wait (transport : τ)
  | drop
  | promote (id : PeerId) (transport : τ)

def kHelloBufferSize : Nat := 1024

def resolve (manager : ConnectionManager τ) (pending : Pending τ) : Resolution τ :=
  if Transport.isConnected pending.transport = false then .drop
  else match Transport.recv pending.transport kHelloBufferSize with
  | (none, _) => .drop
  | (some [], transport) => .wait transport
  | (some data, transport) => match decodePeerHello data with
    | none => .drop
    | some id =>
        -- junk / self
        if id = [] ∨ id = manager.mesh.node.self then .drop
        -- not who we dialed
        else if pending.expected ≠ [] ∧ id ≠ pending.expected then .drop
        -- duplicate link
        else if manager.isConnected id then .drop
        else .promote id transport

/-- One turn of the loop over `pending_`; the links that keep waiting collect
in the pending list. -/
def resolveNext (manager : ConnectionManager τ) (pending : Pending τ) : ConnectionManager τ :=
  match manager.resolve pending with
  | .wait transport => { manager with pending := manager.pending ++ [{ pending with transport }] }
  | .drop => manager
  | .promote id transport => manager.promote id transport

def resolvePending (manager : ConnectionManager τ) : ConnectionManager τ :=
  manager.pending.foldl resolveNext { manager with pending := [] }

/-- A dead link is unregistered, and then its transport goes. -/
def reapNext (hook : OwnerHook) (manager : ConnectionManager τ) (id : PeerId) :
    ConnectionManager τ :=
  match manager.connected.find? id with
  | none => manager
  | some transport =>
      if Transport.isConnected transport then manager
      else
        let mesh := manager.mesh.removePeer hook id
        { manager with mesh := { mesh with heap := mesh.heap.erase id } }

def reap (hook : OwnerHook) (manager : ConnectionManager τ) : ConnectionManager τ :=
  (manager.connected.entries.map Prod.fst).foldl (reapNext hook) manager

def poll (hook : OwnerHook) (manager : ConnectionManager τ) (now : UInt64) : ConnectionManager τ :=
  let manager := manager.resolvePending.reap hook
  { manager with mesh := (manager.mesh.poll hook now).sendHeartbeats now }

end ConnectionManager

end Skittermouse.App

import Skittermouse.App.ConnectionService
import Skittermouse.Data.Exec
import Skittermouse.Link.Resolution

/-! # The key a link is sealed with, and the peer it is registered as

The clear hint of an inbound link selects its key, and the sealed hello names
the peer. A dialed link has its name checked against the peer that was dialed;
an accepted link has nothing to be checked against.
-/

namespace Skittermouse.Link

open Skittermouse.Data Skittermouse.Core Skittermouse.Net Skittermouse.Pairing Skittermouse.App

inductive Place where
  | handshake (index : Nat)
  | pending (index : Nat)
  | connected (id : PeerId)

inductive ServiceAction (τ : Type) where
  | pollConnections (now : UInt64) (dialed : Nat → Option τ) (accepted : Option τ)
  | poll (now : UInt64)
  /-- The remote end and the network do whatever they want to a socket. -/
  | remote (place : Place) (raw : τ)

variable {aead : Aead} {τ : Type}

def onSocket (service : ConnectionService aead τ) (raw : τ) : Place → ConnectionService aead τ
  | .handshake index =>
      { service with
        pendingIn := service.pendingIn.modify index fun handshake =>
          { handshake with raw := handshake.raw.map fun _ => raw } }
  | .pending index =>
      { service with
        manager.pending := service.manager.pending.modify index fun pending =>
          { pending with transport.inner := raw } }
  | .connected id =>
      { service with
        manager.mesh.heap := service.manager.mesh.heap.modify id fun link =>
          { link with inner := raw } }

variable [Transport τ]

def serviceStep (hook : OwnerHook) :
    ServiceAction τ → ConnectionService aead τ → ConnectionService aead τ
  | .pollConnections now dialed accepted, service => service.pollConnections now dialed accepted
  | .poll now, service => { service with manager := service.manager.poll hook now }
  | .remote place raw, service => onSocket service raw place

/-- On an accepted link, the waiting hello names nobody whose key does not seal
the link. A name that is dropped anyway may be any. -/
def HonestHello (keys : KeyStore) (pending : Pending (EncryptedTransport aead τ))
    (manager : ConnectionManager (EncryptedTransport aead τ)) : Prop :=
  pending.expected = [] → ∀ id, pending.Names id → id ≠ [] → id ≠ manager.mesh.node.self →
    manager.isConnected id = false → keys.getPsk id = some pending.transport.key

/-- Each link is judged when the loop over the pending links comes to it, with the
links that are registered by then. -/
def HonestHellos : ServiceAction τ → ConnectionService aead τ → Prop
  | .poll _, service =>
      Along (fun pending manager => ConnectionManager.resolveNext manager pending)
        (HonestHello service.keys) { service.manager with pending := [] } service.manager.pending
  | _, _ => True

theorem used_key {before after : EncryptedTransport aead τ} (used : Used true before after) :
    after.key = before.key := by
  refine used.preserves (fun link => link.key = before.key) (fun link data kept => ?_)
    (fun _ link cap kept => ?_) rfl
  · obtain ⟨inner, sendCtr, sent⟩ := link.send_frame data
    exact (congrArg EncryptedTransport.key sent).trans kept
  · exact (EncryptedTransport.recv_keeps link cap).1.trans kept

def sealedFor (keys : KeyStore) (id : PeerId) (link : EncryptedTransport aead τ) : Prop :=
  keys.getPsk id = some link.key

/-- A link that was dialed is sealed for the peer that was dialed. -/
def DialedRight (keys : KeyStore) (pending : Pending (EncryptedTransport aead τ)) : Prop :=
  pending.expected ≠ [] → sealedFor keys pending.expected pending.transport

structure Bound (keys : KeyStore) (service : ConnectionService aead τ) : Prop where
  store : service.keys = keys
  connected : service.manager.Holds (sealedFor keys)
  registered : service.manager.Registered
  dialed : ∀ pending ∈ service.manager.pending, DialedRight keys pending

variable {keys : KeyStore} {service : ConnectionService aead τ}
variable {manager : ConnectionManager (EncryptedTransport aead τ)}

theorem lasting_sealedFor (id : PeerId) (before after : EncryptedTransport aead τ)
    (sealedBefore : sealedFor keys id before) (used : Used true before after) :
    sealedFor keys id after :=
  sealedBefore.trans (congrArg some (used_key used).symm)

theorem bound_init (keys : KeyStore) (self : PeerId) (peers : List ServicePeer) :
    Bound keys (ConnectionService.init keys self peers : ConnectionService aead τ) where
  store := rfl
  connected := ⟨fun id link found => by contradiction, lasting_sealedFor⟩
  registered id pointer found := by contradiction
  dialed pending member := absurd member List.not_mem_nil

theorem Bound.addOutgoing {expected : PeerId} {link : EncryptedTransport aead τ}
    (bound : Bound keys service) (right : expected ≠ [] → sealedFor keys expected link) :
    Bound keys { service with manager := service.manager.addOutgoing expected (some link) } := by
  refine ⟨bound.store, ⟨bound.connected.links, bound.connected.lasting⟩, bound.registered,
    fun pending member => ?_⟩
  rcases List.mem_append.mp member with old | new
  · exact bound.dialed pending old
  · rw [List.mem_singleton.mp new]
    exact fun wanted => lasting_sealedFor _ _ _ (right wanted) (Used.refl.sent _)

theorem Bound.dialPeer (bound : Bound keys service) (now : UInt64) (peer : ServicePeer)
    (raw : Option τ) : Bound keys (service.dialPeer now peer raw) := by
  simp only [ConnectionService.dialPeer]
  split
  · exact bound
  · split
    · exact bound
    · have noted : Bound keys
          { service with lastDial := service.lastDial.insert peer.id now } :=
        ⟨bound.store, bound.connected, bound.registered, bound.dialed⟩
      split
      · exact noted
      · rename_i link found
        obtain ⟨named, raw, psk, stored, built⟩ := secureOutbound_fresh found
        refine noted.addOutgoing fun _ => ?_
        rw [sealedFor, built, ← bound.store, ← named]
        exact stored

theorem Bound.advanceNext (bound : Bound keys service) (handshake : InboundHandshake aead τ) :
    Bound keys (service.advanceNext handshake) := by
  simp only [ConnectionService.advanceNext]
  split
  · cases (handshake.poll service.keys).take with
    | none => exact bound
    | some link => exact bound.addOutgoing fun wanted => absurd rfl wanted
  · exact ⟨bound.store, bound.connected, bound.registered, bound.dialed⟩
  · exact bound
  · exact bound

theorem Bound.pollConnections (bound : Bound keys service) (now : UInt64)
    (dialed : Nat → Option τ) (accepted : Option τ) :
    Bound keys (service.pollConnections now dialed accepted) := by
  have accepts : ∀ {reached : ConnectionService aead τ}, Bound keys reached →
      Bound keys { reached.accept accepted with pendingIn := [] } := by
    intro reached held
    cases accepted with
    | none => exact ⟨held.store, held.connected, held.registered, held.dialed⟩
    | some raw => exact ⟨held.store, held.connected, held.registered, held.dialed⟩
  rw [ConnectionService.pollConnections, ConnectionService.advance]
  refine List.foldlRecOn _ _ ?_ fun _ held handshake _ => held.advanceNext handshake
  refine accepts ?_
  exact List.foldlRecOn _ _ bound fun _ held entry _ =>
    held.dialPeer now entry.1 (dialed entry.2)

/-- The turns taken so far leave every link sealed for the peer it stands for. -/
structure Resolving (keys : KeyStore) (manager : ConnectionManager (EncryptedTransport aead τ)) :
    Prop where
  connected : manager.Holds (sealedFor keys)
  registered : manager.Registered
  dialed : ∀ pending ∈ manager.pending, DialedRight keys pending

theorem sealed_of_admits {pending : Pending (EncryptedTransport aead τ)} {id : PeerId}
    (honest : HonestHello keys pending manager) (right : DialedRight keys pending)
    (admits : manager.Admits pending id) : sealedFor keys id pending.transport := by
  by_cases accepted : pending.expected = []
  · exact honest accepted id admits.names admits.nonempty admits.foreign admits.first
  · rw [admits.expected accepted]
    exact right accepted

theorem Resolving.turn {pending : Pending (EncryptedTransport aead τ)}
    (resolving : Resolving keys manager) (honest : HonestHello keys pending manager)
    (right : DialedRight keys pending) : Resolving keys (manager.resolveNext pending) := by
  have turn := manager.resolveNext_turn pending
  generalize manager.resolveNext pending = after at turn ⊢
  have used := ConnectionManager.received_used pending
  cases turn with
  | wait =>
      refine ⟨⟨resolving.connected.links, resolving.connected.lasting⟩, resolving.registered,
        fun other member => ?_⟩
      rcases List.mem_append.mp member with old | new
      · exact resolving.dialed other old
      · rw [List.mem_singleton.mp new]
        exact fun wanted => lasting_sealedFor _ _ _ (right wanted) used
  | drop => exact resolving
  | @promote id admits =>
      have sealedNow := lasting_sealedFor _ _ _ (sealed_of_admits honest right admits) used
      exact ⟨resolving.connected.promote sealedNow, resolving.registered.promote id _,
        resolving.dialed⟩

theorem Bound.poll (hook : OwnerHook) {now : UInt64} (bound : Bound keys service)
    (honest : HonestHellos (.poll now) service) :
    Bound keys { service with manager := service.manager.poll hook now } := by
  have started : Resolving keys { service.manager with pending := [] } :=
    ⟨⟨bound.connected.links, bound.connected.lasting⟩, bound.registered,
      fun _ member => absurd member List.not_mem_nil⟩
  rw [HonestHellos, bound.store] at honest
  have resolved : Resolving keys service.manager.resolvePending :=
    exec_invariant (fun pending _ resolving turn => resolving.turn turn.1 turn.2) started
      (honest.and (along_of_forall (fun pending member _ => bound.dialed pending member) _))
  refine ⟨bound.store, resolved.connected.poll now, resolved.registered.poll now, ?_⟩
  intro pending member
  rw [ConnectionManager.poll_pending] at member
  exact resolved.dialed pending member

theorem Bound.remote (bound : Bound keys service) (place : Place) (raw : τ) :
    Bound keys (onSocket service raw place) := by
  cases place with
  | handshake index => exact ⟨bound.store, bound.connected, bound.registered, bound.dialed⟩
  | pending index =>
      refine ⟨bound.store, ⟨bound.connected.links, bound.connected.lasting⟩, bound.registered,
        fun pending member => ?_⟩
      obtain ⟨position, found⟩ := List.mem_iff_getElem?.mp member
      simp only [onSocket, List.getElem?_modify, Option.map_eq_map, Option.map_eq_some_iff] at found
      obtain ⟨before, was, rfl⟩ := found
      have right := bound.dialed before (List.mem_of_getElem? was)
      split <;> exact right
  | connected id =>
      refine ⟨bound.store, ⟨fun other link found => ?_, bound.connected.lasting⟩,
        fun other pointer found => ?_, bound.dialed⟩
      · simp only [onSocket, ConnectionManager.connected, OrdMap.find?_modify] at found
        split at found
        · rename_i same
          obtain ⟨before, was, rfl⟩ := Option.map_eq_some_iff.mp found
          exact same ▸ bound.connected.links id before was
        · exact bound.connected.links other link found
      · obtain ⟨named, connected⟩ := bound.registered other pointer found
        refine ⟨named, ?_⟩
        simp only [onSocket, ConnectionManager.isConnected, ConnectionManager.connected,
          OrdMap.contains, OrdMap.find?_modify_isSome]
        exact connected

theorem Bound.step (hook : OwnerHook) (bound : Bound keys service) (action : ServiceAction τ)
    (honest : HonestHellos action service) : Bound keys (serviceStep hook action service) := by
  cases action with
  | pollConnections now dialed accepted => exact bound.pollConnections now dialed accepted
  | poll now => exact bound.poll hook honest
  | remote place raw => exact bound.remote place raw

/-- In a run in which the hellos on accepted links are honest, every connected
link and every peer of the node is sealed with the key stored for its id. -/
theorem links_sealed_for_their_peer (hook : OwnerHook) (keys : KeyStore) (self : PeerId)
    (peers : List ServicePeer) {actions : List (ServiceAction τ)}
    (honest : Along (serviceStep hook) HonestHellos
      (ConnectionService.init keys self peers : ConnectionService aead τ) actions) :
    (∀ id link, (exec (serviceStep hook) (ConnectionService.init keys self peers :
        ConnectionService aead τ) actions).manager.connected.find? id = some link →
      keys.getPsk id = some link.key) ∧
    (∀ id pointer, (exec (serviceStep hook) (ConnectionService.init keys self peers :
        ConnectionService aead τ) actions).manager.mesh.node.peers.find? id = some pointer →
      ∃ link, pointer = some id ∧ (exec (serviceStep hook) (ConnectionService.init keys self peers :
        ConnectionService aead τ) actions).manager.mesh.heap.find? id = some link ∧
        keys.getPsk id = some link.key) := by
  have bound : Bound keys (exec (serviceStep hook)
      (ConnectionService.init keys self peers : ConnectionService aead τ) actions) :=
    exec_invariant (fun action _ bound honest => bound.step hook action honest)
      (bound_init keys self peers) honest
  refine ⟨bound.connected.links, fun id pointer found => ?_⟩
  obtain ⟨named, connected⟩ := bound.registered id pointer found
  obtain ⟨link, linked⟩ := OrdMap.contains_iff.mp connected
  exact ⟨link, named, linked, bound.connected.links id link linked⟩

/-- "B" and "C" are paired with "A", under different keys. -/
def twoKeys : KeyStore :=
  (KeyStore.mk ∅).setPsk [66] (repeatedPsk 1) |>.setPsk [67] (repeatedPsk 2)

/-- A socket from "B": its hint is its own, and its sealed hello names `name`. -/
def socketNaming (name : PeerId) : Wire :=
  { id := 0, connected := true, outbox := []
    inbox := encodePeerHello [66] ::
      ((EncryptedTransport.create ⟨0, true, [], []⟩ (repeatedPsk 1) .responder :
        EncryptedTransport tagAead Wire).send (encodePeerHello name)).2.inner.outbox }

def acceptNaming (name : PeerId) : List (ServiceAction Wire) :=
  [.pollConnections 0 (fun _ => none) (some (socketNaming name)), .poll 0]

/-- "B" proves that it holds its own key, and is registered as "C". -/
theorem impersonation :
    ∃ link, (exec (serviceStep .silent) (ConnectionService.init twoKeys [65] [] :
        ConnectionService tagAead Wire) (acceptNaming [67])).manager.connected.find? [67] = some link ∧
      twoKeys.getPsk [67] ≠ some link.key :=
  ⟨_, rfl, by decide⟩

theorem honest_link_sealed :
    ∃ link, (exec (serviceStep .silent) (ConnectionService.init twoKeys [65] [] :
        ConnectionService tagAead Wire) (acceptNaming [66])).manager.connected.find? [66] = some link ∧
      twoKeys.getPsk [66] = some link.key := by
  have named : ∀ pending ∈ (serviceStep .silent (acceptNaming [66])[0]
      (ConnectionService.init twoKeys [65] [] : ConnectionService tagAead Wire)).manager.pending,
      Transport.isConnected pending.transport = true ∧
      (Transport.recv pending.transport ConnectionManager.kHelloBufferSize).1 =
        some (encodePeerHello [66]) ∧
      twoKeys.getPsk [66] = some pending.transport.key := by decide
  have honest : Along (serviceStep .silent) HonestHellos (ConnectionService.init twoKeys [65] [] :
      ConnectionService tagAead Wire) (acceptNaming [66]) := by
    refine ⟨trivial, along_of_forall (fun pending member _ _ id names _ _ _ => ?_) _, trivial⟩
    obtain ⟨up, received, stored⟩ := named pending member
    rw [names.unique ⟨up, encodePeerHello [66], received, rfl⟩]
    exact stored
  exact ⟨_, rfl, (links_sealed_for_their_peer .silent twoKeys [65] [] honest).1 [66] _ rfl⟩

end Skittermouse.Link

import Skittermouse.App.ConnectionManager
import Skittermouse.Mesh.Transports

/-! # What a poll of the connection manager does to the links

A pending link is received from once: it waits, it is dropped, or it is
registered under the id that its hello names. A registered link is only used
by the mesh, until it is found dead.
-/

namespace Skittermouse.App

open Skittermouse.Data Skittermouse.Core Skittermouse.Net

variable {τ : Type}

namespace ConnectionManager

/-- Every peer of the node is reached over the link that is connected under its id. -/
def Registered (manager : ConnectionManager τ) : Prop :=
  ∀ id pointer, manager.mesh.node.peers.find? id = some pointer →
    pointer = some id ∧ manager.isConnected id = true

theorem Registered.promote {manager : ConnectionManager τ} (registered : manager.Registered) (id : PeerId) (transport : τ) :
    Registered (manager.promote id transport) := by
  intro other pointer found
  simp only [ConnectionManager.promote, isConnected, connected, Host.addPeer, OrdMap.find?_insert,
    OrdMap.contains_insert] at found ⊢
  split at found
  · rename_i same
    cases found
    exact ⟨by rw [same], .inl same⟩
  · obtain ⟨named, connected⟩ := registered other pointer found
    exact ⟨named, .inr connected⟩

end ConnectionManager

variable [Transport τ] {hook : OwnerHook}
variable {manager : ConnectionManager τ} {pending : Pending τ} {id : PeerId} {transport : τ}

def Pending.Names (pending : Pending τ) (id : PeerId) : Prop :=
  Transport.isConnected pending.transport = true ∧
    ∃ data, (Transport.recv pending.transport ConnectionManager.kHelloBufferSize).1 = some data ∧
      decodePeerHello data = some id

theorem Pending.Names.unique {other : PeerId} (names : pending.Names id)
    (otherNames : pending.Names other) : id = other := by
  obtain ⟨_, data, received, decoded⟩ := names
  obtain ⟨_, same, otherReceived, otherDecoded⟩ := otherNames
  rw [received, Option.some.injEq] at otherReceived
  rw [← otherReceived, decoded, Option.some.injEq] at otherDecoded
  exact otherDecoded

namespace ConnectionManager

/-- A link that is registered has named the peer, and nothing speaks against it. -/
structure Admits (manager : ConnectionManager τ) (pending : Pending τ) (id : PeerId) : Prop where
  names : pending.Names id
  nonempty : id ≠ []
  foreign : id ≠ manager.mesh.node.self
  expected : pending.expected ≠ [] → id = pending.expected
  first : manager.isConnected id = false

def received (pending : Pending τ) : τ := (Transport.recv pending.transport kHelloBufferSize).2

theorem received_used (pending : Pending τ) : Used true pending.transport (received pending) :=
  Used.refl.received rfl kHelloBufferSize

theorem resolve_promote (promoted : manager.resolve pending = .promote id transport) :
    manager.Admits pending id ∧ transport = received pending := by
  simp only [resolve] at promoted
  split at promoted
  · contradiction
  · rename_i up
    split at promoted
    · contradiction
    · contradiction
    · rename_i data after notEmpty found
      split at promoted
      · contradiction
      · rename_i named decoded
        split at promoted
        · contradiction
        · rename_i usable
          split at promoted
          · contradiction
          · rename_i dialed
            split at promoted
            · contradiction
            · rename_i fresh
              cases promoted
              refine ⟨⟨⟨Bool.not_eq_false _ ▸ up, data, by rw [found], decoded⟩,
                fun empty => usable (.inl empty), fun own => usable (.inr own),
                fun wanted => ?_, Bool.not_eq_true _ ▸ fresh⟩, by rw [received, found]⟩
              by_contra other
              exact dialed ⟨wanted, other⟩

theorem resolve_wait (waits : manager.resolve pending = .wait transport) :
    transport = received pending ∧
      (Transport.recv pending.transport kHelloBufferSize).1 = some [] := by
  simp only [resolve] at waits
  split at waits
  · contradiction
  · split at waits
    · contradiction
    · rename_i found
      cases waits
      rw [received, found]
      exact ⟨rfl, rfl⟩
    · split at waits
      · contradiction
      · split at waits
        · contradiction
        · split at waits
          · contradiction
          · split at waits <;> contradiction

theorem resolve_admitted (admits : manager.Admits pending id) :
    manager.resolve pending = .promote id (received pending) := by
  obtain ⟨_, data, got, decoded⟩ := admits.names
  have up : ¬Transport.isConnected pending.transport = false := by
    rw [admits.names.1]
    exact nofun
  have both : Transport.recv pending.transport kHelloBufferSize = (some data, received pending) :=
    Prod.ext got rfl
  cases data with
  | nil => contradiction
  | cons byte rest =>
      have usable : ¬(id = [] ∨ id = manager.mesh.node.self) := fun either =>
        either.elim admits.nonempty admits.foreign
      have dialed : ¬(pending.expected ≠ [] ∧ id ≠ pending.expected) := fun wrong =>
        wrong.2 (admits.expected wrong.1)
      simp only [resolve, if_neg up, both, decoded, if_neg usable, if_neg dialed, admits.first,
        Bool.false_eq_true, if_false]

theorem resolve_duplicate (names : pending.Names id) (connected : manager.isConnected id = true) :
    manager.resolve pending = .drop := by
  cases resolved : manager.resolve pending with
  | wait transport =>
      obtain ⟨_, data, got, decoded⟩ := names
      have idle := (resolve_wait resolved).2
      rw [got, Option.some.injEq] at idle
      rw [idle] at decoded
      contradiction
  | drop => rfl
  | promote other transport =>
      have admits := (resolve_promote resolved).1
      have same := names.unique admits.names
      rw [← same] at admits
      exact absurd (connected.symm.trans admits.first) Bool.noConfusion

inductive Turn (manager : ConnectionManager τ) (pending : Pending τ) : ConnectionManager τ → Prop where
  | wait : Turn manager pending
      { manager with pending := manager.pending ++ [⟨received pending, pending.expected⟩] }
  | drop : Turn manager pending manager
  | promote {id : PeerId} (admits : manager.Admits pending id) :
      Turn manager pending (manager.promote id (received pending))

theorem resolveNext_turn (manager : ConnectionManager τ) (pending : Pending τ) :
    Turn manager pending (manager.resolveNext pending) := by
  rw [resolveNext]
  split
  · rename_i waits
    cases (resolve_wait waits).1
    exact .wait
  · exact .drop
  · rename_i promoted
    obtain ⟨admits, rfl⟩ := resolve_promote promoted
    exact .promote admits

/-- Every connected link has a property, whatever it is used for. -/
structure Holds (P : PeerId → τ → Prop) (manager : ConnectionManager τ) : Prop where
  links : ∀ id transport, manager.connected.find? id = some transport → P id transport
  lasting : ∀ id before after, P id before → Used true before after → P id after

variable {P : PeerId → τ → Prop}

theorem Holds.uses {mesh : Host PeerId τ} (holds : manager.Holds P) (uses : manager.mesh.Uses true mesh) :
    Holds P { manager with mesh } := by
  refine ⟨fun id transport found => ?_, holds.lasting⟩
  obtain ⟨earlier, was, used⟩ := uses.origin found
  exact holds.lasting id earlier transport (holds.links id earlier was) used

theorem Registered.uses {mesh : Host PeerId τ} (registered : manager.Registered)
    (uses : manager.mesh.Uses true mesh) : Registered { manager with mesh } := by
  intro id pointer found
  simp only [uses.peers] at found
  obtain ⟨named, connected⟩ := registered id pointer found
  exact ⟨named, (uses.contains id).trans connected⟩

theorem Holds.promote (holds : manager.Holds P) (fits : P id transport) :
    Holds P (manager.promote id transport) := by
  refine ⟨fun other link found => ?_, holds.lasting⟩
  simp only [ConnectionManager.promote, connected, Host.addPeer, OrdMap.find?_insert] at found
  split at found
  · rename_i same
    cases found
    rwa [same]
  · exact holds.links other link found

/-- A reaped link is gone; the others have at most been used. -/
inductive Reaping (manager : ConnectionManager τ) (id : PeerId) : ConnectionManager τ → Prop where
  | keep : Reaping manager id manager
  | reap {mesh : Host PeerId τ} (dead : ∀ transport, manager.connected.find? id = some transport →
      Transport.isConnected transport = false)
      (uses : (manager.mesh.forgetPeer id).Uses true mesh) :
      Reaping manager id { manager with mesh := { mesh with heap := mesh.heap.erase id } }

theorem reapNext_reaping (hook : OwnerHook) (manager : ConnectionManager τ) (id : PeerId) :
    Reaping manager id (manager.reapNext hook id) := by
  rw [reapNext]
  split
  · exact .keep
  · rename_i found
    split
    · exact .keep
    · rename_i dead
      refine .reap (fun transport same => ?_) (Host.removePeer_uses hook _ _)
      rw [found, Option.some.injEq] at same
      exact same ▸ Bool.not_eq_true _ ▸ dead

theorem reapNext_pending (manager : ConnectionManager τ) (id : PeerId) :
    (manager.reapNext hook id).pending = manager.pending := by
  have reaping := reapNext_reaping hook manager id
  generalize manager.reapNext hook id = after at reaping ⊢
  cases reaping <;> rfl

theorem Holds.reapNext (hook : OwnerHook) (holds : manager.Holds P) (id : PeerId) :
    Holds P (manager.reapNext hook id) := by
  have reaping := reapNext_reaping hook manager id
  generalize manager.reapNext hook id = after at reaping ⊢
  cases reaping with
  | keep => exact holds
  | reap dead uses =>
      refine ⟨fun other link found => ?_, holds.lasting⟩
      simp only [connected, OrdMap.find?_erase] at found
      split at found
      · contradiction
      · obtain ⟨earlier, was, used⟩ := uses.origin found
        rw [Host.forgetPeer_heap] at was
        exact holds.lasting other earlier link (holds.links other earlier was) used

theorem Registered.reapNext (hook : OwnerHook) (registered : manager.Registered) (id : PeerId) :
    Registered (manager.reapNext hook id) := by
  have reaping := reapNext_reaping hook manager id
  generalize manager.reapNext hook id = after at reaping ⊢
  cases reaping with
  | keep => exact registered
  | reap dead uses =>
      intro other pointer found
      simp only [uses.peers, Host.forgetPeer_node, OrdMap.find?_erase] at found
      split at found
      · contradiction
      · rename_i apart
        obtain ⟨named, connected⟩ := registered other pointer found
        refine ⟨named, (OrdMap.contains_erase _ _ _).mpr ⟨apart, ?_⟩⟩
        rw [uses.contains, Host.forgetPeer_heap]
        exact connected

theorem reap_preserves (hook : OwnerHook) (Q : ConnectionManager τ → Prop)
    (step : ∀ manager id, Q manager → Q (ConnectionManager.reapNext hook manager id))
    (holds : Q manager) : Q (manager.reap hook) := by
  rw [reap]
  generalize manager.connected.entries.map Prod.fst = ids
  induction ids generalizing manager with
  | nil => exact holds
  | cons id rest ih => exact ih (step manager id holds)

theorem resolveNext_find? (found : manager.connected.find? id = some transport)
    (pending : Pending τ) : (manager.resolveNext pending).connected.find? id = some transport := by
  have turn := manager.resolveNext_turn pending
  generalize manager.resolveNext pending = after at turn ⊢
  cases turn with
  | wait => exact found
  | drop => exact found
  | @promote other admits =>
      have apart : id ≠ other := fun same => by
        have present : manager.isConnected id = true := OrdMap.contains_iff.mpr ⟨transport, found⟩
        exact absurd (present.symm.trans (same ▸ admits.first)) Bool.noConfusion
      simp only [promote, connected, Host.addPeer, OrdMap.find?_insert_of_ne _ _ apart]
      exact found

theorem resolves_find? (found : manager.connected.find? id = some transport)
    (links : List (Pending τ)) :
    (links.foldl resolveNext manager).connected.find? id = some transport := by
  induction links generalizing manager with
  | nil => exact found
  | cons pending rest ih => exact ih (resolveNext_find? found pending)

theorem reapNext_find? (hook : OwnerHook) (found : manager.connected.find? id = some transport)
    (up : Transport.isConnected transport = true) (other : PeerId) :
    ∃ later, (manager.reapNext hook other).connected.find? id = some later ∧
      Used true transport later := by
  have reaping := reapNext_reaping hook manager other
  generalize manager.reapNext hook other = after at reaping ⊢
  cases reaping with
  | keep => exact ⟨transport, found, .refl⟩
  | @reap mesh dead uses =>
      have apart : id ≠ other := fun same =>
        Bool.false_ne_true ((dead transport (same ▸ found)).symm.trans up)
      have there : (manager.mesh.forgetPeer other).heap.find? id = some transport := by
        rw [Host.forgetPeer_heap]
        exact found
      obtain ⟨later, foundLater, used⟩ := uses.survivor there
      refine ⟨later, ?_, used⟩
      simp only [connected, OrdMap.find?_erase_of_ne _ apart]
      exact foundLater

theorem poll_find? (hook : OwnerHook) (now : UInt64)
    (found : manager.resolvePending.connected.find? id = some transport)
    (up : ∀ later, Used true transport later → Transport.isConnected later = true) :
    ∃ later, (manager.poll hook now).connected.find? id = some later ∧
      Used true transport later := by
  have reaped : ∃ later, (manager.resolvePending.reap hook).connected.find? id = some later ∧
      Used true transport later := by
    refine reap_preserves hook (fun after => ∃ later, after.connected.find? id = some later ∧
      Used true transport later) (fun after other kept => ?_) ⟨transport, found, .refl⟩
    obtain ⟨later, foundLater, used⟩ := kept
    obtain ⟨last, foundLast, usedLast⟩ := reapNext_find? hook foundLater (up later used) other
    exact ⟨last, foundLast, used.trans usedLast⟩
  obtain ⟨later, foundLater, used⟩ := reaped
  obtain ⟨last, foundLast, usedLast⟩ := ((Host.poll_uses hook _ now).trans
    (Host.sendHeartbeats_uses _ now)).survivor foundLater
  exact ⟨last, foundLast, used.trans usedLast⟩

theorem poll_pending (manager : ConnectionManager τ) (now : UInt64) :
    (manager.poll hook now).pending = manager.resolvePending.pending := by
  have reaped := reap_preserves hook
    (fun after => after.pending = manager.resolvePending.pending) (fun after id same => (reapNext_pending after id).trans same)
    (Eq.refl manager.resolvePending.pending)
  rw [poll]
  exact reaped

theorem resolves_self (links : List (Pending τ)) :
    (links.foldl resolveNext manager).mesh.node.self = manager.mesh.node.self := by
  induction links generalizing manager with
  | nil => rfl
  | cons pending rest ih =>
      refine ih.trans ?_
      have turn := manager.resolveNext_turn pending
      generalize manager.resolveNext pending = after at turn ⊢
      cases turn <;> rfl

theorem poll_self (manager : ConnectionManager τ) (now : UInt64) :
    (manager.poll hook now).mesh.node.self = manager.mesh.node.self := by
  have reaped : (manager.resolvePending.reap hook).mesh.node.self = manager.mesh.node.self := by
    refine reap_preserves hook (fun after => after.mesh.node.self = manager.mesh.node.self)
      (fun after id same => ?_) (resolves_self manager.pending)
    have reaping := reapNext_reaping hook after id
    generalize after.reapNext hook id = later at reaping ⊢
    cases reaping with
    | keep => exact same
    | reap dead uses => rwa [uses.self, Host.forgetPeer_node]
  have uses := (Host.poll_uses hook (manager.resolvePending.reap hook).mesh now).trans
    (Host.sendHeartbeats_uses _ now)
  simp only [poll]
  rw [uses.self, reaped]

theorem Holds.poll (now : UInt64) (holds : manager.resolvePending.Holds P) :
    Holds P (manager.poll hook now) :=
  (reap_preserves hook _ (fun _ id kept => kept.reapNext hook id) holds).uses
    ((Host.poll_uses hook _ now).trans (Host.sendHeartbeats_uses _ now))

theorem Registered.poll (now : UInt64) (registered : manager.resolvePending.Registered) :
    Registered (manager.poll hook now) :=
  (reap_preserves hook _ (fun _ id kept => kept.reapNext hook id) registered).uses
    ((Host.poll_uses hook _ now).trans (Host.sendHeartbeats_uses _ now))

end ConnectionManager

end Skittermouse.App

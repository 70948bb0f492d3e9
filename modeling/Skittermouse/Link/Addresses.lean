import Skittermouse.Link.Registration
import Skittermouse.Mesh.Renaming

namespace Skittermouse.App

open Skittermouse.Data Skittermouse.Core Skittermouse.Net

/-! # Addresses, and the entries that own them

In step, every address that the node holds belongs to one entry of the table, so
the entry's id can stand for it: the connection manager whose pointers are ids
does what the table does.
-/

namespace ConnectionTable

variable {τ : Type} {table : ConnectionTable τ} {manager : ConnectionManager τ}
variable {held after : List PendingLink} {rest : List (Pending τ)} {link : PendingLink}
variable {pending : Pending τ} {id : PeerId}

/-- A connected address goes by the id it is connected under. -/
def InStep.names (inStep : table.InStep held) : Renaming Nat PeerId where
  pairs address id := table.connected.find? id = some address
  unique first second := by
    constructor
    · rintro rfl
      exact inStep.alone _ _ _ first second
    · rintro rfl
      exact Option.some.inj (first.symm.trans second)

/-- The link of one list has the transport that the other list holds. -/
def Carries (table : ConnectionTable τ) (link : PendingLink) (pending : Pending τ) : Prop :=
  link.expected = pending.expected ∧ table.mesh.heap.find? link.address = some pending.transport

theorem carries_keep {later : ConnectionTable τ} {links : List PendingLink} {pendings : List (Pending τ)}
    (carried : List.Forall₂ table.Carries links pendings)
    (kept : ∀ link ∈ links, later.mesh.heap.find? link.address = table.mesh.heap.find? link.address) :
    List.Forall₂ later.Carries links pendings := by
  induction carried with
  | nil => exact .nil
  | @cons link pending links _ first rest ih =>
      have same := kept link List.mem_cons_self
      exact .cons ⟨first.1, same.trans first.2⟩
        (ih fun other member => kept other (List.mem_cons_of_mem _ member))

/-- The table with its addresses replaced by what they lead to; `after` and
`rest` are the pending links that a loop has not reached. -/
structure Stands (after : List PendingLink) (rest : List (Pending τ)) (table : ConnectionTable τ)
    (manager : ConnectionManager τ) : Prop where
  inStep : table.InStep (table.pending ++ after)
  node : ∃ peers, manager.mesh.node = table.mesh.node.withPeers peers
  peers : ∀ id, manager.mesh.node.peers.find? id = (table.connected.find? id).map fun _ => some id
  heap : ∀ id, manager.mesh.heap.find? id =
    (table.connected.find? id).bind fun address => table.mesh.heap.find? address
  trace : manager.mesh.trace = table.mesh.trace
  pending : List.Forall₂ table.Carries table.pending manager.pending
  waiting : List.Forall₂ table.Carries after rest

theorem Stands.self (stands : Stands after rest table manager) :
    manager.mesh.node.self = table.mesh.node.self := by
  obtain ⟨peers, node⟩ := stands.node
  rw [node]
  rfl

theorem Stands.find? (stands : Stands after rest table manager) {address : Nat}
    (found : table.connected.find? id = some address) :
    table.mesh.heap.find? address = manager.connected.find? id := by
  rw [ConnectionManager.connected, stands.heap, found]
  rfl

theorem Stands.isConnected (stands : Stands after rest table manager) (id : PeerId) :
    manager.isConnected id = table.isConnected id := by
  simp only [ConnectionManager.isConnected, ConnectionManager.connected, ConnectionTable.isConnected,
    OrdMap.contains, stands.heap]
  cases found : table.connected.find? id with
  | none => rfl
  | some address => exact stands.inStep.live id address found

theorem Stands.ids (stands : Stands after rest table manager) :
    manager.connected.entries.map Prod.fst = table.connected.entries.map Prod.fst := by
  have related : ∀ id, Option.Rel (fun _ _ => True) (manager.connected.find? id)
      (table.connected.find? id) := by
    intro id
    have same := stands.isConnected id
    simp only [ConnectionManager.isConnected, ConnectionTable.isConnected, OrdMap.contains] at same
    cases one : manager.connected.find? id <;> cases other : table.connected.find? id <;>
      rw [one, other] at same <;> first | contradiction | constructor
    trivial
  have entries := OrdMap.forall₂_entries related
  generalize manager.connected.entries = one, table.connected.entries = two at entries ⊢
  induction entries with
  | nil => rfl
  | cons same rest ih => rw [List.map_cons, List.map_cons, ih, same.1]

theorem Stands.keep (stands : Stands after rest table manager) {later : ConnectionTable τ}
    (kept : ∀ link ∈ table.pending ++ after,
      later.mesh.heap.find? link.address = table.mesh.heap.find? link.address) :
    List.Forall₂ later.Carries table.pending manager.pending ∧
      List.Forall₂ later.Carries after rest :=
  ⟨carries_keep stands.pending fun link member => kept link (List.mem_append_left _ member),
    carries_keep stands.waiting fun link member => kept link (List.mem_append_right _ member)⟩

theorem Stands.renames (stands : Stands after rest table manager) :
    Renames stands.inStep.names table.mesh.heap.find? table.mesh manager.mesh := by
  obtain ⟨peers, node⟩ := stands.node
  have known := stands.peers
  have heap := stands.heap
  have trace := stands.trace
  generalize manager.mesh = mesh at node known heap trace ⊢
  obtain ⟨_, others, _⟩ := mesh
  subst node trace
  refine .intro (fun id => ?_) ⟨fun {address id} named => ?_, fun _ _ => rfl, fun id unnamed => ?_⟩
  · have same : peers.find? id = _ := known id
    rw [same, stands.inStep.peers]
    cases found : table.connected.find? id with
    | none => exact .none
    | some address => exact .some (.some found)
  · have connected : table.connected.find? id = some address := named
    rw [heap, connected]
    rfl
  · rw [heap]
    cases found : table.connected.find? id with
    | none => rfl
    | some address => exact absurd found (unnamed address)

section Using

variable {mesh : Host Nat τ} {other : Host PeerId τ}

theorem Stands.using_peers (stands : Stands after rest table manager)
    (renames : Renames stands.inStep.names table.mesh.heap.find? mesh other)
    {connected : OrdMap PeerId Nat} (still : ∀ id address, connected.find? id = some address →
      table.connected.find? id = some address)
    (peers : ∀ id, mesh.node.peers.find? id = (connected.find? id).map some) (id : PeerId) :
    other.node.peers.find? id = (connected.find? id).map fun _ => some id := by
  cases renames with
  | @intro others heap pointers heaps =>
      have related := pointers id
      rw [peers] at related
      change others.find? id = _
      generalize others.find? id = pointer at related ⊢
      cases found : connected.find? id with
      | none =>
          rw [found] at related
          cases related
          rfl
      | some address =>
          rw [found] at related
          cases related with
          | some related =>
              cases related with
              | @some _ owner named =>
                  have owned : table.connected.find? owner = some address := named
                  rw [stands.inStep.alone owner id address owned (still id address found)]
                  rfl

theorem Stands.using_heap (stands : Stands after rest table manager)
    (renames : Renames stands.inStep.names table.mesh.heap.find? mesh other) (id : PeerId) :
    other.heap.find? id =
      (table.connected.find? id).bind fun address => mesh.heap.find? address := by
  cases renames with
  | @intro others heap pointers heaps =>
      change heap.find? id = _
      cases found : table.connected.find? id with
      | none =>
          refine heaps.only id fun address named => ?_
          have owned : table.connected.find? id = some address := named
          rw [found] at owned
          contradiction
      | some address =>
          have named : stands.inStep.names.pairs address id := found
          exact (heaps.named named).symm

theorem Stands.using_pending (stands : Stands after rest table manager)
    (renames : Renames stands.inStep.names table.mesh.heap.find? mesh other) :
    ∀ link ∈ table.pending ++ after,
      mesh.heap.find? link.address = table.mesh.heap.find? link.address := by
  intro link member
  cases renames with
  | intro pointers heaps =>
      refine heaps.aside _ fun id named => ?_
      exact stands.inStep.apart id link.address named (List.mem_map_of_mem member)

theorem renames_node {names : Renaming Nat PeerId} {aside : Nat → Option τ}
    (renames : Renames names aside mesh other) : ∃ peers, other.node = mesh.node.withPeers peers := by
  cases renames with
  | intro pointers heaps => exact ⟨_, rfl⟩

theorem renames_trace {names : Renaming Nat PeerId} {aside : Nat → Option τ}
    (renames : Renames names aside mesh other) : other.trace = mesh.trace := by
  cases renames with
  | intro pointers heaps => rfl

theorem Stands.use (stands : Stands after rest table manager)
    (renames : Renames stands.inStep.names table.mesh.heap.find? mesh other)
    (inStep : InStep (table.pending ++ after) { table with mesh }) :
    Stands after rest { table with mesh } { manager with mesh := other } where
  inStep := inStep
  node := renames_node renames
  peers := stands.using_peers renames (fun _ _ found => found) inStep.peers
  heap := stands.using_heap renames
  trace := renames_trace renames
  pending := (stands.keep (stands.using_pending renames)).1
  waiting := (stands.keep (stands.using_pending renames)).2

end Using

theorem Stands.elsewhere (stands : Stands (link :: after) (pending :: rest) table manager)
    {later : ConnectionTable τ} (same : ∀ address, address ≠ link.address →
      later.mesh.heap.find? address = table.mesh.heap.find? address) :
    (∀ id, manager.mesh.heap.find? id =
      (table.connected.find? id).bind fun address => later.mesh.heap.find? address) ∧
    List.Forall₂ later.Carries table.pending manager.pending ∧
      List.Forall₂ later.Carries after rest := by
  have kept : ∀ other ∈ table.pending ++ after,
      later.mesh.heap.find? other.address = table.mesh.heap.find? other.address :=
    fun other member => same _ fun own =>
      stands.inStep.owns.1 (own ▸ List.mem_map_of_mem member)
  refine ⟨fun id => ?_, carries_keep stands.pending fun other member =>
      kept other (List.mem_append_left _ member),
    carries_keep (List.forall₂_cons.mp stands.waiting).2 fun other member =>
      kept other (List.mem_append_right _ member)⟩
  rw [stands.heap]
  cases found : table.connected.find? id with
  | none => rfl
  | some address => exact (same address (stands.inStep.owns.2.2 id address found).1).symm

section Polling

variable [Transport τ] {hook : OwnerHook}

theorem Stands.resolve (stands : Stands after rest table manager)
    (carries : table.Carries link pending) : manager.resolve pending = table.resolve link := by
  simp only [ConnectionTable.resolve, carries.1, carries.2, ← stands.self, ← stands.isConnected]
  rfl

theorem Stands.resolveNext (stands : Stands (link :: after) (pending :: rest) table manager) :
    Stands after rest (table.resolveNext link) (manager.resolveNext pending) := by
  have inStep := stands.inStep.resolveNext
  have carries := (List.forall₂_cons.mp stands.waiting).1
  have stored : ∀ transport address, address ≠ link.address →
      (table.store link.address transport).mesh.heap.find? address =
        table.mesh.heap.find? address :=
    fun transport address apart => OrdMap.find?_insert_of_ne _ _ apart
  obtain ⟨peers, node⟩ := stands.node
  simp only [ConnectionTable.resolveNext, ConnectionManager.resolveNext, stands.resolve carries]
    at inStep ⊢
  generalize table.resolve link = resolution at inStep ⊢
  cases resolution with
  | wait transport =>
      obtain ⟨heap, held, waiting⟩ := stands.elsewhere (stored transport)
      refine ⟨inStep, ⟨peers, node⟩, stands.peers, heap, stands.trace, ?_, waiting⟩
      refine List.rel_append held (.cons ⟨carries.1, ?_⟩ .nil)
      exact OrdMap.find?_insert_self _ _ _
  | drop =>
      have dropped : ∀ address, address ≠ link.address →
          (table.destroy link.address).mesh.heap.find? address = table.mesh.heap.find? address :=
        fun address apart => OrdMap.find?_erase_of_ne _ apart
      obtain ⟨heap, held, waiting⟩ := stands.elsewhere dropped
      exact ⟨inStep, ⟨peers, node⟩, stands.peers, heap, stands.trace, held, waiting⟩
  | promote id transport =>
      obtain ⟨heap, held, waiting⟩ := stands.elsewhere (stored transport)
      refine ⟨inStep, ⟨peers.insert id (some id), ?_⟩, fun other => ?_, fun other => ?_, stands.trace,
        held, waiting⟩
      · simp only [ConnectionManager.promote, Host.addPeer, node]
        rfl
      · simp only [ConnectionManager.promote, ConnectionTable.promote, Host.addPeer,
          OrdMap.find?_insert, stands.peers]
        split
        · rename_i own
          rw [own]
          rfl
        · rfl
      · by_cases own : other = id
        · subst own
          simp only [ConnectionManager.promote, ConnectionTable.promote, ConnectionTable.store,
            Host.addPeer, OrdMap.find?_insert_self, Option.bind_some]
        · simp only [ConnectionManager.promote, ConnectionTable.promote, Host.addPeer,
            OrdMap.find?_insert_of_ne _ _ own]
          exact heap other

theorem Stands.resolves (stands : Stands after rest table manager) :
    Stands [] [] (after.foldl ConnectionTable.resolveNext table)
      (rest.foldl ConnectionManager.resolveNext manager) := by
  induction after generalizing rest table manager with
  | nil =>
      obtain rfl := List.forall₂_nil_left_iff.mp stands.waiting
      exact stands
  | cons link after ih =>
      obtain ⟨pending, later, _, _, rfl⟩ := List.forall₂_cons_left_iff.mp stands.waiting
      have resolved := ih stands.resolveNext
      exact resolved

theorem Stands.resolvePending (stands : Stands [] [] table manager) :
    Stands [] [] table.resolvePending manager.resolvePending := by
  have inStep := stands.inStep
  rw [List.append_nil] at inStep
  have started : Stands table.pending manager.pending { table with pending := [] }
      { manager with pending := [] } :=
    ⟨inStep.pend [], stands.node, stands.peers, stands.heap, stands.trace, .nil,
      carries_keep stands.pending fun _ _ => rfl⟩
  exact started.resolves

theorem Stands.reapNext (hook : OwnerHook) (stands : Stands after rest table manager) (id : PeerId) :
    Stands after rest (table.reapNext hook id) (manager.reapNext hook id) := by
  have inStep := stands.inStep.reapNext hook id
  have removed := stands.renames.removePeer hook id
  simp only [ConnectionTable.reapNext, ConnectionManager.reapNext] at inStep ⊢
  cases found : table.connected.find? id with
  | none =>
      have absent : manager.connected.find? id = none := by
        rw [ConnectionManager.connected, stands.heap, found]
        rfl
      rw [absent]
      exact stands
  | some address =>
      have live := stands.inStep.live id address found
      obtain ⟨transport, there⟩ := OrdMap.contains_iff.mp live
      have same : manager.connected.find? id = some transport := by
        rw [← stands.find? found, there]
      rw [found] at inStep
      rw [same]
      simp only [isUp, there, Option.any_some] at inStep ⊢
      cases up : Transport.isConnected transport with
      | true => exact stands
      | false =>
          simp only [up, Bool.false_eq_true, if_false] at inStep ⊢
          generalize table.mesh.removePeer hook id = mesh, manager.mesh.removePeer hook id = forgotten
            at removed inStep ⊢
          have node := renames_node removed
          have trace := renames_trace removed
          have kept : ∀ link ∈ table.pending ++ after,
              (mesh.heap.erase address).find? link.address =
                table.mesh.heap.find? link.address := by
            intro link member
            have apart : link.address ≠ address := fun own =>
              stands.inStep.apart id address found (own ▸ List.mem_map_of_mem member)
            rw [OrdMap.find?_erase_of_ne _ apart, stands.using_pending removed link member]
          have peers := stands.using_peers removed
            (fun _ _ present => (OrdMap.find?_erase_eq_some.mp present).2) inStep.peers
          refine ⟨inStep, node, peers, fun other => ?_, trace, (stands.keep kept).1, (stands.keep kept).2⟩
          by_cases own : other = id
          · simp only [own, destroy, OrdMap.find?_erase_self, Option.bind_none]
          · simp only [destroy, OrdMap.find?_erase_of_ne _ own, stands.using_heap removed other]
            cases present : table.connected.find? other with
            | none => rfl
            | some another =>
                have apart : another ≠ address := fun same =>
                  own (stands.inStep.alone other id address (same ▸ present) found)
                exact (OrdMap.find?_erase_of_ne _ apart).symm

theorem Stands.reap (hook : OwnerHook) (stands : Stands after rest table manager) :
    Stands after rest (table.reap hook) (manager.reap hook) := by
  have turns : ∀ ids : List PeerId, ∀ {table : ConnectionTable τ} {manager : ConnectionManager τ},
      Stands after rest table manager → Stands after rest
        (ids.foldl (ConnectionTable.reapNext hook) table)
        (ids.foldl (ConnectionManager.reapNext hook) manager) := by
    intro ids
    induction ids with
    | nil => exact fun stands => stands
    | cons id ids ih => exact fun stands => ih (stands.reapNext hook id)
  rw [ConnectionTable.reap, ConnectionManager.reap, stands.ids]
  exact turns _ stands

theorem Stands.poll (hook : OwnerHook) (stands : Stands [] [] table manager) (now : UInt64) :
    Stands [] [] (table.poll hook now) (manager.poll hook now) := by
  have reaped := stands.resolvePending.reap hook
  have inStep := reaped.inStep.uses ((Host.poll_uses hook (table.resolvePending.reap hook).mesh now).trans
    (Host.sendHeartbeats_uses _ now))
  exact reaped.use ((reaped.renames.poll hook now).sendHeartbeats now) inStep

theorem Stands.call (hook : OwnerHook) (stands : Stands [] [] table manager) (call : MeshCall) :
    Stands [] [] { table with mesh := table.mesh.perform hook call }
      { manager with mesh := manager.mesh.perform hook call } :=
  stands.use (stands.renames.perform hook call)
    (stands.inStep.uses (Host.perform_uses hook table.mesh call))

theorem Stands.addOutgoing (stands : Stands [] [] table manager) (expected : PeerId)
    (transport : Option τ) :
    Stands [] [] (table.addOutgoing expected transport) (manager.addOutgoing expected transport) := by
  have held := stands.inStep
  rw [List.append_nil] at held
  have inStep := held.addOutgoing expected transport
  cases transport with
  | none => exact stands
  | some transport =>
      have old : ∀ address, table.dialed.contains address = true → address ≠ table.next :=
        fun address known => (held.below address known).ne
      have kept : ∀ link ∈ table.pending, (table.mesh.heap.insert table.next
          (ConnectionManager.announce transport table.mesh.node.self)).find? link.address =
            table.mesh.heap.find? link.address := by
        intro link member
        have known := OrdMap.contains_iff.mpr ⟨_, held.expected link member⟩
        exact OrdMap.find?_insert_of_ne _ _ (old _ known)
      refine ⟨by rwa [List.append_nil], stands.node, stands.peers, fun id => ?_, stands.trace, ?_, .nil⟩
      · refine (stands.heap id).trans ?_
        simp only [ConnectionTable.addOutgoing, ConnectionTable.store]
        cases found : table.connected.find? id with
        | none => rfl
        | some address =>
            obtain ⟨wanted, dialed, _⟩ := held.dialed id address found
            have known := OrdMap.contains_iff.mpr ⟨wanted, dialed⟩
            exact (OrdMap.find?_insert_of_ne _ _ (old _ known)).symm
      · refine List.rel_append (carries_keep stands.pending kept) (.cons ⟨rfl, ?_⟩ .nil)
        rw [stands.self]
        exact OrdMap.find?_insert_self _ _ _

end Polling

end ConnectionTable

inductive ManagerAction (τ : Type) where
  | addOutgoing (expected : PeerId) (transport : Option τ)
  | addIncoming (transport : Option τ)
  | poll (now : UInt64)
  | call (call : MeshCall)
  | disturbPending (index : Nat) (transport : τ)
  | disturbConnected (id : PeerId) (transport : τ)

def managerStep {τ : Type} [Transport τ] (hook : OwnerHook) :
    ManagerAction τ → ConnectionManager τ → ConnectionManager τ
  | .addOutgoing expected transport, manager => manager.addOutgoing expected transport
  | .addIncoming transport, manager => manager.addIncoming transport
  | .poll now, manager => manager.poll hook now
  | .call call, manager => { manager with mesh := manager.mesh.perform hook call }
  | .disturbPending index transport, manager =>
      { manager with pending := manager.pending.modify index fun pending => { pending with transport } }
  | .disturbConnected id transport, manager =>
      { manager with mesh.heap := manager.mesh.heap.modify id fun _ => transport }

namespace ConnectionTable

variable {τ : Type} {table : ConnectionTable τ} {manager : ConnectionManager τ}

def disturb (table : ConnectionTable τ) (address : Nat) (transport : τ) : ConnectionTable τ :=
  { table with mesh.heap := table.mesh.heap.modify address fun _ => transport }

theorem carries_disturb {links : List PendingLink} {pendings : List (Pending τ)} {index : Nat}
    {link : PendingLink} (carried : List.Forall₂ table.Carries links pendings)
    (distinct : (links.map PendingLink.address).Nodup) (at_ : links[index]? = some link)
    (transport : τ) :
    List.Forall₂ (table.disturb link.address transport).Carries links
      (pendings.modify index fun pending => { pending with transport }) := by
  induction carried generalizing index with
  | nil => contradiction
  | @cons first pending links pendings carries rest ih =>
      obtain ⟨fresh, distinct⟩ := List.nodup_cons.mp distinct
      cases index with
      | zero =>
          cases at_
          rw [List.modify_zero_cons]
          refine .cons ⟨carries.1, ?_⟩ (carries_keep rest fun other member => ?_)
          · simp only [disturb, OrdMap.find?_modify_self, carries.2, Option.map_some]
          · have apart : other.address ≠ link.address := fun own =>
              fresh (own ▸ List.mem_map_of_mem member)
            exact OrdMap.find?_modify_of_ne _ _ apart
      | succ index =>
          have later : links[index]? = some link := at_
          have apart : first.address ≠ link.address := fun own =>
            fresh (own ▸ List.mem_map_of_mem (List.mem_of_getElem? later))
          rw [List.modify_succ_cons]
          refine .cons ⟨carries.1, ?_⟩ (ih distinct later)
          rw [← carries.2]
          exact OrdMap.find?_modify_of_ne _ _ apart

variable [Transport τ] {hook : OwnerHook}

theorem Stands.disturb (hook : OwnerHook) (stands : Stands [] [] table manager) (address : Nat)
    (transport : τ) : ∃ actions, Stands [] [] (table.disturb address transport)
      (exec (managerStep hook) manager actions) := by
  have held := stands.inStep
  rw [List.append_nil] at held
  have inStep : InStep ((table.disturb address transport).pending ++ [])
      (table.disturb address transport) := by
    rw [List.append_nil]
    exact held.step hook (.disturb address transport)
  have elsewhere : ∀ other, other ≠ address →
      (table.disturb address transport).mesh.heap.find? other = table.mesh.heap.find? other :=
    fun other apart => OrdMap.find?_modify_of_ne _ _ apart
  by_cases connected : ∃ id, table.connected.find? id = some address
  · obtain ⟨id, found⟩ := connected
    refine ⟨[.disturbConnected id transport], inStep, stands.node, stands.peers, fun other => ?_,
      stands.trace, carries_keep stands.pending fun link member => elsewhere _ fun own => ?_, .nil⟩
    · simp only [exec_cons, exec_nil, managerStep, OrdMap.find?_modify]
      change _ = (table.connected.find? other).bind fun another =>
        (table.disturb address transport).mesh.heap.find? another
      by_cases own : other = id
      · rw [if_pos own, stands.heap, own, found]
        exact (OrdMap.find?_modify_self table.mesh.heap address fun _ => transport).symm
      · rw [if_neg own, stands.heap]
        cases present : table.connected.find? other with
        | none => rfl
        | some another =>
            have apart : another ≠ address := fun same =>
              own (held.alone other id address (same ▸ present) found)
            exact (elsewhere another apart).symm
    · exact held.apart id address found (own ▸ List.mem_map_of_mem member)
  · have unowned : ∀ id, manager.mesh.heap.find? id = (table.connected.find? id).bind
        fun other => (table.disturb address transport).mesh.heap.find? other := by
      intro id
      rw [stands.heap]
      cases found : table.connected.find? id with
      | none => rfl
      | some other => exact (elsewhere other fun own => connected ⟨id, own ▸ found⟩).symm
    by_cases pending : ∃ link ∈ table.pending, link.address = address
    · obtain ⟨link, member, rfl⟩ := pending
      obtain ⟨index, at_⟩ := List.getElem?_of_mem member
      exact ⟨[.disturbPending index transport], inStep, stands.node, stands.peers, unowned,
        stands.trace, carries_disturb stands.pending held.distinct at_ transport, .nil⟩
    · refine ⟨[], inStep, stands.node, stands.peers, unowned, stands.trace,
        carries_keep stands.pending fun link member => elsewhere _ fun own => ?_, .nil⟩
      exact pending ⟨link, member, own⟩

theorem Stands.step (hook : OwnerHook) (stands : Stands [] [] table manager)
    (action : TableAction τ) : ∃ actions, Stands [] [] (tableStep hook action table)
      (exec (managerStep hook) manager actions) := by
  cases action with
  | addOutgoing expected transport =>
      exact ⟨[.addOutgoing expected transport], stands.addOutgoing expected transport⟩
  | addIncoming transport => exact ⟨[.addIncoming transport], stands.addOutgoing [] transport⟩
  | poll now => exact ⟨[.poll now], stands.poll hook now⟩
  | call call => exact ⟨[.call call], stands.call hook call⟩
  | disturb address transport => exact stands.disturb hook address transport

theorem Stands.init (τ : Type) (self : PeerId) :
    Stands [] [] (init τ self) (ConnectionManager.init self) where
  inStep := .init τ self
  node := ⟨∅, rfl⟩
  peers _ := rfl
  heap _ := rfl
  trace := rfl
  pending := .nil
  waiting := .nil

/-- Every run of the table is a run of the manager under other names. -/
theorem run_stands (hook : OwnerHook) (self : PeerId) (actions : List (TableAction τ)) :
    ∃ managerActions, Stands [] [] (exec (tableStep hook) (init τ self) actions)
      (exec (managerStep hook) (ConnectionManager.init self) managerActions) := by
  refine @exec_preserves _ _ (tableStep hook) (fun table : ConnectionTable τ => ∃ managerActions,
    Stands [] [] table (exec (managerStep hook) (ConnectionManager.init self) managerActions))
    (fun action table runs => ?_) _ ⟨[], .init τ self⟩ actions
  obtain ⟨earlier, stands⟩ := runs
  obtain ⟨later, after⟩ := stands.step hook action
  exact ⟨earlier ++ later, by rw [exec_append]; exact after⟩

end ConnectionTable

end Skittermouse.App

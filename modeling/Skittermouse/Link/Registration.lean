import Mathlib.Data.List.Nodup
import Skittermouse.App.ConnectionTable
import Skittermouse.Data.Exec
import Skittermouse.Data.Histories
import Skittermouse.Mesh.Transports

namespace Skittermouse.App

open Skittermouse.Data Skittermouse.Core Skittermouse.Net

/-! # The connection table and the mesh stay in step

Both own containers and the node's map change in several places of one poll. The
invariant is about all of them at once, with the pending links that are still
held as a parameter: in the loop over `pending_` these are the links that wait
so far and the ones the loop has not reached.
-/

def LinkCall.about? (id : PeerId) : LinkCall → Option Bool
  | .peerConnected other => if other = id then some true else none
  | .peerDisconnected other => if other = id then some false else none

namespace ConnectionTable

variable {τ : Type}

def callsFor (id : PeerId) (calls : List LinkCall) : List Bool := calls.filterMap (LinkCall.about? id)

@[simp] theorem callsFor_connected (id other : PeerId) (calls : List LinkCall) :
    callsFor id (.peerConnected other :: calls) =
      if other = id then true :: callsFor id calls else callsFor id calls := by
  by_cases own : other = id <;> simp [callsFor, LinkCall.about?, own]

@[simp] theorem callsFor_disconnected (id other : PeerId) (calls : List LinkCall) :
    callsFor id (.peerDisconnected other :: calls) =
      if other = id then false :: callsFor id calls else callsFor id calls := by
  by_cases own : other = id <;> simp [callsFor, LinkCall.about?, own]

structure InStep (held : List PendingLink) (table : ConnectionTable τ) : Prop where
  peers : ∀ id, table.mesh.node.peers.find? id = (table.connected.find? id).map some
  live : ∀ id address, table.connected.find? id = some address →
    table.mesh.heap.contains address = true
  waiting : ∀ link ∈ held, table.mesh.heap.contains link.address = true
  alone : ∀ id other address, table.connected.find? id = some address →
    table.connected.find? other = some address → id = other
  apart : ∀ id address, table.connected.find? id = some address →
    address ∉ held.map PendingLink.address
  distinct : (held.map PendingLink.address).Nodup
  below : ∀ address, table.dialed.contains address = true → address < table.next
  expected : ∀ link ∈ held, table.dialed.find? link.address = some link.expected
  dialed : ∀ id address, table.connected.find? id = some address →
    ∃ expected, table.dialed.find? address = some expected ∧ (expected ≠ [] → id = expected)
  named : ∀ id, table.isConnected id = true → id ≠ [] ∧ id ≠ table.mesh.node.self
  called : ∀ id, (callsFor id table.calls).head?.getD false = table.isConnected id
  alternates : ∀ id, Alternates (callsFor id table.calls)

theorem InStep.init (τ : Type) (self : PeerId) : InStep [] (init τ self) where
  peers _ := rfl
  live _ _ found := by contradiction
  waiting _ member := by contradiction
  alone _ _ _ found := by contradiction
  apart _ _ found := by contradiction
  distinct := .nil
  below _ found := by contradiction
  expected _ member := by contradiction
  dialed _ _ found := by contradiction
  named _ found := by contradiction
  called _ := rfl
  alternates _ := .nil

variable {table : ConnectionTable τ} {held before after : List PendingLink} {link : PendingLink}
variable {id : PeerId}

theorem InStep.keeps {mesh : Host Nat τ} (inStep : table.InStep held)
    (self : mesh.node.self = table.mesh.node.self) (peers : mesh.node.peers = table.mesh.node.peers)
    (heap : ∀ address, table.mesh.heap.contains address = true → mesh.heap.contains address = true) :
    InStep held { table with mesh } where
  peers id := peers ▸ inStep.peers id
  live id address found := heap address (inStep.live id address found)
  waiting link member := heap _ (inStep.waiting link member)
  alone := inStep.alone
  apart := inStep.apart
  distinct := inStep.distinct
  below := inStep.below
  expected := inStep.expected
  dialed := inStep.dialed
  named id connected := self ▸ inStep.named id connected
  called := inStep.called
  alternates := inStep.alternates

theorem InStep.store (inStep : table.InStep held) (address : Nat) (transport : τ) :
    InStep held (table.store address transport) :=
  inStep.keeps rfl rfl fun _ found => (OrdMap.contains_insert _ _ _ _).mpr (.inr found)

theorem InStep.pend (inStep : table.InStep held) (pending : List PendingLink) :
    InStep held { table with pending } :=
  ⟨inStep.peers, inStep.live, inStep.waiting, inStep.alone, inStep.apart, inStep.distinct,
    inStep.below, inStep.expected, inStep.dialed, inStep.named, inStep.called, inStep.alternates⟩

theorem InStep.owns (inStep : table.InStep (before ++ link :: after)) :
    link.address ∉ (before ++ after).map PendingLink.address ∧
      ((before ++ after).map PendingLink.address).Nodup ∧
      ∀ id address, table.connected.find? id = some address → address ≠ link.address ∧
        address ∉ (before ++ after).map PendingLink.address := by
  have distinct := inStep.distinct
  simp only [List.map_append, List.map_cons, List.nodup_middle, List.nodup_cons] at distinct
  rw [List.map_append]
  refine ⟨distinct.1, distinct.2, fun id address found => ?_⟩
  have apart := inStep.apart id address found
  simp only [List.map_append, List.map_cons, List.mem_append, List.mem_cons, not_or] at apart ⊢
  exact ⟨apart.2.1, apart.1, apart.2.2⟩

theorem InStep.mem_rest {other : PendingLink} (member : other ∈ before ++ after) :
    other ∈ before ++ link :: after := by
  rw [List.mem_append] at member ⊢
  exact member.imp_right (List.mem_cons_of_mem _)

theorem InStep.drop (inStep : table.InStep (before ++ link :: after)) :
    InStep (before ++ after) (table.destroy link.address) where
  peers := inStep.peers
  live id address found :=
    (OrdMap.contains_erase _ _ _).mpr ⟨(inStep.owns.2.2 id address found).1, inStep.live id address found⟩
  waiting other member := by
    refine (OrdMap.contains_erase _ _ _).mpr ⟨fun same => inStep.owns.1 ?_,
      inStep.waiting other (mem_rest member)⟩
    exact same ▸ List.mem_map_of_mem member
  alone := inStep.alone
  apart id address found := (inStep.owns.2.2 id address found).2
  distinct := inStep.owns.2.1
  below := inStep.below
  expected other member := inStep.expected other (mem_rest member)
  dialed := inStep.dialed
  named := inStep.named
  called := inStep.called
  alternates := inStep.alternates

theorem InStep.promote (inStep : table.InStep (before ++ link :: after)) (nonempty : id ≠ [])
    (foreign : id ≠ table.mesh.node.self) (dialed : link.expected ≠ [] → id = link.expected)
    (first : table.isConnected id = false) :
    InStep (before ++ after) (table.promote id link.address) := by
  have member : link ∈ before ++ link :: after := by simp
  refine ⟨fun other => ?_, fun other address found => ?_,
    fun other member => inStep.waiting other (mem_rest member), fun one other address found same => ?_,
    fun other address found => ?_, inStep.owns.2.1, inStep.below,
    fun other member => inStep.expected other (mem_rest member), fun other address found => ?_,
    fun other connected => ?_, fun other => ?_, fun other => ?_⟩
  · simp only [ConnectionTable.promote, Host.addPeer, OrdMap.find?_insert]
    split
    · rfl
    · exact inStep.peers other
  · simp only [ConnectionTable.promote, OrdMap.find?_insert] at found
    split at found
    · cases found
      exact inStep.waiting link member
    · exact inStep.live other address found
  · simp only [ConnectionTable.promote, OrdMap.find?_insert] at found same
    split at found <;> split at same
    · simp_all
    · cases found
      exact absurd rfl (inStep.owns.2.2 other _ same).1
    · cases same
      exact absurd rfl (inStep.owns.2.2 one _ found).1
    · exact inStep.alone one other address found same
  · simp only [ConnectionTable.promote, OrdMap.find?_insert] at found
    split at found
    · cases found
      exact inStep.owns.1
    · exact (inStep.owns.2.2 other address found).2
  · simp only [ConnectionTable.promote, OrdMap.find?_insert] at found
    split at found
    · rename_i own
      cases found
      exact ⟨link.expected, inStep.expected link member, fun wanted => own ▸ dialed wanted⟩
    · exact inStep.dialed other address found
  · rcases (OrdMap.contains_insert _ _ _ _).mp connected with rfl | connected
    · exact ⟨nonempty, foreign⟩
    · exact inStep.named other connected
  · have called := inStep.called other
    simp only [ConnectionTable.promote, isConnected, callsFor_connected, OrdMap.contains,
      OrdMap.find?_insert] at called ⊢
    by_cases own : id = other
    · simp [own]
    · simpa [own, Ne.symm own] using called
  · simp only [ConnectionTable.promote, callsFor_connected]
    split
    · rename_i own
      subst own
      exact (inStep.alternates id).cons (by rw [inStep.called, first]; exact Bool.noConfusion)
    · exact inStep.alternates other

/-- The node's map is the connection table. -/
structure Agrees (table : ConnectionTable τ) : Prop where
  same : ∀ id, table.mesh.node.peers.find? id = (table.connected.find? id).map some
  live : ∀ id address, table.connected.find? id = some address →
    table.mesh.heap.contains address = true
  named : ∀ id, table.isConnected id = true → id ≠ [] ∧ id ≠ table.mesh.node.self
  single : (table.connected.entries.map Prod.fst).Nodup ∧
    ∀ id other address, table.connected.find? id = some address →
      table.connected.find? other = some address → id = other
  expected : ∀ id address expected, table.connected.find? id = some address →
    table.dialed.find? address = some expected → expected ≠ [] → id = expected
  alternates : ∀ id, Alternates (callsFor id table.calls)

theorem InStep.agrees (inStep : table.InStep held) : table.Agrees := by
  refine ⟨inStep.peers, inStep.live, inStep.named, ⟨OrdMap.keys_nodup _, inStep.alone⟩,
    fun id address expected found known wanted => ?_, inStep.alternates⟩
  obtain ⟨named, dialed, own⟩ := inStep.dialed id address found
  rw [known, Option.some.injEq] at dialed
  exact dialed ▸ own (dialed ▸ wanted)

section Steps

variable [Transport τ] {hook : OwnerHook}

inductive LinkTurn (table : ConnectionTable τ) (link : PendingLink) : ConnectionTable τ → Prop where
  | wait (transport : τ) : LinkTurn table link
      { table.store link.address transport with pending := table.pending ++ [link] }
  | drop : LinkTurn table link (table.destroy link.address)
  | promote {id : PeerId} (transport : τ) (nonempty : id ≠ []) (foreign : id ≠ table.mesh.node.self)
      (dialed : link.expected ≠ [] → id = link.expected) (first : table.isConnected id = false) :
      LinkTurn table link ((table.store link.address transport).promote id link.address)

theorem resolve_promote {transport : τ} (promoted : table.resolve link = .promote id transport) :
    id ≠ [] ∧ id ≠ table.mesh.node.self ∧ (link.expected ≠ [] → id = link.expected) ∧
      table.isConnected id = false := by
  simp only [resolve] at promoted
  split at promoted
  · contradiction
  · split at promoted
    · contradiction
    · split at promoted
      · contradiction
      · contradiction
      · split at promoted
        · contradiction
        · split at promoted
          · contradiction
          · rename_i usable
            split at promoted
            · contradiction
            · rename_i dialed
              split at promoted
              · contradiction
              · rename_i first
                cases promoted
                refine ⟨fun empty => usable (.inl empty), fun own => usable (.inr own),
                  fun wanted => ?_, by simpa using first⟩
                by_contra other
                exact dialed ⟨wanted, other⟩

theorem resolveNext_turn (table : ConnectionTable τ) (link : PendingLink) :
    LinkTurn table link (table.resolveNext link) := by
  simp only [resolveNext]
  split
  · exact .wait _
  · exact .drop
  · rename_i promoted
    obtain ⟨nonempty, foreign, dialed, first⟩ := resolve_promote promoted
    exact .promote _ nonempty foreign dialed first

theorem InStep.resolveNext (inStep : table.InStep (table.pending ++ link :: after)) :
    InStep ((table.resolveNext link).pending ++ after) (table.resolveNext link) := by
  have turn := resolveNext_turn table link
  generalize table.resolveNext link = later at turn ⊢
  cases turn with
  | wait transport =>
      have stored := (inStep.store link.address transport).pend (table.pending ++ [link])
      simpa using stored
  | drop => exact inStep.drop
  | promote transport nonempty foreign dialed first =>
      exact (inStep.store link.address transport).promote nonempty foreign dialed first

theorem InStep.resolves (inStep : table.InStep (table.pending ++ after)) :
    InStep (after.foldl ConnectionTable.resolveNext table).pending
      (after.foldl ConnectionTable.resolveNext table) := by
  induction after generalizing table with
  | nil => simpa using inStep
  | cons link after ih => exact ih inStep.resolveNext

theorem InStep.uses {mesh : Host Nat τ} (inStep : table.InStep held)
    (uses : table.mesh.Uses true mesh) : InStep held { table with mesh } :=
  inStep.keeps uses.self uses.peers fun address found => (uses.contains address).trans found

/-- A reaped link is forgotten by the node, by the table and by the heap. -/
inductive ReapTurn (table : ConnectionTable τ) (id : PeerId) : ConnectionTable τ → Prop where
  | keep : ReapTurn table id table
  | reap {address : Nat} {mesh : Host Nat τ} (found : table.connected.find? id = some address)
      (uses : (table.mesh.forgetPeer id).Uses true mesh) :
      ReapTurn table id ({ table with
        mesh
        calls := .peerDisconnected id :: table.calls
        connected := table.connected.erase id }.destroy address)

theorem reapNext_turn (hook : OwnerHook) (table : ConnectionTable τ) (id : PeerId) :
    ReapTurn table id (table.reapNext hook id) := by
  simp only [reapNext]
  split
  · exact .keep
  · rename_i found
    split
    · exact .keep
    · exact .reap found (Host.removePeer_uses hook _ _)

theorem InStep.reapNext (hook : OwnerHook) (inStep : table.InStep held) (id : PeerId) :
    InStep held (table.reapNext hook id) := by
  have turn := reapNext_turn hook table id
  generalize table.reapNext hook id = later at turn ⊢
  cases turn with
  | keep => exact inStep
  | @reap address mesh gone uses =>
      have heap : ∀ other, other ≠ address → table.mesh.heap.contains other = true →
          (mesh.heap.erase address).contains other = true := fun other apart found =>
        (OrdMap.contains_erase _ _ _).mpr ⟨apart, by
          rw [uses.contains, Host.forgetPeer_heap]
          exact found⟩
      have kept : ∀ other found, (table.connected.erase id).find? other = some found →
          other ≠ id ∧ table.connected.find? other = some found := fun _ _ present =>
        OrdMap.find?_erase_eq_some.mp present
      refine ⟨fun other => ?_, fun other found present => ?_, fun link member => ?_,
        fun one other found present same => ?_, fun other found present => ?_, inStep.distinct,
        inStep.below, inStep.expected, fun other found present => ?_, fun other present => ?_,
        fun other => ?_, fun other => ?_⟩
      · simp only [destroy, uses.peers, Host.forgetPeer_node, OrdMap.find?_erase]
        split
        · rfl
        · exact inStep.peers other
      · obtain ⟨apart, present⟩ := kept other found present
        refine heap found (fun same => apart ?_) (inStep.live other found present)
        exact inStep.alone other id address (same ▸ present) gone
      · refine heap link.address (fun same => inStep.apart id address gone ?_) (inStep.waiting link member)
        exact same ▸ List.mem_map_of_mem member
      · exact inStep.alone one other found (kept one found present).2 (kept other found same).2
      · exact inStep.apart other found (kept other found present).2
      · exact inStep.dialed other found (kept other found present).2
      · obtain ⟨_, present⟩ := (OrdMap.contains_erase _ _ _).mp present
        have self : mesh.node.self = table.mesh.node.self := by
          rw [uses.self, Host.forgetPeer_node]
        exact self ▸ inStep.named other present
      · have called := inStep.called other
        simp only [destroy, isConnected, callsFor_disconnected, OrdMap.contains,
          OrdMap.find?_erase] at called ⊢
        by_cases own : id = other
        · simp [own]
        · simpa [own, Ne.symm own] using called
      · simp only [destroy, callsFor_disconnected]
        split
        · rename_i own
          subst own
          have present : table.isConnected id = true := OrdMap.contains_iff.mpr ⟨address, gone⟩
          exact (inStep.alternates id).cons (by rw [inStep.called, present]; exact Bool.noConfusion)
        · exact inStep.alternates other

theorem reapNext_pending (hook : OwnerHook) (table : ConnectionTable τ) (id : PeerId) :
    (table.reapNext hook id).pending = table.pending := by
  have turn := reapNext_turn hook table id
  generalize table.reapNext hook id = later at turn ⊢
  cases turn <;> rfl

theorem InStep.reaps (hook : OwnerHook) (inStep : table.InStep table.pending) (ids : List PeerId) :
    InStep (ids.foldl (ConnectionTable.reapNext hook) table).pending
      (ids.foldl (ConnectionTable.reapNext hook) table) := by
  induction ids generalizing table with
  | nil => exact inStep
  | cons id ids ih =>
      have reaped := inStep.reapNext hook id
      rw [← reapNext_pending hook table id] at reaped
      exact ih reaped

theorem InStep.poll (hook : OwnerHook) (inStep : table.InStep table.pending) (now : UInt64) :
    InStep (table.resolvePending.reap hook).pending (table.resolvePending.reap hook) ∧
      InStep (table.poll hook now).pending (table.poll hook now) := by
  have resolved : InStep table.resolvePending.pending table.resolvePending :=
    @InStep.resolves τ { table with pending := [] } table.pending _ (inStep.pend [])
  have reaped : InStep (table.resolvePending.reap hook).pending (table.resolvePending.reap hook) :=
    resolved.reaps hook (table.resolvePending.connected.entries.map Prod.fst)
  refine ⟨reaped, ?_⟩
  rw [ConnectionTable.poll]
  generalize table.resolvePending.reap hook = live at reaped ⊢
  exact reaped.uses ((Host.poll_uses hook live.mesh now).trans (Host.sendHeartbeats_uses _ now))

theorem InStep.addOutgoing (inStep : table.InStep table.pending) (expected : PeerId)
    (transport : Option τ) : InStep (table.addOutgoing expected transport).pending
      (table.addOutgoing expected transport) := by
  cases transport with
  | none => exact inStep
  | some transport =>
      have used : ∀ address wanted, table.dialed.find? address = some wanted →
          address ≠ table.next := fun address wanted found =>
        (inStep.below address (OrdMap.contains_iff.mpr ⟨wanted, found⟩)).ne
      have stored := inStep.store table.next
        (ConnectionManager.announce transport table.mesh.node.self)
      have fresh : table.next ∉ table.pending.map PendingLink.address := fun inside => by
        obtain ⟨link, member, same⟩ := List.mem_map.mp inside
        exact used link.address _ (inStep.expected link member) same
      change InStep (table.pending ++ [⟨table.next, expected⟩]) _
      refine ⟨inStep.peers, stored.live, fun link member => ?_, inStep.alone,
        fun id address found => ?_, ?_, fun address found => ?_, fun link member => ?_,
        fun id address found => ?_, inStep.named, inStep.called, inStep.alternates⟩
      · rcases List.mem_append.mp member with old | new
        · exact stored.waiting link old
        · rw [List.mem_singleton.mp new]
          exact (OrdMap.contains_insert _ _ _ _).mpr (.inl rfl)
      · obtain ⟨wanted, known, _⟩ := inStep.dialed id address found
        simpa using ⟨by simpa using inStep.apart id address found, used address wanted known⟩
      · simpa [List.nodup_append] using ⟨inStep.distinct, fun link member same =>
          used link.address _ (inStep.expected link member) same⟩
      · rcases (OrdMap.contains_insert _ _ _ _).mp found with rfl | old
        · exact Nat.lt_succ_self _
        · exact Nat.lt_succ_of_lt (inStep.below address old)
      · rcases List.mem_append.mp member with old | new
        · have known := inStep.expected link old
          exact (OrdMap.find?_insert_of_ne _ _ (used _ _ known)).trans known
        · rw [List.mem_singleton.mp new]
          exact OrdMap.find?_insert_self _ _ _
      · obtain ⟨wanted, known, own⟩ := inStep.dialed id address found
        exact ⟨wanted, (OrdMap.find?_insert_of_ne _ _ (used _ _ known)).trans known, own⟩

end Steps

inductive TableAction (τ : Type) where
  | addOutgoing (expected : PeerId) (transport : Option τ)
  | addIncoming (transport : Option τ)
  | poll (now : UInt64)
  | call (call : MeshCall)
  | disturb (address : Nat) (transport : τ)

def tableStep [Transport τ] (hook : OwnerHook) :
    TableAction τ → ConnectionTable τ → ConnectionTable τ
  | .addOutgoing expected transport, table => table.addOutgoing expected transport
  | .addIncoming transport, table => table.addIncoming transport
  | .poll now, table => table.poll hook now
  | .call call, table => { table with mesh := table.mesh.perform hook call }
  | .disturb address transport, table =>
      { table with mesh.heap := table.mesh.heap.modify address fun _ => transport }

variable [Transport τ]

theorem InStep.step (hook : OwnerHook) (inStep : table.InStep table.pending)
    (action : TableAction τ) :
    InStep (tableStep hook action table).pending (tableStep hook action table) := by
  cases action with
  | addOutgoing expected transport => exact inStep.addOutgoing expected transport
  | addIncoming transport => exact inStep.addOutgoing [] transport
  | poll now => exact (inStep.poll hook now).2
  | call call => exact inStep.uses (Host.perform_uses hook _ call)
  | disturb address transport =>
      refine inStep.keeps rfl rfl fun other found => ?_
      simpa [OrdMap.contains, OrdMap.find?_modify_isSome] using found

theorem run_inStep (hook : OwnerHook) (self : PeerId) (actions : List (TableAction τ)) :
    InStep (exec (tableStep hook) (init τ self) actions).pending
      (exec (tableStep hook) (init τ self) actions) :=
  @exec_preserves _ _ (tableStep hook) (fun table => InStep table.pending table)
    (fun action _ inStep => inStep.step hook action) _ (.init τ self) actions

/-- In every run the table and the node agree, when a poll comes to use the
links as well as afterwards. -/
theorem table_agrees (hook : OwnerHook) (self : PeerId) (actions : List (TableAction τ)) :
    Agrees (exec (tableStep hook) (init τ self) actions) ∧
      Agrees ((exec (tableStep hook) (init τ self) actions).resolvePending.reap hook) :=
  have inStep := run_inStep hook self actions
  ⟨inStep.agrees, (inStep.poll hook 0).1.agrees⟩

end ConnectionTable

def helloOf (id : PeerId) : Wire := ⟨0, true, [encodePeerHello id], []⟩

/-- Two links name "B", one names nobody; the one that is kept dies. -/
def rivalLinks : List (ConnectionTable.TableAction Wire) :=
  [.addOutgoing [66] (some (helloOf [66])), .addIncoming (some (helloOf [66])),
    .addIncoming (some (helloOf [])), .poll 1000, .disturb 0 ⟨0, false, [], []⟩, .poll 2000]

example : (exec (ConnectionTable.tableStep .silent) (.init Wire [65]) (rivalLinks.take 4)).connected.entries =
    [([66], 0)] := by decide

example : (exec (ConnectionTable.tableStep .silent) (.init Wire [65]) rivalLinks).calls =
    [.peerDisconnected [66], .peerConnected [66]] := by decide

end Skittermouse.App

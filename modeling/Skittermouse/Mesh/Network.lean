import Skittermouse.Data.Exec
import Skittermouse.Mesh.Frame

/-! # A fully connected mesh over lossless FIFO links

Every machine holds one transport for each other machine, named after it. A
message waits in the outbox of its sender until the link carries it into the
inbox of its receiver.
-/

namespace Skittermouse.App

open Skittermouse.Data Skittermouse.Core Skittermouse.Net

abbrev Machine := Host PeerId Wire

namespace Host

def inboxFrom (host : Machine) (peer : PeerId) : List Bytes :=
  match host.heap.find? peer with
  | some wire => wire.inbox
  | none => []

def outboxTo (host : Machine) (peer : PeerId) : List Bytes :=
  match host.heap.find? peer with
  | some wire => wire.outbox
  | none => []

def onWire (host : Machine) (peer : PeerId) (change : Wire → Wire) : Machine :=
  { host with heap := host.heap.modify peer change }

def takeOut (host : Machine) (peer : PeerId) : Machine :=
  host.onWire peer fun wire => { wire with outbox := wire.outbox.tail }

def putIn (host : Machine) (peer : PeerId) (message : Bytes) : Machine :=
  host.onWire peer fun wire => { wire with inbox := wire.inbox ++ [message] }

def pop (host : Machine) (peer : PeerId) : Machine :=
  host.onWire peer fun wire => { wire with inbox := wire.inbox.tail }

def link (host : Machine) (peer : PeerId) : Machine :=
  { host.addPeer peer (some peer) with heap := host.heap.insert peer ⟨0, true, [], []⟩ }

def unlink (hook : OwnerHook) (host : Machine) (peer : PeerId) : Machine :=
  { host with heap := host.heap.erase peer }.removePeer hook peer

/-- What the others do when a machine starts: the dead link to its previous
life is reaped before the new one is registered. -/
def meet (hook : OwnerHook) (newcomer : PeerId) (host : Machine) : Machine :=
  (if host.node.peers.contains newcomer then host.unlink hook newcomer else host).link newcomer

end Host

end Skittermouse.App

namespace Skittermouse.Mesh

open Skittermouse.Data Skittermouse.Core Skittermouse.Net Skittermouse.App

abbrev Network := OrdMap PeerId Machine

inductive MeshAction where
  | call (machine : PeerId) (call : MeshCall)
  | carry (sender receiver : PeerId)

def carry (net : Network) (sender receiver : PeerId) : Network :=
  match net.find? sender with
  | none => net
  | some host => match host.outboxTo receiver with
    | [] => net
    | message :: _ =>
        (net.insert sender (host.takeOut receiver)).modify receiver fun other =>
          other.putIn sender message

def meshStep (hook : OwnerHook) : MeshAction → Network → Network
  | .call machine call, net => net.modify machine fun host => host.perform hook call
  | .carry sender receiver, net => carry net sender receiver

/-- What is on its way from one machine to another, oldest first. -/
def transit (net : Network) (sender receiver : PeerId) : List Bytes :=
  match net.find? sender, net.find? receiver with
  | some host, some other => other.inboxFrom sender ++ host.outboxTo receiver
  | _, _ => []

theorem transit_of_absent {net : Network} {sender receiver : PeerId}
    (absent : ¬(net.contains sender = true ∧ net.contains receiver = true)) :
    transit net sender receiver = [] := by
  unfold transit
  split
  · rename_i host other found otherFound
    exact absurd ⟨OrdMap.contains_iff.mpr ⟨host, found⟩, OrdMap.contains_iff.mpr ⟨other, otherFound⟩⟩
      absent
  · rfl

inductive HistoryAction where
  | act (action : MeshAction)
  /-- A machine joins, or comes back with a fresh `MeshNode`; its links are new. -/
  | start (machine : PeerId)

def start (hook : OwnerHook) (machine : PeerId) (net : Network) : Network :=
  let others := (net.erase machine).entries.map Prod.fst
  let met := others.foldl (fun net other => net.modify other (Host.meet hook machine)) net
  met.insert machine (others.foldl Host.link (.init PeerId Wire machine))

def historyStep (hook : OwnerHook) : HistoryAction → Network → Network
  | .act action, net => meshStep hook action net
  | .start machine, net => start hook machine net

/-- Every other member is a peer with a transport of its own that is connected. -/
structure Linked (members : Set PeerId) (id : PeerId) (host : Machine) : Prop where
  named : host.node.self = id
  owned : host.node.ownership.self = id
  peers : ∀ peer pointer, host.node.peers.find? peer = some pointer ↔
    peer ∈ members ∧ peer ≠ id ∧ pointer = some peer
  wires : ∀ peer ∈ members, peer ≠ id →
    ∃ wire, host.heap.find? peer = some wire ∧ wire.connected = true
  absent : ∀ peer, peer ∉ members ∨ peer = id → host.heap.find? peer = none

variable {members : Set PeerId} {id peer other : PeerId} {host before after : Machine}

namespace Linked

theorem mem_entries (linked : Linked members id host) {entry : PeerId × Option PeerId}
    (member : entry ∈ host.node.peers.entries) : entry.2 = some entry.1 :=
  ((linked.peers entry.1 entry.2).mp (OrdMap.mem_entries.mp member)).2.2

theorem pointers_eq (linked : Linked members id host) :
    host.node.pointers = host.node.peers.entries.map Prod.fst := by
  unfold MeshNode.pointers
  rw [← List.filterMap_eq_map']
  exact List.filterMap_congr fun entry member => linked.mem_entries member

theorem pointers_nodup (linked : Linked members id host) : host.node.pointers.Nodup := by
  rw [linked.pointers_eq]
  exact host.node.peers.keys_nodup

theorem mem_pointers (linked : Linked members id host) :
    peer ∈ host.node.pointers ↔ peer ∈ members ∧ peer ≠ id := by
  rw [linked.pointers_eq, List.mem_map]
  constructor
  · rintro ⟨⟨other, pointer⟩, member, rfl⟩
    obtain ⟨inside, different, _⟩ := (linked.peers other pointer).mp (OrdMap.mem_entries.mp member)
    exact ⟨inside, different⟩
  · rintro ⟨inside, different⟩
    exact ⟨(peer, some peer),
      OrdMap.mem_entries.mpr ((linked.peers peer (some peer)).mpr ⟨inside, different, rfl⟩), rfl⟩

/-- A broadcast reaches every other member once, and nothing else changes. -/
theorem find?_broadcast (linked : Linked members id host) (message : Bytes) (peer : PeerId) :
    (host.broadcast message).heap.find? peer =
      (host.heap.find? peer).map fun wire => { wire with outbox := wire.outbox ++ [message] } := by
  by_cases reached : peer ∈ host.node.pointers
  · obtain ⟨inside, different⟩ := linked.mem_pointers.mp reached
    obtain ⟨wire, found, connected⟩ := linked.wires peer inside different
    refine (OrdMap.find?_foldl_modify_of_mem _ _ linked.pointers_nodup reached).trans ?_
    rw [found, Option.map_some, Wire.send_eq _ connected]
    rfl
  · have outside : peer ∉ members ∨ peer = id := by
      rw [linked.mem_pointers, not_and_or, not_not] at reached
      exact reached
    refine (OrdMap.find?_foldl_modify_of_notMem _ _ reached).trans ?_
    rw [linked.absent peer outside]
    rfl

theorem outboxTo_broadcast (linked : Linked members id host) (message : Bytes)
    (inside : peer ∈ members) (different : peer ≠ id) :
    (host.broadcast message).outboxTo peer = host.outboxTo peer ++ [message] := by
  obtain ⟨wire, found, _⟩ := linked.wires peer inside different
  simp only [Host.outboxTo, linked.find?_broadcast, found, Option.map_some]

theorem inboxFrom_broadcast (linked : Linked members id host) (message : Bytes) (peer : PeerId) :
    (host.broadcast message).inboxFrom peer = host.inboxFrom peer := by
  simp only [Host.inboxFrom, linked.find?_broadcast]
  cases host.heap.find? peer <;> rfl

end Linked

/-- The links of a machine lead where they led and are as connected as they were. -/
structure SameLinks (before after : Machine) : Prop where
  self : after.node.self = before.node.self
  owned : after.node.ownership.self = before.node.ownership.self
  peers : after.node.peers = before.node.peers
  wires : ∀ peer, (after.heap.find? peer).map Wire.connected =
    (before.heap.find? peer).map Wire.connected

theorem SameLinks.refl (host : Machine) : SameLinks host host := ⟨rfl, rfl, rfl, fun _ => rfl⟩

theorem SameLinks.trans {middle : Machine} (left : SameLinks before middle)
    (right : SameLinks middle after) : SameLinks before after :=
  ⟨right.self.trans left.self, right.owned.trans left.owned, right.peers.trans left.peers,
    fun peer => (right.wires peer).trans (left.wires peer)⟩

theorem Linked.same (linked : Linked members id before) (same : SameLinks before after) :
    Linked members id after where
  named := same.self.trans linked.named
  owned := same.owned.trans linked.owned
  peers := by rw [same.peers]; exact linked.peers
  wires peer inside different := by
    obtain ⟨wire, found, connected⟩ := linked.wires peer inside different
    have kept := same.wires peer
    rw [found, Option.map_some, connected, Option.map_eq_some_iff] at kept
    exact kept
  absent peer outside := by
    have kept := same.wires peer
    rw [linked.absent peer outside] at kept
    exact Option.map_eq_none_iff.mp kept

theorem Wire.send_connected (wire : Wire) (message : Bytes) :
    (Transport.send wire message).2.connected = wire.connected := by
  simp only [Transport.send, Wire.send]
  split <;> rfl

theorem foldl_modify_connected (heap : OrdMap PeerId Wire) (pointers : List PeerId)
    (message : Bytes) (peer : PeerId) :
    ((pointers.foldl (fun heap pointer => heap.modify pointer fun wire =>
      (Transport.send wire message).2) heap).find? peer).map Wire.connected =
      (heap.find? peer).map Wire.connected := by
  induction pointers generalizing heap with
  | nil => rfl
  | cons pointer rest ih =>
      rw [List.foldl_cons, ih, OrdMap.find?_modify]
      split
      · rename_i same
        subst same
        cases heap.find? peer with
        | none => rfl
        | some wire => exact congrArg some (Wire.send_connected wire message)
      · rfl

theorem broadcast_sameLinks (host : Machine) (message : Bytes) :
    SameLinks host (host.broadcast message) :=
  ⟨rfl, rfl, rfl, foldl_modify_connected _ _ _⟩

theorem foldl_broadcast_sameLinks (messages : List Bytes) (host : Machine) :
    SameLinks host (messages.foldl Host.broadcast host) :=
  foldl_related SameLinks.refl SameLinks.trans broadcast_sameLinks messages host

theorem inboxFrom_onWire (host : Machine) (peer other : PeerId) {change : Wire → Wire}
    (kept : ∀ wire, (change wire).inbox = wire.inbox) :
    (host.onWire peer change).inboxFrom other = host.inboxFrom other := by
  simp only [Host.inboxFrom, Host.onWire, OrdMap.find?_modify]
  by_cases same : other = peer
  · subst same
    cases host.heap.find? other with
    | none => simp
    | some wire => simp [kept]
  · simp [same]

theorem outboxTo_onWire (host : Machine) (peer other : PeerId) {change : Wire → Wire}
    (kept : ∀ wire, (change wire).outbox = wire.outbox) :
    (host.onWire peer change).outboxTo other = host.outboxTo other := by
  simp only [Host.outboxTo, Host.onWire, OrdMap.find?_modify]
  by_cases same : other = peer
  · subst same
    cases host.heap.find? other with
    | none => simp
    | some wire => simp [kept]
  · simp [same]

theorem onWire_of_ne (host : Machine) {peer other : PeerId} (change : Wire → Wire)
    (different : other ≠ peer) :
    (host.onWire peer change).inboxFrom other = host.inboxFrom other ∧
      (host.onWire peer change).outboxTo other = host.outboxTo other := by
  simp [Host.inboxFrom, Host.outboxTo, Host.onWire, OrdMap.find?_modify_of_ne _ _ different]

@[simp] theorem inboxFrom_takeOut (host : Machine) (peer other : PeerId) :
    (host.takeOut peer).inboxFrom other = host.inboxFrom other :=
  inboxFrom_onWire host peer other fun _ => rfl

@[simp] theorem outboxTo_putIn (host : Machine) (peer other : PeerId) (message : Bytes) :
    (host.putIn peer message).outboxTo other = host.outboxTo other :=
  outboxTo_onWire host peer other fun _ => rfl

@[simp] theorem outboxTo_pop (host : Machine) (peer other : PeerId) :
    (host.pop peer).outboxTo other = host.outboxTo other :=
  outboxTo_onWire host peer other fun _ => rfl

@[simp] theorem outboxTo_takeOut_self (host : Machine) (peer : PeerId) :
    (host.takeOut peer).outboxTo peer = (host.outboxTo peer).tail := by
  simp only [Host.outboxTo, Host.takeOut, Host.onWire, OrdMap.find?_modify_self]
  cases host.heap.find? peer <;> rfl

@[simp] theorem inboxFrom_pop_self (host : Machine) (peer : PeerId) :
    (host.pop peer).inboxFrom peer = (host.inboxFrom peer).tail := by
  simp only [Host.inboxFrom, Host.pop, Host.onWire, OrdMap.find?_modify_self]
  cases host.heap.find? peer <;> rfl

theorem Linked.inboxFrom_putIn_self (linked : Linked members id host) (inside : peer ∈ members)
    (different : peer ≠ id) (message : Bytes) :
    (host.putIn peer message).inboxFrom peer = host.inboxFrom peer ++ [message] := by
  obtain ⟨wire, found, _⟩ := linked.wires peer inside different
  simp [Host.inboxFrom, Host.putIn, Host.onWire, found]

theorem SameLinks.onWire (host : Machine) (peer : PeerId) {change : Wire → Wire}
    (kept : ∀ wire, (change wire).connected = wire.connected) :
    SameLinks host (host.onWire peer change) := by
  refine ⟨rfl, rfl, rfl, fun other => ?_⟩
  rw [Host.onWire, OrdMap.find?_modify]
  split
  · rename_i same
    subst same
    cases host.heap.find? other with
    | none => rfl
    | some wire => exact congrArg some (kept wire)
  · rfl

theorem SameLinks.takeOut (host : Machine) (peer : PeerId) : SameLinks host (host.takeOut peer) :=
  .onWire host peer fun _ => rfl

theorem SameLinks.putIn (host : Machine) (peer : PeerId) (message : Bytes) :
    SameLinks host (host.putIn peer message) :=
  .onWire host peer fun _ => rfl

theorem SameLinks.pop (host : Machine) (peer : PeerId) : SameLinks host (host.pop peer) :=
  .onWire host peer fun _ => rfl

def membersOf (net : Network) : Set PeerId := {peer | net.contains peer = true}

def Meshed (net : Network) : Prop :=
  ∀ id host, net.find? id = some host → Linked (membersOf net) id host

theorem Linked.congr {others : Set PeerId} (linked : Linked members id host)
    (same : ∀ peer, peer ≠ id → (peer ∈ others ↔ peer ∈ members)) : Linked others id host where
  named := linked.named
  owned := linked.owned
  peers peer pointer := by
    rw [linked.peers]
    constructor
    · rintro ⟨inside, different, rest⟩
      exact ⟨(same peer different).mpr inside, different, rest⟩
    · rintro ⟨inside, different, rest⟩
      exact ⟨(same peer different).mp inside, different, rest⟩
  wires peer inside different := linked.wires peer ((same peer different).mp inside) different
  absent peer outside := by
    by_cases own : peer = id
    · exact linked.absent peer (.inr own)
    · refine linked.absent peer (.inl fun inside => ?_)
      rcases outside with out | own'
      · exact out ((same peer own).mpr inside)
      · exact own own'

variable {net : Network} {sender receiver : PeerId}

theorem carry_spec (meshed : Meshed net) {host : Machine} {message : Bytes} {rest : List Bytes}
    (found : net.find? sender = some host) (waiting : host.outboxTo receiver = message :: rest) :
    sender ≠ receiver ∧ receiver ∈ membersOf net ∧
    ∀ id new, (carry net sender receiver).find? id = some new →
      ∃ old, net.find? id = some old ∧ new.node = old.node ∧ new.trace = old.trace ∧
        SameLinks old new ∧
        (∀ peer, new.outboxTo peer = if id = sender ∧ peer = receiver then rest
          else old.outboxTo peer) ∧
        (∀ peer, new.inboxFrom peer = if id = receiver ∧ peer = sender then
          old.inboxFrom sender ++ [message] else old.inboxFrom peer) := by
  have linked := meshed sender host found
  have reached : receiver ∈ membersOf net ∧ receiver ≠ sender := by
    by_contra outside
    rw [not_and_or, not_not] at outside
    rw [Host.outboxTo, linked.absent receiver outside] at waiting
    contradiction
  obtain ⟨inside, apart⟩ := reached
  obtain ⟨other, otherFound⟩ := OrdMap.contains_iff.mp inside
  have moved : carry net sender receiver =
      (net.insert sender (host.takeOut receiver)).modify receiver fun other =>
        other.putIn sender message := by
    simp only [carry, found, waiting]
  refine ⟨Ne.symm apart, inside, fun id new newFound => ?_⟩
  rw [moved, OrdMap.find?_modify, OrdMap.find?_insert_of_ne _ _ apart, otherFound] at newFound
  split at newFound
  · rename_i own
    subst own
    cases newFound
    refine ⟨other, otherFound, rfl, rfl, .putIn _ _ _, fun peer => ?_, fun peer => ?_⟩
    · rw [outboxTo_putIn, if_neg fun both => apart both.1]
    · by_cases same : peer = sender
      · subst same
        have senderInside : peer ∈ membersOf net := OrdMap.contains_iff.mpr ⟨host, found⟩
        rw [if_pos ⟨rfl, rfl⟩,
          (meshed id other otherFound).inboxFrom_putIn_self senderInside (Ne.symm apart)]
      · rw [if_neg fun both => same both.2]
        exact (onWire_of_ne other _ same).1
  · rename_i different
    rw [OrdMap.find?_insert] at newFound
    split at newFound
    · rename_i own
      subst own
      cases newFound
      refine ⟨host, found, rfl, rfl, .takeOut _ _, fun peer => ?_, fun peer => ?_⟩
      · by_cases same : peer = receiver
        · subst same
          rw [if_pos ⟨rfl, rfl⟩, outboxTo_takeOut_self, waiting, List.tail_cons]
        · rw [if_neg fun both => same both.2]
          exact (onWire_of_ne host _ same).2
      · rw [inboxFrom_takeOut, if_neg fun both => different both.1]
    · rename_i neither
      exact ⟨new, newFound, rfl, rfl, .refl new,
        fun peer => (if_neg fun both => neither both.1).symm,
        fun peer => (if_neg fun both => different both.1).symm⟩

theorem carry_idle (idle : ∀ host, net.find? sender = some host → host.outboxTo receiver = []) :
    carry net sender receiver = net := by
  unfold carry
  split
  · rfl
  · rename_i host found
    rw [idle host found]

theorem membersOf_insert (found : net.find? id = some host) (replaced : Machine) :
    membersOf (net.insert id replaced) = membersOf net := by
  have present : net.contains id = true := OrdMap.contains_iff.mpr ⟨host, found⟩
  ext peer
  simp only [membersOf, Set.mem_ofPred_eq, OrdMap.contains_insert]
  constructor
  · rintro (rfl | inside)
    · exact present
    · exact inside
  · exact .inr

theorem membersOf_modify (id : PeerId) (change : Machine → Machine) :
    membersOf (net.modify id change) = membersOf net := by
  ext peer
  simp only [membersOf, Set.mem_ofPred_eq, OrdMap.contains, OrdMap.find?_modify_isSome]

theorem membersOf_carry (net : Network) (sender receiver : PeerId) :
    membersOf (carry net sender receiver) = membersOf net := by
  unfold carry
  split
  · rfl
  · rename_i host found
    split
    · rfl
    · rw [membersOf_modify, membersOf_insert found]

theorem membersOf_meshStep (hook : OwnerHook) (action : MeshAction) (net : Network) :
    membersOf (meshStep hook action net) = membersOf net := by
  cases action with
  | call machine call => exact membersOf_modify machine _
  | carry sender receiver => exact membersOf_carry net sender receiver

theorem Meshed.insert (meshed : Meshed net) {replaced : Machine}
    (found : net.find? id = some host) (linked : Linked (membersOf net) id replaced) :
    Meshed (net.insert id replaced) := by
  intro other otherHost otherFound
  rw [membersOf_insert found]
  rw [OrdMap.find?_insert] at otherFound
  split at otherFound
  · rename_i same
    cases otherFound
    rwa [same]
  · exact meshed other otherHost otherFound

theorem Linked.link (linked : Linked members id host) (different : peer ≠ id) :
    Linked (insert peer members) id (host.link peer) where
  named := linked.named
  owned := linked.owned
  peers other pointer := by
    simp only [Host.link, Host.addPeer, OrdMap.find?_insert, Set.mem_insert_iff]
    split
    · rename_i same
      subst same
      constructor
      · rintro ⟨⟩
        exact ⟨.inl rfl, different, rfl⟩
      · rintro ⟨_, _, rfl⟩
        rfl
    · rename_i apart
      rw [linked.peers]
      simp [apart]
  wires other inside apart := by
    simp only [Host.link, OrdMap.find?_insert]
    split
    · exact ⟨_, rfl, rfl⟩
    · rename_i other'
      exact linked.wires other (inside.resolve_left other') apart
  absent other outside := by
    have apart : other ≠ peer := by
      rintro rfl
      rcases outside with out | own
      · exact out (Set.mem_insert _ _)
      · exact different own
    simp only [Host.link, OrdMap.find?_insert_of_ne _ _ apart]
    exact linked.absent other (outside.imp_left fun out inside => out (Set.mem_insert_of_mem _ inside))

theorem Linked.init (id : PeerId) : Linked ∅ id (.init PeerId Wire id) where
  named := rfl
  owned := rfl
  peers peer pointer := by simp [Host.init, MeshNode.init]
  wires peer inside := absurd inside (Set.notMem_empty peer)
  absent peer _ := rfl

theorem Linked.foldl_link {others : List PeerId} (linked : Linked members id host)
    (apart : id ∉ others) :
    Linked (members ∪ {peer | peer ∈ others}) id (others.foldl Host.link host) := by
  induction others generalizing host members with
  | nil => simpa using linked
  | cons peer rest ih =>
      obtain ⟨different, apart⟩ : id ≠ peer ∧ id ∉ rest := by simpa using apart
      refine (ih (linked.link (Ne.symm different)) apart).congr fun other _ => ?_
      simp only [Set.mem_union, Set.mem_ofPred_eq, List.mem_cons, Set.mem_insert_iff]
      tauto

theorem Linked.forget (linked : Linked members id host) (peer : PeerId) :
    Linked {other | other ∈ members ∧ other ≠ peer} id
      (Host.forgetPeer { host with heap := host.heap.erase peer } peer) := by
  have node := Host.forgetPeer_node { host with heap := host.heap.erase peer } peer
  have heap := Host.forgetPeer_heap { host with heap := host.heap.erase peer } peer
  refine ⟨node ▸ linked.named, node ▸ linked.owned, ?_, ?_, ?_⟩
  · intro other pointer
    simp only [node, OrdMap.find?_erase]
    split
    · rename_i same
      simp [same]
    · rename_i apart
      rw [linked.peers]
      simp [apart]
  · rintro other ⟨inside, apart⟩ different
    rw [heap, OrdMap.find?_erase_of_ne _ apart]
    exact linked.wires other inside different
  · intro other outside
    rw [heap, OrdMap.find?_erase]
    split
    · rfl
    · rename_i apart
      exact linked.absent other (outside.imp_left fun out inside => out ⟨inside, apart⟩)

end Skittermouse.Mesh

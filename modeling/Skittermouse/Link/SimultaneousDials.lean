import Skittermouse.App.ConnectionService
import Skittermouse.Data.Exec
import Skittermouse.Link.Frames
import Skittermouse.Link.Resolution

/-! # Two machines that have dialed each other

Both hold two links to the other, and each keeps the first that it registers.
A link that either machine drops is down for both, and the other notices at
some time of its own.
-/

namespace Skittermouse.Link

open Skittermouse.Data Skittermouse.Core Skittermouse.Net Skittermouse.Pairing Skittermouse.App

variable {aead : Aead}

abbrev Sides (aead : Aead) := Party → ConnectionService aead Wire

inductive DialAction where
  | pollConnections (party : Party) (now : UInt64) (dialed : Nat → Option Wire)
      (accepted : Option Wire)
  | poll (party : Party) (now : UInt64)
  | deliver (party : Party) (conn : Nat) (frame : Bytes)
  | notice (party : Party) (conn : Nat)

def push (frame : Bytes) (wire : Wire) : Wire := { wire with inbox := wire.inbox ++ [frame] }

def onWire (conn : Nat) (change : Wire → Wire) (link : EncryptedTransport aead Wire) :
    EncryptedTransport aead Wire :=
  if link.inner.id = conn then { link with inner := change link.inner } else link

def onLink (conn : Nat) (change : Wire → Wire) (service : ConnectionService aead Wire) :
    ConnectionService aead Wire :=
  { service with
    manager.pending := service.manager.pending.map fun pending =>
      { pending with transport := onWire conn change pending.transport }
    manager.mesh.heap := service.manager.mesh.heap.mapValues (onWire conn change) }

def dialStep (hook : OwnerHook) : DialAction → Sides aead → Sides aead
  | .pollConnections party now dialed accepted, sides =>
      Function.update sides party ((sides party).pollConnections now dialed accepted)
  | .poll party now, sides =>
      Function.update sides party
        { sides party with manager := (sides party).manager.poll hook now }
  | .deliver party conn frame, sides =>
      Function.update sides party
        (onLink conn (push frame) (sides party))
  | .notice party conn, sides => Function.update sides party (onLink conn Wire.close (sides party))

/-- The machine holds its end of a link, as a pending or as a connected entry. -/
def Holding (service : ConnectionService aead Wire) (conn : Nat) : Prop :=
  (∃ pending ∈ service.manager.pending, pending.transport.inner.id = conn) ∨
    ∃ id link, service.manager.connected.find? id = some link ∧ link.inner.id = conn

/-- A link goes down only after one of the machines has dropped its end. -/
def OnlyDropped : DialAction → Sides aead → Prop
  | .notice party conn, sides => ¬Holding (sides party.other) conn
  | _, _ => True

/-- A pending link that is up, whose hello from the peer has arrived. -/
structure Ready (peer : PeerId) (pending : Pending (EncryptedTransport aead Wire)) : Prop where
  names : pending.Names peer
  expected : pending.expected ≠ [] → peer = pending.expected

/-- A machine that holds exactly two links to its peer, `kept` being the one it
has registered, or else the first in its pending list. -/
structure Chooses (peer : PeerId) (kept spare : Nat)
    (manager : ConnectionManager (EncryptedTransport aead Wire)) : Prop where
  nonempty : peer ≠ []
  foreign : peer ≠ manager.mesh.node.self
  links : (∃ link second, manager.connected.find? peer = some link ∧ link.inner.id = kept ∧
      link.inner.connected = true ∧ manager.pending = [second] ∧ Ready peer second ∧
      second.transport.inner.id = spare) ∨
    ∃ first second, manager.isConnected peer = false ∧ manager.pending = [first, second] ∧
      Ready peer first ∧ first.transport.inner.id = kept ∧
      Ready peer second ∧ second.transport.inner.id = spare

def NothingPending (sides : Sides aead) : Prop := ∀ party, (sides party).manager.pending = []

/-- Both machines have registered each other on one and the same link, and neither has closed it. -/
def Shared (names : Party → PeerId) (sides : Sides aead) : Prop :=
  ∃ conn, ∀ party, ∃ link, (sides party).manager.connected.find? (names party.other) = some link ∧
    link.inner.id = conn ∧ link.inner.connected = true

variable {manager : ConnectionManager (EncryptedTransport aead Wire)} {hook : OwnerHook}
variable {peer : PeerId} {kept spare : Nat} {service : ConnectionService aead Wire}
variable {before after : EncryptedTransport aead Wire}

theorem used_wire (used : Used true before after) :
    after.inner.id = before.inner.id ∧ after.inner.connected = before.inner.connected := by
  refine used.preserves (fun link => link.inner.id = before.inner.id ∧
    link.inner.connected = before.inner.connected) (fun link message same => ?_)
    (fun _ link cap same => ?_) ⟨rfl, rfl⟩
  · simp only [Transport.send, EncryptedTransport.send]
    split
    · exact same
    · rename_i sealedFrame
      obtain ⟨_, _, _, _, _, _, rfl⟩ := EncryptedTransport.sealFrame_eq_some sealedFrame
      simp only [Wire.send]
      split <;> exact same
  · have inner : (Transport.recv link cap).2.inner = _ := EncryptedTransport.recv_inner link cap
    rw [inner]
    simp only [Transport.recv, Wire.recv]
    split
    · split <;> exact same
    · exact same

theorem recv_push (link : EncryptedTransport aead Wire) (cap : Nat) (frame : Bytes)
    (waiting : link.inner.inbox ≠ []) :
    (Transport.recv ({ link with inner := push frame link.inner } : EncryptedTransport aead Wire)
      cap).1 = (Transport.recv link cap).1 := by
  obtain ⟨first, rest, queue⟩ := List.exists_cons_of_ne_nil waiting
  have inner : ∀ cap, (Transport.recv (push frame link.inner) cap).1 =
      (Transport.recv link.inner cap).1 := by
    intro cap
    simp only [Transport.recv, Wire.recv, push, queue, List.cons_append]
    split <;> rfl
  have pushed := EncryptedTransport.recv_fst
    ({ link with inner := push frame link.inner } : EncryptedTransport aead Wire) cap
  rw [inner] at pushed
  exact pushed.trans (EncryptedTransport.recv_fst link cap).symm

theorem Ready.waiting {pending : Pending (EncryptedTransport aead Wire)} (ready : Ready peer pending) :
    pending.transport.inner.inbox ≠ [] := by
  obtain ⟨up, data, got, decoded⟩ := ready.names
  intro empty
  obtain ⟨scratch, idle⟩ := recv_idle ConnectionManager.kHelloBufferSize up empty
  rw [idle, Option.some.injEq] at got
  rw [← got] at decoded
  contradiction

theorem Ready.push {pending : Pending (EncryptedTransport aead Wire)} (ready : Ready peer pending)
    (conn : Nat) (frame : Bytes) :
    Ready peer { pending with transport := onWire conn (push frame) pending.transport } := by
  by_cases own : pending.transport.inner.id = conn
  · obtain ⟨up, data, got, decoded⟩ := ready.names
    simp only [onWire, if_pos own]
    exact ⟨⟨up, data, (recv_push _ _ frame ready.waiting).trans got, decoded⟩, ready.expected⟩
  · simp only [onWire, if_neg own]
    exact ready

/-- The link is registered for the peer, or will be by the next poll. -/
structure Keeps (peer : PeerId) (conn : Nat)
    (manager : ConnectionManager (EncryptedTransport aead Wire)) : Prop where
  nonempty : peer ≠ []
  foreign : peer ≠ manager.mesh.node.self
  link : (∃ link, manager.connected.find? peer = some link ∧ link.inner.id = conn ∧
      link.inner.connected = true) ∨
    manager.isConnected peer = false ∧ ∃ first rest, manager.pending = first :: rest ∧
      first.transport.inner.id = conn ∧ Ready peer first

variable {conn : Nat}

theorem Chooses.keeps (chooses : Chooses peer kept spare manager) : Keeps peer kept manager := by
  refine ⟨chooses.nonempty, chooses.foreign, ?_⟩
  rcases chooses.links with ⟨link, _, found, same, up, _⟩ | ⟨first, second, absent, both, ready, same, _⟩
  · exact .inl ⟨link, found, same, up⟩
  · exact .inr ⟨absent, first, [second], both, same, ready⟩

theorem Keeps.holding (keeps : Keeps peer conn service.manager) : Holding service conn := by
  rcases keeps.link with ⟨link, found, same, _⟩ | ⟨_, first, rest, queue, same, _⟩
  · exact .inr ⟨peer, link, found, same⟩
  · exact .inl ⟨first, by rw [queue]; exact List.mem_cons_self, same⟩

theorem Ready.admits {pending : Pending (EncryptedTransport aead Wire)} (ready : Ready peer pending)
    (nonempty : peer ≠ []) (foreign : peer ≠ manager.mesh.node.self)
    (absent : manager.isConnected peer = false) : manager.Admits pending peer :=
  ⟨ready.names, nonempty, foreign, ready.expected, absent⟩

theorem Keeps.resolve (keeps : Keeps peer conn manager) :
    ∃ link, manager.resolvePending.connected.find? peer = some link ∧ link.inner.id = conn ∧
      link.inner.connected = true := by
  rcases keeps.link with ⟨link, found, same, up⟩ | ⟨absent, first, rest, queue, same, ready⟩
  · have start : ({ manager with pending := [] } : ConnectionManager _).connected.find? peer =
        some link := found
    exact ⟨link, ConnectionManager.resolves_find? start _, same, up⟩
  · have admits : ConnectionManager.Admits { manager with pending := [] } first peer :=
      ready.admits keeps.nonempty keeps.foreign absent
    have registered : (ConnectionManager.resolveNext { manager with pending := [] } first).connected.find?
        peer = some (ConnectionManager.received first) := by
      rw [ConnectionManager.resolveNext, ConnectionManager.resolve_admitted admits]
      exact OrdMap.find?_insert_self _ _ _
    obtain ⟨sameId, sameUp⟩ := used_wire (ConnectionManager.received_used first)
    refine ⟨_, ?_, sameId.trans same, sameUp.trans ready.names.1⟩
    rw [ConnectionManager.resolvePending, queue]
    exact ConnectionManager.resolves_find? registered rest

theorem Keeps.poll (keeps : Keeps peer conn manager) (now : UInt64) :
    Keeps peer conn (manager.poll hook now) := by
  obtain ⟨link, found, same, up⟩ := keeps.resolve
  obtain ⟨later, foundLater, used⟩ := ConnectionManager.poll_find? hook now found
    fun after used => (used_wire used).2.trans up
  obtain ⟨sameId, sameUp⟩ := used_wire used
  refine ⟨keeps.nonempty, ?_, .inl ⟨later, foundLater, sameId.trans same, sameUp.trans up⟩⟩
  rw [ConnectionManager.poll_self]
  exact keeps.foreign

/-- New links queue behind the pending ones; the connected ones stay. -/
structure Appends (before after : ConnectionManager (EncryptedTransport aead Wire)) : Prop where
  mesh : after.mesh = before.mesh
  pending : before.pending <+: after.pending

theorem Appends.refl (manager : ConnectionManager (EncryptedTransport aead Wire)) :
    Appends manager manager := ⟨rfl, List.prefix_rfl⟩

theorem Appends.trans {first second third : ConnectionManager (EncryptedTransport aead Wire)}
    (left : Appends first second) (right : Appends second third) : Appends first third :=
  ⟨right.mesh.trans left.mesh, left.pending.trans right.pending⟩

theorem addOutgoing_appends (manager : ConnectionManager (EncryptedTransport aead Wire))
    (expected : PeerId) (link : Option (EncryptedTransport aead Wire)) :
    Appends manager (manager.addOutgoing expected link) := by
  cases link with
  | none => exact .refl manager
  | some link => exact ⟨rfl, List.prefix_append _ _⟩

theorem dialPeer_appends (service : ConnectionService aead Wire) (now : UInt64) (peer : ServicePeer)
    (raw : Option Wire) : Appends service.manager (service.dialPeer now peer raw).manager := by
  simp only [ConnectionService.dialPeer]
  split
  · exact .refl _
  · split
    · exact .refl _
    · split
      · exact .refl _
      · rename_i link _
        exact addOutgoing_appends service.manager peer.id (some link.transport)

theorem advanceNext_appends (service : ConnectionService aead Wire)
    (handshake : InboundHandshake aead Wire) :
    Appends service.manager (service.advanceNext handshake).manager := by
  simp only [ConnectionService.advanceNext]
  split
  · exact addOutgoing_appends service.manager _ _
  · exact .refl _
  · exact .refl _
  · exact .refl _

theorem pollConnections_appends (service : ConnectionService aead Wire) (now : UInt64)
    (dialed : Nat → Option Wire) (accepted : Option Wire) :
    Appends service.manager (service.pollConnections now dialed accepted).manager := by
  -- The links of the turn are dialed, then one is accepted, then the waiting ones advance.
  have grows {ι : Type} {step : ConnectionService aead Wire → ι → ConnectionService aead Wire}
      (steps : ∀ reached item, Appends reached.manager (step reached item).manager) (items : List ι)
      (start : ConnectionService aead Wire) :
      Appends start.manager (items.foldl step start).manager :=
    @foldl_related _ _ (fun before after : ConnectionService aead Wire =>
      Appends before.manager after.manager) step (fun _ => .refl _) .trans steps items start
  have accepts : ∀ {reached : ConnectionService aead Wire},
      Appends service.manager reached.manager →
      Appends service.manager (reached.accept accepted).manager := by
    intro reached grown
    cases accepted with
    | none => exact grown
    | some raw => exact grown
  rw [ConnectionService.pollConnections, ConnectionService.advance]
  refine .trans ?_ (grows advanceNext_appends _ _)
  refine accepts ?_
  exact grows (fun reached (entry : ServicePeer × Nat) =>
    dialPeer_appends reached now entry.1 (dialed entry.2)) _ _

theorem Keeps.appends {later : ConnectionManager (EncryptedTransport aead Wire)}
    (keeps : Keeps peer conn manager) (appends : Appends manager later) : Keeps peer conn later := by
  have connected : later.connected = manager.connected := congrArg Host.heap appends.mesh
  refine ⟨keeps.nonempty, by rw [appends.mesh]; exact keeps.foreign, ?_⟩
  rcases keeps.link with ⟨link, found, same⟩ | ⟨absent, first, rest, queue, same, ready⟩
  · exact .inl ⟨link, by rw [connected]; exact found, same⟩
  · obtain ⟨more, grown⟩ := appends.pending
    refine .inr ⟨by rw [ConnectionManager.isConnected, connected]; exact absent, first, rest ++ more,
      ?_, same, ready⟩
    rw [← grown, queue]
    rfl

theorem Keeps.onLink {other : Nat} {change : Wire → Wire} (keeps : Keeps peer conn service.manager)
    (harmless : other ≠ conn ∨ ∃ frame, change = push frame) :
    Keeps peer conn (onLink other change service).manager := by
  have same : ∀ link : EncryptedTransport aead Wire, link.inner.id = conn →
      (onWire other change link).inner.id = conn ∧
        (onWire other change link).inner.connected = link.inner.connected := by
    intro link id
    unfold onWire
    split
    · rename_i own
      rcases harmless with apart | ⟨frame, rfl⟩
      · exact absurd (own.symm.trans id) apart
      · exact ⟨id, rfl⟩
    · exact ⟨id, rfl⟩
  have connected : ∀ id, (Link.onLink other change service).manager.connected.find? id =
      (service.manager.connected.find? id).map (onWire other change) :=
    fun id => OrdMap.find?_mapValues _ _ _
  refine ⟨keeps.nonempty, keeps.foreign, ?_⟩
  rcases keeps.link with ⟨link, found, id, up⟩ | ⟨absent, first, rest, queue, id, ready⟩
  · refine .inl ⟨onWire other change link, ?_, (same link id).1, (same link id).2.trans up⟩
    rw [connected, found, Option.map_some]
  · refine .inr ⟨?_, { first with transport := onWire other change first.transport },
      rest.map fun pending => { pending with transport := onWire other change pending.transport },
      ?_, (same first.transport id).1, ?_⟩
    · rw [← Bool.not_eq_true]
      intro present
      obtain ⟨link, found⟩ := OrdMap.contains_iff.mp present
      rw [connected, Option.map_eq_some_iff] at found
      obtain ⟨old, was, _⟩ := found
      have there : service.manager.isConnected peer = true := OrdMap.contains_iff.mpr ⟨old, was⟩
      exact Bool.false_ne_true (absent.symm.trans there)
    · simp only [Link.onLink, queue, List.map_cons]
    · rcases harmless with apart | ⟨frame, rfl⟩
      · have kept : onWire other change first.transport = first.transport :=
          if_neg fun own => apart (own.symm.trans id)
        rw [kept]
        exact ready
      · exact ready.push other frame

variable {names : Party → PeerId} {sides : Sides aead}

def BothKeep (names : Party → PeerId) (conn : Nat) (sides : Sides aead) : Prop :=
  ∀ party, Keeps (names party.other) conn (sides party).manager

theorem Party.other_other (party : Party) : party.other.other = party := by
  cases party <;> rfl

theorem BothKeep.update {party : Party} {service : ConnectionService aead Wire}
    (both : BothKeep names conn sides) (keeps : Keeps (names party.other) conn service.manager) :
    BothKeep names conn (Function.update sides party service) := by
  intro who
  by_cases same : who = party
  · subst same
    rw [Function.update_self]
    exact keeps
  · rw [Function.update_of_ne same]
    exact both who

theorem BothKeep.step (both : BothKeep names conn sides) (action : DialAction)
    (allowed : OnlyDropped action sides) : BothKeep names conn (dialStep hook action sides) := by
  cases action with
  | pollConnections party now dialed accepted =>
      exact both.update ((both party).appends (pollConnections_appends _ now dialed accepted))
  | poll party now => exact both.update ((both party).poll now)
  | deliver party wire frame => exact both.update ((both party).onLink (.inr ⟨frame, rfl⟩))
  | notice party wire =>
      have apart : wire ≠ conn := fun same => allowed (same ▸ (both party.other).holding)
      exact both.update ((both party).onLink (.inl apart))

theorem BothKeep.shared (both : BothKeep names conn sides) (nothing : NothingPending sides) :
    Shared names sides := by
  refine ⟨conn, fun party => ?_⟩
  rcases (both party).link with registered | ⟨_, first, rest, queue, _⟩
  · exact registered
  · rw [nothing party] at queue
    contradiction

def Only (peer : PeerId) (conn : Nat)
    (manager : ConnectionManager (EncryptedTransport aead Wire)) : Prop :=
  manager.Holds fun id link => id = peer → link.inner.id = conn

theorem only_of_found (alone : ∀ link, manager.connected.find? peer = some link → link.inner.id = conn) :
    Only peer conn manager := by
  refine ⟨fun id link found own => ?_, fun _ _ _ same used own => (used_wire used).1.trans (same own)⟩
  rw [own] at found
  exact alone link found

theorem Chooses.resolve (chooses : Chooses peer kept spare manager) :
    manager.resolvePending.pending = [] ∧ Only peer kept manager.resolvePending := by
  rcases chooses.links with ⟨link, second, found, same, up, queue, ready, _⟩ |
    ⟨first, second, absent, queue, ready, same, readySecond, _⟩
  · have dropped : ConnectionManager.resolve { manager with pending := [] } second = .drop :=
      ConnectionManager.resolve_duplicate ready.names (OrdMap.contains_iff.mpr ⟨link, found⟩)
    have resolved : manager.resolvePending = { manager with pending := [] } := by
      rw [ConnectionManager.resolvePending, queue, List.foldl_cons, List.foldl_nil,
        ConnectionManager.resolveNext, dropped]
    rw [resolved]
    refine ⟨rfl, only_of_found fun other foundOther => ?_⟩
    rw [← Option.some.inj (found.symm.trans foundOther)]
    exact same
  · have admits : ConnectionManager.Admits { manager with pending := [] } first peer :=
      ready.admits chooses.nonempty chooses.foreign absent
    have promoted : ConnectionManager.resolveNext { manager with pending := [] } first =
        ({ manager with pending := [] } : ConnectionManager _).promote peer
          (ConnectionManager.received first) := by
      rw [ConnectionManager.resolveNext, ConnectionManager.resolve_admitted admits]
    have dropped : (({ manager with pending := [] } : ConnectionManager _).promote peer
        (ConnectionManager.received first)).resolve second = .drop :=
      ConnectionManager.resolve_duplicate readySecond.names
        (OrdMap.contains_iff.mpr ⟨_, OrdMap.find?_insert_self _ _ _⟩)
    have resolved : manager.resolvePending =
        ({ manager with pending := [] } : ConnectionManager _).promote peer
          (ConnectionManager.received first) := by
      rw [ConnectionManager.resolvePending, queue, List.foldl_cons, List.foldl_cons, List.foldl_nil,
        promoted, ConnectionManager.resolveNext, dropped]
    rw [resolved]
    have before : Only peer kept { manager with pending := [] } :=
      only_of_found fun link found => by
        have own : manager.isConnected peer = true := OrdMap.contains_iff.mpr ⟨link, found⟩
        exact absurd (absent.symm.trans own) Bool.noConfusion
    exact ⟨rfl, before.promote fun _ =>
      (used_wire (ConnectionManager.received_used first)).1.trans same⟩

theorem Chooses.poll (chooses : Chooses peer kept spare manager) (now : UInt64) :
    (manager.poll hook now).pending = [] ∧ Only peer kept (manager.poll hook now) := by
  obtain ⟨nothing, only⟩ := chooses.resolve
  exact ⟨(manager.poll_pending now).trans nothing, ConnectionManager.Holds.poll now only⟩

def pollBoth : List DialAction := [.poll .left 0, .poll .right 0]

theorem exec_pollBoth (hook : OwnerHook) (sides : Sides aead) (party : Party) :
    (exec (dialStep hook) sides pollBoth party).manager = (sides party).manager.poll hook 0 := by
  cases party <;> rfl

theorem nothingPending_pollBoth {first second choice rest : Nat} {ours theirs : PeerId}
    (left : Chooses theirs first second (sides .left).manager)
    (right : Chooses ours choice rest (sides .right).manager) :
    NothingPending (exec (dialStep hook) sides pollBoth) := by
  intro party
  rw [exec_pollBoth]
  cases party with
  | left => exact (left.poll 0).1
  | right => exact (right.poll 0).1

theorem not_shared_of_only {other : Nat} (left : Only (names .right) conn (sides .left).manager)
    (right : Only (names .left) other (sides .right).manager) (apart : other ≠ conn) :
    ¬Shared names sides := by
  rintro ⟨shared, linked⟩
  obtain ⟨link, found, same, _⟩ := linked .left
  obtain ⟨twin, foundTwin, sameTwin, _⟩ := linked .right
  have leftLink : link.inner.id = conn := left.links _ link found rfl
  have rightLink : twin.inner.id = other := right.links _ twin foundTwin rfl
  exact apart (rightLink.symm.trans (sameTwin.trans (same.symm.trans leftLink)))

theorem not_shared_pollBoth {first second choice rest : Nat}
    (left : Chooses (names .right) first second (sides .left).manager)
    (right : Chooses (names .left) choice rest (sides .right).manager) (apart : choice ≠ first) :
    ¬Shared names (exec (dialStep hook) sides pollBoth) := by
  have onlyLeft : Only (names .right) first (exec (dialStep hook) sides pollBoth .left).manager := by
    rw [exec_pollBoth]
    exact (left.poll 0).2
  have onlyRight : Only (names .left) choice (exec (dialStep hook) sides pollBoth .right).manager := by
    rw [exec_pollBoth]
    exact (right.poll 0).2
  exact not_shared_of_only onlyLeft onlyRight apart

/-- Two machines hold the same two links to each other, with every hello arrived.
They share a link at the end of every run, if and only if both keep the same. -/
theorem shared_link_iff_same_choice (hook : OwnerHook) {first second choice rest : Nat}
    (left : Chooses (names .right) first second (sides .left).manager)
    (right : Chooses (names .left) choice rest (sides .right).manager) :
    (∀ actions, Along (dialStep hook) OnlyDropped sides actions →
      NothingPending (exec (dialStep hook) sides actions) →
      Shared names (exec (dialStep hook) sides actions)) ↔ choice = first := by
  constructor
  · intro always
    by_contra apart
    exact not_shared_pollBoth left right apart
      (always pollBoth ⟨trivial, trivial, trivial⟩ (nothingPending_pollBoth left right))
  · rintro rfl actions along nothing
    have start : BothKeep names choice sides := by
      intro party
      cases party with
      | left => exact left.keeps
      | right => exact right.keeps
    have both : BothKeep names choice (exec (dialStep hook) sides actions) :=
      exec_invariant (fun action _ both allowed => both.step action allowed) start along
    exact both.shared nothing

def dialNames : Party → PeerId
  | .left => [65]
  | .right => [66]

def beforeDials : Sides tagAead := fun party =>
  .init ((KeyStore.mk ∅).setPsk (dialNames party.other) (repeatedPsk 1)) (dialNames party)
    [⟨dialNames party.other, [], 0⟩]

def freshWire (conn : Nat) (inbox : List Bytes) : Wire := ⟨conn, true, inbox, []⟩

def dialAs (party : Party) (now : UInt64) (conn : Nat) : DialAction :=
  .pollConnections party now (fun _ => some (freshWire conn [])) none

/-- The clear hint of the other machine waits on the accepted socket. -/
def acceptFrom (party : Party) (now : UInt64) (conn : Nat) : DialAction :=
  .pollConnections party now (fun _ => none)
    (some (freshWire conn [encodePeerHello (dialNames party.other)]))

def sealedHello (party : Party) : Bytes :=
  makeNonce (linkRoleFor (dialNames party) (dialNames party.other)).code 0 ++
    plainTag (repeatedPsk 1) (encodePeerHello (dialNames party)) ++ encodePeerHello (dialNames party)

def helloArrives (party : Party) (conn : Nat) : DialAction :=
  .deliver party conn (sealedHello party.other)

def hellosArrive : List DialAction :=
  [helloArrives .left 1, helloArrives .right 1, helloArrives .left 2, helloArrives .right 2]

/-- "A" dials on link 1 while "B" dials on link 2, and then each accepts the other. -/
def dialedAtOnce : Sides tagAead :=
  exec (dialStep .silent) beforeDials
    ([dialAs .left 1 1, dialAs .right 1 2, acceptFrom .left 1 2, acceptFrom .right 1 1] ++ hellosArrive)

def dialedInTurn : Sides tagAead :=
  exec (dialStep .silent) beforeDials
    ([dialAs .left 1 1, acceptFrom .right 1 1, dialAs .right 3000 2, acceptFrom .left 1 2] ++
      hellosArrive)

theorem ready_of_computed {pending : Pending (EncryptedTransport aead Wire)}
    (up : pending.transport.inner.connected = true)
    (got : (Transport.recv pending.transport ConnectionManager.kHelloBufferSize).1 =
      some (encodePeerHello peer))
    (decoded : decodePeerHello (encodePeerHello peer) = some peer)
    (expected : pending.expected ≠ [] → peer = pending.expected) : Ready peer pending :=
  ⟨⟨up, _, got, decoded⟩, expected⟩

theorem dialedAtOnce_left : Chooses [66] 1 2 (dialedAtOnce .left).manager :=
  ⟨by decide, by decide, .inr ⟨_, _, rfl, rfl, ready_of_computed rfl rfl rfl (by decide), rfl,
    ready_of_computed rfl rfl rfl (by decide), rfl⟩⟩

theorem dialedAtOnce_right : Chooses [65] 2 1 (dialedAtOnce .right).manager :=
  ⟨by decide, by decide, .inr ⟨_, _, rfl, rfl, ready_of_computed rfl rfl rfl (by decide), rfl,
    ready_of_computed rfl rfl rfl (by decide), rfl⟩⟩

theorem dialedInTurn_left : Chooses [66] 1 2 (dialedInTurn .left).manager :=
  ⟨by decide, by decide, .inr ⟨_, _, rfl, rfl, ready_of_computed rfl rfl rfl (by decide), rfl,
    ready_of_computed rfl rfl rfl (by decide), rfl⟩⟩

theorem dialedInTurn_right : Chooses [65] 1 2 (dialedInTurn .right).manager :=
  ⟨by decide, by decide, .inr ⟨_, _, rfl, rfl, ready_of_computed rfl rfl rfl (by decide), rfl,
    ready_of_computed rfl rfl rfl (by decide), rfl⟩⟩

/-- "A" keeps link 1 and drops link 2, "B" keeps link 2 and drops link 1. -/
theorem each_keeps_its_own_dial :
    Chooses (dialNames .right) 1 2 (dialedAtOnce .left).manager ∧
      Chooses (dialNames .left) 2 1 (dialedAtOnce .right).manager ∧
      Along (dialStep .silent) OnlyDropped dialedAtOnce pollBoth ∧
      NothingPending (exec (dialStep .silent) dialedAtOnce pollBoth) ∧
      ¬Shared dialNames (exec (dialStep .silent) dialedAtOnce pollBoth) :=
  ⟨dialedAtOnce_left, dialedAtOnce_right, ⟨trivial, trivial, trivial⟩,
    nothingPending_pollBoth dialedAtOnce_left dialedAtOnce_right,
    not_shared_pollBoth dialedAtOnce_left dialedAtOnce_right (by decide)⟩

theorem dialed_in_turn_shares :
    Shared dialNames (exec (dialStep .silent) dialedInTurn pollBoth) :=
  (shared_link_iff_same_choice .silent dialedInTurn_left dialedInTurn_right).mpr rfl pollBoth
    ⟨trivial, trivial, trivial⟩ (nothingPending_pollBoth dialedInTurn_left dialedInTurn_right)

end Skittermouse.Link

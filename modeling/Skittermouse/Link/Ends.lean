import Skittermouse.Link.SimultaneousDials

/-! # A machine's end of one socket

An accepted end first waits for the clear id hint. Then, as a dialed end does
from the start, it waits for the other's sealed hello, and after that it is
registered. The other links of the machine are not in question here.
-/

namespace Skittermouse.Link

open Skittermouse.Data Skittermouse.Core Skittermouse.Net Skittermouse.Pairing Skittermouse.App

variable {aead : Aead}

inductive Stage where
  | greeting
  | waiting
  | registered
deriving DecidableEq

def Stage.wants : Stage → Nat
  | .greeting => 2
  | .waiting => 1
  | .registered => 0

/-- The machine has no link to the peer, and no registered link is this socket. -/
def Apart (peer : PeerId) (conn : Nat)
    (manager : ConnectionManager (EncryptedTransport aead Wire)) : Prop :=
  manager.Holds fun id link => id ≠ peer ∧ link.inner.id ≠ conn

/-- Whatever is registered on this socket is registered for the peer. -/
def Belongs (peer : PeerId) (conn : Nat)
    (manager : ConnectionManager (EncryptedTransport aead Wire)) : Prop :=
  manager.Holds fun id link => link.inner.id = conn → id = peer

def KeyedFor (key : Psk) (role : Role) (link : EncryptedTransport aead Wire) : Prop :=
  link.key = key ∧ link.sendRole = role.code ∧ link.recvRole = role.other.code

/-- Where the machine stands with the socket, and the end of it that it holds. -/
inductive At (peer : PeerId) (conn : Nat) (key : Psk) (role : Role)
    (service : ConnectionService aead Wire) : Stage → Wire → Prop where
  | greeting {wire : Wire} (queue : service.pendingIn = [.start (some wire) service.self])
      (pending : service.manager.pending = []) (apart : Apart peer conn service.manager) :
      At peer conn key role service .greeting wire
  | waiting {link : EncryptedTransport aead Wire} {expected : PeerId}
      (queue : service.pendingIn = []) (pending : service.manager.pending = [⟨link, expected⟩])
      (named : expected ≠ [] → peer = expected) (keyed : KeyedFor key role link)
      (fresh : link.haveRecv = false) (apart : Apart peer conn service.manager) :
      At peer conn key role service .waiting link.inner
  | registered {link : EncryptedTransport aead Wire} (queue : service.pendingIn = [])
      (pending : service.manager.pending = [])
      (found : service.manager.connected.find? peer = some link) (keyed : KeyedFor key role link)
      (belongs : Belongs peer conn service.manager) :
      At peer conn key role service .registered link.inner

/-- The machine, which is paired with the peer, holds its end of the
socket, and that end is up. -/
structure Standing (machine peer : PeerId) (conn : Nat) (key : Psk)
    (service : ConnectionService aead Wire) (stage : Stage) (wire : Wire) : Prop where
  own : service.self = machine
  node : service.manager.mesh.node.self = machine
  paired : service.keys.getPsk peer = some key
  named : wire.id = conn
  up : wire.connected = true
  place : At peer conn key (linkRoleFor machine peer) service stage wire

/-- The other's sealed hello: the first frame under its role. -/
def SealedHello (aead : Aead) (key : Psk) (role : Role) (speaker : PeerId) (frame : Bytes) : Prop :=
  Frames aead key role.code 0 [encodePeerHello speaker] [frame]

/-- What the end reads starts with what it waits for; `role` is the speaker's. -/
inductive Awaits (aead : Aead) (key : Psk) (role : Role) (speaker : PeerId) :
    Stage → List Bytes → Prop where
  | greeting {hello : Bytes} {rest : List Bytes} (sealed : SealedHello aead key role speaker hello) :
      Awaits aead key role speaker .greeting (encodePeerHello speaker :: hello :: rest)
  | waiting {hello : Bytes} {rest : List Bytes} (sealed : SealedHello aead key role speaker hello) :
      Awaits aead key role speaker .waiting (hello :: rest)
  | registered {frames : List Bytes} : Awaits aead key role speaker .registered frames

/-- What the machine does: it advances the accepted sockets, it polls its
connections, or it does something else. -/
inductive Drive where
  | accepting
  | polling
  | aside
deriving DecidableEq

/-- The turn that the end waits for, with a message to read. -/
def Due (drive : Drive) (stage : Stage) (wire : Wire) : Prop :=
  wire.inbox ≠ [] ∧
    (drive = .accepting ∧ stage = .greeting ∨ drive = .polling ∧ stage = .waiting)

/-- What becomes of the end in one turn of its machine. -/
inductive Moves (aead : Aead) (key : Psk) (self : PeerId) (role : Role) (drive : Drive) :
    Stage → Wire → Stage → Wire → Prop where
  | rests {stage : Stage} {wire : Wire} (early : stage ≠ .registered)
      (nothing : ¬Due drive stage wire) : Moves aead key self role drive stage wire stage wire
  | heard {wire : Wire} {hint hello : Bytes} {rest : List Bytes} (accepting : drive = .accepting)
      (queue : wire.inbox = hint :: rest) (sealed : SealedHello aead key role self hello) :
      Moves aead key self role drive .greeting wire .waiting
        { wire with inbox := rest, outbox := wire.outbox ++ [hello] }
  | named {wire after : Wire} {hello : Bytes} {rest : List Bytes} (polling : drive = .polling)
      (queue : wire.inbox = hello :: rest) (outbox : wire.outbox <+: after.outbox) :
      Moves aead key self role drive .waiting wire .registered after
  | used {wire after : Wire} (outbox : wire.outbox <+: after.outbox) :
      Moves aead key self role drive .registered wire .registered after

/-! ## What a use of a link does to its end -/

variable {before after link : EncryptedTransport aead Wire} {key : Psk} {role : Role}
variable {self peer expected : PeerId} {conn : Nat} {hook : OwnerHook} {stage : Stage} {wire : Wire}
variable {service : ConnectionService aead Wire}
variable {manager : ConnectionManager (EncryptedTransport aead Wire)}

theorem KeyedFor.used (keyed : KeyedFor key role before) (used : Used true before after) :
    KeyedFor key role after := by
  refine used.preserves (KeyedFor key role) (fun link message kept => ?_) (fun _ link cap kept => ?_)
    keyed
  · obtain ⟨inner, sendCtr, same⟩ := link.send_frame message
    have sent : (Transport.send link message).2 = _ := same
    rw [sent]
    exact kept
  · obtain ⟨sameKey, sameSend, _, sameRecv⟩ := link.recv_keeps cap
    exact ⟨sameKey.trans kept.1, sameSend.trans kept.2.1, sameRecv.trans kept.2.2⟩

theorem outbox_used (used : Used true before after) :
    before.inner.outbox <+: after.inner.outbox := by
  refine used.preserves (fun link => before.inner.outbox <+: link.inner.outbox)
    (fun link message grown => ?_) (fun _ link cap grown => ?_) List.prefix_rfl
  · simp only [Transport.send, EncryptedTransport.send]
    split
    · exact grown
    · rename_i sealedFrame
      obtain ⟨_, _, _, _, _, _, rfl⟩ := EncryptedTransport.sealFrame_eq_some sealedFrame
      simp only [Wire.send]
      split
      · exact grown.trans (List.prefix_append _ _)
      · exact grown
  · have inner : (Transport.recv link cap).2.inner = _ := EncryptedTransport.recv_inner link cap
    rw [inner]
    simp only [Transport.recv, Wire.recv]
    split
    · split <;> exact grown
    · exact grown

theorem Apart.of_absent (absent : ∀ id link, manager.connected.find? id = some link →
    id ≠ peer ∧ link.inner.id ≠ conn) : Apart peer conn manager :=
  ⟨absent, fun _ _ _ same used => ⟨same.1, fun own => same.2 ((used_wire used).1.symm.trans own)⟩⟩

theorem Belongs.of_only (only : ∀ id link, manager.connected.find? id = some link →
    link.inner.id = conn → id = peer) : Belongs peer conn manager :=
  ⟨only, fun _ _ _ same used own => same ((used_wire used).1.symm.trans own)⟩

theorem Apart.absent (apart : Apart peer conn manager) : manager.isConnected peer = false := by
  rw [← Bool.not_eq_true]
  intro present
  obtain ⟨link, found⟩ := OrdMap.contains_iff.mp present
  exact (apart.links peer link found).1 rfl

theorem Apart.belongs (apart : Apart peer conn manager) : Belongs peer conn manager :=
  .of_only fun id link found own => absurd own (apart.links id link found).2

theorem Awaits.hint {queue : List Bytes} (awaits : Awaits aead key role peer .greeting queue) :
    ∃ hello rest, queue = encodePeerHello peer :: hello :: rest ∧ SealedHello aead key role peer hello := by
  cases awaits with
  | greeting sealed => exact ⟨_, _, rfl, sealed⟩

theorem Awaits.hello {queue : List Bytes} (awaits : Awaits aead key role peer .waiting queue) :
    ∃ hello rest, queue = hello :: rest ∧ SealedHello aead key role peer hello := by
  cases awaits with
  | waiting sealed => exact ⟨_, _, rfl, sealed⟩

theorem Awaits.append {queue : List Bytes} (awaits : Awaits aead key role peer stage queue)
    (more : List Bytes) : Awaits aead key role peer stage (queue ++ more) := by
  cases awaits with
  | greeting sealed => exact .greeting sealed
  | waiting sealed => exact .waiting sealed
  | registered => exact .registered

/-! ## A turn of the connection manager -/

theorem resolves_nothing (pending : manager.pending = []) : manager.resolvePending = manager := by
  rw [ConnectionManager.resolvePending, pending, List.foldl_nil, ← pending]

theorem resolves_idle (pending : manager.pending = [⟨link, expected⟩])
    (up : link.inner.connected = true) (idle : link.inner.inbox = []) :
    ∃ scratch, manager.resolvePending =
      { manager with pending := [⟨{ link with scratch }, expected⟩] } := by
  obtain ⟨scratch, received⟩ := recv_idle ConnectionManager.kHelloBufferSize up idle
  have alive : ¬Transport.isConnected link = false := Bool.not_eq_false _ ▸ up
  refine ⟨scratch, ?_⟩
  simp only [ConnectionManager.resolvePending, pending, List.foldl_cons, List.foldl_nil,
    ConnectionManager.resolveNext, ConnectionManager.resolve, if_neg alive, received, List.nil_append]

theorem names_of_hello (keyed : KeyedFor key role link) (fresh : link.haveRecv = false)
    (up : link.inner.connected = true) {hello : Bytes} {rest : List Bytes}
    (queue : link.inner.inbox = hello :: rest) (sealed : SealedHello aead key role.other peer hello)
    (short : (encodePeerHello peer).length ≤ 512) : Pending.Names ⟨link, expected⟩ peer := by
  cases sealed with
  | @cons _ _ ciphertext tag _ _ room encrypted rest =>
      obtain ⟨sameKey, _, sameRole⟩ := keyed
      rw [← sameKey, ← sameRole] at encrypted
      rw [← sameRole] at queue
      have expects : Expects link 0 := fun received => absurd (fresh.symm.trans received) Bool.false_ne_true
      obtain ⟨scratch, received⟩ := @recv_frame aead 0 ConnectionManager.kHelloBufferSize _ _ _ link _
        up queue expects room encrypted (Nat.le_trans short (by decide))
      refine ⟨up, encodePeerHello peer, congrArg Prod.fst received, decodePeerHello_encode ?_⟩
      simp only [encodePeerHello, List.length_append] at short
      omega

theorem resolves_hello (pending : manager.pending = [⟨link, expected⟩])
    (names : Pending.Names ⟨link, expected⟩ peer) (nonempty : peer ≠ [])
    (foreign : peer ≠ manager.mesh.node.self) (named : expected ≠ [] → peer = expected)
    (absent : manager.isConnected peer = false) :
    ∃ later, Used true link later ∧
      manager.resolvePending = ({ manager with pending := [] } : ConnectionManager _).promote peer later := by
  have admits : ConnectionManager.Admits { manager with pending := [] } ⟨link, expected⟩ peer :=
    ⟨names, nonempty, foreign, named, absent⟩
  refine ⟨ConnectionManager.received ⟨link, expected⟩,
    ConnectionManager.received_used ⟨link, expected⟩, ?_⟩
  rw [ConnectionManager.resolvePending, pending, List.foldl_cons, List.foldl_nil,
    ConnectionManager.resolveNext, ConnectionManager.resolve_admitted admits]

theorem poll_idle (hook : OwnerHook) (now : UInt64) (node : manager.mesh.node.self = self)
    (apart : Apart peer conn manager.resolvePending) :
    (manager.poll hook now).mesh.node.self = self ∧
      (manager.poll hook now).pending = manager.resolvePending.pending ∧
      Apart peer conn (manager.poll hook now) :=
  ⟨(manager.poll_self now).trans node, manager.poll_pending now, ConnectionManager.Holds.poll now apart⟩

theorem poll_registered (hook : OwnerHook) (now : UInt64) (node : manager.mesh.node.self = self)
    (found : manager.resolvePending.connected.find? peer = some link)
    (up : link.inner.connected = true) (belongs : Belongs peer conn manager.resolvePending) :
    (manager.poll hook now).mesh.node.self = self ∧
      (manager.poll hook now).pending = manager.resolvePending.pending ∧
      Belongs peer conn (manager.poll hook now) ∧
      ∃ later, (manager.poll hook now).connected.find? peer = some later ∧ Used true link later := by
  refine ⟨(manager.poll_self now).trans node, manager.poll_pending now,
    ConnectionManager.Holds.poll now belongs, ?_⟩
  exact ConnectionManager.poll_find? hook now found fun _ used => (used_wire used).2.trans up

theorem Standing.poll (standing : Standing self peer conn key service stage wire)
    (nonempty : peer ≠ []) (foreign : peer ≠ self) (short : (encodePeerHello peer).length ≤ 512)
    {rest : List Bytes}
    (awaits : Awaits aead key (linkRoleFor self peer).other peer stage (wire.inbox ++ rest))
    (hook : OwnerHook) (now : UInt64) :
    ∃ stage' wire', Standing self peer conn key
        { service with manager := service.manager.poll hook now } stage' wire' ∧
      Moves aead key self (linkRoleFor self peer) .polling stage wire stage' wire' := by
  obtain ⟨own, node, paired, id, up, place⟩ := standing
  cases place with
  | greeting queue pending apart =>
      have same := resolves_nothing pending
      have before : Apart peer conn service.manager.resolvePending := by
        rw [same]
        exact apart
      obtain ⟨node', pending', apart'⟩ := poll_idle hook now node before
      rw [same, pending] at pending'
      generalize service.manager.poll hook now = polled at *
      refine ⟨.greeting, wire, ⟨own, node', paired, id, up, .greeting queue pending' apart'⟩,
        .rests Stage.noConfusion fun due => ?_⟩
      rcases due.2 with ⟨other, _⟩ | ⟨_, other⟩ <;> contradiction
  | @waiting link expected queue pending named keyed fresh apart =>
      cases inbox : link.inner.inbox with
      | nil =>
          obtain ⟨scratch, same⟩ := resolves_idle pending up inbox
          have before : Apart peer conn service.manager.resolvePending := by
            rw [same]
            exact ⟨apart.links, apart.lasting⟩
          obtain ⟨node', pending', apart'⟩ := poll_idle hook now node before
          rw [same] at pending'
          generalize service.manager.poll hook now = polled at *
          have place : At peer conn key (linkRoleFor self peer) { service with manager := polled }
              .waiting ({ link with scratch } : EncryptedTransport aead Wire).inner :=
            .waiting queue pending' named keyed fresh apart'
          exact ⟨.waiting, link.inner, ⟨own, node', paired, id, up, place⟩,
            .rests Stage.noConfusion fun due => due.1 inbox⟩
      | cons frame more =>
          rw [inbox] at awaits
          cases awaits with
          | waiting sealed =>
              have names : Pending.Names ⟨link, expected⟩ peer :=
                names_of_hello keyed fresh up inbox sealed short
              have foreign' : peer ≠ service.manager.mesh.node.self := fun own => foreign (own.trans node)
              obtain ⟨later, used, same⟩ := resolves_hello pending names nonempty foreign' named
                apart.absent
              have found : service.manager.resolvePending.connected.find? peer = some later := by
                rw [same]
                exact OrdMap.find?_insert_self _ _ _
              have before : Belongs peer conn service.manager.resolvePending := by
                rw [same]
                have earlier : Belongs peer conn { service.manager with pending := [] } :=
                  ⟨apart.belongs.links, apart.belongs.lasting⟩
                exact earlier.promote fun _ => rfl
              obtain ⟨node', pending', belongs, last, foundLast, usedLast⟩ :=
                poll_registered hook now node found ((used_wire used).2.trans up) before
              rw [same] at pending'
              have whole := used.trans usedLast
              generalize service.manager.poll hook now = polled at *
              have place : At peer conn key (linkRoleFor self peer) { service with manager := polled }
                  .registered last.inner :=
                .registered queue pending' foundLast (keyed.used whole) belongs
              exact ⟨.registered, last.inner, ⟨own, node', paired, (used_wire whole).1.trans id,
                (used_wire whole).2.trans up, place⟩, .named rfl inbox (outbox_used whole)⟩
  | @registered link queue pending found keyed belongs =>
      have same := resolves_nothing pending
      have found' : service.manager.resolvePending.connected.find? peer = some link := by
        rw [same]
        exact found
      have before : Belongs peer conn service.manager.resolvePending := by
        rw [same]
        exact belongs
      obtain ⟨node', pending', belongs', last, foundLast, used⟩ :=
        poll_registered hook now node found' up before
      rw [same, pending] at pending'
      generalize service.manager.poll hook now = polled at *
      have place : At peer conn key (linkRoleFor self peer) { service with manager := polled }
          .registered last.inner :=
        .registered queue pending' foundLast (keyed.used used) belongs'
      exact ⟨.registered, last.inner, ⟨own, node', paired, (used_wire used).1.trans id,
        (used_wire used).2.trans up, place⟩, .used (outbox_used used)⟩

theorem Standing.call (standing : Standing self peer conn key service stage wire)
    {mesh : Host PeerId (EncryptedTransport aead Wire)} (uses : service.manager.mesh.Uses true mesh) :
    ∃ wire', Standing self peer conn key
        { service with manager := { service.manager with mesh } } stage wire' ∧
      Moves aead key self (linkRoleFor self peer) .aside stage wire stage wire' := by
  obtain ⟨own, node, paired, id, up, place⟩ := standing
  have node' := uses.self.trans node
  have idle : ¬Due .aside stage wire := fun due =>
    due.2.elim (fun wrong => Drive.noConfusion wrong.1) fun wrong => Drive.noConfusion wrong.1
  cases place with
  | greeting queue pending apart =>
      exact ⟨wire, ⟨own, node', paired, id, up, .greeting queue pending (apart.uses uses)⟩,
        .rests nofun idle⟩
  | waiting queue pending named keyed fresh apart =>
      exact ⟨_, ⟨own, node', paired, id, up, .waiting queue pending named keyed fresh
        (apart.uses uses)⟩, .rests nofun idle⟩
  | registered queue pending found keyed belongs =>
      obtain ⟨later, foundLater, used⟩ := uses.survivor found
      exact ⟨later.inner, ⟨own, node', paired, (used_wire used).1.trans id,
        (used_wire used).2.trans up, .registered queue pending foundLater (keyed.used used)
          (belongs.uses uses)⟩, .used (outbox_used used)⟩

/-! ## A turn of the connection service -/

theorem dials_nothing (service : ConnectionService aead Wire) (now : UInt64)
    (peers : List (ServicePeer × Nat)) :
    ∃ lastDial, peers.foldl (fun service entry => service.dialPeer now entry.1 none) service =
      { service with lastDial } := by
  induction peers generalizing service with
  | nil => exact ⟨service.lastDial, rfl⟩
  | cons entry rest ih =>
      have turn : ∃ lastDial, service.dialPeer now entry.1 none = { service with lastDial } := by
        simp only [ConnectionService.dialPeer, secureOutbound]
        split
        · exact ⟨service.lastDial, rfl⟩
        · split
          · exact ⟨service.lastDial, rfl⟩
          · exact ⟨_, rfl⟩
      obtain ⟨lastDial, same⟩ := turn
      rw [List.foldl_cons, same]
      exact ih { service with lastDial }

theorem pollConnections_quiet (service : ConnectionService aead Wire) (now : UInt64) :
    ∃ lastDial, service.pollConnections now (fun _ => none) none =
      ({ service with lastDial } : ConnectionService aead Wire).advance := by
  obtain ⟨lastDial, same⟩ := dials_nothing service now service.peers.zipIdx
  refine ⟨lastDial, ?_⟩
  rw [ConnectionService.pollConnections]
  exact congrArg ConnectionService.advance same

theorem exists_hello (seals : Seals aead) (key : Psk) (role : Role) (speaker : PeerId) :
    ∃ hello, SealedHello aead key role speaker hello := by
  obtain ⟨ciphertext, tag, encrypted⟩ := seals key (makeNonce role.code (UInt64.ofNat 0))
    (encodePeerHello speaker) (List.cons_ne_nil _ _)
  exact ⟨_, .cons (by decide) encrypted (.nil _)⟩

theorem announce_create (seals : Seals aead) (self : PeerId) (key : Psk) (role : Role)
    (up : wire.connected = true) :
    ∃ (hello : Bytes) (link : EncryptedTransport aead Wire), SealedHello aead key role self hello ∧
      ConnectionManager.announce (EncryptedTransport.create wire key role) self = link ∧
      link.inner = { wire with outbox := wire.outbox ++ [hello] } ∧ KeyedFor key role link ∧
      link.haveRecv = false := by
  have room : (EncryptedTransport.create wire key role : EncryptedTransport aead Wire).sendCtr ≠
      UInt64.ofNat (2 ^ 64 - 1) := by
    show (0 : UInt64) ≠ UInt64.ofNat (2 ^ 64 - 1)
    decide
  obtain ⟨ciphertext, tag, encrypted, sent⟩ := @send_sealed aead (encodePeerHello self)
    (EncryptedTransport.create wire key role) seals (List.cons_ne_nil _ _) room up
  exact ⟨_, _, .cons (by decide) encrypted (.nil _), sent, rfl, ⟨rfl, rfl, rfl⟩, rfl⟩

theorem heard_hint (up : wire.connected = true) {rest : List Bytes}
    (queue : wire.inbox = encodePeerHello peer :: rest) (short : (encodePeerHello peer).length ≤ 512)
    (nonempty : peer ≠ []) (foreign : peer ≠ self) {keys : KeyStore}
    (paired : keys.getPsk peer = some key) :
    InboundHandshake.poll (.start (some wire) self : InboundHandshake aead Wire) keys =
      { raw := none, self
        result := some
          { peerId := peer
            transport := .create { wire with inbox := rest } key (linkRoleFor self peer) }
        status := .ok } := by
  have received : Transport.recv wire 512 = (some (encodePeerHello peer), { wire with inbox := rest }) := by
    rw [Wire.recv_cons 512 up queue, List.take_of_length_le short]
  have alive : ¬Transport.isConnected wire = false := Bool.not_eq_false _ ▸ up
  have decoded : decodePeerHello (encodePeerHello peer) = some peer := by
    refine decodePeerHello_encode ?_
    simp only [encodePeerHello, List.length_append] at short
    omega
  have usable : ¬(peer = [] ∨ peer = self) := not_or.mpr ⟨nonempty, foreign⟩
  have some_ : ∃ byte bytes, encodePeerHello peer = byte :: bytes := ⟨_, _, rfl⟩
  obtain ⟨byte, bytes, hint⟩ := some_
  rw [hint] at received decoded
  simp only [InboundHandshake.poll, InboundHandshake.start, ne_eq, not_true_eq_false, if_false,
    if_neg alive, received, decoded, if_neg usable, paired]

theorem heard_nothing (up : wire.connected = true) (idle : wire.inbox = []) (keys : KeyStore) :
    InboundHandshake.poll (.start (some wire) self : InboundHandshake aead Wire) keys =
      .start (some wire) self := by
  have alive : ¬Transport.isConnected wire = false := Bool.not_eq_false _ ▸ up
  simp only [InboundHandshake.poll, InboundHandshake.start, ne_eq, not_true_eq_false, if_false,
    if_neg alive, Wire.recv_nil 512 up idle]

theorem advance_none (queue : service.pendingIn = []) : service.advance = service := by
  rw [ConnectionService.advance, queue, List.foldl_nil, ← queue]

theorem advance_one {handshake : InboundHandshake aead Wire} (queue : service.pendingIn = [handshake]) :
    service.advance =
      ({ service with pendingIn := [] } : ConnectionService aead Wire).advanceNext handshake := by
  rw [ConnectionService.advance, queue, List.foldl_cons, List.foldl_nil]

theorem advance_waits (queue : service.pendingIn = [.start (some wire) self])
    (up : wire.connected = true) (idle : wire.inbox = []) : service.advance = service := by
  have polled := @heard_nothing aead self wire up idle service.keys
  rw [advance_one queue, ConnectionService.advanceNext]
  simp only [polled]
  rw [InboundHandshake.start, List.nil_append] at *
  rw [← queue]

/-- A handshake that has heard the hint passes its link on to the connection manager,
which announces the machine on it. -/
theorem advance_heard (seals : Seals aead) (queue : service.pendingIn = [.start (some wire) self])
    (node : service.manager.mesh.node.self = self) (up : wire.connected = true) {rest : List Bytes}
    (inbox : wire.inbox = encodePeerHello peer :: rest) (short : (encodePeerHello peer).length ≤ 512)
    (nonempty : peer ≠ []) (foreign : peer ≠ self) (paired : service.keys.getPsk peer = some key) :
    ∃ (hello : Bytes) (link : EncryptedTransport aead Wire),
      SealedHello aead key (linkRoleFor self peer) self hello ∧
      service.advance = { service with
        pendingIn := []
        manager := { service.manager with pending := service.manager.pending ++ [⟨link, []⟩] } } ∧
      link.inner = { wire with inbox := rest, outbox := wire.outbox ++ [hello] } ∧
      KeyedFor key (linkRoleFor self peer) link ∧ link.haveRecv = false := by
  obtain ⟨hello, link, mine, announced, inner, keyed, fresh⟩ := @announce_create aead
    { wire with inbox := rest } seals self key (linkRoleFor self peer) up
  refine ⟨hello, link, mine, ?_, inner, keyed, fresh⟩
  have polled := @heard_hint aead key self peer wire up rest inbox short nonempty foreign service.keys
    paired
  rw [advance_one queue, ConnectionService.advanceNext]
  simp only [polled, InboundHandshake.take, Option.map_some, ConnectionManager.addIncoming,
    ConnectionManager.addOutgoing, node, announced]

theorem Standing.pollConnections (seals : Seals aead)
    (standing : Standing self peer conn key service stage wire) (nonempty : peer ≠ [])
    (foreign : peer ≠ self) (short : (encodePeerHello peer).length ≤ 512) {rest : List Bytes}
    (awaits : Awaits aead key (linkRoleFor self peer).other peer stage (wire.inbox ++ rest))
    (now : UInt64) :
    ∃ stage' wire', Standing self peer conn key
        (service.pollConnections now (fun _ => none) none) stage' wire' ∧
      Moves aead key self (linkRoleFor self peer) .accepting stage wire stage' wire' := by
  obtain ⟨lastDial, same⟩ := pollConnections_quiet service now
  rw [same]
  obtain ⟨own, node, paired, id, up, place⟩ := standing
  cases place with
  | greeting queue pending apart =>
      cases inbox : wire.inbox with
      | nil =>
          have stays : ({ service with lastDial } : ConnectionService aead Wire).advance =
              { service with lastDial } := advance_waits queue up inbox
          rw [stays]
          exact ⟨.greeting, wire, ⟨own, node, paired, id, up, .greeting queue pending apart⟩,
            .rests Stage.noConfusion fun due => due.1 inbox⟩
      | cons hint more =>
          rw [inbox] at awaits
          obtain ⟨_, _, whole, _⟩ := awaits.hint
          rw [(List.cons.inj whole).1] at inbox
          rw [own] at queue
          obtain ⟨hello, link, mine, advanced, inner, keyed, fresh⟩ :=
            @advance_heard aead key self peer wire { service with lastDial } seals queue node up more
              inbox short nonempty foreign paired
          rw [advanced, pending, List.nil_append]
          refine ⟨.waiting, link.inner, ⟨own, node, paired, ?_, ?_, .waiting rfl rfl
            (fun dialed => absurd rfl dialed) keyed fresh ⟨apart.links, apart.lasting⟩⟩, ?_⟩
          · rw [inner]
            exact id
          · rw [inner]
            exact up
          · rw [inner]
            exact .heard rfl inbox mine
  | waiting queue pending named keyed fresh apart =>
      have still : ({ service with lastDial } : ConnectionService aead Wire).advance =
          { service with lastDial } := advance_none queue
      rw [still]
      exact ⟨.waiting, _, ⟨own, node, paired, id, up, .waiting queue pending named keyed fresh apart⟩,
        .rests Stage.noConfusion fun due => due.2.elim (fun early => Stage.noConfusion early.2)
          fun wrong => Drive.noConfusion wrong.1⟩
  | registered queue pending found keyed belongs =>
      have still : ({ service with lastDial } : ConnectionService aead Wire).advance =
          { service with lastDial } := advance_none queue
      rw [still]
      exact ⟨.registered, _, ⟨own, node, paired, id, up, .registered queue pending found keyed belongs⟩,
        .used List.prefix_rfl⟩

/-! ## The network at an end -/

/-- Something happens to the end of a socket, wherever the machine keeps it. -/
def onConn (conn : Nat) (change : Wire → Wire) (service : ConnectionService aead Wire) :
    ConnectionService aead Wire :=
  { onLink conn change service with
    pendingIn := service.pendingIn.map fun handshake =>
      { handshake with raw := handshake.raw.map fun wire => if wire.id = conn then change wire else wire } }

def ends (service : ConnectionService aead Wire) : List Wire :=
  service.pendingIn.filterMap InboundHandshake.raw ++
    service.manager.pending.map (fun pending => pending.transport.inner) ++
    service.manager.connected.entries.map fun entry => entry.2.inner

def endOf (conn : Nat) (service : ConnectionService aead Wire) : Option Wire :=
  (ends service).find? fun wire => wire.id == conn

variable {change : Wire → Wire} {other : Nat}

theorem onWire_own (change : Wire → Wire) (own : link.inner.id = conn) :
    onWire conn change link = { link with inner := change link.inner } := if_pos own

theorem onWire_other (change : Wire → Wire) (foreign : link.inner.id ≠ conn) :
    onWire conn change link = link := if_neg foreign

def KeepsName (change : Wire → Wire) : Prop := ∀ wire, (change wire).id = wire.id

theorem onWire_id (kept : KeepsName change) (link : EncryptedTransport aead Wire) :
    (onWire conn change link).inner.id = link.inner.id := by
  unfold onWire
  split
  · exact kept link.inner
  · rfl

theorem onLink_find? (service : ConnectionService aead Wire) (id : PeerId) :
    (onLink conn change service).manager.connected.find? id =
      (service.manager.connected.find? id).map (onWire conn change) := OrdMap.find?_mapValues _ _ _

theorem Apart.onLink (kept : KeepsName change) (apart : Apart peer conn service.manager) :
    Apart peer conn (Link.onLink other change service).manager := by
  refine .of_absent fun id after found => ?_
  rw [onLink_find?, Option.map_eq_some_iff] at found
  obtain ⟨link, was, rfl⟩ := found
  rw [onWire_id kept]
  exact apart.links id link was

theorem Belongs.onLink (kept : KeepsName change) (belongs : Belongs peer conn service.manager) :
    Belongs peer conn (Link.onLink other change service).manager := by
  refine .of_only fun id after found => ?_
  rw [onLink_find?, Option.map_eq_some_iff] at found
  obtain ⟨link, was, rfl⟩ := found
  rw [onWire_id kept]
  exact belongs.links id link was

theorem Standing.onConn (standing : Standing self peer conn key service stage wire)
    (kept : KeepsName change) (up : (change wire).connected = true) :
    Standing self peer conn key (Link.onConn conn change service) stage (change wire) := by
  obtain ⟨own, node, paired, id, _, place⟩ := standing
  refine ⟨own, node, paired, (kept wire).trans id, up, ?_⟩
  cases place with
  | greeting queue pending apart =>
      refine .greeting ?_ ?_ (apart.onLink kept)
      · simp only [Link.onConn, queue, List.map_cons, List.map_nil, InboundHandshake.start,
          Option.map_some, if_pos id]
        rfl
      · simp only [Link.onConn, Link.onLink, pending, List.map_nil]
  | @waiting link _ queue pending named keyed fresh apart =>
      refine @At.waiting aead peer conn key _ _ { link with inner := change link.inner } _ ?_ ?_ named keyed
        fresh (apart.onLink kept)
      · simp only [Link.onConn, queue, List.map_nil]
      · simp only [Link.onConn, Link.onLink, pending, List.map_cons, List.map_nil, onWire_own change id]
  | @registered link queue pending found keyed belongs =>
      refine @At.registered aead peer conn key _ _ { link with inner := change link.inner } ?_ ?_ ?_ keyed
        (belongs.onLink kept)
      · simp only [Link.onConn, queue, List.map_nil]
      · simp only [Link.onConn, Link.onLink, pending, List.map_nil]
      · refine (onLink_find? service peer).trans ?_
        rw [found, Option.map_some, onWire_own change id]

theorem Standing.elsewhere (standing : Standing self peer conn key service stage wire)
    (kept : KeepsName change) (foreign : conn ≠ other) :
    Standing self peer conn key (Link.onConn other change service) stage wire := by
  obtain ⟨own, node, paired, id, up, place⟩ := standing
  have away : wire.id ≠ other := fun same => foreign (id.symm.trans same)
  refine ⟨own, node, paired, id, up, ?_⟩
  cases place with
  | greeting queue pending apart =>
      refine .greeting ?_ ?_ (apart.onLink kept)
      · simp only [Link.onConn, queue, List.map_cons, List.map_nil, InboundHandshake.start,
          Option.map_some, if_neg away]
        rfl
      · simp only [Link.onConn, Link.onLink, pending, List.map_nil]
  | waiting queue pending named keyed fresh apart =>
      refine .waiting ?_ ?_ named keyed fresh (apart.onLink kept)
      · simp only [Link.onConn, queue, List.map_nil]
      · simp only [Link.onConn, Link.onLink, pending, List.map_cons, List.map_nil, onWire_other change away]
  | registered queue pending found keyed belongs =>
      refine .registered ?_ ?_ ?_ keyed (belongs.onLink kept)
      · simp only [Link.onConn, queue, List.map_nil]
      · simp only [Link.onConn, Link.onLink, pending, List.map_nil]
      · refine (onLink_find? service peer).trans ?_
        rw [found, Option.map_some, onWire_other change away]

theorem find?_only {α : Type} {items : List α} {item : α} {p : α → Bool} (member : item ∈ items)
    (fits : p item = true) (only : ∀ other ∈ items, p other = true → other = item) :
    items.find? p = some item := by
  cases found : items.find? p with
  | none => exact absurd fits (List.find?_eq_none.mp found item member)
  | some other => rw [only other (List.mem_of_find?_eq_some found) (List.find?_some found)]

theorem Standing.endOf (standing : Standing self peer conn key service stage wire) :
    Link.endOf conn service = some wire := by
  obtain ⟨_, _, _, id, _, place⟩ := standing
  have fits : (wire.id == conn) = true := beq_iff_eq.mpr id
  have others : Apart peer conn service.manager → ∀ other ∈ service.manager.connected.entries.map
      (fun entry => entry.2.inner), (other.id == conn) = true → other = wire := by
    intro apart other member named
    obtain ⟨entry, listed, rfl⟩ := List.mem_map.mp member
    exact absurd (beq_iff_eq.mp named) (apart.links _ _ (OrdMap.mem_entries.mp listed)).2
  cases place with
  | greeting queue pending apart =>
      refine find?_only ?_ fits fun other member named => ?_
      · simp [ends, queue, InboundHandshake.start]
      · simp only [ends, queue, pending, InboundHandshake.start, List.filterMap_cons, List.filterMap_nil,
          List.map_nil, List.append_nil, List.mem_append, List.mem_singleton] at member
        exact member.elim (fun same => same) fun member => others apart other member named
  | @waiting link _ queue pending _ _ _ apart =>
      refine find?_only ?_ fits fun other member named => ?_
      · simp [ends, pending]
      · simp only [ends, queue, pending, List.filterMap_nil, List.map_cons, List.map_nil, List.nil_append,
          List.mem_append, List.mem_singleton] at member
        exact member.elim (fun same => same) fun member => others apart other member named
  | @registered link queue pending found _ belongs =>
      have listed := OrdMap.mem_entries.mpr found
      refine find?_only ?_ fits fun other member named => ?_
      · exact List.mem_append_right _ (List.mem_map.mpr ⟨_, listed, rfl⟩)
      · simp only [ends, queue, pending, List.filterMap_nil, List.map_nil, List.nil_append] at member
        obtain ⟨⟨id, one⟩, listed, rfl⟩ := List.mem_map.mp member
        have found' := OrdMap.mem_entries.mp listed
        have mine := belongs.links id one found' (beq_iff_eq.mp named)
        rw [mine, found] at found'
        exact congrArg EncryptedTransport.inner (Option.some.inj found').symm

end Skittermouse.Link

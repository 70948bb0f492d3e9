import Skittermouse.Link.AuthenticChannel
import Skittermouse.Link.Ends

/-! # A dial that establishes a link

Two paired machines, one socket between them, and nothing lost on it. However the
machines' turns and the socket's deliveries interleave, neither end is dropped, and
both are registered once the two hellos have been carried and read. No other socket
is dialed or accepted meanwhile: of two dials at once, one end may be dropped.
-/

namespace Skittermouse.Link

open Skittermouse.Data Skittermouse.Core Skittermouse.Net Skittermouse.Pairing Skittermouse.App

variable {aead : Aead}

/-- What may happen while the socket `conn` is being established. -/
inductive JoinAction (conn : Nat) where
  /-- No other dial gets through, and nobody else has connected. -/
  | pollConnections (party : Party) (now : UInt64)
  | poll (party : Party) (now : UInt64)
  | call (party : Party) (call : MeshCall)
  /-- The socket takes the oldest message of this end to the other. -/
  | carry (party : Party)
  /-- A frame arrives on another socket, or another socket goes down. -/
  | deliver (party : Party) (other : Nat) (foreign : conn ≠ other) (frame : Bytes)
  | notice (party : Party) (other : Nat) (foreign : conn ≠ other)

def carryOver (conn : Nat) (party : Party) (sides : Sides aead) : Sides aead :=
  match (endOf conn (sides party)).map Wire.outbox with
  | some (message :: rest) =>
      Function.update
        (Function.update sides party
          (onConn conn (fun wire => { wire with outbox := rest }) (sides party)))
        party.other (onConn conn (push message) (sides party.other))
  | _ => sides

def joinStep (hook : OwnerHook) {conn : Nat} : JoinAction conn → Sides aead → Sides aead
  | .pollConnections party now, sides =>
      Function.update sides party ((sides party).pollConnections now (fun _ => none) none)
  | .poll party now, sides =>
      Function.update sides party { sides party with manager := (sides party).manager.poll hook now }
  | .call party call, sides =>
      Function.update sides party
        { sides party with
          manager := { (sides party).manager with mesh := (sides party).manager.mesh.perform hook call } }
  | .carry party, sides => carryOver conn party sides
  | .deliver party other _ frame, sides =>
      Function.update sides party (onConn other (push frame) (sides party))
  | .notice party other _, sides =>
      Function.update sides party (onConn other Wire.close (sides party))

/-- A machine that is paired with the peer, has no link to it, and has no handshake
under way with anybody. -/
structure Unlinked (machine peer : PeerId) (conn : Nat) (key : Psk)
    (service : ConnectionService aead Wire) : Prop where
  own : service.self = machine
  node : service.manager.mesh.node.self = machine
  paired : service.keys.getPsk peer = some key
  queue : service.pendingIn = []
  pending : service.manager.pending = []
  absent : ∀ id link, service.manager.connected.find? id = some link →
    id ≠ peer ∧ link.inner.id ≠ conn

def freshEnd (conn : Nat) : Wire := ⟨conn, true, [], []⟩

/-- The left machine has just dialed the right one, which has accepted the socket. -/
def dialed (names : Party → PeerId) (conn : Nat) (now : UInt64) (host : Bytes) (port : UInt16)
    (sides : Sides aead) : Sides aead
  | .left => (sides .left).dialPeer now ⟨names .right, host, port⟩ (some (freshEnd conn))
  | .right => (sides .right).accept (some (freshEnd conn))

/-- Registered for the peer on the socket, which is up and sealed with the key of
the pairing and the machine's own role. -/
def Established (names : Party → PeerId) (key : Psk) (conn : Nat) (sides : Sides aead) : Prop :=
  ∀ party, ∃ link, (sides party).manager.connected.find? (names party.other) = some link ∧
    link.inner.id = conn ∧ link.inner.connected = true ∧
    KeyedFor key (linkRoleFor (names party) (names party.other)) link

/-! ## Both ends as they stand -/

structure EndState where
  stage : Stage
  wire : Wire

/-- The messages that the end waits for and that have not arrived. -/
def EndState.lack (place : EndState) : Nat := place.stage.wants - place.wire.inbox.length

variable {names : Party → PeerId} {key : Psk} {conn : Nat} {sides : Sides aead}
variable {view : Party → EndState} {party : Party} {hook : OwnerHook} {drive : Drive}
variable {before after left right : EndState}

/-- What is on its way between the ends. Until the right machine has heard the hint,
it has said nothing. -/
structure Meets (aead : Aead) (names : Party → PeerId) (key : Psk) (left right : EndState) : Prop where
  dialed : left.stage ≠ .greeting
  inward : Awaits aead key (channelRole names .left) (names .left) right.stage
    (right.wire.inbox ++ left.wire.outbox)
  silent : right.stage = .greeting →
    left.stage = .waiting ∧ left.wire.inbox = [] ∧ right.wire.outbox = []
  outward : right.stage ≠ .greeting → Awaits aead key (channelRole names .right) (names .right)
    left.stage (left.wire.inbox ++ right.wire.outbox)

abbrev EndState.Moves (aead : Aead) (names : Party → PeerId) (key : Psk) (party : Party) (drive : Drive)
    (before after : EndState) : Prop :=
  Link.Moves aead key (names party) (channelRole names party) drive before.stage before.wire after.stage
    after.wire

theorem moves_outbox (moves : EndState.Moves aead names key party drive before after)
    (late : before.stage ≠ .greeting) : before.wire.outbox <+: after.wire.outbox := by
  obtain ⟨stage, wire⟩ := before
  obtain ⟨stage', wire'⟩ := after
  cases moves with
  | rests => exact List.prefix_rfl
  | heard => exact absurd rfl late
  | named _ _ outbox => exact outbox
  | used outbox => exact outbox

theorem moves_onward (moves : EndState.Moves aead names key party drive before after) :
    after.lack ≤ before.lack ∧ after.stage.wants ≤ before.stage.wants := by
  obtain ⟨stage, wire⟩ := before
  obtain ⟨stage', wire'⟩ := after
  cases moves with
  | rests => exact ⟨Nat.le_refl _, Nat.le_refl _⟩
  | @heard _ hint hello rest _ queue _ =>
      have size : wire.inbox.length = rest.length + 1 := congrArg List.length queue
      simp only [EndState.lack, Stage.wants]
      omega
  | named => simp [EndState.lack, Stage.wants]
  | used => simp [EndState.lack, Stage.wants]

theorem Meets.leftMoves (meets : Meets aead names key before right)
    (moves : EndState.Moves aead names key .left drive before after) : Meets aead names key after right := by
  obtain ⟨more, outbox⟩ := moves_outbox moves meets.dialed
  have inward := meets.inward.append more
  rw [List.append_assoc, outbox] at inward
  obtain ⟨stage, wire⟩ := before
  obtain ⟨stage', wire'⟩ := after
  cases moves with
  | rests => exact meets
  | heard => exact absurd rfl meets.dialed
  | named _ queue _ =>
      refine ⟨Stage.noConfusion, inward, fun early => ?_, fun _ => .registered⟩
      have empty : wire.inbox = [] := (meets.silent early).2.1
      exact absurd (queue.symm.trans empty) (List.cons_ne_nil _ _)
  | used =>
      exact ⟨Stage.noConfusion, inward, fun early => absurd (meets.silent early).1 Stage.noConfusion,
        fun _ => .registered⟩

theorem Meets.rightMoves (meets : Meets aead names key left before)
    (moves : EndState.Moves aead names key .right drive before after) : Meets aead names key left after := by
  obtain ⟨dialed, inward, silent, outward⟩ := meets
  have grows (late : before.stage ≠ .greeting) : Awaits aead key (channelRole names .right)
      (names .right) left.stage (left.wire.inbox ++ after.wire.outbox) := by
    obtain ⟨more, outbox⟩ := moves_outbox moves late
    have longer := (outward late).append more
    rwa [List.append_assoc, outbox] at longer
  obtain ⟨stage, wire⟩ := before
  obtain ⟨stage', wire'⟩ := after
  cases moves with
  | rests => exact ⟨dialed, inward, silent, outward⟩
  | @heard _ hint hello rest _ queue mine =>
      obtain ⟨waits, empty, quiet⟩ := silent rfl
      obtain ⟨theirs, later, whole, sealed⟩ := inward.hint
      have queue' : wire.inbox = hint :: rest := queue
      rw [queue', List.cons_append] at whole
      refine ⟨dialed, ?_, Stage.noConfusion, fun _ => ?_⟩
      · show Awaits _ _ _ _ _ (rest ++ left.wire.outbox)
        rw [(List.cons.inj whole).2]
        exact .waiting sealed
      · show Awaits _ _ _ _ _ (left.wire.inbox ++ (wire.outbox ++ [hello]))
        have none_ : wire.outbox = [] := quiet
        rw [waits, empty, none_]
        exact .waiting mine
  | named => exact ⟨dialed, .registered, Stage.noConfusion, fun _ => grows Stage.noConfusion⟩
  | used => exact ⟨dialed, .registered, Stage.noConfusion, fun _ => grows Stage.noConfusion⟩

def EndState.sends (place : EndState) (rest : List Bytes) : EndState :=
  { place with wire := { place.wire with outbox := rest } }

def EndState.hears (place : EndState) (message : Bytes) : EndState :=
  { place with wire := push message place.wire }

theorem hears_lack (place : EndState) (message : Bytes) : (place.hears message).lack = place.lack - 1 := by
  simp only [EndState.lack, EndState.hears, push, List.length_append, List.length_singleton]
  omega

theorem Meets.carryLeft {message : Bytes} {rest : List Bytes} (meets : Meets aead names key left right)
    (queue : left.wire.outbox = message :: rest) :
    Meets aead names key (left.sends rest) (right.hears message) := by
  refine ⟨meets.dialed, ?_, meets.silent, meets.outward⟩
  have inward := meets.inward
  rw [queue, ← List.singleton_append, ← List.append_assoc] at inward
  exact inward

theorem Meets.carryRight {message : Bytes} {rest : List Bytes} (meets : Meets aead names key left right)
    (queue : right.wire.outbox = message :: rest) :
    Meets aead names key (left.hears message) (right.sends rest) := by
  have late : right.stage ≠ .greeting := fun early =>
    absurd (queue.symm.trans (meets.silent early).2.2) (List.cons_ne_nil _ _)
  refine ⟨meets.dialed, meets.inward, fun early => absurd early late, fun _ => ?_⟩
  have outward := meets.outward late
  rw [queue, ← List.singleton_append, ← List.append_assoc] at outward
  exact outward

theorem Awaits.enough {role : Role} {speaker : PeerId} {stage : Stage} {queue : List Bytes}
    (awaits : Awaits aead key role speaker stage queue) : stage.wants ≤ queue.length := by
  cases awaits with
  | greeting => simp [Stage.wants]
  | waiting => simp [Stage.wants]
  | registered => simp [Stage.wants]

/-! ## The two machines -/

/-- Each machine stands with its end, and what is on its way fits. -/
structure Joins (names : Party → PeerId) (key : Psk) (conn : Nat) (sides : Sides aead)
    (view : Party → EndState) : Prop where
  standing : ∀ party, Standing (names party) (names party.other) conn key (sides party)
    (view party).stage (view party).wire
  meets : Meets aead names key (view .left) (view .right)

def Onward (view later : Party → EndState) : Prop :=
  ∀ party, (later party).lack ≤ (view party).lack ∧
    (later party).stage.wants ≤ (view party).stage.wants

theorem Onward.refl (view : Party → EndState) : Onward view view :=
  fun _ => ⟨Nat.le_refl _, Nat.le_refl _⟩

theorem Onward.trans {first second third : Party → EndState} (left : Onward first second)
    (right : Onward second third) : Onward first third := fun party =>
  ⟨(right party).1.trans (left party).1, (right party).2.trans (left party).2⟩

theorem Onward.update (onward : after.lack ≤ (view party).lack ∧
    after.stage.wants ≤ (view party).stage.wants) : Onward view (Function.update view party after) := by
  intro who
  by_cases same : who = party
  · subst same
    rw [Function.update_self]
    exact onward
  · rw [Function.update_of_ne same]
    exact ⟨Nat.le_refl _, Nat.le_refl _⟩

theorem standing_update {service : ConnectionService aead Wire}
    (joins : ∀ party, Standing (names party) (names party.other) conn key (sides party)
      (view party).stage (view party).wire)
    (standing : Standing (names party) (names party.other) conn key service after.stage after.wire) :
    ∀ who, Standing (names who) (names who.other) conn key (Function.update sides party service who)
      (Function.update view party after who).stage (Function.update view party after who).wire := by
  intro who
  by_cases same : who = party
  · subst same
    rw [Function.update_self, Function.update_self]
    exact standing
  · rw [Function.update_of_ne same, Function.update_of_ne same]
    exact joins who

theorem Joins.turn {service : ConnectionService aead Wire} (joins : Joins names key conn sides view)
    (standing : Standing (names party) (names party.other) conn key service after.stage after.wire)
    (moves : EndState.Moves aead names key party drive (view party) after) :
    Joins names key conn (Function.update sides party service) (Function.update view party after) ∧
      Onward view (Function.update view party after) := by
  refine ⟨⟨standing_update joins.standing standing, ?_⟩, .update (moves_onward moves)⟩
  cases party with
  | left =>
      rw [Function.update_self, Function.update_of_ne Party.noConfusion]
      exact joins.meets.leftMoves moves
  | right =>
      rw [Function.update_self, Function.update_of_ne Party.noConfusion]
      exact joins.meets.rightMoves moves

theorem Joins.aside {service : ConnectionService aead Wire} (joins : Joins names key conn sides view)
    (standing : Standing (names party) (names party.other) conn key service (view party).stage
      (view party).wire) : Joins names key conn (Function.update sides party service) view := by
  refine ⟨fun who => ?_, joins.meets⟩
  by_cases same : who = party
  · subst same
    rw [Function.update_self]
    exact standing
  · rw [Function.update_of_ne same]
    exact joins.standing who

theorem keepsName_outbox (rest : List Bytes) : KeepsName fun wire => { wire with outbox := rest } :=
  fun _ => rfl

theorem keepsName_push (message : Bytes) : KeepsName (push message) := fun _ => rfl

theorem keepsName_close : KeepsName Wire.close := fun _ => rfl

theorem Joins.carry (joins : Joins names key conn sides view) (party : Party) :
    ∃ later, Joins names key conn (carryOver conn party sides) later ∧ Onward view later ∧
      ((view party).wire.outbox ≠ [] → (later party.other).lack ≤ (view party.other).lack - 1) := by
  have here := joins.standing party
  have there := joins.standing party.other
  have found := here.endOf
  rw [carryOver, found, Option.map_some]
  cases queue : (view party).wire.outbox with
  | nil => exact ⟨view, joins, .refl view, fun some_ => absurd rfl some_⟩
  | cons message rest =>
      have sent : Standing (names party) (names party.other) conn key
          (onConn conn (fun wire => { wire with outbox := rest }) (sides party))
          ((view party).sends rest).stage ((view party).sends rest).wire :=
        here.onConn (keepsName_outbox rest) here.up
      have heard : Standing (names party.other) (names party.other.other) conn key
          (onConn conn (push message) (sides party.other))
          ((view party.other).hears message).stage ((view party.other).hears message).wire :=
        there.onConn (keepsName_push message) there.up
      have apart : party.other ≠ party := by cases party <;> exact Party.noConfusion
      have first := standing_update joins.standing sent
      have both := standing_update first heard
      refine ⟨_, ⟨both, ?_⟩, ?_, fun _ => ?_⟩
      · cases party with
        | left =>
            rw [Function.update_of_ne apart.symm, Function.update_self]
            exact joins.meets.carryLeft queue
        | right =>
            rw [Function.update_of_ne apart.symm, Function.update_self]
            exact joins.meets.carryRight queue
      · have sending : Onward view (Function.update view party ((view party).sends rest)) :=
          .update ⟨Nat.le_refl _, Nat.le_refl _⟩
        refine sending.trans (.update ?_)
        rw [Function.update_of_ne apart, hears_lack]
        exact ⟨Nat.sub_le _ _, Nat.le_refl _⟩
      · rw [Function.update_self, hears_lack]

theorem moves_accepts (moves : EndState.Moves aead names key party .accepting before after)
    (arrived : before.lack = 0) : after.stage.wants ≤ 1 := by
  obtain ⟨stage, wire⟩ := before
  obtain ⟨stage', wire'⟩ := after
  cases moves with
  | rests _ nothing =>
      cases stage with
      | greeting =>
          refine absurd ⟨fun empty => ?_, .inl ⟨rfl, rfl⟩⟩ nothing
          rw [EndState.lack, empty] at arrived
          contradiction
      | waiting => exact Nat.le_refl 1
      | registered => exact Nat.zero_le 1
  | heard => exact Nat.le_refl 1
  | named wrong => cases wrong
  | used => exact Nat.zero_le 1

theorem moves_polls (moves : EndState.Moves aead names key party .polling before after)
    (arrived : before.lack = 0) (near : before.stage.wants ≤ 1) : after.stage.wants = 0 := by
  obtain ⟨stage, wire⟩ := before
  obtain ⟨stage', wire'⟩ := after
  cases moves with
  | rests _ nothing =>
      cases stage with
      | greeting =>
          have two : (2 : Nat) ≤ 1 := near
          omega
      | waiting =>
          refine absurd ⟨fun empty => ?_, .inr ⟨rfl, rfl⟩⟩ nothing
          rw [EndState.lack, empty] at arrived
          contradiction
      | registered => rfl
  | heard wrong => cases wrong
  | named => rfl
  | used => rfl

def Advances (view later : Party → EndState) : JoinAction conn → Prop
  | .pollConnections party _ => (view party).lack = 0 → (later party).stage.wants ≤ 1
  | .poll party _ =>
      (view party).lack = 0 → (view party).stage.wants ≤ 1 → (later party).stage.wants = 0
  | .carry party =>
      (view party).wire.outbox ≠ [] → (later party.other).lack ≤ (view party.other).lack - 1
  | _ => True

theorem Joins.awaits (joins : Joins names key conn sides view) (seals : Seals aead)
    (distinct : names .left ≠ names .right) (party : Party) :
    ∃ rest, Awaits aead key (channelRole names party).other (names party.other) (view party).stage
      ((view party).wire.inbox ++ rest) := by
  rw [← channelRole_other distinct]
  cases party with
  | left =>
      by_cases early : (view .right).stage = .greeting
      · obtain ⟨waits, empty, _⟩ := joins.meets.silent early
        obtain ⟨hello, sealed⟩ := exists_hello seals key (channelRole names Party.left.other)
          (names Party.left.other)
        rw [waits, empty]
        exact ⟨[hello], .waiting sealed⟩
      · exact ⟨_, joins.meets.outward early⟩
  | right => exact ⟨_, joins.meets.inward⟩

/-- The names of the machines fit the buffers that hellos are read into. -/
structure Fitting (names : Party → PeerId) : Prop where
  distinct : names .left ≠ names .right
  nonempty : ∀ party, names party ≠ []
  short : ∀ party, (encodePeerHello (names party)).length ≤ 512

theorem Fitting.foreign (fitting : Fitting names) (party : Party) : names party.other ≠ names party := by
  cases party with
  | left => exact fitting.distinct.symm
  | right => exact fitting.distinct

theorem Joins.step (joins : Joins names key conn sides view) (seals : Seals aead)
    (fitting : Fitting names) (hook : OwnerHook) (action : JoinAction conn) :
    ∃ later, Joins names key conn (joinStep hook action sides) later ∧ Onward view later ∧
      Advances view later action := by
  cases action with
  | pollConnections party now =>
      obtain ⟨rest, awaits⟩ := joins.awaits seals fitting.distinct party
      obtain ⟨stage, wire, standing, moves⟩ := (joins.standing party).pollConnections seals
        (fitting.nonempty _) (fitting.foreign party) (fitting.short _) awaits now
      obtain ⟨after, onward⟩ := @Joins.turn aead names key conn sides view party .accepting
        ⟨stage, wire⟩ _ joins standing moves
      refine ⟨_, after, onward, fun arrived => ?_⟩
      rw [Function.update_self]
      exact moves_accepts moves arrived
  | poll party now =>
      obtain ⟨rest, awaits⟩ := joins.awaits seals fitting.distinct party
      obtain ⟨stage, wire, standing, moves⟩ := (joins.standing party).poll
        (fitting.nonempty _) (fitting.foreign party) (fitting.short _) awaits hook now
      obtain ⟨after, onward⟩ := @Joins.turn aead names key conn sides view party .polling
        ⟨stage, wire⟩ _ joins standing moves
      refine ⟨_, after, onward, fun arrived near => ?_⟩
      rw [Function.update_self]
      exact moves_polls moves arrived near
  | call party call =>
      obtain ⟨wire, standing, moves⟩ := (joins.standing party).call
        (Host.perform_uses hook (sides party).manager.mesh call)
      obtain ⟨after, onward⟩ := @Joins.turn aead names key conn sides view party .aside
        ⟨(view party).stage, wire⟩ _ joins standing moves
      exact ⟨_, after, onward, trivial⟩
  | carry party => exact joins.carry party
  | deliver party other foreign frame =>
      have standing := (joins.standing party).elsewhere (keepsName_push frame) foreign
      exact ⟨view, joins.aside standing, .refl view, trivial⟩
  | notice party other foreign =>
      have standing := (joins.standing party).elsewhere keepsName_close foreign
      exact ⟨view, joins.aside standing, .refl view, trivial⟩

/-! ## From the dial to the link -/

theorem dialPeer_dialed (seals : Seals aead) {self peer : PeerId} {service : ConnectionService aead Wire}
    (unlinked : Unlinked self peer conn key service) (foreign : peer ≠ self) {now : UInt64}
    (host : Bytes) (port : UInt16)
    (due : (service.lastDial.find? peer).getD 0 = 0 ∨
      service.dialCooldownMs ≤ now - (service.lastDial.find? peer).getD 0) :
    ∃ (lastDial : OrdMap PeerId UInt64) (hello : Bytes) (link : EncryptedTransport aead Wire),
      SealedHello aead key (linkRoleFor self peer) self hello ∧
      service.dialPeer now ⟨peer, host, port⟩ (some (freshEnd conn)) = { service with
        lastDial
        manager := { service.manager with pending := [⟨link, peer⟩] } } ∧
      link.inner = ⟨conn, true, [], [encodePeerHello self, hello]⟩ ∧
      KeyedFor key (linkRoleFor self peer) link ∧ link.haveRecv = false := by
  obtain ⟨own, node, paired, _, pending, absent⟩ := unlinked
  obtain ⟨hello, link, sealed, announced, inner, keyed, fresh⟩ :=
    @announce_create aead ⟨conn, true, [], [encodePeerHello self]⟩ seals self key (linkRoleFor self peer)
      rfl
  refine ⟨service.lastDial.insert peer now, hello, link, sealed, ?_, inner, keyed, fresh⟩
  have alone : ¬(peer = self ∨ service.manager.isConnected peer = true) := by
    rw [(Apart.of_absent absent).absent]
    exact fun either => either.elim foreign Bool.false_ne_true
  have late : ¬((service.lastDial.find? peer).getD 0 ≠ 0 ∧
      now - (service.lastDial.find? peer).getD 0 < service.dialCooldownMs) := fun early =>
    due.elim early.1 fun over_ => UInt64.not_le.mpr early.2 over_
  have hinted : Transport.send (freshEnd conn) (encodePeerHello self) =
      (true, ⟨conn, true, [], [encodePeerHello self]⟩) := rfl
  simp only [ConnectionService.dialPeer, own, if_neg alone, if_neg late, secureOutbound, paired, hinted,
    ConnectionManager.addOutgoing, node, announced, pending, List.nil_append]

theorem Joins.start (seals : Seals aead) (fitting : Fitting names)
    (unlinked : ∀ party, Unlinked (names party) (names party.other) conn key (sides party))
    {now : UInt64} (host : Bytes) (port : UInt16)
    (due : ((sides .left).lastDial.find? (names .right)).getD 0 = 0 ∨
      (sides .left).dialCooldownMs ≤ now - ((sides .left).lastDial.find? (names .right)).getD 0) :
    ∃ view, Joins names key conn (Link.dialed names conn now host port sides) view := by
  obtain ⟨lastDial, hello, link, sealed, dialing, inner, keyed, fresh⟩ :=
    dialPeer_dialed seals (unlinked .left) (fitting.foreign .left) host port due
  have here := unlinked .left
  have there := unlinked .right
  refine ⟨fun | .left => ⟨.waiting, link.inner⟩ | .right => ⟨.greeting, freshEnd conn⟩,
    ⟨fun party => ?_, ?_⟩⟩
  · cases party with
    | left =>
        rw [Link.dialed]
        refine dialing.symm ▸ ⟨here.own, here.node, here.paired, ?_, ?_, .waiting here.queue rfl
          (fun _ => rfl) keyed fresh (Apart.of_absent here.absent)⟩
        · rw [inner]
        · rw [inner]
    | right =>
        refine ⟨there.own, there.node, there.paired, rfl, rfl, .greeting ?_ there.pending
          (Apart.of_absent there.absent)⟩
        simp only [Link.dialed, ConnectionService.accept, there.queue, List.nil_append]
  · refine ⟨Stage.noConfusion, ?_, fun _ => ⟨rfl, ?_, rfl⟩, fun late => absurd rfl late⟩
    · rw [inner]
      exact .greeting sealed
    · rw [inner]

/-- How far the two ends have come, one level with each of six steps. -/
def Level : Nat → (Party → EndState) → Prop
  | 0, _ => True
  | 1, view => (view .right).lack ≤ 1
  | 2, view => (view .right).lack = 0
  | 3, view => (view .right).lack = 0 ∧ (view .right).stage.wants ≤ 1
  | 4, view => (view .right).stage.wants = 0
  | 5, view => (view .right).stage.wants = 0 ∧ (view .left).lack = 0
  | _, view => (view .right).stage.wants = 0 ∧ (view .left).stage.wants = 0

theorem Level.onward {level : Nat} {later : Party → EndState} (reached : Level level view)
    (onward : Onward view later) : Level level later := by
  obtain ⟨leftLack, leftWants⟩ := onward .left
  obtain ⟨rightLack, rightWants⟩ := onward .right
  match level with
  | 0 => trivial
  | 1 => exact rightLack.trans reached
  | 2 => exact Nat.le_zero.mp (rightLack.trans reached.le)
  | 3 => exact ⟨Nat.le_zero.mp (rightLack.trans reached.1.le), rightWants.trans reached.2⟩
  | 4 => exact Nat.le_zero.mp (rightWants.trans reached.le)
  | 5 =>
      exact ⟨Nat.le_zero.mp (rightWants.trans reached.1.le), Nat.le_zero.mp (leftLack.trans reached.2.le)⟩
  | _ + 6 =>
      exact ⟨Nat.le_zero.mp (rightWants.trans reached.1.le),
        Nat.le_zero.mp (leftWants.trans reached.2.le)⟩

/-- The turns that bring a link about: the socket takes over the hint and the hello
of the machine that dialed, the other answers and reads it, and its hello goes back. -/
def turnsNeeded (conn : Nat) (advanced polled answered : UInt64) : List (JoinAction conn) :=
  [.carry .left, .carry .left, .pollConnections .right advanced, .poll .right polled, .carry .right,
    .poll .left answered]

theorem Stage.wants_le (stage : Stage) : stage.wants ≤ 2 := by
  cases stage <;> decide

theorem carried {later : Party → EndState} {queue : List Bytes} (onward : Onward view later)
    (enough : (view party.other).stage.wants ≤ ((view party.other).wire.inbox ++ queue).length)
    (same : queue = (view party).wire.outbox)
    (advances : @Advances conn view later (.carry party)) :
    (later party.other).lack ≤ (view party.other).lack - 1 := by
  by_cases empty : (view party).wire.outbox = []
  · rw [same, empty, List.append_nil] at enough
    have none_ : (view party.other).lack = 0 := Nat.sub_eq_zero_of_le enough
    have kept := (onward party.other).1
    omega
  · exact advances empty

theorem wants_of_late {stage : Stage} (late : stage ≠ .greeting) : stage.wants ≤ 1 := by
  cases stage with
  | greeting => exact absurd rfl late
  | waiting => exact Nat.le_refl 1
  | registered => exact Nat.zero_le 1

theorem Level.climbs {later : Party → EndState} {advanced polled answered : UInt64}
    (joins : Joins names key conn sides view) (onward : Onward view later) {place : Nat}
    {action : JoinAction conn} (chosen : (turnsNeeded conn advanced polled answered)[place]? = some action)
    (advances : Advances view later action) (reached : Level place view) : Level (place + 1) later := by
  have lacks : ∀ party, (view party).lack ≤ (view party).stage.wants := fun party => Nat.sub_le _ _
  match place with
  | 0 =>
      cases chosen
      have less : (later Party.left.other).lack ≤ (view Party.left.other).lack - 1 :=
        carried onward joins.meets.inward.enough rfl advances
      have most := (lacks .right).trans (view .right).stage.wants_le
      show (later .right).lack ≤ 1
      exact less.trans (Nat.sub_le_sub_right most 1)
  | 1 =>
      cases chosen
      have less : (later Party.left.other).lack ≤ (view Party.left.other).lack - 1 :=
        carried onward joins.meets.inward.enough rfl advances
      exact Nat.le_zero.mp (less.trans (Nat.sub_le_sub_right reached 1))
  | 2 =>
      cases chosen
      exact ⟨Nat.le_zero.mp ((onward .right).1.trans reached.le), advances reached⟩
  | 3 =>
      cases chosen
      exact advances reached.1 reached.2
  | 4 =>
      cases chosen
      have late : (view .right).stage ≠ .greeting := fun early => by
        have none_ : (view .right).stage.wants = 0 := reached
        rw [early] at none_
        contradiction
      have less : (later Party.right.other).lack ≤ (view Party.right.other).lack - 1 :=
        carried onward (joins.meets.outward late).enough rfl advances
      have most := (lacks .left).trans (wants_of_late joins.meets.dialed)
      exact ⟨Nat.le_zero.mp ((onward .right).2.trans (Nat.le_of_eq reached)),
        Nat.le_zero.mp (less.trans (Nat.sub_le_sub_right most 1))⟩
  | 5 =>
      cases chosen
      exact ⟨Nat.le_zero.mp ((onward .right).2.trans reached.1.le),
        advances reached.2 (wants_of_late joins.meets.dialed)⟩
  | _ + 6 => contradiction

theorem Standing.link {self peer : PeerId} {service : ConnectionService aead Wire} {stage : Stage}
    {wire : Wire} (standing : Standing self peer conn key service stage wire) (last : stage.wants = 0) :
    ∃ link, service.manager.connected.find? peer = some link ∧ link.inner.id = conn ∧
      link.inner.connected = true ∧ KeyedFor key (linkRoleFor self peer) link := by
  obtain ⟨_, _, _, id, up, place⟩ := standing
  cases place with
  | greeting => contradiction
  | waiting => contradiction
  | registered _ _ found keyed _ => exact ⟨_, found, id, up, keyed⟩

theorem Standing.belongs {self peer : PeerId} {service : ConnectionService aead Wire} {stage : Stage}
    {wire : Wire} (standing : Standing self peer conn key service stage wire) :
    Belongs peer conn service.manager := by
  cases standing.place with
  | greeting _ _ apart => exact apart.belongs
  | waiting _ _ _ _ _ apart => exact apart.belongs
  | registered _ _ _ _ belongs => exact belongs

/-- A dial between two paired machines that are not linked and have no handshake under way
brings about a link, if they come to no other socket meanwhile. However their turns and
what the socket delivers interleave, both ends are kept, and neither is registered for
anybody else; and from the moment that the needed turns have been taken in their
order, both machines have registered each other on this socket, under the key of the
pairing and in opposite roles. -/
theorem dials_establish (hook : OwnerHook) (seals : Seals aead) (fitting : Fitting names)
    (unlinked : ∀ party, Unlinked (names party) (names party.other) conn key (sides party))
    {now : UInt64} (host : Bytes) (port : UInt16)
    (due : ((sides .left).lastDial.find? (names .right)).getD 0 = 0 ∨
      (sides .left).dialCooldownMs ≤ now - ((sides .left).lastDial.find? (names .right)).getD 0)
    (actions : List (JoinAction conn)) :
    ∀ after, after = exec (joinStep hook) (Link.dialed names conn now host port sides) actions →
      (∀ party, (∃ wire, endOf conn (after party) = some wire ∧ wire.connected = true) ∧
        ∀ id link, (after party).manager.connected.find? id = some link → link.inner.id = conn →
          id = names party.other) ∧
      ∀ advanced polled answered, (turnsNeeded conn advanced polled answered).Sublist actions →
        Established names key conn after := by
  rintro after rfl
  obtain ⟨view, joins⟩ := Joins.start seals fitting unlinked host port due
  have kept : ∀ (action : JoinAction conn) (sides : Sides aead),
      (∃ view, Joins names key conn sides view) →
        ∃ view, Joins names key conn (joinStep hook action sides) view := by
    rintro action sides ⟨view, joins⟩
    obtain ⟨later, next, _⟩ := joins.step seals fitting hook action
    exact ⟨later, next⟩
  refine ⟨fun party => ?_, fun advanced polled answered among => ?_⟩
  · obtain ⟨last, joined⟩ := exec_preserves kept ⟨view, joins⟩ actions
    exact ⟨⟨_, (joined.standing party).endOf, (joined.standing party).up⟩,
      (joined.standing party).belongs.links⟩
  · have climbed := @exec_climbs _ _ (joinStep hook)
      (fun level (sides : Sides aead) => ∃ view, Joins names key conn sides view ∧ Level level view)
      (fun level action sides ⟨view, joins, reached⟩ => by
        obtain ⟨later, next, onward, _⟩ := joins.step seals fitting hook action
        exact ⟨later, next, reached.onward onward⟩)
      _ _ among 0 (fun place action found sides ⟨view, joins, reached⟩ => by
        obtain ⟨later, next, onward, advances⟩ := joins.step seals fitting hook action
        rw [Nat.zero_add] at reached ⊢
        exact ⟨later, next, reached.climbs joins onward found advances⟩)
      _ ⟨view, joins, trivial⟩
    obtain ⟨last, joined, right, left⟩ := climbed
    intro party
    cases party with
    | left => exact (joined.standing .left).link left
    | right => exact (joined.standing .right).link right

/-- "A" and "B", paired, before either has dialed the other. -/
def beforeDialing : Sides tagAead := fun party =>
  .init (KeyStore.setPsk ⟨∅⟩ (endNames party.other) (repeatedPsk 1)) (endNames party) []

theorem one_dial_establishes :
    Established endNames (repeatedPsk 1) 7
      (exec (joinStep .silent) (Link.dialed endNames 7 5000 [10] 4242 beforeDialing)
        (turnsNeeded 7 5001 5002 5003)) := by
  have seals : Seals tagAead := fun key nonce plaintext _ => ⟨plaintext, plainTag key plaintext, rfl⟩
  have fitting : Fitting endNames := by
    refine ⟨by decide, fun party => ?_, fun party => ?_⟩ <;> cases party <;> decide
  have unlinked : ∀ party, Unlinked (endNames party) (endNames party.other) 7 (repeatedPsk 1)
      (beforeDialing party) := by
    intro party
    refine ⟨rfl, rfl, ?_, rfl, rfl, fun id link found => absurd found (Option.some_ne_none link).symm⟩
    cases party <;> decide
  exact (dials_establish .silent seals fitting unlinked [10] 4242 (.inl (by decide))
    (turnsNeeded 7 5001 5002 5003) _ rfl).2 5001 5002 5003 (List.Sublist.refl _)

end Skittermouse.Link

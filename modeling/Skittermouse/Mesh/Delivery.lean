import Skittermouse.Data.Exec
import Skittermouse.Link.Frames
import Skittermouse.Net.MeshMessage

/-! # Two nodes on one sealed link

The sender broadcasts, the network carries frames in order, and the receiver
polls. What the receiver handles is compared with what was broadcast.
-/

namespace Skittermouse.Mesh

open Skittermouse.Data Skittermouse.Core Skittermouse.Net Skittermouse.App Skittermouse.Link

variable {aead : Aead}

def heardFrom (sender : PeerId) : List MeshEvent → List Bytes
  | [] => []
  | .handled source _ data :: rest =>
      if source = sender then heardFrom sender rest ++ [data] else heardFrom sender rest
  | _ :: rest => heardFrom sender rest

structure Pair (aead : Aead) where
  sender : Host PeerId (EncryptedTransport aead Wire)
  receiver : Host PeerId (EncryptedTransport aead Wire)

inductive PairAction where
  | broadcast (message : MeshMessage)
  | carry
  | poll (now : UInt64)

def takeFrame (link : EncryptedTransport aead Wire) : EncryptedTransport aead Wire :=
  { link with inner := { link.inner with outbox := link.inner.outbox.tail } }

def putFrame (frame : Bytes) (link : EncryptedTransport aead Wire) : EncryptedTransport aead Wire :=
  { link with inner := { link.inner with inbox := link.inner.inbox ++ [frame] } }

def carryFrame (a b : PeerId) (pair : Pair aead) : Pair aead :=
  match (pair.sender.heap.find? b).bind fun link => link.inner.outbox.head? with
  | none => pair
  | some frame =>
      { sender := { pair.sender with heap := pair.sender.heap.modify b takeFrame }
        receiver := { pair.receiver with heap := pair.receiver.heap.modify a (putFrame frame) } }

/-- The sender is "a" to the receiver, and the receiver "b" to the sender. -/
def pairStep (hook : OwnerHook) (a b : PeerId) : PairAction → Pair aead → Pair aead
  | .broadcast message, pair => { pair with sender := pair.sender.broadcast message.encode }
  | .carry, pair => carryFrame a b pair
  | .poll now, pair => { pair with receiver := pair.receiver.poll hook now }

def broadcasts (actions : List PairAction) : List MeshMessage :=
  actions.filterMap fun action => match action with
    | .broadcast message => some message
    | _ => none

/-- Each node has the other as its only peer, over one end of a link. -/
structure Joined (a b : PeerId) (out inn : EncryptedTransport aead Wire) (pair : Pair aead) :
    Prop where
  sends : pair.sender.node.peers.entries = [(b, some b)]
  sendEnd : pair.sender.heap.find? b = some out
  reads : pair.receiver.node.peers.entries = [(a, some a)]
  readEnd : pair.receiver.heap.find? a = some inn

structure Ends (out inn : EncryptedTransport aead Wire) : Prop where
  sendUp : out.inner.connected = true
  readUp : inn.inner.connected = true
  key : inn.key = out.key
  role : inn.recvRole = out.sendRole

structure Idle (out inn : EncryptedTransport aead Wire) : Prop where
  outbox : out.inner.outbox = []
  inbox : inn.inner.inbox = []
  expects : Expects inn out.sendCtr.toNat

def Drained (a b : PeerId) (pair : Pair aead) : Prop :=
  (∀ link, pair.sender.heap.find? b = some link → link.inner.outbox = []) ∧
    ∀ link, pair.receiver.heap.find? a = some link → link.inner.inbox = []

section Heard

variable {π τ : Type} [LinearOrder π] {sender : PeerId} {hook : OwnerHook}

theorem heardFrom_notices {events : List MeshEvent} (trace : List MeshEvent)
    (notices : ∀ event ∈ events, event.isNotice = true) :
    heardFrom sender (events ++ trace) = heardFrom sender trace := by
  induction events with
  | nil => rfl
  | cons event rest ih =>
      have kept := ih fun other member => notices other (List.mem_cons_of_mem _ member)
      have notice := notices event List.mem_cons_self
      cases event with
      | handled source now data => contradiction
      | _ => exact kept

theorem heardFrom_noted {before after : Host π τ} (noted : before.Noted after) :
    heardFrom sender after.trace = heardFrom sender before.trace := by
  obtain ⟨events, trace, notices⟩ := noted.trace
  rw [trace, heardFrom_notices _ notices]

variable [Transport τ]

theorem heardFrom_onOwnerChanged (host : Host π τ) (owner : PeerId) :
    heardFrom sender (host.onOwnerChanged hook owner).trace = heardFrom sender host.trace := by
  cases hook with
  | silent => rfl
  | releaseHeld =>
      simp only [Host.onOwnerChanged]
      split
      · rfl
      · rw [Host.releaseHeldKeys_trace]
        rfl

theorem heardFrom_handleClaim (host : Host π τ) (claim : OwnershipClaim) :
    heardFrom sender (host.handleClaim hook claim).trace = heardFrom sender host.trace := by
  simp only [Host.handleClaim]
  split
  · rw [heardFrom_onOwnerChanged]
    rfl
  · rfl

theorem heardFrom_handle (host : Host π τ) (data : Bytes) (now : UInt64) :
    heardFrom sender (host.handle hook sender data now).trace =
      heardFrom sender host.trace ++ [data] := by
  have heard : heardFrom sender (host.hear sender data now).trace =
      heardFrom sender host.trace ++ [data] := if_pos rfl
  have outcome := Host.handle_outcome hook host sender data now
  generalize host.handle hook sender data now = after at outcome ⊢
  cases outcome with
  | noted input claim noted => exact (heardFrom_noted noted).trans heard
  | injected input claim sink => exact heard
  | ignored input claim owner => exact heard
  | claimed input found => exact (heardFrom_handleClaim _ _).trans heard

theorem heardFrom_refresh (host : Host π τ) (now : UInt64) :
    heardFrom sender (host.refreshOnlineAndFailSafe hook now).trace = heardFrom sender host.trace := by
  obtain ⟨noted, notes, same⟩ := Host.refreshOnlineAndFailSafe_eq hook host now
  rw [same, ← heardFrom_noted notes, Host.failSafe]
  split
  · rw [heardFrom_onOwnerChanged]
    rfl
  · rfl

end Heard

variable {a b : PeerId} {hook : OwnerHook} {out inn : EncryptedTransport aead Wire}

/-- How a property of the receiving end, and of what it has heard, survives a poll. -/
structure ReadRules (P : EncryptedTransport aead Wire → List Bytes → Prop) : Prop where
  sent : ∀ {inn heard} message, P inn heard → P (Transport.send inn message).2 heard
  got : ∀ {inn heard data}, P inn heard →
    (Transport.recv inn Host.kPollBufferSize).1 = some data → data ≠ [] →
    P (Transport.recv inn Host.kPollBufferSize).2 (heard ++ [data])
  ended : ∀ {inn heard}, P inn heard →
    ((Transport.recv inn Host.kPollBufferSize).1 = none ∨
      (Transport.recv inn Host.kPollBufferSize).1 = some []) →
    P (Transport.recv inn Host.kPollBufferSize).2 heard

variable {host : Host PeerId (EncryptedTransport aead Wire)}
variable {P : EncryptedTransport aead Wire → List Bytes → Prop}

structure Reads (a : PeerId) (P : EncryptedTransport aead Wire → List Bytes → Prop)
    (host : Host PeerId (EncryptedTransport aead Wire)) : Prop where
  peers : host.node.peers.entries = [(a, some a)]
  link : ∃ inn, host.heap.find? a = some inn ∧ P inn (heardFrom a host.trace)

theorem Reads.uses {after : Host PeerId (EncryptedTransport aead Wire)} (rules : ReadRules P)
    (reads : Reads a P host) (uses : host.Uses false after)
    (heard : heardFrom a after.trace = heardFrom a host.trace) : Reads a P after := by
  obtain ⟨inn, found, holds⟩ := reads.link
  obtain ⟨later, foundLater, used⟩ := uses.survivor found
  refine ⟨by rw [uses.peers]; exact reads.peers, later, foundLater, ?_⟩
  rw [heard]
  exact used.preserves (fun link => P link _) (fun _ message kept => rules.sent message kept)
    (fun allowed => absurd allowed Bool.false_ne_true) holds

theorem Reads.handle (rules : ReadRules P) {data : Bytes} (now : UInt64)
    (peers : host.node.peers.entries = [(a, some a)]) (found : host.heap.find? a = some inn)
    (holds : P inn (heardFrom a host.trace ++ [data])) :
    Reads a P (host.handle hook a data now) := by
  have uses : Host.Uses false _ _ := Host.handle_uses hook host a data now
  obtain ⟨later, foundLater, used⟩ := uses.survivor found
  refine ⟨by rw [uses.peers]; exact peers, later, foundLater, ?_⟩
  rw [heardFrom_handle]
  exact used.preserves (fun link => P link _) (fun _ message kept => rules.sent message kept)
    (fun allowed => absurd allowed Bool.false_ne_true) holds

theorem Reads.drain (rules : ReadRules P) (reads : Reads a P host) (now : UInt64) (fuel : Nat) :
    Reads a P (host.drain hook a a now fuel) := by
  refine Host.drain_preserves (fun current transport found ended reads => ?_)
    (fun current transport data found received nonempty reads => ?_) fuel reads
  · obtain ⟨inn, same, holds⟩ := reads.link
    rw [found] at same
    cases same
    exact ⟨reads.peers, _, OrdMap.find?_insert_self _ _ _, rules.ended holds ended⟩
  · obtain ⟨inn, same, holds⟩ := reads.link
    rw [found] at same
    cases same
    exact .handle rules now reads.peers (OrdMap.find?_insert_self _ _ _)
      (rules.got holds received nonempty)

theorem Reads.poll (rules : ReadRules P) (reads : Reads a P host) (now : UInt64) :
    Reads a P (host.poll hook now) := by
  have timed : Reads a P { host with node.now := now } := ⟨reads.peers, reads.link⟩
  simp only [Host.poll, reads.peers, List.foldl_cons, List.foldl_nil, Host.drainPeer]
  exact (timed.drain rules now _).uses rules (Host.refresh_uses hook _ now) (heardFrom_refresh _ now)

/-- How a property of what was sent, of the two ends and of what was heard
survives a run. -/
structure RunRules (P : List Bytes → EncryptedTransport aead Wire → EncryptedTransport aead Wire →
    List Bytes → Prop) : Prop where
  reads : ∀ sent out, ReadRules (P sent out)
  broadcast : ∀ {sent out inn heard} message, P sent out inn heard →
    P (sent ++ [message]) (Transport.send out message).2 inn heard
  carry : ∀ {sent out inn heard frame rest}, P sent out inn heard →
    out.inner.outbox = frame :: rest → P sent (takeFrame out) (putFrame frame inn) heard

variable {pair : Pair aead} {sent : List Bytes}
variable {Q : List Bytes → EncryptedTransport aead Wire → EncryptedTransport aead Wire →
  List Bytes → Prop}

def Tracks (a b : PeerId) (Q : List Bytes → EncryptedTransport aead Wire →
    EncryptedTransport aead Wire → List Bytes → Prop) (sent : List Bytes) (pair : Pair aead) : Prop :=
  ∃ out inn, Joined a b out inn pair ∧ Q sent out inn (heardFrom a pair.receiver.trace)

theorem Tracks.broadcast (rules : RunRules Q) (tracks : Tracks a b Q sent pair) (message : Bytes) :
    Tracks a b Q (sent ++ [message]) { pair with sender := pair.sender.broadcast message } := by
  obtain ⟨out, inn, joined, holds⟩ := tracks
  refine ⟨_, inn, ⟨joined.sends, ?_, joined.reads, joined.readEnd⟩, rules.broadcast message holds⟩
  have reached : pair.sender.node.pointers = [b] := by
    rw [MeshNode.pointers, joined.sends]
    rfl
  simp only [Host.broadcast, reached, List.foldl_cons, List.foldl_nil, OrdMap.find?_modify_self,
    joined.sendEnd, Option.map_some]

theorem Tracks.carry (rules : RunRules Q) (tracks : Tracks a b Q sent pair) :
    Tracks a b Q sent (carryFrame a b pair) := by
  obtain ⟨out, inn, joined, holds⟩ := tracks
  cases waiting : out.inner.outbox with
  | nil =>
      have same : carryFrame a b pair = pair := by
        simp only [carryFrame, joined.sendEnd, Option.bind_some, waiting, List.head?_nil]
      rw [same]
      exact ⟨out, inn, joined, holds⟩
  | cons frame rest =>
      have moved : carryFrame a b pair =
          { sender := { pair.sender with heap := pair.sender.heap.modify b takeFrame }
            receiver := { pair.receiver with heap := pair.receiver.heap.modify a (putFrame frame) } } := by
        simp only [carryFrame, joined.sendEnd, Option.bind_some, waiting, List.head?_cons]
      rw [moved]
      refine ⟨takeFrame out, putFrame frame inn, ⟨joined.sends, ?_, joined.reads, ?_⟩,
        rules.carry holds waiting⟩
      · rw [OrdMap.find?_modify_self, joined.sendEnd, Option.map_some]
      · rw [OrdMap.find?_modify_self, joined.readEnd, Option.map_some]

theorem Tracks.poll (rules : RunRules Q) (tracks : Tracks a b Q sent pair) (now : UInt64) :
    Tracks a b Q sent { pair with receiver := pair.receiver.poll hook now } := by
  obtain ⟨out, inn, joined, holds⟩ := tracks
  have reads : Reads a (Q sent out) pair.receiver := ⟨joined.reads, inn, joined.readEnd, holds⟩
  obtain ⟨peers, after, found, kept⟩ := reads.poll (rules.reads sent out) now
  exact ⟨out, after, ⟨joined.sends, joined.sendEnd, peers, found⟩, kept⟩

theorem Tracks.run (hook : OwnerHook) (rules : RunRules Q) (tracks : Tracks a b Q sent pair)
    (actions : List PairAction) :
    Tracks a b Q (sent ++ (broadcasts actions).map MeshMessage.encode)
      (exec (pairStep hook a b) pair actions) := by
  induction actions generalizing sent pair with
  | nil =>
      rw [broadcasts, List.filterMap_nil, List.map_nil, List.append_nil]
      exact tracks
  | cons action rest ih =>
      cases action with
      | broadcast message =>
          have stepped := ih (tracks.broadcast rules message.encode)
          rw [List.append_assoc] at stepped
          exact stepped
      | carry => exact ih (tracks.carry rules)
      | poll now => exact ih (tracks.poll rules now)

/-- Everything sent fits the poll buffer, and the counter lasts for it. -/
structure Fit (ctr : Nat) (sent : List Bytes) : Prop where
  nonempty : ∀ message ∈ sent, message ≠ []
  short : ∀ message ∈ sent, message.length ≤ Host.kPollBufferSize
  room : ctr + sent.length ≤ 2 ^ 64 - 1

theorem Fit.init {ctr : Nat} {message : Bytes} (fit : Fit ctr (sent ++ [message])) : Fit ctr sent := by
  have room := fit.room
  rw [List.length_append] at room
  exact ⟨fun other member => fit.nonempty other (List.mem_append_left _ member),
    fun other member => fit.short other (List.mem_append_left _ member), by omega⟩

/-- What was sent is what was heard, and then what the frames on the way hold. -/
structure Delivering (ctr : Nat) (sent : List Bytes) (out inn : EncryptedTransport aead Wire)
    (heard : List Bytes) : Prop where
  ends : Ends out inn
  counter : out.sendCtr.toNat = ctr + sent.length
  expects : Expects inn (ctr + heard.length)
  waiting : ∃ rest, sent = heard ++ rest ∧
    Frames aead out.key out.sendRole (ctr + heard.length) rest (inn.inner.inbox ++ out.inner.outbox)

variable {ctr : Nat} {heard : List Bytes}

theorem Delivering.recv (fit : Fit ctr sent) (delivering : Delivering ctr sent out inn heard) :
    ((Transport.recv inn Host.kPollBufferSize).1 = some [] ∧
        Delivering ctr sent out (Transport.recv inn Host.kPollBufferSize).2 heard) ∨
      ∃ message, message ≠ [] ∧ (Transport.recv inn Host.kPollBufferSize).1 = some message ∧
        Delivering ctr sent out (Transport.recv inn Host.kPollBufferSize).2 (heard ++ [message]) := by
  obtain ⟨ends, counter, expects, rest, split, frames⟩ := delivering
  generalize inbox : inn.inner.inbox = frameQueue at frames
  cases frameQueue with
  | nil =>
      obtain ⟨scratch, received⟩ := recv_idle Host.kPollBufferSize ends.readUp inbox
      rw [received]
      refine .inl ⟨rfl, ⟨ends.sendUp, ends.readUp, ends.key, ends.role⟩, counter, expects, rest,
        split, ?_⟩
      rw [inbox]
      exact frames
  | cons frame later =>
      rw [List.cons_append] at frames
      cases frames with
      | @cons _ message ciphertext tag messages _ room encrypted remaining =>
          have member : message ∈ sent := by
            rw [split]
            exact List.mem_append_right _ List.mem_cons_self
          rw [← ends.key, ← ends.role] at encrypted
          rw [← ends.role] at inbox
          obtain ⟨scratch, received⟩ := recv_frame ends.readUp inbox expects room encrypted
            (fit.short message member)
          rw [received]
          refine .inr ⟨message, fit.nonempty message member, rfl,
            ⟨ends.sendUp, ends.readUp, ends.key, ends.role⟩, counter, fun _ => ?_, messages, ?_, ?_⟩
          · change (UInt64.ofNat (ctr + heard.length)).toNat < _
            rw [UInt64.toNat_ofNat_of_lt' room, List.length_append, List.length_singleton]
            omega
          · rw [split, List.append_assoc]
            rfl
          · rw [List.length_append, List.length_singleton, ← Nat.add_assoc]
            exact remaining

theorem delivering_rules (seals : Seals aead) (ctr : Nat) :
    RunRules fun sent out inn heard => Fit ctr sent → @Delivering aead ctr sent out inn heard where
  reads sent out :=
    { sent := fun {inn heard} message holds fit => by
        obtain ⟨ends, counter, expects, waiting⟩ := holds fit
        rcases send_cases message ends.readUp with same | ⟨_, _, _, _, sentFrame⟩
        · rw [same]
          exact ⟨ends, counter, expects, waiting⟩
        · rw [sentFrame]
          exact ⟨⟨ends.sendUp, ends.readUp, ends.key, ends.role⟩, counter, expects, waiting⟩
      got := fun {inn heard data} holds received nonempty fit => by
        rcases (holds fit).recv fit with ⟨empty, _⟩ | ⟨message, _, found, kept⟩
        · rw [received, Option.some.injEq] at empty
          exact absurd empty nonempty
        · rw [received, Option.some.injEq] at found
          rw [found]
          exact kept
      ended := fun {inn heard} holds broken fit => by
        rcases (holds fit).recv fit with ⟨_, kept⟩ | ⟨message, nonempty, found, _⟩
        · exact kept
        · rw [found] at broken
          rcases broken with failed | empty
          · contradiction
          · exact absurd (Option.some.inj empty) nonempty }
  broadcast := fun {sent out inn heard} message holds fit => by
    obtain ⟨ends, counter, expects, rest, split, frames⟩ := holds fit.init
    have room := fit.room
    rw [List.length_append, List.length_singleton] at room
    have below : out.sendCtr ≠ UInt64.ofNat (2 ^ 64 - 1) := by
      intro last
      rw [last] at counter
      change 2 ^ 64 - 1 = _ at counter
      omega
    have nonempty := fit.nonempty message (List.mem_append_right _ List.mem_cons_self)
    obtain ⟨ciphertext, tag, encrypted, sealedSend⟩ := send_sealed seals nonempty below ends.sendUp
    have next : ctr + heard.length + rest.length = ctr + sent.length := by
      rw [split, List.length_append]
      omega
    have current : UInt64.ofNat (ctr + heard.length + rest.length) = out.sendCtr := by
      rw [next, ← counter, UInt64.ofNat_toNat]
    rw [sealedSend]
    refine ⟨⟨ends.sendUp, ends.readUp, ends.key, ends.role⟩, ?_, expects, rest ++ [message], ?_, ?_⟩
    · change (out.sendCtr + 1).toNat = _
      rw [UInt64.toNat_add, counter, List.length_append, List.length_singleton]
      simp only [UInt64.reduceToNat]
      omega
    · rw [split, List.append_assoc]
    · have longer := frames.concat (by omega) (by rw [current]; exact encrypted)
      rw [current] at longer
      rw [← List.append_assoc]
      exact longer
  carry := fun {sent out inn heard frame rest} holds queue fit => by
    obtain ⟨ends, counter, expects, remaining, split, frames⟩ := holds fit
    refine ⟨⟨ends.sendUp, ends.readUp, ends.key, ends.role⟩, counter, expects, remaining, split, ?_⟩
    simp only [putFrame, takeFrame, queue, List.tail_cons, List.append_assoc, List.singleton_append]
    rw [queue] at frames
    exact frames

/-- Every message heard has used up a frame, and fitted the poll buffer. -/
structure Counted (ctr : Nat) (out inn : EncryptedTransport aead Wire) (heard : List Bytes) : Prop where
  sendUp : out.inner.connected = true
  frames : ctr + heard.length + inn.inner.inbox.length + out.inner.outbox.length ≤ out.sendCtr.toNat
  short : ∀ message ∈ heard, message.length ≤ Host.kPollBufferSize

theorem counted_rules (aead : Aead) (ctr : Nat) :
    RunRules fun (_ : List Bytes) out inn heard => @Counted aead ctr out inn heard where
  reads sent out :=
    { sent := fun {inn heard} message counted => by
        refine ⟨counted.sendUp, ?_, counted.short⟩
        rw [send_inbox]
        exact counted.frames
      got := fun {inn heard data} counted received nonempty => by
        have fewer : (Transport.recv inn Host.kPollBufferSize).2.inner.inbox.length <
            inn.inner.inbox.length := Transport.recv_backlog received nonempty
        have frames := counted.frames
        refine ⟨counted.sendUp, ?_, fun message member => ?_⟩
        · rw [List.length_append, List.length_singleton]
          omega
        · rcases List.mem_append.mp member with old | new
          · exact counted.short message old
          · rw [List.mem_singleton.mp new]
            exact Transport.recv_fits received
      ended := fun {inn heard} counted _ => by
        have fewer := recv_inbox_le inn Host.kPollBufferSize
        have frames := counted.frames
        exact ⟨counted.sendUp, by omega, counted.short⟩ }
  broadcast := fun {sent out inn heard} message counted => by
    rcases send_cases message counted.sendUp with same | ⟨below, _, _, _, sentFrame⟩
    · rw [same]
      exact counted
    · have apart : out.sendCtr.toNat ≠ 2 ^ 64 - 1 := fun last =>
        below (UInt64.toNat_inj.mp (by rw [last]; rfl))
      have bound := out.sendCtr.toNat_lt
      have frames := counted.frames
      rw [sentFrame]
      refine ⟨counted.sendUp, ?_, counted.short⟩
      simp only [List.length_append, List.length_singleton, UInt64.toNat_add, UInt64.reduceToNat]
      omega
  carry := fun {sent out inn heard frame rest} counted queue => by
    have frames := counted.frames
    rw [queue, List.length_cons] at frames
    refine ⟨counted.sendUp, ?_, counted.short⟩
    simp only [putFrame, takeFrame, queue, List.tail_cons, List.length_append, List.length_singleton]
    omega

/-- Every message was handled exactly once, in order, and with its own content. -/
def Delivered (a : PeerId) (messages : List MeshMessage) (pair : Pair aead) : Prop :=
  (heardFrom a pair.receiver.trace).map readMessage = messages.map some

theorem encode_ne_nil (message : MeshMessage) : message.encode ≠ [] := by
  cases message <;> exact List.cons_ne_nil _ _

section Drained

variable {start : Pair aead} {actions : List PairAction}

theorem fits_of_delivered (hook : OwnerHook) (joined : Joined a b out inn start)
    (ends : Ends out inn) (idle : Idle out inn) (unheard : heardFrom a start.receiver.trace = [])
    (delivered : Delivered a (broadcasts actions) (exec (pairStep hook a b) start actions)) :
    (∀ message ∈ broadcasts actions, message.encode.length ≤ Host.kPollBufferSize) ∧
      out.sendCtr.toNat + (broadcasts actions).length ≤ 2 ^ 64 - 1 := by
  have counted : Counted out.sendCtr.toNat out inn (heardFrom a start.receiver.trace) := by
    refine ⟨ends.sendUp, ?_, ?_⟩
    · rw [unheard, idle.inbox, idle.outbox]
      exact Nat.le_refl _
    · rw [unheard]
      exact fun _ member => absurd member List.not_mem_nil
  have tracks : Tracks a b (fun _ => Counted out.sendCtr.toNat) [] start := ⟨out, inn, joined, counted⟩
  obtain ⟨finalOut, _, _, final⟩ := tracks.run hook (counted_rules aead _) actions
  have count := congrArg List.length delivered
  rw [List.length_map, List.length_map] at count
  refine ⟨fun message member => ?_, ?_⟩
  · have found : some message ∈ (broadcasts actions).map some := List.mem_map_of_mem member
    rw [← delivered] at found
    obtain ⟨data, heard, read⟩ := List.mem_map.mp found
    exact (readMessage_length read).trans (final.short data heard)
  · have frames := final.frames
    have bound := finalOut.sendCtr.toNat_lt
    omega

theorem delivered_of_fits (seals : Seals aead) (hook : OwnerHook) (joined : Joined a b out inn start)
    (ends : Ends out inn) (idle : Idle out inn) (unheard : heardFrom a start.receiver.trace = [])
    (formed : ∀ message ∈ broadcasts actions, message.WellFormed)
    (drained : Drained a b (exec (pairStep hook a b) start actions))
    (short : ∀ message ∈ broadcasts actions, message.encode.length ≤ Host.kPollBufferSize)
    (room : out.sendCtr.toNat + (broadcasts actions).length ≤ 2 ^ 64 - 1) :
    Delivered a (broadcasts actions) (exec (pairStep hook a b) start actions) := by
  have tracks : Tracks a b (fun sent out' inn heard => Fit out.sendCtr.toNat sent →
      Delivering out.sendCtr.toNat sent out' inn heard) [] start := by
    refine ⟨out, inn, joined, fun _ => ⟨ends, rfl, ?_, [], ?_, ?_⟩⟩
    · rw [unheard]
      exact idle.expects
    · rw [unheard]
      rfl
    · rw [idle.inbox, idle.outbox]
      exact .nil _
  obtain ⟨final, finalInn, finalJoined, delivering⟩ :=
    tracks.run hook (delivering_rules seals _) actions
  have fit : Fit out.sendCtr.toNat ((broadcasts actions).map MeshMessage.encode) := by
    refine ⟨fun data member => ?_, fun data member => ?_, by rw [List.length_map]; exact room⟩
    · obtain ⟨message, _, rfl⟩ := List.mem_map.mp member
      exact encode_ne_nil message
    · obtain ⟨message, sent, rfl⟩ := List.mem_map.mp member
      exact short message sent
  obtain ⟨_, _, _, rest, split, frames⟩ := delivering fit
  rw [drained.1 _ finalJoined.sendEnd, drained.2 _ finalJoined.readEnd, List.append_nil] at frames
  cases frames
  rw [List.nil_append, List.append_nil] at split
  rw [Delivered, ← split, List.map_map]
  refine List.map_congr_left fun message member => ?_
  have size := short message member
  rw [Host.kPollBufferSize] at size
  exact readMessage_encode (formed message member) (by omega)

/-- A run that drains the link delivers its messages exactly when each of them
fits the poll buffer and the send counter lasts for all of them. -/
theorem delivered_iff_fits (seals : Seals aead) (hook : OwnerHook) (a b : PeerId)
    (joined : Joined a b out inn start) (ends : Ends out inn) (idle : Idle out inn)
    (unheard : heardFrom a start.receiver.trace = [])
    (formed : ∀ message ∈ broadcasts actions, message.WellFormed)
    (drained : Drained a b (exec (pairStep hook a b) start actions)) :
    Delivered a (broadcasts actions) (exec (pairStep hook a b) start actions) ↔
      (∀ message ∈ broadcasts actions, message.encode.length ≤ Host.kPollBufferSize) ∧
        out.sendCtr.toNat + (broadcasts actions).length ≤ 2 ^ 64 - 1 :=
  ⟨fits_of_delivered hook joined ends idle unheard,
    fun fits => delivered_of_fits seals hook joined ends idle unheard formed drained fits.1 fits.2⟩

end Drained

def AtMost (bound : Nat) (inn : EncryptedTransport aead Wire) (_ : List Bytes) : Prop :=
  inn.inner.inbox.length ≤ bound

theorem atMost_rules (aead : Aead) (bound : Nat) : ReadRules (@AtMost aead bound) where
  sent := fun {inn heard} message short => by
    rw [AtMost, send_inbox]
    exact short
  got := fun short _ _ => (recv_inbox_le _ _).trans short
  ended := fun short _ => (recv_inbox_le _ _).trans short

theorem recv_inbox_pred (link : EncryptedTransport aead Wire) (cap : Nat)
    (up : link.inner.connected = true) :
    (Transport.recv link cap).2.inner.inbox.length ≤ link.inner.inbox.length - 1 := by
  have inner : (Transport.recv link cap).2.inner = _ := EncryptedTransport.recv_inner link cap
  rw [inner]
  cases queue : link.inner.inbox with
  | nil =>
      rw [Wire.recv_nil _ up queue, queue]
      exact Nat.le_refl _
  | cons frame rest =>
      rw [Wire.recv_cons _ up queue]
      exact Nat.le_refl _

theorem poll_shortens (hook : OwnerHook)
    (host : Host PeerId (EncryptedTransport aead Wire)) (now : UInt64)
    (peers : host.node.peers.entries = [(a, some a)]) (found : host.heap.find? a = some inn)
    (up : inn.inner.connected = true) :
    ∃ after, (host.poll hook now).heap.find? a = some after ∧
      after.inner.inbox.length ≤ inn.inner.inbox.length - 1 := by
  have rules := atMost_rules aead (inn.inner.inbox.length - 1)
  have first := recv_inbox_pred inn Host.kPollBufferSize up
  have drained : Reads a (AtMost (inn.inner.inbox.length - 1))
      (Host.drain hook a a now (host.backlog a + 1) { host with node.now := now }) := by
    simp only [Host.drain, found]
    split
    · exact ⟨peers, _, OrdMap.find?_insert_self _ _ _, first⟩
    · exact ⟨peers, _, OrdMap.find?_insert_self _ _ _, first⟩
    · refine Reads.drain rules ?_ now _
      exact .handle rules now peers (OrdMap.find?_insert_self _ _ _) first
  have polled : Reads a (AtMost (inn.inner.inbox.length - 1)) (host.poll hook now) := by
    simp only [Host.poll, peers, List.foldl_cons, List.foldl_nil, Host.drainPeer]
    exact drained.uses rules (Host.refresh_uses hook _ now) (heardFrom_refresh _ now)
  exact polled.link

def joinedTo (self peer : PeerId) (role : Role) : Host PeerId (EncryptedTransport tagAead Wire) :=
  let host := (Host.init PeerId (EncryptedTransport tagAead Wire) self).addPeer peer (some peer)
  { host with heap := host.heap.insert peer (.create ⟨0, true, [], []⟩ (repeatedPsk 1) role) }

def freshPair : Pair tagAead :=
  { sender := joinedTo [65] [66] .initiator, receiver := joinedTo [66] [65] .responder }

def copyText (text : Bytes) : List PairAction := [.broadcast (.clipboard text), .carry, .poll 1000]

theorem freshPair_joined : Joined [65] [66] (.create ⟨0, true, [], []⟩ (repeatedPsk 1) .initiator)
    (.create ⟨0, true, [], []⟩ (repeatedPsk 1) .responder) freshPair := ⟨rfl, rfl, rfl, rfl⟩

theorem freshPair_drained (text : Bytes) :
    Drained [65] [66] (exec (pairStep .silent [65] [66]) freshPair (copyText text)) := by
  refine ⟨fun link found => ?_, fun link found => ?_⟩
  · cases found
    rfl
  · obtain ⟨after, same, short⟩ := poll_shortens .silent (carryFrame [65] [66] (pairStep .silent [65]
      [66] (.broadcast (.clipboard text)) freshPair)).receiver 1000 rfl rfl rfl
    cases found.symm.trans same
    exact List.eq_nil_of_length_eq_zero (Nat.le_zero.mp short)

/-- A clipboard text of 8187 bytes is one byte too long. -/
theorem long_clipboard_lost :
    Drained [65] [66] (exec (pairStep .silent [65] [66]) freshPair (copyText (List.replicate 8187 97))) ∧
      ¬Delivered [65] (broadcasts (copyText (List.replicate 8187 97)))
        (exec (pairStep .silent [65] [66]) freshPair (copyText (List.replicate 8187 97))) := by
  refine ⟨freshPair_drained _, fun delivered => ?_⟩
  have fits := (fits_of_delivered .silent freshPair_joined ⟨rfl, rfl, rfl, rfl⟩ ⟨rfl, rfl, nofun⟩ rfl
    delivered).1 (.clipboard (List.replicate 8187 97)) List.mem_cons_self
  rw [MeshMessage.encode, encodeVarMessage_length, List.length_replicate] at fits
  exact absurd fits (by decide)

theorem short_clipboard_delivered :
    Delivered [65] (broadcasts (copyText [104, 105]))
      (exec (pairStep .silent [65] [66]) freshPair (copyText [104, 105])) := by
  have seals : Seals tagAead := fun key nonce plaintext _ => ⟨plaintext, plainTag key plaintext, rfl⟩
  refine (delivered_iff_fits seals .silent [65] [66] freshPair_joined ⟨rfl, rfl, rfl, rfl⟩
    ⟨rfl, rfl, nofun⟩ rfl (fun message member => ?_) (freshPair_drained _)).mpr ⟨?_, by decide⟩
  · cases List.mem_singleton.mp member
    trivial
  · decide

end Skittermouse.Mesh

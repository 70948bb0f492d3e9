import Mathlib.Data.List.Infix
import Mathlib.Logic.Function.Basic
import Skittermouse.Data.Exec
import Skittermouse.Link.Frames
import Skittermouse.Link.Resolution
import Skittermouse.Pairing.KeyStore

/-! # Two paired machines and whoever controls the network

Every connection between the machines is sealed with their one key, and every
end of a connection starts to receive from scratch. The network hands frames
to the ends as it likes; without the key it can only hand over what has been
sealed before.
-/

namespace Skittermouse.Link

open Skittermouse.Data Skittermouse.Core Skittermouse.Net Skittermouse.Pairing Skittermouse.App

/-- A frame that a send has handed to the network. -/
structure Sealing where
  party : Party
  conn : Nat
  data : Bytes
  frame : Bytes

structure Sessions (aead : Aead) where
  ends : Party → Nat → Option (EncryptedTransport aead Wire)
  sealings : List Sealing
  received : List (Party × Nat × Bytes)
  /-- Whom the connection managers have registered, and on which connection. -/
  registered : List (Party × Nat × PeerId)

inductive SessionAction (aead : Aead) where
  /-- The machine dials, or accepts: `secureOutbound` and `InboundHandshake`
  both end in a link that has sealed and received nothing. -/
  | connect (party : Party) (conn : Nat)
  | send (party : Party) (conn : Nat) (data : Bytes)
  | inject (party : Party) (conn : Nat) (frame : Bytes)
  | recv (party : Party) (conn : Nat) (cap : Nat)
  | resolve (party : Party) (conn : Nat) (expected : PeerId)
      (manager : ConnectionManager (EncryptedTransport aead Wire))

variable {aead : Aead}

namespace Sessions

def init : Sessions aead :=
  { ends := fun _ _ => none, sealings := [], received := [], registered := [] }

def setEnd (world : Sessions aead) (party : Party) (conn : Nat)
    (link : EncryptedTransport aead Wire) : Sessions aead :=
  { world with
    ends := Function.update world.ends party
      (Function.update (world.ends party) conn (some link)) }

def onEnd (world : Sessions aead) (party : Party) (conn : Nat)
    (change : EncryptedTransport aead Wire → Sessions aead) : Sessions aead :=
  match world.ends party conn with
  | none => world
  | some link => change link

end Sessions

def roleOf (names : Party → PeerId) (party : Party) : Role :=
  linkRoleFor (names party) (names party.other)

def sendOn (world : Sessions aead) (party : Party) (conn : Nat) (data : Bytes)
    (link : EncryptedTransport aead Wire) : Sessions aead :=
  let sent := world.setEnd party conn (Transport.send link data).2
  match link.sealFrame data with
  | none => sent
  | some (frame, _) => { sent with sealings := ⟨party, conn, data, frame⟩ :: sent.sealings }

def recvOn (world : Sessions aead) (party : Party) (conn : Nat) (cap : Nat)
    (link : EncryptedTransport aead Wire) : Sessions aead :=
  let (got, link) := Transport.recv link cap
  let world := world.setEnd party conn link
  match got with
  | none | some [] => world
  | some data => { world with received := (party, conn, data) :: world.received }

def resolveOn (world : Sessions aead) (party : Party) (conn : Nat) (expected : PeerId)
    (manager : ConnectionManager (EncryptedTransport aead Wire))
    (link : EncryptedTransport aead Wire) : Sessions aead :=
  let world' := recvOn world party conn ConnectionManager.kHelloBufferSize link
  match manager.resolve ⟨link, expected⟩ with
  | .promote id _ => { world' with registered := (party, conn, id) :: world'.registered }
  | .wait _ | .drop => world'

def sessionStep (key : Psk) (names : Party → PeerId) :
    SessionAction aead → Sessions aead → Sessions aead
  | .connect party conn, world => match world.ends party conn with
    | some _ => world
    | none => world.setEnd party conn (.create ⟨conn, true, [], []⟩ key (roleOf names party))
  | .send party conn data, world => world.onEnd party conn (sendOn world party conn data)
  | .inject party conn frame, world => world.onEnd party conn fun link =>
      world.setEnd party conn
        { link with inner := { link.inner with inbox := link.inner.inbox ++ [frame] } }
  | .recv party conn cap, world => world.onEnd party conn (recvOn world party conn cap)
  | .resolve party conn expected manager, world =>
      world.onEnd party conn (resolveOn world party conn expected manager)

/-- Whatever decrypts under the key, in a frame or at its start, has been sealed. -/
def Unforged (key : Psk) : SessionAction aead → Sessions aead → Prop
  | .inject _ _ frame, world => ∀ start, start <+: frame →
      (EncryptedTransport.authenticate aead key start).isSome = true →
      ∃ entry ∈ world.sealings, entry.frame = start
  | _, _ => True

/-- What the other machine has sealed, it has sealed on this connection. -/
def SameConnection : SessionAction aead → Sessions aead → Prop
  | .inject party conn frame, world => ∀ entry ∈ world.sealings, entry.frame <+: frame →
      entry.party = party.other →
      ∃ here ∈ world.sealings, here.frame = entry.frame ∧ here.party = party.other ∧ here.conn = conn
  | _, _ => True

variable {key : Psk} {names : Party → PeerId} {world after : Sessions aead}
variable {party : Party} {conn cap : Nat} {link : EncryptedTransport aead Wire}

/-- If the bytes decrypt, they were sealed, and if the other machine sealed
them, then on this connection. -/
def Vouched (aead : Aead) (key : Psk) (sealings : List Sealing) (party : Party) (conn : Nat)
    (start : Bytes) : Prop :=
  (EncryptedTransport.authenticate aead key start).isSome = true →
    ∃ entry ∈ sealings, entry.frame = start ∧ (entry.party = party.other →
      ∃ here ∈ sealings, here.frame = start ∧ here.party = party.other ∧ here.conn = conn)

def Genuine (aead : Aead) (key : Psk) (names : Party → PeerId) (entry : Sealing) : Prop :=
  ∃ ctr ciphertext tag,
    aead.encrypt key (makeNonce (roleOf names entry.party).code ctr) entry.data =
      some (ciphertext, tag) ∧
    entry.frame = makeNonce (roleOf names entry.party).code ctr ++ tag ++ ciphertext

/-- The other machine has sealed this text on this connection. -/
def SentHere (world : Sessions aead) (party : Party) (conn : Nat) (data : Bytes) : Prop :=
  ∃ entry ∈ world.sealings, entry.party = party.other ∧ entry.conn = conn ∧ entry.data = data

structure Faithful (key : Psk) (names : Party → PeerId) (world : Sessions aead) : Prop where
  keyed : ∀ party conn link, world.ends party conn = some link →
    link.key = key ∧ link.sendRole = (roleOf names party).code ∧
      link.recvRole = (roleOf names party).other.code
  genuine : ∀ entry ∈ world.sealings, Genuine aead key names entry
  inboxes : ∀ party conn link frame, world.ends party conn = some link →
    frame ∈ link.inner.inbox → ∀ start, start <+: frame →
      Vouched aead key world.sealings party conn start
  received : ∀ party conn data, (party, conn, data) ∈ world.received → SentHere world party conn data
  registered : ∀ party conn id, (party, conn, id) ∈ world.registered →
    ∃ data, decodePeerHello data = some id ∧ SentHere world party conn data

theorem Vouched.grow {sealings more : List Sealing} {start : Bytes}
    (vouched : Vouched aead key sealings party conn start)
    (growth : ∀ entry ∈ sealings, entry ∈ more) : Vouched aead key more party conn start := by
  intro decrypts
  obtain ⟨entry, member, same, foreign⟩ := vouched decrypts
  refine ⟨entry, growth entry member, same, fun speaker => ?_⟩
  obtain ⟨here, present, rest⟩ := foreign speaker
  exact ⟨here, growth here present, rest⟩

theorem SentHere.grow {data : Bytes} (sent : SentHere world party conn data)
    (growth : ∀ entry ∈ world.sealings, entry ∈ after.sealings) :
    SentHere after party conn data := by
  obtain ⟨entry, member, rest⟩ := sent
  exact ⟨entry, growth entry member, rest⟩

theorem faithful_init (key : Psk) (names : Party → PeerId) :
    Faithful key names (.init : Sessions aead) :=
  ⟨nofun, nofun, nofun, nofun, nofun⟩

theorem ends_setEnd (world : Sessions aead) (party other : Party) (conn wanted : Nat)
    (link : EncryptedTransport aead Wire) :
    (world.setEnd party conn link).ends other wanted =
      if other = party ∧ wanted = conn then some link else world.ends other wanted := by
  simp only [Sessions.setEnd, Function.update_apply]
  split
  · rename_i same
    subst same
    simp only [Function.update_apply, true_and]
  · rename_i apart
    rw [if_neg fun both => apart both.1]

theorem Faithful.setEnd (faithful : Faithful key names world)
    (keyed : link.key = key ∧ link.sendRole = (roleOf names party).code ∧
      link.recvRole = (roleOf names party).other.code)
    (inbox : ∀ frame ∈ link.inner.inbox, ∀ start, start <+: frame →
      Vouched aead key world.sealings party conn start) :
    Faithful key names (world.setEnd party conn link) := by
  refine ⟨fun other wanted found same => ?_, faithful.genuine, fun other wanted found frame same => ?_,
    faithful.received, faithful.registered⟩
  · rw [ends_setEnd] at same
    split at same
    · rename_i own
      obtain ⟨rfl, rfl⟩ := own
      cases same
      exact keyed
    · exact faithful.keyed other wanted found same
  · rw [ends_setEnd] at same
    split at same
    · rename_i own
      obtain ⟨rfl, rfl⟩ := own
      cases same
      exact inbox frame
    · exact faithful.inboxes other wanted found frame same

theorem Faithful.send (faithful : Faithful key names world)
    (found : world.ends party conn = some link) (data : Bytes) :
    Faithful key names (sendOn world party conn data link) := by
  obtain ⟨keyed, sendRole, recvRole⟩ := faithful.keyed party conn link found
  have sent : Faithful key names (world.setEnd party conn (Transport.send link data).2) := by
    obtain ⟨inner, sendCtr, same⟩ := link.send_frame data
    refine faithful.setEnd ?_ fun frame member => ?_
    · have frameSame : (Transport.send link data).2 = { link with inner, sendCtr } := same
      rw [frameSame]
      exact ⟨keyed, sendRole, recvRole⟩
    · rw [send_inbox] at member
      exact faithful.inboxes party conn link frame found member
  simp only [sendOn]
  split
  · exact sent
  · rename_i frame sealedLink sealedFrame
    obtain ⟨_, _, ciphertext, tag, encrypted, built, _⟩ :=
      EncryptedTransport.sealFrame_eq_some sealedFrame
    rw [keyed, sendRole] at encrypted
    rw [sendRole] at built
    have growth : ∀ entry ∈ world.sealings,
        entry ∈ (⟨party, conn, data, frame⟩ : Sealing) :: world.sealings :=
      fun entry member => List.mem_cons_of_mem _ member
    refine ⟨sent.keyed, fun entry member => ?_, fun other wanted found frame same member start head =>
        (sent.inboxes other wanted found frame same member start head).grow growth,
      fun other wanted text member => (sent.received other wanted text member).grow growth,
      fun other wanted id member => ?_⟩
    · rcases List.mem_cons.mp member with rfl | old
      · exact ⟨link.sendCtr, ciphertext, tag, encrypted, built⟩
      · exact sent.genuine entry old
    · obtain ⟨text, names, here⟩ := sent.registered other wanted id member
      exact ⟨text, names, here.grow growth⟩

/-- What an end returns, the other machine has sealed on the same connection. -/
theorem Faithful.recv_sentHere {data : Bytes} (faithful : Faithful key names world)
    (found : world.ends party conn = some link)
    (got : (Transport.recv link cap).1 = some data) (nonempty : data ≠ []) :
    SentHere world party conn data := by
  obtain ⟨keyed, _, recvRole⟩ := faithful.keyed party conn link found
  obtain ⟨frame, received, role, authentic⟩ := EncryptedTransport.recv_authentic got nonempty
  have notEmpty : frame ≠ [] := fun empty => by
    rw [empty] at role
    contradiction
  obtain ⟨whole, queued, head⟩ := Wire.recv_some received notEmpty
  rw [keyed] at authentic
  obtain ⟨entry, member, same, foreign⟩ := faithful.inboxes party conn link whole found queued frame
    head (by rw [authentic]; rfl)
  obtain ⟨ctr, ciphertext, tag, encrypted, built⟩ := faithful.genuine entry member
  have speaker : entry.party = party.other := by
    obtain ⟨nonce, _, _⟩ := EncryptedTransport.frame_fields (makeNonce_length _ ctr)
      (aead.encrypt_sizes encrypted).2
    rw [← same, built, nonce, recvRole] at role
    by_contra own
    have self : entry.party = party := by
      revert own
      cases entry.party <;> cases party <;> simp [Party.other]
    rw [self] at role
    revert role
    cases roleOf names party <;> simp [makeNonce, Role.code, Role.other]
  obtain ⟨here, present, sameFrame, sender, place⟩ := foreign speaker
  obtain ⟨ctr, ciphertext, tag, encrypted, built⟩ := faithful.genuine here present
  obtain ⟨nonce, tagField, body⟩ := EncryptedTransport.frame_fields (makeNonce_length _ ctr)
    (aead.encrypt_sizes encrypted).2
  rw [← sameFrame, EncryptedTransport.authenticate, built, nonce, tagField, body,
    aead.decrypt_encrypt encrypted] at authentic
  exact ⟨here, present, sender, place, Option.some.inj authentic⟩

theorem Faithful.recv (faithful : Faithful key names world)
    (found : world.ends party conn = some link) (cap : Nat) :
    Faithful key names (recvOn world party conn cap link) := by
  obtain ⟨keyed, sendRole, recvRole⟩ := faithful.keyed party conn link found
  obtain ⟨sameKey, sameSend, _, sameRecv⟩ := link.recv_keeps cap
  have moved : Faithful key names (world.setEnd party conn (Transport.recv link cap).2) :=
    faithful.setEnd ⟨sameKey.trans keyed, sameSend.trans sendRole, sameRecv.trans recvRole⟩
      fun frame member => faithful.inboxes party conn link frame found
        ((recv_inbox_suffix link cap).subset member)
  simp only [recvOn]
  split
  · exact moved
  · exact moved
  · rename_i data nonempty got
    refine ⟨moved.keyed, moved.genuine, moved.inboxes, fun other wanted text member => ?_,
      moved.registered⟩
    rcases List.mem_cons.mp member with new | old
    · cases new
      exact faithful.recv_sentHere found got nonempty
    · exact moved.received other wanted text old

theorem recvOn_sealings (world : Sessions aead) (party : Party) (conn cap : Nat)
    (link : EncryptedTransport aead Wire) :
    (recvOn world party conn cap link).sealings = world.sealings := by
  simp only [recvOn]
  split <;> rfl

theorem Faithful.resolve (faithful : Faithful key names world)
    (found : world.ends party conn = some link) (expected : PeerId)
    (manager : ConnectionManager (EncryptedTransport aead Wire)) :
    Faithful key names (resolveOn world party conn expected manager link) := by
  have moved := faithful.recv found ConnectionManager.kHelloBufferSize
  simp only [resolveOn]
  split
  · rename_i id _ promoted
    obtain ⟨_, data, got, named⟩ := (ConnectionManager.resolve_promote promoted).1.names
    have nonempty : data ≠ [] := fun empty => by
      rw [empty] at named
      contradiction
    have sent := faithful.recv_sentHere found got nonempty
    refine ⟨moved.keyed, moved.genuine, moved.inboxes, moved.received, fun other wanted name member => ?_⟩
    rcases List.mem_cons.mp member with new | old
    · cases new
      refine ⟨data, named, sent.grow fun entry sealedEntry => ?_⟩
      exact (recvOn_sealings world party conn _ link).symm ▸ sealedEntry
    · exact moved.registered other wanted name old
  · exact moved
  · exact moved

theorem Faithful.inject {frame : Bytes} (faithful : Faithful key names world)
    (found : world.ends party conn = some link)
    (unforged : Unforged key (.inject party conn frame) world)
    (same : SameConnection (.inject party conn frame) world) :
    Faithful key names (world.setEnd party conn
      { link with inner := { link.inner with inbox := link.inner.inbox ++ [frame] } }) := by
  refine faithful.setEnd (faithful.keyed party conn link found) fun other member start head => ?_
  rcases List.mem_append.mp member with old | new
  · exact faithful.inboxes party conn link other found old start head
  · cases List.mem_singleton.mp new
    intro decrypts
    obtain ⟨entry, sealedEntry, sameFrame⟩ := unforged start head decrypts
    refine ⟨entry, sealedEntry, sameFrame, fun foreign => ?_⟩
    obtain ⟨here, present, hereFrame, rest⟩ := same entry sealedEntry (sameFrame ▸ head) foreign
    exact ⟨here, present, hereFrame.trans sameFrame, rest⟩

theorem Faithful.step (faithful : Faithful key names world) (action : SessionAction aead)
    (unforged : Unforged key action world) (same : SameConnection action world) :
    Faithful key names (sessionStep key names action world) := by
  cases action with
  | connect party conn =>
      simp only [sessionStep]
      split
      · exact faithful
      · exact faithful.setEnd ⟨rfl, rfl, rfl⟩ nofun
  | send party conn data =>
      simp only [sessionStep, Sessions.onEnd]
      split
      · exact faithful
      · rename_i link found
        exact faithful.send found data
  | inject party conn frame =>
      simp only [sessionStep, Sessions.onEnd]
      split
      · exact faithful
      · rename_i link found
        exact faithful.inject found unforged same
  | recv party conn cap =>
      simp only [sessionStep, Sessions.onEnd]
      split
      · exact faithful
      · rename_i link found
        exact faithful.recv found cap
  | resolve party conn expected manager =>
      simp only [sessionStep, Sessions.onEnd]
      split
      · exact faithful
      · rename_i link found
        exact faithful.resolve found expected manager

/-- Without frames that the other machine sealed on another connection, every
text an end returns was sent on its connection, and every peer that is
registered has said hello there. -/
theorem received_was_sent_here (key : Psk) (names : Party → PeerId)
    {actions : List (SessionAction aead)}
    (unforged : Along (sessionStep key names) (Unforged key) .init actions)
    (same : Along (sessionStep key names) SameConnection .init actions) :
    (∀ party conn data, (party, conn, data) ∈ (exec (sessionStep key names) .init actions).received →
      SentHere (exec (sessionStep key names) .init actions) party conn data) ∧
    (∀ party conn id, (party, conn, id) ∈ (exec (sessionStep key names) .init actions).registered →
      ∃ data, decodePeerHello data = some id ∧
        SentHere (exec (sessionStep key names) .init actions) party conn data) := by
  have faithful : Faithful key names (exec (sessionStep key names) .init actions) :=
    exec_invariant (fun action _ faithful allowed => faithful.step action allowed.1 allowed.2)
      (faithful_init key names) (unforged.and same)
  exact ⟨faithful.received, faithful.registered⟩

def twoNames : Party → PeerId
  | .left => [65]
  | .right => [66]

def helloFrame : Bytes :=
  makeNonce Role.responder.code 0 ++ plainTag (repeatedPsk 1) (encodePeerHello [66]) ++
    encodePeerHello [66]

def firstMeeting : List (SessionAction tagAead) :=
  [.connect .left 0, .connect .right 0, .send .right 0 (encodePeerHello [66]),
    .inject .left 0 helloFrame, .resolve .left 0 [] (.init [65])]

/-- Somebody without the key opens connection 1 and plays the hello back. -/
def playBack : List (SessionAction tagAead) :=
  [.connect .left 1, .inject .left 1 helloFrame, .resolve .left 1 [] (.init [65])]

theorem unforged_of_inits {frame : Bytes}
    (checked : ∀ start ∈ frame.inits,
      (EncryptedTransport.authenticate aead key start).isSome = true →
      ∃ entry ∈ world.sealings, entry.frame = start) :
    Unforged key (.inject party conn frame) world :=
  fun start head => checked start ((List.mem_inits start frame).mpr head)

/-- "A" registers "B" on a connection on which "B" has sent nothing. -/
theorem hello_played_back :
    Along (sessionStep (repeatedPsk 1) twoNames) (Unforged (repeatedPsk 1)) .init
        (firstMeeting ++ playBack) ∧
      (.left, 1, [66]) ∈ (exec (sessionStep (repeatedPsk 1) twoNames) .init
        (firstMeeting ++ playBack)).registered ∧
      ¬∃ data, SentHere (exec (sessionStep (repeatedPsk 1) twoNames) .init
        (firstMeeting ++ playBack)) .left 1 data := by
  refine ⟨⟨trivial, trivial, trivial, unforged_of_inits (by decide), trivial, trivial,
    unforged_of_inits (by decide), trivial, trivial⟩, by decide, ?_⟩
  rintro ⟨data, entry, member, _, place, _⟩
  have elsewhere : ∀ entry ∈ (exec (sessionStep (repeatedPsk 1) twoNames) .init
      (firstMeeting ++ playBack)).sealings, entry.conn ≠ 1 := by decide
  exact elsewhere entry member place

theorem first_meeting_genuine :
    SentHere (exec (sessionStep (repeatedPsk 1) twoNames) .init firstMeeting) .left 0
      (encodePeerHello [66]) := by
  have unforged : Along (sessionStep (repeatedPsk 1) twoNames) (Unforged (repeatedPsk 1)) .init
      firstMeeting :=
    ⟨trivial, trivial, trivial, unforged_of_inits (by decide), trivial, trivial⟩
  have sealedHere : ∀ entry ∈ (exec (sessionStep (repeatedPsk 1) twoNames) .init
      (firstMeeting.take 3)).sealings, entry.party = .right ∧ entry.conn = 0 := by decide
  have same : Along (sessionStep (repeatedPsk 1) twoNames) SameConnection .init firstMeeting :=
    ⟨trivial, trivial, trivial,
      fun entry member _ _ => ⟨entry, member, rfl, sealedHere entry member⟩, trivial, trivial⟩
  exact (received_was_sent_here (repeatedPsk 1) twoNames unforged same).1 .left 0 _ (by decide)

end Skittermouse.Link

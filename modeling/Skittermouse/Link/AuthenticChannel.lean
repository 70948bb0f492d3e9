import Mathlib.Data.List.Infix
import Mathlib.Logic.Function.Basic
import Skittermouse.Data.Exec
import Skittermouse.Link.Frames
import Skittermouse.Pairing.KeyStore

/-! # One sealed link

Two ends with one key and opposite roles. Whoever controls the network puts
frames of their own choice into the ends' inboxes, and without the key only
frames that have been sealed before decrypt.
-/

namespace Skittermouse.Link

open Skittermouse.Data Skittermouse.Core Skittermouse.Net Skittermouse.Pairing

/-- An end, with what has been passed to its `send` and what its `recv` has
returned. `texts` are the messages that were sealed, into `frames`. -/
structure Endpoint (aead : Aead) where
  link : EncryptedTransport aead Wire
  sent : List Bytes
  texts : List Bytes
  frames : List Bytes
  received : List Bytes

inductive EndAction where
  | send (data : Bytes)
  | recv (cap : Nat)
  | arrive (frame : Bytes)
  | cut

variable {aead : Aead}

namespace Endpoint

def send (here : Endpoint aead) (data : Bytes) : Endpoint aead :=
  let sent := { here with link := (Transport.send here.link data).2, sent := here.sent ++ [data] }
  match here.link.sealFrame data with
  | none => sent
  | some (frame, _) => { sent with texts := here.texts ++ [data], frames := here.frames ++ [frame] }

def recv (here : Endpoint aead) (cap : Nat) : Endpoint aead :=
  let (got, link) := Transport.recv here.link cap
  match got with
  | none | some [] => { here with link }
  | some data => { here with link, received := here.received ++ [data] }

def act (here : Endpoint aead) : EndAction → Endpoint aead
  | .send data => here.send data
  | .recv cap => here.recv cap
  | .arrive frame => { here with link.inner.inbox := here.link.inner.inbox ++ [frame] }
  | .cut => { here with link.inner.connected := false }

end Endpoint

abbrev Channel (aead : Aead) : Type := Party → Endpoint aead

def channelStep (action : Party × EndAction) (channel : Channel aead) : Channel aead :=
  Function.update channel action.1 ((channel action.1).act action.2)

def channelRole (names : Party → PeerId) (party : Party) : Role :=
  linkRoleFor (names party) (names party.other)

def Channel.init (aead : Aead) (key : Psk) (names : Party → PeerId) : Channel aead := fun party =>
  { link := .create ⟨0, true, [], []⟩ key (channelRole names party)
    sent := [], texts := [], frames := [], received := [] }

/-- Whatever decrypts under the key, in a frame or at its start, has been sealed. -/
def IdealAead (key : Psk) : Party × EndAction → Channel aead → Prop
  | (_, .arrive frame), channel => ∀ start, start <+: frame →
      (EncryptedTransport.authenticate aead key start).isSome = true →
      ∃ speaker, start ∈ (channel speaker).frames
  | _, _ => True

/-! ## One end -/

def passed (link : EncryptedTransport aead Wire) : Nat :=
  if link.haveRecv then link.lastRecvCtr.toNat + 1 else 0

theorem expects_passed {link : EncryptedTransport aead Wire} {ctr : Nat} (below : passed link ≤ ctr) :
    Expects link ctr := by
  intro received
  rw [passed, if_pos received] at below
  exact below

/-- An end seals what it sends, one counter after the other. -/
structure Sound (key : Psk) (role : Role) (here : Endpoint aead) : Prop where
  keyed : here.link.key = key ∧ here.link.sendRole = role.code ∧
    here.link.recvRole = role.other.code
  sealed : Frames aead key role.code 0 here.texts here.frames
  counter : here.link.sendCtr.toNat = here.texts.length
  sent : here.texts.Sublist here.sent
  nonempty : ∀ text ∈ here.texts, text ≠ []

variable {key : Psk} {role : Role} {here there : Endpoint aead}

theorem Endpoint.send_link (here : Endpoint aead) (data : Bytes) :
    (here.send data).link = (Transport.send here.link data).2 := by
  unfold Endpoint.send
  dsimp only
  split <;> rfl

theorem Endpoint.recv_link (here : Endpoint aead) (cap : Nat) :
    (here.recv cap).link = (Transport.recv here.link cap).2 := by
  unfold Endpoint.recv
  dsimp only
  split <;> simp only [*]

theorem Sound.send (sound : Sound key role here) (data : Bytes) : Sound key role (here.send data) := by
  obtain ⟨⟨keyed, sendRole, recvRole⟩, sealed, counter, sent, nonempty⟩ := sound
  have more : here.texts.Sublist (here.sent ++ [data]) := sent.trans (List.sublist_append_left _ _)
  cases result : here.link.sealFrame data with
  | none =>
      have same : (Transport.send here.link data).2 = here.link := by
        simp only [Transport.send, EncryptedTransport.send, result]
      simp only [Endpoint.send, result, same]
      exact ⟨⟨keyed, sendRole, recvRole⟩, sealed, counter, more, nonempty⟩
  | some pair =>
      obtain ⟨frame, after⟩ := pair
      obtain ⟨some_, room, ciphertext, tag, encrypted, rfl, rfl⟩ :=
        EncryptedTransport.sealFrame_eq_some result
      have below : here.texts.length < 2 ^ 64 - 1 := by
        have word := here.link.sendCtr.toNat_lt
        have last : here.link.sendCtr.toNat ≠ 2 ^ 64 - 1 := fun same =>
          room (UInt64.toNat_inj.mp (same.trans (by decide)))
        omega
      have spent : here.link.sendCtr = UInt64.ofNat (0 + here.texts.length) := by
        rw [Nat.zero_add, ← counter, UInt64.ofNat_toNat]
      rw [keyed, sendRole, spent] at encrypted
      have longer := sealed.concat (by omega) encrypted
      simp only [Endpoint.send, result, Transport.send, EncryptedTransport.send]
      refine ⟨⟨keyed, sendRole, recvRole⟩, ?_, ?_, ?_, ?_⟩
      · rw [sendRole, spent]
        exact longer
      · rw [List.length_append, List.length_singleton, UInt64.toNat_add, counter, UInt64.toNat_one]
        omega
      · exact sent.append (List.Sublist.refl [data])
      · intro text member
        rcases List.mem_append.mp member with old | new
        · exact nonempty text old
        · rw [List.mem_singleton.mp new]
          exact some_

theorem Sound.recv (sound : Sound key role here) (cap : Nat) : Sound key role (here.recv cap) := by
  obtain ⟨⟨keyed, sendRole, recvRole⟩, sealed, counter, sent, nonempty⟩ := sound
  obtain ⟨sameKey, sameSend, sameCtr, sameRecv⟩ := here.link.recv_keeps cap
  have moved : ∀ received, Sound key role { here with link := (Transport.recv here.link cap).2, received } :=
    fun received => ⟨⟨sameKey.trans keyed, sameSend.trans sendRole, sameRecv.trans recvRole⟩, sealed,
      (congrArg UInt64.toNat sameCtr).trans counter, sent, nonempty⟩
  unfold Endpoint.recv
  dsimp only
  split <;> exact moved _

theorem Sound.act (sound : Sound key role here) (action : EndAction) :
    Sound key role (here.act action) := by
  cases action with
  | send data => exact sound.send data
  | recv cap => exact sound.recv cap
  | arrive frame => exact ⟨sound.keyed, sound.sealed, sound.counter, sound.sent, sound.nonempty⟩
  | cut => exact ⟨sound.keyed, sound.sealed, sound.counter, sound.sent, sound.nonempty⟩

/-! ## Both ends -/

/-- What `here` may find in its inbox and what it has returned, given what both
ends have sealed. -/
structure Hears (key : Psk) (here there : Endpoint aead) : Prop where
  inbox : ∀ frame ∈ here.link.inner.inbox, ∀ start, start <+: frame →
    (EncryptedTransport.authenticate aead key start).isSome = true →
    start ∈ here.frames ∨ start ∈ there.frames
  received : here.received.Sublist (there.texts.take (passed here.link))
  behind : passed here.link ≤ there.texts.length

theorem code_ne_other (role : Role) : role.code ≠ role.other.code := by
  cases role <;> decide

theorem Sound.place_unique (sound : Sound key role here) {first second : Nat} {frame other : Bytes}
    (found : here.frames[first]? = some frame) (at_ : here.frames[second]? = some other)
    (nonce : other.take kNonceLen = frame.take kNonceLen) : second = first := by
  obtain ⟨_, _, _, _, room, encrypted, rfl⟩ := sound.sealed.get found
  obtain ⟨_, _, _, _, otherRoom, otherEncrypted, rfl⟩ := sound.sealed.get at_
  rw [(EncryptedTransport.frame_fields (makeNonce_length _ _) (aead.encrypt_sizes encrypted).2).1,
    (EncryptedTransport.frame_fields (makeNonce_length _ _)
      (aead.encrypt_sizes otherEncrypted).2).1] at nonce
  have counters := congrArg UInt64.toNat (makeNonce_inj nonce).2
  rw [UInt64.toNat_ofNat_of_lt' otherRoom, UInt64.toNat_ofNat_of_lt' room] at counters
  omega

theorem Sound.not_own (sound : Sound key role here) (thereSound : Sound key role.other there)
    {index : Nat} {frame : Bytes} (found : there.frames[index]? = some frame) :
    frame ∉ here.frames := by
  intro own
  obtain ⟨place, at_⟩ := List.mem_iff_getElem?.mp own
  obtain ⟨_, _, _, _, _, encrypted, built⟩ := thereSound.sealed.get found
  obtain ⟨_, _, _, _, _, otherEncrypted, rfl⟩ := sound.sealed.get at_
  have nonce := congrArg (List.take kNonceLen) built
  rw [(EncryptedTransport.frame_fields (makeNonce_length _ _) (aead.encrypt_sizes encrypted).2).1,
    (EncryptedTransport.frame_fields (makeNonce_length _ _)
      (aead.encrypt_sizes otherEncrypted).2).1] at nonce
  exact absurd (makeNonce_inj nonce).1 (code_ne_other role)

/-- A frame that is accepted is one that the other end has sealed, under a
counter that was not spent. -/
theorem Sound.opens (sound : Sound key role here) (thereSound : Sound key role.other there)
    {frame plaintext : Bytes} {cap : Nat} {ctr : UInt64}
    (opened : here.link.openFrame frame cap = some (plaintext, ctr))
    (sealed : (EncryptedTransport.authenticate aead key frame).isSome = true →
      frame ∈ here.frames ∨ frame ∈ there.frames) :
    there.frames[ctr.toNat]? = some frame ∧ there.texts[ctr.toNat]? = some plaintext ∧
      passed here.link ≤ ctr.toNat := by
  obtain ⟨roleByte, authentic⟩ := EncryptedTransport.openFrame_eq_some opened
  obtain ⟨counter, later⟩ := EncryptedTransport.openFrame_counter opened
  rw [sound.keyed.1] at authentic
  rw [sound.keyed.2.2] at roleByte
  have fresh : passed here.link ≤ ctr.toNat := by
    unfold passed
    split
    · rename_i received
      exact UInt64.lt_iff_toNat_lt.mp (later received)
    · exact Nat.zero_le _
  rcases sealed (by rw [authentic]; rfl) with own | foreign
  · obtain ⟨place, at_⟩ := List.mem_iff_getElem?.mp own
    obtain ⟨_, ciphertext, tag, _, _, encrypted, rfl⟩ := sound.sealed.get at_
    rw [(EncryptedTransport.frame_fields (makeNonce_length _ _)
      (aead.encrypt_sizes encrypted).2).1] at roleByte
    exact absurd (Option.some.inj roleByte) (code_ne_other role)
  · obtain ⟨place, at_⟩ := List.mem_iff_getElem?.mp foreign
    obtain ⟨text, ciphertext, tag, there_, room, encrypted, rfl⟩ := thereSound.sealed.get at_
    obtain ⟨nonce, tagField, body⟩ := EncryptedTransport.frame_fields
      (makeNonce_length role.other.code (UInt64.ofNat (0 + place))) (aead.encrypt_sizes encrypted).2
    rw [EncryptedTransport.authenticate, nonce, tagField, body, aead.decrypt_encrypt encrypted] at authentic
    rw [nonce, readCounter_makeNonce] at counter
    have places : ctr.toNat = place := by
      rw [counter, UInt64.toNat_ofNat_of_lt' room, Nat.zero_add]
    rw [places] at fresh ⊢
    exact ⟨at_, there_.trans authentic, fresh⟩

theorem Hears.grow {more : Endpoint aead} (hears : Hears key here there)
    (texts : there.texts <+: more.texts) (frames : there.frames <+: more.frames) :
    Hears key here more := by
  obtain ⟨later, whole⟩ := texts
  refine ⟨fun frame member start head authentic => ?_, ?_, ?_⟩
  · exact (hears.inbox frame member start head authentic).imp_right fun sealed => frames.subset sealed
  · rw [← whole, List.take_append_of_le_length hears.behind]
    exact hears.received
  · rw [← whole, List.length_append]
    exact Nat.le_add_right_of_le hears.behind

theorem send_texts (here : Endpoint aead) (data : Bytes) :
    here.texts <+: (here.send data).texts ∧ here.frames <+: (here.send data).frames ∧
      (here.send data).received = here.received := by
  unfold Endpoint.send
  dsimp only
  split
  · exact ⟨List.prefix_rfl, List.prefix_rfl, rfl⟩
  · exact ⟨List.prefix_append _ _, List.prefix_append _ _, rfl⟩

theorem recv_texts (here : Endpoint aead) (cap : Nat) :
    (here.recv cap).texts = here.texts ∧ (here.recv cap).frames = here.frames := by
  unfold Endpoint.recv
  dsimp only
  split <;> exact ⟨rfl, rfl⟩

theorem Hears.send (hears : Hears key here there) (data : Bytes) :
    Hears key (here.send data) there := by
  obtain ⟨_, frames, received⟩ := send_texts here data
  have spent : passed (here.send data).link = passed here.link := by
    obtain ⟨inner, sendCtr, same⟩ := here.link.send_frame data
    have link : (Transport.send here.link data).2 = { here.link with inner, sendCtr } := same
    rw [Endpoint.send_link, link]
    rfl
  refine ⟨fun frame member start head authentic => ?_, ?_, ?_⟩
  · rw [Endpoint.send_link, send_inbox] at member
    exact (hears.inbox frame member start head authentic).imp_left fun sealed => frames.subset sealed
  · rw [received, spent]
    exact hears.received
  · rw [spent]
    exact hears.behind

/-- What a receive comes to: nothing is accepted and nothing changes, or the
other end's message at a counter that was not spent. -/
theorem Hears.recv_result (hears : Hears key here there) (sound : Sound key role here)
    (thereSound : Sound key role.other there) (cap : Nat) :
    (((Transport.recv here.link cap).1 = none ∨ (Transport.recv here.link cap).1 = some []) ∧
      (Transport.recv here.link cap).2.haveRecv = here.link.haveRecv ∧
      (Transport.recv here.link cap).2.lastRecvCtr = here.link.lastRecvCtr) ∨
    ∃ start whole rest text ctr, here.link.inner.inbox = whole :: rest ∧ start <+: whole ∧
      (EncryptedTransport.authenticate aead key start).isSome = true ∧ text ≠ [] ∧
      (Transport.recv here.link cap).1 = some text ∧ there.frames[ctr]? = some start ∧
      there.texts[ctr]? = some text ∧ passed here.link ≤ ctr ∧
      passed (Transport.recv here.link cap).2 = ctr + 1 := by
  rcases here.link.recv_cases cap with idle | ⟨start, text, ctr, frame, opened, got, have_, last⟩
  · exact .inl idle
  · have nonempty : start ≠ [] := fun empty => by
      rw [empty] at opened
      contradiction
    obtain ⟨whole, rest, queue, head⟩ := Wire.recv_head frame nonempty
    have authentic : (EncryptedTransport.authenticate aead key start).isSome = true := by
      rw [← sound.keyed.1, (EncryptedTransport.openFrame_eq_some opened).2]
      rfl
    obtain ⟨sealed, at_, fresh⟩ := sound.opens thereSound opened
      (hears.inbox whole (queue ▸ List.mem_cons_self) start head)
    have spent : passed (Transport.recv here.link cap).2 = ctr.toNat + 1 := by
      have received : (Transport.recv here.link cap).2.haveRecv = true := have_
      rw [passed, if_pos received]
      exact congrArg (fun word => word.toNat + 1) last
    exact .inr ⟨start, whole, rest, text, ctr.toNat, queue, head, authentic,
      thereSound.nonempty text (List.mem_of_getElem? at_), got, sealed, at_, fresh, spent⟩

theorem Hears.recv (hears : Hears key here there) (sound : Sound key role here)
    (thereSound : Sound key role.other there) (cap : Nat) : Hears key (here.recv cap) there := by
  have inbox : ∀ frame ∈ (here.recv cap).link.inner.inbox, ∀ start, start <+: frame →
      (EncryptedTransport.authenticate aead key start).isSome = true →
      start ∈ (here.recv cap).frames ∨ start ∈ there.frames := by
    intro frame member start head authentic
    rw [Endpoint.recv_link] at member
    rw [(recv_texts here cap).2]
    exact hears.inbox frame ((recv_inbox_suffix here.link cap).subset member) start head authentic
  rcases hears.recv_result sound thereSound cap with ⟨nothing, have_, last⟩ |
      ⟨_, _, _, text, ctr, _, _, _, some_, got, _, at_, fresh, spent⟩
  · have same : passed (here.recv cap).link = passed here.link := by
      rw [Endpoint.recv_link, passed, passed, have_, last]
    have received : (here.recv cap).received = here.received := by
      unfold Endpoint.recv
      rcases nothing with none | empty
      · simp only [none]
      · simp only [empty]
    exact ⟨inbox, by rw [received, same]; exact hears.received, by rw [same]; exact hears.behind⟩
  · have below := (List.getElem?_eq_some_iff.mp at_).1
    have received : (here.recv cap).received = here.received ++ [text] := by
      unfold Endpoint.recv
      obtain ⟨byte, rest, rfl⟩ := List.exists_cons_of_ne_nil some_
      simp only [got]
    refine ⟨inbox, ?_, ?_⟩
    · rw [received, Endpoint.recv_link, spent, List.take_add_one, at_]
      exact (hears.received.trans (List.take_sublist_take_left fresh)).append (List.Sublist.refl _)
    · rw [Endpoint.recv_link, spent]
      exact below

theorem Hears.arrive (hears : Hears key here there) (frame : Bytes)
    (ideal : ∀ start, start <+: frame →
      (EncryptedTransport.authenticate aead key start).isSome = true →
      start ∈ here.frames ∨ start ∈ there.frames) :
    Hears key (here.act (.arrive frame)) there := by
  refine ⟨fun found member start head authentic => ?_, hears.received, hears.behind⟩
  rcases List.mem_append.mp member with old | new
  · exact hears.inbox found old start head authentic
  · rw [List.mem_singleton.mp new] at head
    exact ideal start head authentic

/-! ## The channel -/

variable {names : Party → PeerId} {channel : Channel aead} {party : Party}

theorem linkRoleFor_swap {self peer : PeerId} (distinct : self ≠ peer) :
    linkRoleFor peer self = (linkRoleFor self peer).other := by
  unfold linkRoleFor
  rcases lt_trichotomy self peer with below | same | above
  · rw [if_pos below, if_neg (lt_asymm below)]
    rfl
  · exact absurd same distinct
  · rw [if_pos above, if_neg (lt_asymm above)]
    rfl

theorem channelRole_other (distinct : names .left ≠ names .right) (party : Party) :
    channelRole names party.other = (channelRole names party).other := by
  cases party with
  | left => exact linkRoleFor_swap distinct
  | right => exact linkRoleFor_swap distinct.symm

structure Authentic (key : Psk) (names : Party → PeerId) (channel : Channel aead) : Prop where
  sound : ∀ party, Sound key (channelRole names party) (channel party)
  hears : ∀ party, Hears key (channel party) (channel party.other)

theorem Authentic.other (authentic : Authentic key names channel)
    (distinct : names .left ≠ names .right) (party : Party) :
    Sound key (channelRole names party).other (channel party.other) :=
  channelRole_other distinct party ▸ authentic.sound party.other

theorem authentic_init (key : Psk) (names : Party → PeerId) :
    Authentic key names (.init aead key names) :=
  ⟨fun _ => ⟨⟨rfl, rfl, rfl⟩, .nil 0, rfl, .slnil, nofun⟩, fun _ => ⟨nofun, .slnil, Nat.zero_le _⟩⟩

theorem act_texts (here : Endpoint aead) (action : EndAction) :
    here.texts <+: (here.act action).texts ∧ here.frames <+: (here.act action).frames := by
  cases action with
  | send data => exact ⟨(send_texts here data).1, (send_texts here data).2.1⟩
  | recv cap =>
      rw [Endpoint.act, (recv_texts here cap).1, (recv_texts here cap).2]
      exact ⟨List.prefix_rfl, List.prefix_rfl⟩
  | arrive frame => exact ⟨List.prefix_rfl, List.prefix_rfl⟩
  | cut => exact ⟨List.prefix_rfl, List.prefix_rfl⟩

theorem Authentic.step (authentic : Authentic key names channel)
    (distinct : names .left ≠ names .right) (action : Party × EndAction)
    (ideal : IdealAead key action channel) : Authentic key names (channelStep action channel) := by
  obtain ⟨acting, action⟩ := action
  have own : channelStep (acting, action) channel acting = (channel acting).act action :=
    Function.update_self ..
  have others : ∀ party, party ≠ acting → channelStep (acting, action) channel party = channel party :=
    fun party apart => Function.update_of_ne apart ..
  have same : channelStep (acting, action) channel acting.other = channel acting.other :=
    others _ acting.other_ne
  refine ⟨fun party => ?_, fun party => ?_⟩
  · by_cases at_ : party = acting
    · rw [at_, own]
      exact (authentic.sound acting).act action
    · rw [others party at_]
      exact authentic.sound party
  · rcases party.eq_or_other acting with rfl | rfl
    · rw [own, same]
      have hears := authentic.hears party
      cases action with
      | send data => exact hears.send data
      | recv cap => exact hears.recv (authentic.sound party) (authentic.other distinct party) cap
      | arrive frame =>
          refine hears.arrive frame fun start head opens => ?_
          obtain ⟨speaker, sealed⟩ := ideal start head opens
          rcases party.eq_or_other speaker with rfl | rfl
          · exact .inl sealed
          · exact .inr sealed
      | cut => exact ⟨hears.inbox, hears.received, hears.behind⟩
    · rw [others party (by rw [ne_comm]; exact party.other_ne), own]
      obtain ⟨texts, frames⟩ := act_texts (channel party.other) action
      exact (authentic.hears party).grow texts frames

/-! ## An undisturbed wire -/

/-- From some moment on the network carries every frame, once and in order, and
adds none. What it had put into the inboxes before is still there. -/
structure Undisturbed (aead : Aead) where
  channel : Channel aead
  transit : Party → List Bytes
  /-- The messages of an end that `send` has accepted since. -/
  accepted : Party → List Bytes
  /-- What the receives that found something in the inbox have come to since. -/
  taken : Party → List (Nat × Option Bytes)

def Undisturbed.start (channel : Channel aead) : Undisturbed aead :=
  { channel, transit := fun _ => [], accepted := fun _ => [], taken := fun _ => [] }

inductive WireAction where
  | send (party : Party) (data : Bytes)
  | carry (party : Party)
  | recv (party : Party) (cap : Nat)

def wireStep : WireAction → Undisturbed aead → Undisturbed aead
  | .send party data, wire =>
      let link := (wire.channel party).link
      let (sent, after) := Transport.send link data
      { wire with
        channel := channelStep (party, .send data) wire.channel
        transit := Function.update wire.transit party.other
          (wire.transit party.other ++ after.inner.outbox.drop link.inner.outbox.length)
        accepted := if sent then
            Function.update wire.accepted party (wire.accepted party ++ [data])
          else wire.accepted }
  | .carry party, wire => match wire.transit party with
    | [] => wire
    | frame :: transit =>
        { wire with
          channel := channelStep (party, .arrive frame) wire.channel
          transit := Function.update wire.transit party transit }
  | .recv party cap, wire =>
      let link := (wire.channel party).link
      { wire with
        channel := channelStep (party, .recv cap) wire.channel
        taken := if link.inner.inbox = [] then wire.taken
          else Function.update wire.taken party
            (wire.taken party ++ [(cap, (Transport.recv link cap).1)]) }

/-- The same condition on the frames that the wire carries. -/
def IdealWire (key : Psk) : WireAction → Undisturbed aead → Prop
  | .carry party, wire => ∀ frame transit, wire.transit party = frame :: transit →
      IdealAead key (party, .arrive frame) wire.channel
  | _, _ => True

variable {before : Channel aead} {wire : Undisturbed aead}

/-- The frames of `before` that have not been taken yet come first, then the
frames sealed since, from the first that has not been taken. -/
structure InTurn (key : Psk) (before : Channel aead) (wire : Undisturbed aead) (party : Party) :
    Prop where
  up : (wire.channel party).link.inner.connected = true
  accepted : (wire.channel party.other).texts = (before party.other).texts ++ wire.accepted party.other
  queue : ∃ stale, (wire.channel party).link.inner.inbox ++ wire.transit party = stale ++
      (wire.channel party.other).frames.drop ((before party.other).texts.length +
        ((wire.taken party).length - (before party).link.inner.inbox.length)) ∧
    stale.length = (before party).link.inner.inbox.length - (wire.taken party).length ∧
    ∀ frame ∈ stale, ∀ start, start <+: frame →
      (EncryptedTransport.authenticate aead key start).isSome = true →
      start ∈ (wire.channel party).frames ∨ ∃ ctr < (before party.other).texts.length,
        (wire.channel party.other).frames[ctr]? = some start
  spent : passed (wire.channel party).link ≤ (before party.other).texts.length +
    ((wire.taken party).length - (before party).link.inner.inbox.length)
  results : ∀ place cap got,
    (wire.taken party)[(before party).link.inner.inbox.length + place]? = some (cap, got) →
    ∃ text, (wire.accepted party.other)[place]? = some text ∧
      got = if text.length ≤ cap then some text else none

theorem inTurn_start (authentic : Authentic key names before)
    (up : (before party).link.inner.connected = true) (distinct : names .left ≠ names .right) :
    InTurn key before (.start before) party := by
  have width := (authentic.other distinct party).sealed.length
  refine ⟨up, (List.append_nil _).symm, ⟨(before party).link.inner.inbox, ?_, rfl, ?_⟩, ?_, ?_⟩
  · simp only [Undisturbed.start, List.length_nil, Nat.zero_sub, Nat.add_zero]
    rw [List.drop_eq_nil_of_le (by omega)]
  · intro frame member start head opens
    refine ((authentic.hears party).inbox frame member start head opens).imp_right fun sealed => ?_
    obtain ⟨ctr, at_⟩ := List.mem_iff_getElem?.mp sealed
    have below := (List.getElem?_eq_some_iff.mp at_).1
    exact ⟨ctr, by omega, at_⟩
  · exact Nat.le_add_right_of_le (authentic.hears party).behind
  · intro place cap got found
    contradiction

theorem Hears.recv_misfit (hears : Hears key here there) (sound : Sound key role here)
    (thereSound : Sound key role.other there) (up : here.link.inner.connected = true)
    {frame text : Bytes} {rest : List Bytes} {ctr cap : Nat}
    (waiting : here.link.inner.inbox = frame :: rest) (found : there.frames[ctr]? = some frame)
    (carried : there.texts[ctr]? = some text) (long : cap < text.length) :
    ∃ scratch, Transport.recv here.link cap = (none,
      { here.link with inner := { here.link.inner with inbox := rest }, scratch }) := by
  have received := Wire.recv_cons (max here.link.scratch (cap + kOverhead)) up waiting
  have wide : kNonceLen ≤ max here.link.scratch (cap + kOverhead) :=
    Nat.le_trans (Nat.le_trans (by decide) (Nat.le_add_left kOverhead cap)) (Nat.le_max_right _ _)
  refine ⟨max here.link.scratch (cap + kOverhead), ?_⟩
  have vouched := fun start head => hears.inbox frame (waiting ▸ List.mem_cons_self) start head
  have closed : here.link.openFrame (frame.take (max here.link.scratch (cap + kOverhead))) cap =
      none := by
    cases opened : here.link.openFrame (frame.take (max here.link.scratch (cap + kOverhead))) cap with
    | none => rfl
    | some result =>
        obtain ⟨at_, read, _⟩ := sound.opens thereSound opened (vouched _ (List.take_prefix _ _))
        have nonce : (frame.take (max here.link.scratch (cap + kOverhead))).take kNonceLen =
            frame.take kNonceLen := by
          rw [List.take_take, Nat.min_eq_left wide]
        have place := thereSound.place_unique found at_ nonce
        rw [place, carried, Option.some.injEq] at read
        have fits := EncryptedTransport.openFrame_fits opened
        rw [← read] at fits
        exact absurd fits (not_le.mpr long)
  have nonempty : frame.take (max here.link.scratch (cap + kOverhead)) ≠ [] := by
    obtain ⟨_, _, _, _, _, _, rfl⟩ := thereSound.sealed.get found
    intro empty
    rcases List.take_eq_nil_iff.mp empty with none | nothing
    · rw [none] at wide
      contradiction
    · contradiction
  obtain ⟨byte, tail, shape⟩ := List.exists_cons_of_ne_nil nonempty
  rw [shape] at received closed
  have opens : ∀ inner scratch,
      ({ here.link with inner, scratch } : EncryptedTransport aead Wire).openFrame (byte :: tail) cap =
        here.link.openFrame (byte :: tail) cap := fun _ _ => rfl
  simp only [Transport.recv, EncryptedTransport.recv] at received ⊢
  simp only [received, opens, closed]

theorem Hears.recv_next (hears : Hears key here there) (sound : Sound key role here)
    (thereSound : Sound key role.other there) (up : here.link.inner.connected = true)
    {frame : Bytes} {rest : List Bytes} {ctr : Nat} (cap : Nat)
    (waiting : here.link.inner.inbox = frame :: rest) (found : there.frames[ctr]? = some frame)
    (unspent : passed here.link ≤ ctr) :
    ∃ text after, there.texts[ctr]? = some text ∧
      Transport.recv here.link cap = (if text.length ≤ cap then some text else none, after) ∧
      after.inner = { here.link.inner with inbox := rest } ∧ passed after ≤ ctr + 1 := by
  obtain ⟨text, ciphertext, tag, carried, room, encrypted, built⟩ := thereSound.sealed.get found
  refine ⟨text, ?_⟩
  by_cases fits : text.length ≤ cap
  · rw [Nat.zero_add] at room encrypted built
    rw [built, ← sound.keyed.2.2] at waiting
    rw [← sound.keyed.1, ← sound.keyed.2.2] at encrypted
    obtain ⟨scratch, received⟩ :=
      recv_frame up waiting (expects_passed unspent) room encrypted fits
    refine ⟨_, carried, by rw [if_pos fits]; exact received, rfl, ?_⟩
    rw [passed, if_pos rfl, UInt64.toNat_ofNat_of_lt' room]
  · obtain ⟨scratch, received⟩ :=
      hears.recv_misfit sound thereSound up waiting found carried (not_le.mp fits)
    refine ⟨(Transport.recv here.link cap).2, carried, ?_, ?_, ?_⟩
    · rw [received, if_neg fits]
    · rw [received]
    · rw [received]
      exact Nat.le_succ_of_le unspent

/-- A frame from before is received or not; what is spent afterwards is from before. -/
theorem Hears.recv_stale (hears : Hears key here there) (sound : Sound key role here)
    (thereSound : Sound key role.other there) (up : here.link.inner.connected = true)
    {frame : Bytes} {rest : List Bytes} {bound : Nat} (cap : Nat)
    (waiting : here.link.inner.inbox = frame :: rest) (unspent : passed here.link ≤ bound)
    (old : ∀ start, start <+: frame →
      (EncryptedTransport.authenticate aead key start).isSome = true →
      start ∈ here.frames ∨ ∃ ctr < bound, there.frames[ctr]? = some start) :
    (Transport.recv here.link cap).2.inner = { here.link.inner with inbox := rest } ∧
      passed (Transport.recv here.link cap).2 ≤ bound := by
  have inner : (Transport.recv here.link cap).2.inner =
      (Transport.recv here.link.inner (max here.link.scratch (cap + kOverhead))).2 :=
    EncryptedTransport.recv_inner here.link cap
  refine ⟨by rw [inner, Wire.recv_cons _ up waiting], ?_⟩
  rcases hears.recv_result sound thereSound cap with ⟨_, have_, last⟩ |
      ⟨start, whole, _, text, ctr, queue, head, authentic, _, _, at_, _, _, spent⟩
  · rw [passed, have_, last]
    exact unspent
  · rw [waiting] at queue
    obtain ⟨rfl, _⟩ := List.cons.inj queue
    rw [spent]
    rcases old start head authentic with own | ⟨place, below, there_⟩
    · exact absurd own (sound.not_own thereSound at_)
    · rw [← thereSound.place_unique there_ at_ rfl] at below
      exact below

theorem send_result (here : Endpoint aead) (up : here.link.inner.connected = true) (data : Bytes) :
    ((Transport.send here.link data).1 = false ∧ (here.send data).texts = here.texts ∧
      (here.send data).frames = here.frames ∧
      (Transport.send here.link data).2.inner.outbox.drop here.link.inner.outbox.length = []) ∨
    ((Transport.send here.link data).1 = true ∧ (here.send data).texts = here.texts ++ [data] ∧
      ∃ frame, (here.send data).frames = here.frames ++ [frame] ∧
        (Transport.send here.link data).2.inner.outbox.drop here.link.inner.outbox.length = [frame]) := by
  cases result : here.link.sealFrame data with
  | none =>
      left
      simp only [Transport.send, EncryptedTransport.send, Endpoint.send, result, List.drop_length,
        and_self]
  | some pair =>
      obtain ⟨frame, after⟩ := pair
      obtain ⟨_, _, _, _, _, _, rfl⟩ := EncryptedTransport.sealFrame_eq_some result
      have sent := Wire.send_eq frame up
      right
      simp only [Transport.send, EncryptedTransport.send, Endpoint.send, result] at sent ⊢
      simp only [sent, List.drop_left, true_and]
      exact ⟨frame, rfl, rfl⟩

theorem send_inner (here : Endpoint aead) (data : Bytes) :
    (here.send data).link.inner.inbox = here.link.inner.inbox ∧
      (here.send data).link.inner.connected = here.link.inner.connected ∧
      passed (here.send data).link = passed here.link := by
  rw [Endpoint.send_link]
  refine ⟨send_inbox here.link data, ?_, ?_⟩
  · simp only [Transport.send, EncryptedTransport.send]
    split
    · rfl
    · rename_i sealed
      obtain ⟨_, _, _, _, _, _, rfl⟩ := EncryptedTransport.sealFrame_eq_some sealed
      simp only [Wire.send]
      split <;> rfl
  · obtain ⟨inner, sendCtr, same⟩ := here.link.send_frame data
    have link : (Transport.send here.link data).2 = { here.link with inner, sendCtr } := same
    rw [link]
    rfl

/-! ## Steps of an undisturbed wire -/

theorem InTurn.of_same {after : Undisturbed aead} (turn : InTurn key before wire party)
    (inbox : (after.channel party).link.inner.inbox ++ after.transit party =
      (wire.channel party).link.inner.inbox ++ wire.transit party)
    (up : (after.channel party).link.inner.connected = (wire.channel party).link.inner.connected)
    (spent : passed (after.channel party).link = passed (wire.channel party).link)
    (own : (wire.channel party).frames <+: (after.channel party).frames)
    (texts : (after.channel party.other).texts = (wire.channel party.other).texts)
    (frames : (after.channel party.other).frames = (wire.channel party.other).frames)
    (accepted : after.accepted party.other = wire.accepted party.other)
    (taken : after.taken party = wire.taken party) : InTurn key before after party := by
  obtain ⟨stale, queue, width, old⟩ := turn.queue
  refine ⟨up.trans turn.up, ?_, ⟨stale, ?_, ?_, fun frame member start head opens => ?_⟩, ?_, ?_⟩
  · rw [texts, accepted]
    exact turn.accepted
  · rw [inbox, frames, taken]
    exact queue
  · rw [taken]
    exact width
  · rw [frames]
    exact (old frame member start head opens).imp_left fun sealed => own.subset sealed
  · rw [spent, taken]
    exact turn.spent
  · rw [taken, accepted]
    exact turn.results

theorem channelStep_self (action : Party × EndAction) (channel : Channel aead) :
    channelStep action channel action.1 = (channel action.1).act action.2 :=
  Function.update_self ..

theorem channelStep_ne (action : Party × EndAction) (channel : Channel aead) {party : Party}
    (apart : party ≠ action.1) : channelStep action channel party = channel party :=
  Function.update_of_ne apart ..

theorem InTurn.ownSend (turn : InTurn key before wire party) (data : Bytes) :
    InTurn key before (wireStep (.send party data) wire) party := by
  have apart : party ≠ party.other := party.other_ne.symm
  have here : (wireStep (.send party data) wire).channel party = (wire.channel party).send data :=
    channelStep_self (party, .send data) wire.channel
  have there : (wireStep (.send party data) wire).channel party.other = wire.channel party.other :=
    channelStep_ne (party, .send data) wire.channel party.other_ne
  obtain ⟨inbox, up, spent⟩ := send_inner (wire.channel party) data
  refine turn.of_same ?_ ?_ ?_ ?_ ?_ ?_ ?_ rfl
  · rw [here, inbox]
    simp only [wireStep, Function.update_of_ne apart]
  · rw [here, up]
  · rw [here, spent]
  · rw [here]
    exact (send_texts _ _).2.1
  · rw [there]
  · rw [there]
  · simp only [wireStep]
    split
    · exact Function.update_of_ne party.other_ne ..
    · rfl

theorem InTurn.otherSend (turn : InTurn key before wire party)
    (up : (wire.channel party.other).link.inner.connected = true)
    (sealed : (wire.channel party.other).frames.length = (wire.channel party.other).texts.length)
    (within : (wire.taken party).length - (before party).link.inner.inbox.length ≤
      (wire.accepted party.other).length) (data : Bytes) :
    InTurn key before (wireStep (.send party.other data) wire) party := by
  have apart : party ≠ party.other := party.other_ne.symm
  have here : (wireStep (.send party.other data) wire).channel party = wire.channel party :=
    channelStep_ne (party.other, .send data) wire.channel apart
  have there : (wireStep (.send party.other data) wire).channel party.other =
      (wire.channel party.other).send data :=
    channelStep_self (party.other, .send data) wire.channel
  have transit : (wireStep (.send party.other data) wire).transit party = wire.transit party ++
      (Transport.send (wire.channel party.other).link data).2.inner.outbox.drop
        (wire.channel party.other).link.inner.outbox.length := by
    simp only [wireStep, Party.other_other, Function.update_self]
  have taken : (wireStep (.send party.other data) wire).taken party = wire.taken party := rfl
  have accepted : (wireStep (.send party.other data) wire).accepted party.other =
      if (Transport.send (wire.channel party.other).link data).1 then
        wire.accepted party.other ++ [data] else wire.accepted party.other := by
    simp only [wireStep]
    split
    · exact Function.update_self ..
    · rfl
  rcases send_result (wire.channel party.other) up data with ⟨refused, texts, frames, none⟩ |
      ⟨sent, texts, frame, frames, one⟩
  · refine turn.of_same ?_ ?_ ?_ ?_ ?_ ?_ ?_ taken
    · rw [here, transit, none, List.append_nil]
    · rw [here]
    · rw [here]
    · rw [here]
    · rw [there, texts]
    · rw [there, frames]
    · rw [accepted, refused]
      rfl
  · obtain ⟨stale, queue, width, old⟩ := turn.queue
    refine ⟨?_, ?_, ⟨stale, ?_, width, fun found member start head opens => ?_⟩, ?_, ?_⟩
    · rw [here]
      exact turn.up
    · rw [there, texts, accepted, sent, turn.accepted, List.append_assoc]
      rfl
    · have place : (before party.other).texts.length +
          ((wire.taken party).length - (before party).link.inner.inbox.length) ≤
            (wire.channel party.other).frames.length := by
        rw [sealed, turn.accepted, List.length_append]
        omega
      rw [here, transit, one, there, frames, taken, List.drop_append_of_le_length place,
        ← List.append_assoc, queue, List.append_assoc]
    · rw [here, there, frames]
      refine (old found member start head opens).imp_right fun ⟨ctr, below, at_⟩ => ?_
      exact ⟨ctr, below, List.getElem?_append_left (List.getElem?_eq_some_iff.mp at_).1 ▸ at_⟩
    · rw [here]
      exact turn.spent
    · intro place cap got found
      obtain ⟨text, at_, same⟩ := turn.results place cap got found
      refine ⟨text, ?_, same⟩
      rw [accepted, sent, if_pos rfl,
        List.getElem?_append_left (List.getElem?_eq_some_iff.mp at_).1]
      exact at_

theorem InTurn.ownCarry (turn : InTurn key before wire party) :
    InTurn key before (wireStep (.carry party) wire) party := by
  simp only [wireStep]
  split
  · exact turn
  · rename_i frame transit waiting
    have here := channelStep_self (party, .arrive frame) wire.channel
    have there := channelStep_ne (party, .arrive frame) wire.channel party.other_ne
    refine turn.of_same ?_ ?_ ?_ ?_ ?_ ?_ rfl rfl
    · simp only [here, Endpoint.act, Function.update_self, waiting, List.append_assoc,
        List.singleton_append]
    · simp only [here, Endpoint.act]
    · simp only [here, Endpoint.act]
      rfl
    · simp only [here, Endpoint.act]
      exact List.prefix_rfl
    · simp only [there]
    · simp only [there]

theorem InTurn.otherCarry (turn : InTurn key before wire party) :
    InTurn key before (wireStep (.carry party.other) wire) party := by
  have apart : party ≠ party.other := party.other_ne.symm
  simp only [wireStep]
  split
  · exact turn
  · rename_i frame transit waiting
    have here := channelStep_ne (party.other, .arrive frame) wire.channel apart
    have there := channelStep_self (party.other, .arrive frame) wire.channel
    refine turn.of_same ?_ ?_ ?_ ?_ ?_ ?_ rfl rfl
    · simp only [here, Function.update_of_ne apart]
    · simp only [here]
    · simp only [here]
    · simp only [here]
      exact List.prefix_rfl
    · simp only [there, Endpoint.act]
    · simp only [there, Endpoint.act]

theorem InTurn.otherRecv (turn : InTurn key before wire party) (cap : Nat) :
    InTurn key before (wireStep (.recv party.other cap) wire) party := by
  have apart : party ≠ party.other := party.other_ne.symm
  have here : (wireStep (.recv party.other cap) wire).channel party = wire.channel party :=
    channelStep_ne (party.other, .recv cap) wire.channel apart
  have there : (wireStep (.recv party.other cap) wire).channel party.other =
      (wire.channel party.other).recv cap :=
    channelStep_self (party.other, .recv cap) wire.channel
  obtain ⟨texts, frames⟩ := recv_texts (wire.channel party.other) cap
  refine turn.of_same ?_ ?_ ?_ ?_ ?_ ?_ rfl ?_
  · rw [here]
    rfl
  · rw [here]
  · rw [here]
  · rw [here]
  · rw [there, texts]
  · rw [there, frames]
  · simp only [wireStep]
    split
    · rfl
    · exact Function.update_of_ne apart ..

theorem wireStep_recv (wire : Undisturbed aead) (party : Party) (cap : Nat) :
    ((wireStep (.recv party cap) wire).channel party).link =
        (Transport.recv (wire.channel party).link cap).2 ∧
      ((wireStep (.recv party cap) wire).channel party).frames = (wire.channel party).frames ∧
      (wireStep (.recv party cap) wire).channel party.other = wire.channel party.other := by
  have here : (wireStep (.recv party cap) wire).channel party = (wire.channel party).recv cap :=
    channelStep_self (party, .recv cap) wire.channel
  have there : (wireStep (.recv party cap) wire).channel party.other = wire.channel party.other :=
    channelStep_ne (party, .recv cap) wire.channel party.other_ne
  refine ⟨?_, ?_, there⟩
  · rw [here, Endpoint.recv_link]
  · rw [here, (recv_texts _ cap).2]

theorem wireStep_recv_taken {frame : Bytes} {rest : List Bytes}
    (inbox : (wire.channel party).link.inner.inbox = frame :: rest) (cap : Nat) :
    (wireStep (.recv party cap) wire).taken party = wire.taken party ++
      [(cap, (Transport.recv (wire.channel party).link cap).1)] := by
  simp only [wireStep, inbox, reduceCtorEq, if_false, Function.update_self]

theorem InTurn.recvIdle (turn : InTurn key before wire party) (cap : Nat)
    (inbox : (wire.channel party).link.inner.inbox = []) :
    InTurn key before (wireStep (.recv party cap) wire) party := by
  obtain ⟨link, frames, there⟩ := wireStep_recv wire party cap
  obtain ⟨scratch, idle⟩ := recv_idle cap turn.up inbox
  refine turn.of_same ?_ ?_ ?_ ?_ ?_ ?_ rfl ?_
  · rw [link, idle]
    rfl
  · rw [link, idle]
  · rw [link, idle]
    rfl
  · rw [frames]
  · rw [there]
  · rw [there]
  · simp only [wireStep, inbox, if_true]

theorem InTurn.recvStale {role : Role} {frame : Bytes} {rest stale : List Bytes}
    (turn : InTurn key before wire party)
    (hears : Hears key (wire.channel party) (wire.channel party.other))
    (sound : Sound key role (wire.channel party))
    (thereSound : Sound key role.other (wire.channel party.other)) (cap : Nat)
    (inbox : (wire.channel party).link.inner.inbox = frame :: rest)
    (later : rest ++ wire.transit party = stale ++ (wire.channel party.other).frames.drop
      ((before party.other).texts.length +
        ((wire.taken party).length - (before party).link.inner.inbox.length)))
    (width : stale.length + 1 = (before party).link.inner.inbox.length - (wire.taken party).length)
    (old : ∀ found ∈ frame :: stale, ∀ start, start <+: found →
      (EncryptedTransport.authenticate aead key start).isSome = true →
      start ∈ (wire.channel party).frames ∨ ∃ ctr < (before party.other).texts.length,
        (wire.channel party.other).frames[ctr]? = some start) :
    InTurn key before (wireStep (.recv party cap) wire) party := by
  obtain ⟨link, frames, there⟩ := wireStep_recv wire party cap
  have longer : ((wireStep (.recv party cap) wire).taken party).length =
      (wire.taken party).length + 1 := by
    rw [wireStep_recv_taken inbox, List.length_append, List.length_singleton]
  have none : (wire.taken party).length - (before party).link.inner.inbox.length = 0 := by
    omega
  have spent := turn.spent
  rw [none] at spent later
  obtain ⟨inner, still⟩ := hears.recv_stale sound thereSound turn.up cap inbox spent
    (old frame List.mem_cons_self)
  refine ⟨?_, ?_, ⟨stale, ?_, ?_, fun found member => ?_⟩, ?_, fun place cap got found => ?_⟩
  · rw [link, inner]
    exact turn.up
  · rw [there]
    exact turn.accepted
  · rw [link, inner, there, longer, show (wire.taken party).length + 1 -
      (before party).link.inner.inbox.length = 0 by omega]
    exact later
  · rw [longer]
    omega
  · rw [frames, there]
    exact old found (List.mem_cons_of_mem _ member)
  · rw [link]
    exact Nat.le_add_right_of_le still
  · have inside := (List.getElem?_eq_some_iff.mp found).1
    rw [longer] at inside
    omega

theorem InTurn.recvNext {role : Role} {frame : Bytes} {rest : List Bytes}
    (turn : InTurn key before wire party)
    (hears : Hears key (wire.channel party) (wire.channel party.other))
    (sound : Sound key role (wire.channel party))
    (thereSound : Sound key role.other (wire.channel party.other)) (cap : Nat)
    (inbox : (wire.channel party).link.inner.inbox = frame :: rest)
    (queue : frame :: (rest ++ wire.transit party) = (wire.channel party.other).frames.drop
      ((before party.other).texts.length +
        ((wire.taken party).length - (before party).link.inner.inbox.length)))
    (due : (before party).link.inner.inbox.length ≤ (wire.taken party).length) :
    InTurn key before (wireStep (.recv party cap) wire) party := by
  obtain ⟨link, frames, there⟩ := wireStep_recv wire party cap
  have taken := wireStep_recv_taken inbox cap
  have longer : ((wireStep (.recv party cap) wire).taken party).length =
      (wire.taken party).length + 1 := by
    rw [taken, List.length_append, List.length_singleton]
  have next : (wire.channel party.other).frames[(before party.other).texts.length +
      ((wire.taken party).length - (before party).link.inner.inbox.length)]? =
      some frame := by
    rw [← List.head?_drop, ← queue]
    rfl
  have later : rest ++ wire.transit party = (wire.channel party.other).frames.drop
      ((before party.other).texts.length +
        ((wire.taken party).length - (before party).link.inner.inbox.length) + 1) := by
    rw [← List.drop_drop, ← queue]
    rfl
  have onward : (wire.taken party).length + 1 - (before party).link.inner.inbox.length =
      (wire.taken party).length - (before party).link.inner.inbox.length + 1 := by omega
  obtain ⟨text, after, carried, received, inner, still⟩ :=
    hears.recv_next sound thereSound turn.up cap inbox next turn.spent
  refine ⟨?_, ?_, ⟨[], ?_, ?_, nofun⟩, ?_, fun place bound got found => ?_⟩
  · rw [link, received, inner]
    exact turn.up
  · rw [there]
    exact turn.accepted
  · rw [link, received, inner, there, longer, onward]
    exact later
  · rw [longer, List.length_nil]
    omega
  · rw [link, received, longer, onward]
    exact still
  · rw [taken] at found
    by_cases earlier : (before party).link.inner.inbox.length + place < (wire.taken party).length
    · rw [List.getElem?_append_left earlier] at found
      exact turn.results place bound got found
    · have last : (before party).link.inner.inbox.length + place = (wire.taken party).length := by
        have inside := (List.getElem?_eq_some_iff.mp found).1
        rw [List.length_append, List.length_singleton] at inside
        omega
      rw [last, List.getElem?_concat_length, received, Option.some.injEq, Prod.mk.injEq] at found
      obtain ⟨rfl, rfl⟩ := found
      refine ⟨text, ?_, rfl⟩
      rw [turn.accepted, List.getElem?_append_right (Nat.le_add_right _ _),
        Nat.add_sub_cancel_left, ← last, Nat.add_sub_cancel_left] at carried
      exact carried

theorem InTurn.ownRecv {role : Role} (turn : InTurn key before wire party)
    (hears : Hears key (wire.channel party) (wire.channel party.other))
    (sound : Sound key role (wire.channel party))
    (thereSound : Sound key role.other (wire.channel party.other)) (cap : Nat) :
    InTurn key before (wireStep (.recv party cap) wire) party := by
  cases inbox : (wire.channel party).link.inner.inbox with
  | nil => exact turn.recvIdle cap inbox
  | cons frame rest =>
      obtain ⟨stale, queue, width, old⟩ := turn.queue
      rw [inbox] at queue
      cases stale with
      | cons first stale =>
          obtain ⟨rfl, later⟩ := List.cons.inj queue
          exact turn.recvStale hears sound thereSound cap inbox later width old
      | nil =>
          rw [List.length_nil] at width
          rw [List.nil_append, List.cons_append] at queue
          exact turn.recvNext hears sound thereSound cap inbox queue (by omega)

theorem InTurn.within (turn : InTurn key before wire party) :
    (wire.taken party).length - (before party).link.inner.inbox.length ≤
      (wire.accepted party.other).length := by
  cases excess : (wire.taken party).length - (before party).link.inner.inbox.length with
  | zero => exact Nat.zero_le _
  | succ place =>
      have inside : (before party).link.inner.inbox.length + place < (wire.taken party).length := by
        omega
      obtain ⟨text, at_, _⟩ := turn.results place _ _ (List.getElem?_eq_getElem inside)
      exact (List.getElem?_eq_some_iff.mp at_).1

structure Quiet (key : Psk) (names : Party → PeerId) (before : Channel aead)
    (wire : Undisturbed aead) : Prop where
  authentic : Authentic key names wire.channel
  turns : ∀ party, InTurn key before wire party

theorem Quiet.authentic_step (quiet : Quiet key names before wire)
    (distinct : names .left ≠ names .right) (action : WireAction)
    (ideal : IdealWire key action wire) : Authentic key names (wireStep action wire).channel := by
  cases action with
  | send party data => exact quiet.authentic.step distinct (party, .send data) trivial
  | carry party =>
      simp only [wireStep]
      split
      · exact quiet.authentic
      · rename_i frame transit waiting
        exact quiet.authentic.step distinct (party, .arrive frame) (ideal frame transit waiting)
  | recv party cap => exact quiet.authentic.step distinct (party, .recv cap) trivial

theorem Quiet.step (quiet : Quiet key names before wire) (distinct : names .left ≠ names .right)
    (action : WireAction) (ideal : IdealWire key action wire) :
    Quiet key names before (wireStep action wire) := by
  refine ⟨quiet.authentic_step distinct action ideal, fun party => ?_⟩
  have turn := quiet.turns party
  have there := quiet.authentic.other distinct party
  cases action with
  | send acting data =>
      rcases party.eq_or_other acting with rfl | rfl
      · exact turn.ownSend data
      · exact turn.otherSend (quiet.turns party.other).up there.sealed.length turn.within data
  | carry acting =>
      rcases party.eq_or_other acting with rfl | rfl
      · exact turn.ownCarry
      · exact turn.otherCarry
  | recv acting cap =>
      rcases party.eq_or_other acting with rfl | rfl
      · exact turn.ownRecv (quiet.authentic.hears party) (quiet.authentic.sound party) there cap
      · exact turn.otherRecv cap

theorem InTurn.all_taken (turn : InTurn key before wire party)
    (sealed : (wire.channel party.other).frames.length = (wire.channel party.other).texts.length)
    (inbox : (wire.channel party).link.inner.inbox = []) (transit : wire.transit party = []) :
    (wire.taken party).length =
      (before party).link.inner.inbox.length + (wire.accepted party.other).length := by
  obtain ⟨stale, queue, width, _⟩ := turn.queue
  rw [inbox, transit, List.append_nil] at queue
  obtain ⟨rfl, rest⟩ := List.append_eq_nil_iff.mp queue.symm
  have all := List.drop_eq_nil_iff.mp rest
  have within := turn.within
  rw [sealed, turn.accepted, List.length_append] at all
  rw [List.length_nil] at width
  omega

/-- Whatever the network does, what an end returns was sent by the other end, in
this order and never twice, and a receive that accepts nothing spends no
counter. Once the network leaves the wire alone, what is accepted for sending is
received in turn, wherever it fits. -/
theorem sealed_link_in_order (key : Psk) {names : Party → PeerId}
    (distinct : names .left ≠ names .right) {actions : List (Party × EndAction)}
    (ideal : Along channelStep (IdealAead key) (.init aead key names) actions) :
    ∀ channel, channel = exec channelStep (.init aead key names) actions →
      (∀ party, (channel party).received.Sublist (channel party.other).sent) ∧
      (∀ party cap,
        ((Transport.recv (channel party).link cap).1 = none ∨
          (Transport.recv (channel party).link cap).1 = some []) →
        (Transport.recv (channel party).link cap).2.haveRecv = (channel party).link.haveRecv ∧
          (Transport.recv (channel party).link cap).2.lastRecvCtr =
            (channel party).link.lastRecvCtr) ∧
      ((∀ party, (channel party).link.inner.connected = true) →
        ∀ later, Along wireStep (IdealWire key) (.start channel) later →
        ∀ wire, wire = exec wireStep (.start channel) later → ∀ party,
          (∀ place cap got,
            (wire.taken party)[(channel party).link.inner.inbox.length + place]? = some (cap, got) →
            ∃ text, (wire.accepted party.other)[place]? = some text ∧
              got = if text.length ≤ cap then some text else none) ∧
          ((wire.channel party).link.inner.inbox = [] → wire.transit party = [] →
            (wire.taken party).length =
              (channel party).link.inner.inbox.length + (wire.accepted party.other).length)) := by
  rintro channel rfl
  have authentic : Authentic key names (exec channelStep (.init aead key names) actions) :=
    exec_invariant (fun action _ authentic ideal => authentic.step distinct action ideal)
      (authentic_init key names) ideal
  generalize exec channelStep (.init aead key names) actions = channel at authentic ⊢
  refine ⟨fun party => ?_, fun party cap nothing => ?_, fun up later idealWire => ?_⟩
  · have received := (authentic.hears party).received.trans (List.take_sublist _ _)
    exact received.trans (authentic.sound party.other).sent
  · rcases (authentic.hears party).recv_result (authentic.sound party)
      (authentic.other distinct party) cap with ⟨_, kept⟩ | ⟨_, _, _, text, _, _, _, _, some_, got, _⟩
    · exact kept
    · rw [got] at nothing
      rcases nothing with none | empty
      · contradiction
      · exact absurd (Option.some.inj empty) some_
  · rintro wire rfl party
    have quiet : Quiet key names channel (exec wireStep (.start channel) later) :=
      exec_invariant (fun action _ quiet ideal => quiet.step distinct action ideal)
        ⟨authentic, fun party => inTurn_start authentic (up party) distinct⟩ idealWire
    exact ⟨(quiet.turns party).results, (quiet.turns party).all_taken
      (quiet.authentic.other distinct party).sealed.length⟩

/-! ## A replay, and a message after it -/

def endNames : Party → PeerId
  | .left => [65]
  | .right => [66]

theorem ideal_of_inits {frame : Bytes}
    (checked : ∀ start ∈ frame.inits,
      (EncryptedTransport.authenticate aead key start).isSome = true →
      start ∈ (channel .right).frames) : IdealAead key (party, .arrive frame) channel :=
  fun start head opens => ⟨.right, checked start ((List.mem_inits start frame).mpr head) opens⟩

def sevenFrame : Bytes :=
  makeNonce Role.responder.code 0 ++ plainTag (repeatedPsk 1) [7] ++ [7]

/-- "B" sends one message, which the network hands over twice. -/
def handedOverTwice : List (Party × EndAction) :=
  [(.right, .send [7]), (.left, .arrive sevenFrame), (.left, .arrive sevenFrame),
    (.left, .recv 4), (.left, .recv 4)]

def afterReplay : Channel tagAead :=
  exec channelStep (.init tagAead (repeatedPsk 1) endNames) handedOverTwice

theorem handed_over_twice_ideal :
    Along channelStep (IdealAead (repeatedPsk 1)) (.init tagAead (repeatedPsk 1) endNames)
      handedOverTwice :=
  ⟨trivial, ideal_of_inits (by decide), ideal_of_inits (by decide), trivial, trivial, trivial⟩

def oneMore : List WireAction := [.send .right [8, 9], .carry .left, .recv .left 4]

theorem one_more_ideal : Along wireStep (IdealWire (repeatedPsk 1)) (.start afterReplay) oneMore := by
  refine ⟨trivial, fun frame transit waiting => ?_, trivial, trivial⟩
  have carried : (exec wireStep (.start afterReplay) (oneMore.take 1)).transit .left =
      [makeNonce Role.responder.code 1 ++ plainTag (repeatedPsk 1) [8, 9] ++ [8, 9]] := by decide
  obtain ⟨rfl, _⟩ := List.cons.inj (waiting.symm.trans carried)
  exact ideal_of_inits (by decide)

theorem received_in_order_after_replay :
    (afterReplay .left).received.Sublist (afterReplay .right).sent ∧
      ∃ text, ((exec wireStep (.start afterReplay) oneMore).accepted .right)[0]? = some text ∧
        some [8, 9] = if text.length ≤ 4 then some text else none := by
  have order := sealed_link_in_order (repeatedPsk 1) (by decide) handed_over_twice_ideal afterReplay rfl
  have up : ∀ party, (afterReplay party).link.inner.connected = true := by
    intro party
    cases party <;> decide
  exact ⟨order.1 .left, (order.2.2 up oneMore one_more_ideal _ rfl .left).1 0 4 _ (by decide)⟩

end Skittermouse.Link

import Mathlib.Data.List.Basic
import Skittermouse.App.SecureLink
import Skittermouse.Data.Exec

namespace Skittermouse.Link

open Skittermouse.Data Skittermouse.Core Skittermouse.Net Skittermouse.Pairing Skittermouse.App

/-! # Nonces over the life of a pre-shared key

One machine opens sealed links for as long as it runs: first connections,
reconnects, accepts that cross a dial, the extra link of a file transfer. The
key of a link is the stored pre-shared key and the counter of every new link
starts at zero, so nonces have to be compared across links, not inside one.
-/

structure SealedFrame where
  link : Nat
  key : Psk
  frame : Bytes

def SealedFrame.nonce (entry : SealedFrame) : Bytes := entry.frame.take kNonceLen

structure LinkHost (aead : Aead) (τ : Type) where
  self : PeerId
  keys : KeyStore
  handshakes : List (InboundHandshake aead τ)
  links : List (EncryptedTransport aead τ)
  handed : List SealedFrame

inductive LinkAction (τ : Type) where
  | setPsk (id : PeerId) (psk : Psk)
  | removePsk (id : PeerId)
  | dial (peer : PeerId) (raw : Option τ)
  | accept (raw : Option τ)
  | pollHandshake (index : Nat) (raw : τ)
  | network (link : Nat) (raw : τ)
  | send (link : Nat) (data : Bytes)
  | recv (link : Nat) (cap : Nat)

variable {aead : Aead} {τ : Type}

section Steps

variable [Transport τ]

namespace LinkHost

def init (aead : Aead) (τ : Type) (self : PeerId) : LinkHost aead τ :=
  { self, keys := ⟨∅⟩, handshakes := [], links := [], handed := [] }

def addLink (host : LinkHost aead τ) : Option (SecureLink aead τ) → LinkHost aead τ
  | some link => { host with links := host.links ++ [link.transport] }
  | none => host

def setLink (host : LinkHost aead τ) (index : Nat) (link : EncryptedTransport aead τ) :
    LinkHost aead τ :=
  { host with links := host.links.set index link }

def pollHandshake (host : LinkHost aead τ) (index : Nat) (raw : τ) : LinkHost aead τ :=
  match host.handshakes[index]? with
  | none => host
  | some handshake =>
      let polled := { handshake with raw := handshake.raw.map fun _ => raw }.poll host.keys
      match polled.status with
      | .ok => { host with handshakes := host.handshakes.eraseIdx index }.addLink polled.take
      | .needMore => { host with handshakes := host.handshakes.set index polled }
      | _ => { host with handshakes := host.handshakes.eraseIdx index }

def send (host : LinkHost aead τ) (index : Nat) (data : Bytes) : LinkHost aead τ :=
  match host.links[index]? with
  | none => host
  | some link => match link.sealFrame data with
    | none => host
    | some (frame, _) =>
        { host.setLink index (link.send data).2 with
          handed := host.handed ++ [{ link := index, key := link.key, frame }] }

end LinkHost

def linkStep : LinkAction τ → LinkHost aead τ → LinkHost aead τ
  | .setPsk id psk, host => { host with keys := host.keys.setPsk id psk }
  | .removePsk id, host => { host with keys := host.keys.removePsk id }
  | .dial peer raw, host => host.addLink (secureOutbound raw host.keys host.self peer)
  | .accept raw, host => { host with handshakes := host.handshakes ++ [.start raw host.self] }
  | .pollHandshake index raw, host => host.pollHandshake index raw
  | .network index raw, host => match host.links[index]? with
    | none => host
    | some link => host.setLink index { link with inner := raw }
  | .send index data, host => host.send index data
  | .recv index cap, host => match host.links[index]? with
    | none => host
    | some link => host.setLink index (link.recv cap).2

end Steps

def NonceUnique (handed : List SealedFrame) : Prop :=
  handed.Pairwise fun left right => left.key = right.key → left.nonce ≠ right.nonce

/-- No other link with this link's key and role has sealed anything yet. -/
def SoleSender (host : LinkHost aead τ) (index : Nat) (link : EncryptedTransport aead τ) : Prop :=
  ∀ other otherLink, host.links[other]? = some otherLink → other ≠ index →
    otherLink.key = link.key → otherLink.sendRole = link.sendRole → otherLink.sendCtr = 0

/-- A send that seals a frame happens on the only link of its key and role that
has sent; every other action is free. -/
def SendsAlone : LinkAction τ → LinkHost aead τ → Prop
  | .send index data, host => ∀ link, host.links[index]? = some link →
      (link.sealFrame data).isSome → SoleSender host index link
  | _, _ => True

structure Tracked (host : LinkHost aead τ) : Prop where
  pending : ∀ handshake ∈ host.handshakes, handshake.status = .needMore
  /-- A logged nonce lies below the counter of the link that used it. -/
  recorded : ∀ entry ∈ host.handed, ∃ link, host.links[entry.link]? = some link ∧
    entry.key = link.key ∧
    ∃ ctr, ctr < link.sendCtr ∧ entry.nonce = makeNonce link.sendRole ctr
  first : ∀ (index : Nat) (link : EncryptedTransport aead τ), host.links[index]? = some link →
    link.sendCtr ≠ 0 → ∃ entry ∈ host.handed, entry.link = index ∧ entry.key = link.key ∧
      entry.nonce = makeNonce link.sendRole 0

variable {host : LinkHost aead τ} {link after : EncryptedTransport aead τ} {index : Nat}

theorem Tracked.init (self : PeerId) : Tracked (LinkHost.init aead τ self) where
  pending _ member := absurd member List.not_mem_nil
  recorded _ member := absurd member List.not_mem_nil
  first _ _ found := by simp [LinkHost.init] at found

theorem LinkHost.setLink_cases {other : Nat} {otherLink : EncryptedTransport aead τ}
    (found : host.links[index]? = some link)
    (otherFound : (host.setLink index after).links[other]? = some otherLink) :
    (other = index ∧ otherLink = after) ∨ host.links[other]? = some otherLink := by
  by_cases same : index = other
  · subst same
    have bound := (List.getElem?_eq_some_iff.mp found).1
    simp only [LinkHost.setLink, List.getElem?_set_self bound, Option.some.injEq] at otherFound
    exact .inl ⟨rfl, otherFound.symm⟩
  · simp only [LinkHost.setLink, List.getElem?_set_ne same] at otherFound
    exact .inr otherFound

theorem Tracked.recorded_setLink (tracked : Tracked host) (found : host.links[index]? = some link)
    (key : after.key = link.key) (role : after.sendRole = link.sendRole)
    (ctr : ∀ used, used < link.sendCtr → used < after.sendCtr) {entry : SealedFrame}
    (member : entry ∈ host.handed) :
    ∃ now, (host.setLink index after).links[entry.link]? = some now ∧ entry.key = now.key ∧
      ∃ ctr, ctr < now.sendCtr ∧ entry.nonce = makeNonce now.sendRole ctr := by
  obtain ⟨old, oldFound, oldKey, used, below, nonce⟩ := tracked.recorded entry member
  have bound := (List.getElem?_eq_some_iff.mp found).1
  by_cases same : entry.link = index
  · rw [same, found] at oldFound
    cases oldFound
    exact ⟨after, by simp [LinkHost.setLink, same, bound], by rw [oldKey, key], used,
      ctr used below, by rw [nonce, role]⟩
  · exact ⟨old, by simpa [LinkHost.setLink, List.getElem?_set_ne (Ne.symm same)] using oldFound,
      oldKey, used, below, nonce⟩

/-- The log only speaks of links by position, key, role and counter, so a change
that keeps these keeps what it says. -/
theorem Tracked.setLink (tracked : Tracked host) (found : host.links[index]? = some link)
    (key : after.key = link.key) (role : after.sendRole = link.sendRole)
    (ctr : after.sendCtr = link.sendCtr) : Tracked (host.setLink index after) where
  pending := tracked.pending
  recorded entry member := tracked.recorded_setLink found key role (fun _ below => ctr ▸ below) member
  first other otherLink otherFound sent := by
    rcases LinkHost.setLink_cases found otherFound with ⟨rfl, rfl⟩ | before
    · rw [key, role]
      exact tracked.first other link found (by rwa [ctr] at sent)
    · exact tracked.first other otherLink before sent

theorem Tracked.addLink {link : Option (SecureLink aead τ)} (tracked : Tracked host)
    (fresh : ∀ opened, link = some opened → opened.transport.sendCtr = 0) :
    Tracked (host.addLink link) := by
  cases link with
  | none => exact tracked
  | some opened =>
      have unused : opened.transport.sendCtr = 0 := fresh opened rfl
      refine ⟨tracked.pending, ?_, ?_⟩
      · intro entry member
        obtain ⟨old, found, rest⟩ := tracked.recorded entry member
        have bound := (List.getElem?_eq_some_iff.mp found).1
        exact ⟨old, by simpa [LinkHost.addLink, List.getElem?_append_left bound] using found, rest⟩
      · intro other otherLink found sent
        by_cases old : other < host.links.length
        · refine tracked.first other otherLink ?_ sent
          simpa [LinkHost.addLink, List.getElem?_append_left old] using found
        · have new : otherLink = opened.transport := by
            have inside := List.mem_of_getElem? found
            simp only [LinkHost.addLink, List.getElem?_append_right (not_lt.mp old),
              List.getElem?_singleton] at found
            split at found
            · exact (Option.some.inj found).symm
            · contradiction
          rw [new] at sent
          exact absurd unused sent

theorem Tracked.record {frame : Bytes} (tracked : Tracked host)
    (found : host.links[index]? = some link)
    (nonce : frame.take kNonceLen = makeNonce link.sendRole link.sendCtr)
    (key : after.key = link.key) (role : after.sendRole = link.sendRole)
    (ctr : after.sendCtr = link.sendCtr + 1) (room : link.sendCtr < link.sendCtr + 1) :
    Tracked { host.setLink index after with
      handed := host.handed ++ [{ link := index, key := link.key, frame }] } where
  pending := tracked.pending
  recorded entry member := by
    rcases List.mem_append.mp member with old | new
    · exact tracked.recorded_setLink found key role
        (fun _ below => by rw [ctr]; exact lt_trans below room) old
    · have bound := (List.getElem?_eq_some_iff.mp found).1
      rw [List.mem_singleton.mp new]
      exact ⟨after, by simp [LinkHost.setLink, bound], key.symm, link.sendCtr,
        by rw [ctr]; exact room, by rw [role]; exact nonce⟩
  first other otherLink otherFound sent := by
    rcases LinkHost.setLink_cases found otherFound with ⟨rfl, rfl⟩ | before
    · rw [key, role]
      by_cases unused : link.sendCtr = 0
      · exact ⟨_, List.mem_append_right _ (List.mem_singleton_self _), rfl, rfl,
          by rw [← unused]; exact nonce⟩
      · obtain ⟨entry, member, rest⟩ := tracked.first other link found unused
        exact ⟨entry, List.mem_append_left _ member, rest⟩
    · obtain ⟨entry, member, rest⟩ := tracked.first other otherLink before sent
      exact ⟨entry, List.mem_append_left _ member, rest⟩

@[simp] theorem LinkHost.addLink_handed (host : LinkHost aead τ)
    (link : Option (SecureLink aead τ)) : (host.addLink link).handed = host.handed := by
  cases link <;> rfl

variable [Transport τ]

theorem Tracked.pollHandshake (tracked : Tracked host) (index : Nat) (raw : τ) :
    Tracked (host.pollHandshake index raw) := by
  unfold LinkHost.pollHandshake
  split
  · exact tracked
  · rename_i handshake found
    have waiting : handshake.status = .needMore :=
      tracked.pending handshake (List.mem_of_getElem? found)
    have remaining : ∀ other ∈ host.handshakes.eraseIdx index, other.status = .needMore :=
      fun other member => tracked.pending other (List.mem_of_mem_eraseIdx member)
    dsimp only
    split
    · rename_i ok
      obtain ⟨opened, taken, fresh, _⟩ := InboundHandshake.poll_fresh (by exact waiting) ok
      have kept : Tracked { host with handshakes := host.handshakes.eraseIdx index } :=
        ⟨remaining, tracked.recorded, tracked.first⟩
      refine kept.addLink fun other same => ?_
      rw [taken] at same
      cases same
      exact fresh.sendCtr
    · rename_i more
      refine ⟨?_, tracked.recorded, tracked.first⟩
      intro other member
      rcases List.mem_or_eq_of_mem_set member with old | rfl
      · exact tracked.pending other old
      · exact more
    · exact ⟨remaining, tracked.recorded, tracked.first⟩

theorem LinkHost.send_eq (data : Bytes) (found : host.links[index]? = some link) :
    (link.sealFrame data = none ∧ host.send index data = host) ∨
    ∃ frame, (link.sealFrame data).isSome ∧
      frame.take kNonceLen = makeNonce link.sendRole link.sendCtr ∧
      (link.send data).2.key = link.key ∧ (link.send data).2.sendRole = link.sendRole ∧
      (link.send data).2.sendCtr = link.sendCtr + 1 ∧ link.sendCtr < link.sendCtr + 1 ∧
      host.send index data = { host.setLink index (link.send data).2 with
        handed := host.handed ++ [{ link := index, key := link.key, frame }] } := by
  unfold LinkHost.send
  simp only [found]
  split
  · rename_i nothing
    exact .inl ⟨nothing, rfl⟩
  · rename_i frame sealed frameSealed
    obtain ⟨_, room, ciphertext, tag, _, rfl, rfl⟩ := EncryptedTransport.sealFrame_eq_some frameSealed
    have sent : (link.send data).2 =
        { link with
          sendCtr := link.sendCtr + 1
          inner := (Transport.send link.inner
            (makeNonce link.sendRole link.sendCtr ++ tag ++ ciphertext)).2 } := by
      rw [EncryptedTransport.send, frameSealed]
    refine .inr ⟨_, by rw [frameSealed]; rfl, ?_, by rw [sent], by rw [sent], by rw [sent], ?_, rfl⟩
    · rw [List.append_assoc, List.take_append_of_le_length (by simp)]
      exact List.take_of_length_le (by simp)
    · exact lt_succ_of_ne_last room

theorem linkStep_tracked (action : LinkAction τ) (tracked : Tracked host) :
    Tracked (linkStep action host) := by
  cases action with
  | setPsk id psk => exact ⟨tracked.pending, tracked.recorded, tracked.first⟩
  | removePsk id => exact ⟨tracked.pending, tracked.recorded, tracked.first⟩
  | dial peer raw =>
      exact tracked.addLink fun opened sealed => (secureOutbound_fresh sealed).2.sendCtr
  | accept raw =>
      refine ⟨?_, tracked.recorded, tracked.first⟩
      intro handshake member
      rcases List.mem_append.mp member with old | new
      · exact tracked.pending handshake old
      · rw [List.mem_singleton.mp new]
        rfl
  | pollHandshake index raw => exact tracked.pollHandshake index raw
  | network index raw =>
      simp only [linkStep]
      split
      · exact tracked
      · rename_i found
        exact tracked.setLink found rfl rfl rfl
  | recv index cap =>
      simp only [linkStep]
      split
      · exact tracked
      · rename_i link found
        obtain ⟨key, role, ctr, _⟩ := link.recv_keeps cap
        exact tracked.setLink found key role ctr
  | send index data =>
      simp only [linkStep]
      cases found : host.links[index]? with
      | none =>
          have ignored : host.send index data = host := by simp [LinkHost.send, found]
          rwa [ignored]
      | some link =>
          rcases LinkHost.send_eq data found with
            ⟨_, same⟩ | ⟨frame, _, nonce, key, role, ctr, room, sent⟩
          · rwa [same]
          · rw [sent]
            exact tracked.record found nonce key role ctr room

theorem LinkHost.pollHandshake_handed (host : LinkHost aead τ) (index : Nat) (raw : τ) :
    (host.pollHandshake index raw).handed = host.handed := by
  unfold LinkHost.pollHandshake
  split
  · rfl
  · dsimp only
    split
    · rw [LinkHost.addLink_handed]
    · rfl
    · rfl

/-- Only a send that seals a frame grows the log, and by that frame alone. -/
theorem linkStep_handed (action : LinkAction τ) (host : LinkHost aead τ) :
    ((linkStep action host).handed = host.handed ∧ SendsAlone action host) ∨
    ∃ index link data frame, action = .send index data ∧ host.links[index]? = some link ∧
      (link.sealFrame data).isSome ∧
      frame.take kNonceLen = makeNonce link.sendRole link.sendCtr ∧
      (linkStep action host).handed =
        host.handed ++ [{ link := index, key := link.key, frame }] := by
  cases action with
  | setPsk id psk => exact .inl ⟨rfl, trivial⟩
  | removePsk id => exact .inl ⟨rfl, trivial⟩
  | dial peer raw => exact .inl ⟨LinkHost.addLink_handed _ _, trivial⟩
  | accept raw => exact .inl ⟨rfl, trivial⟩
  | pollHandshake index raw => exact .inl ⟨host.pollHandshake_handed index raw, trivial⟩
  | network index raw =>
      refine .inl ⟨?_, trivial⟩
      simp only [linkStep]
      split <;> rfl
  | recv index cap =>
      refine .inl ⟨?_, trivial⟩
      simp only [linkStep]
      split <;> rfl
  | send index data =>
      simp only [linkStep]
      cases found : host.links[index]? with
      | none => exact .inl ⟨by simp [LinkHost.send, found], fun link other => by simp [found] at other⟩
      | some link =>
          rcases LinkHost.send_eq data found with
            ⟨nothing, same⟩ | ⟨frame, frameSealed, nonce, _, _, _, _, sent⟩
          · refine .inl ⟨by rw [same], ?_⟩
            intro other otherFound isSealed
            rw [found] at otherFound
            cases otherFound
            simp [nothing] at isSealed
          · exact .inr ⟨index, link, data, frame, rfl, found, frameSealed, nonce, by rw [sent]⟩

theorem linkStep_keeps_clash (action : LinkAction τ) (clash : ¬NonceUnique host.handed) :
    ¬NonceUnique (linkStep action host).handed := by
  rcases linkStep_handed action host with ⟨same, _⟩ | ⟨_, _, _, _, _, _, _, _, grown⟩
  · rwa [same]
  · rw [grown]
    exact fun unique => clash (List.pairwise_append.mp unique).1

theorem NonceUnique.distinct {handed : List SealedFrame} {left right : SealedFrame}
    (unique : NonceUnique handed) (leftIn : left ∈ handed) (rightIn : right ∈ handed)
    (links : left.link ≠ right.link) (key : left.key = right.key) : left.nonce ≠ right.nonce := by
  have : Std.Symm fun left right : SealedFrame => left.key = right.key → left.nonce ≠ right.nonce :=
    ⟨fun _ _ differ same => (differ same.symm).symm⟩
  exact List.Pairwise.forall unique leftIn rightIn (fun same => links (congrArg _ same)) key

theorem linkStep_unique (action : LinkAction τ) (tracked : Tracked host)
    (unique : NonceUnique host.handed) (alone : SendsAlone action host) :
    NonceUnique (linkStep action host).handed := by
  rcases linkStep_handed action host with
    ⟨same, _⟩ | ⟨index, link, data, frame, rfl, found, isSealed, nonce, grown⟩
  · rwa [same]
  · rw [grown]
    refine List.pairwise_append.mpr ⟨unique, List.pairwise_singleton _ _, ?_⟩
    intro entry member new isNew sameKey
    rw [List.mem_singleton.mp isNew] at sameKey ⊢
    obtain ⟨other, otherFound, key, used, below, entryNonce⟩ := tracked.recorded entry member
    intro sameNonce
    rw [entryNonce] at sameNonce
    obtain ⟨role, counter⟩ := makeNonce_inj (sameNonce.trans nonce)
    by_cases own : entry.link = index
    · rw [own, found] at otherFound
      cases otherFound
      exact absurd counter (ne_of_lt below)
    · have unsent := alone link found isSealed entry.link other otherFound own
        (key.symm.trans sameKey) role
      rw [unsent] at below
      exact absurd below (by simp)

theorem linkStep_clash (action : LinkAction τ) (tracked : Tracked host)
    (shared : ¬SendsAlone action host) : ¬NonceUnique (linkStep action host).handed := by
  rcases linkStep_handed action host with
    ⟨_, alone⟩ | ⟨index, link, data, frame, rfl, found, isSealed, nonce, grown⟩
  · exact absurd alone shared
  · simp only [SendsAlone, found, Option.some.injEq, forall_eq', SoleSender, not_forall] at shared
    obtain ⟨_, other, otherLink, otherFound, differ, key, role, sent⟩ := shared
    obtain ⟨entry, member, entryLink, entryKey, entryNonce⟩ :=
      tracked.first other otherLink otherFound sent
    rw [grown]
    intro unique
    by_cases unused : link.sendCtr = 0
    · refine unique.distinct (List.mem_append_left _ member)
        (List.mem_append_right _ (List.mem_singleton_self _)) (by rwa [entryLink])
        (entryKey.trans key) ?_
      rw [entryNonce, role, ← unused]
      exact nonce.symm
    · obtain ⟨own, ownMember, ownLink, ownKey, ownNonce⟩ := tracked.first index link found unused
      refine unique.distinct (List.mem_append_left _ member) (List.mem_append_left _ ownMember)
        (by rwa [entryLink, ownLink]) (by rw [entryKey, ownKey, key]) ?_
      rw [entryNonce, ownNonce, role]

theorem exec_keeps_clash (clash : ¬NonceUnique host.handed) (actions : List (LinkAction τ)) :
    ¬NonceUnique (exec linkStep host actions).handed := by
  induction actions generalizing host with
  | nil => exact clash
  | cons action rest ih => exact ih (linkStep_keeps_clash action clash)

theorem unique_iff_alone (tracked : Tracked host) (unique : NonceUnique host.handed)
    (actions : List (LinkAction τ)) :
    NonceUnique (exec linkStep host actions).handed ↔ Along linkStep SendsAlone host actions := by
  induction actions generalizing host with
  | nil => exact iff_of_true unique trivial
  | cons action rest ih =>
      have stepped := linkStep_tracked action tracked
      by_cases alone : SendsAlone action host
      · rw [exec_cons, ih stepped (linkStep_unique action tracked unique alone)]
        exact (and_iff_right alone).symm
      · have clash := linkStep_clash action tracked alone
        exact iff_of_false (exec_keeps_clash clash rest) (fun along => alone along.1)

/-- Over the whole life of a machine, no key sees a nonce twice exactly when
every frame is sealed on the only link of its key and role that ever sent. -/
theorem nonces_unique_iff (aead : Aead) (self : PeerId) (actions : List (LinkAction τ)) :
    NonceUnique (exec linkStep (LinkHost.init aead τ self) actions).handed ↔
      Along linkStep SendsAlone (LinkHost.init aead τ self) actions :=
  unique_iff_alone (.init self) List.Pairwise.nil actions

/-- A peer is dialed, the link drops after its first frame, and the peer is
dialed again. -/
def redial : List (LinkAction Wire) :=
  [.setPsk [66] (repeatedPsk 7), .dial [66] (some ⟨0, true, [], []⟩), .send 0 [1],
    .network 0 ⟨0, false, [], []⟩, .dial [66] (some ⟨1, true, [], []⟩), .send 1 [2]]

theorem redial_reuses_nonce :
    ¬NonceUnique (exec linkStep (LinkHost.init tagAead Wire [65]) redial).handed := by
  intro unique
  have first := List.pairwise_cons.mp unique
  exact first.1 _ (List.mem_singleton_self _) rfl rfl

end Skittermouse.Link

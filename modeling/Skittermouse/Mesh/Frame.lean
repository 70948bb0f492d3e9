import Mathlib.Data.List.Induction
import Skittermouse.App.MeshNode
import Skittermouse.Data.Exec

namespace Skittermouse.App

open Skittermouse.Data Skittermouse.Core Skittermouse.Net

/-! What each node operation leaves alone.

Most operations move no ownership: they send, or touch the clipboard, the
election or the liveness notes. `OwnerFrame` collects what such an operation
keeps, so an ownership invariant is proved for the few operations outside it.
-/

def MeshEvent.concernsOwner : MeshEvent → Bool
  | .ownerChanged _ | .claimed _ | .reverted => true
  | _ => false

/-- Events that only inform the user or the OS layer. -/
def MeshEvent.isNotice : MeshEvent → Bool
  | .remoteClipboard _ | .remoteFilePromise _ _ | .peerOnline _ | .peerOffline _
  | .switchUnavailable _ | .versionMismatch _ => true
  | _ => false

theorem MeshEvent.isNotice.quiet {event : MeshEvent} (notice : event.isNotice = true) :
    event.concernsOwner = false := by
  cases event <;> first | rfl | contradiction

def readInput (data : Bytes) : Option InputEvent :=
  match decodeMessage data with
  | .ok message _ =>
      if message.isFixed ∧ message.type ∈ [.mouseMove, .mouseButton, .keyEvent] then
        some message.fixed
      else none
  | _ => none

def readClaim (data : Bytes) : Option OwnershipClaim :=
  match decodeMessage data with
  | .ok message _ =>
      if message.isFixed = false ∧ message.type = .switchOwner then
        decodeOwnershipClaim message.payload
      else none
  | _ => none

/-- The calls that keep books and send, and decide nothing. -/
def MeshCall.onlySends : MeshCall → Bool
  | .requestSwitchTo _ | .poll _ => false
  | _ => true

def MeshCall.clock (now : UInt64) : MeshCall → UInt64
  | .sendHeartbeats now | .poll now => now
  | _ => now

namespace Host

variable {π τ : Type} [LinearOrder π]

structure OwnerFrame (before after : Host π τ) : Prop where
  self : after.node.self = before.node.self
  peers : after.node.peers = before.node.peers
  ownership : after.node.ownership = before.node.ownership
  heartbeat : after.node.heartbeat = before.node.heartbeat
  timeout : after.node.heartbeatTimeoutMs = before.node.heartbeatTimeoutMs
  now : after.node.now = before.node.now
  trace : ∃ events, after.trace = events ++ before.trace ∧
    ∀ event ∈ events, event.concernsOwner = false

namespace OwnerFrame

variable {before middle after host : Host π τ}

theorem refl (host : Host π τ) : OwnerFrame host host :=
  ⟨rfl, rfl, rfl, rfl, rfl, rfl, [], rfl, fun _ member => absurd member List.not_mem_nil⟩

theorem trans (left : OwnerFrame before middle) (right : OwnerFrame middle after) :
    OwnerFrame before after := by
  obtain ⟨first, leftTrace, leftQuiet⟩ := left.trace
  obtain ⟨second, rightTrace, rightQuiet⟩ := right.trace
  refine ⟨right.self.trans left.self, right.peers.trans left.peers,
    right.ownership.trans left.ownership, right.heartbeat.trans left.heartbeat,
    right.timeout.trans left.timeout, right.now.trans left.now, second ++ first, ?_, ?_⟩
  · rw [rightTrace, leftTrace, List.append_assoc]
  · intro event member
    rcases List.mem_append.mp member with new | old
    · exact rightQuiet event new
    · exact leftQuiet event old

theorem emit (host : Host π τ) {event : MeshEvent} (quiet : event.concernsOwner = false) :
    OwnerFrame host (host.emit event) :=
  ⟨rfl, rfl, rfl, rfl, rfl, rfl, [event], rfl,
    fun other member => by rw [List.mem_singleton.mp member]; exact quiet⟩

theorem owner (frame : OwnerFrame before after) : after.owner = before.owner := by
  rw [Host.owner, Host.owner, frame.ownership]

theorem isLocalOwner (frame : OwnerFrame before after) :
    after.isLocalOwner = before.isLocalOwner := by
  rw [Host.isLocalOwner, Host.isLocalOwner, frame.ownership]

end OwnerFrame

theorem OwnerFrame.suffix {before after : Host π τ} (frame : before.OwnerFrame after) :
    before.trace <:+ after.trace := by
  obtain ⟨events, trace, _⟩ := frame.trace
  exact ⟨events, trace.symm⟩

theorem forgetPeer_node (host : Host π τ) (id : PeerId) :
    (host.forgetPeer id).node = { host.node with
      peers := host.node.peers.erase id
      heartbeat := host.node.heartbeat.forget id
      peerOnline := host.node.peerOnline.erase id
      versionWarned := host.node.versionWarned.erase id } := by
  simp only [forgetPeer]
  split <;> rfl

theorem forgetPeer_heap (host : Host π τ) (id : PeerId) :
    (host.forgetPeer id).heap = host.heap := by
  simp only [forgetPeer]
  split <;> rfl

theorem forgetPeer_suffix (host : Host π τ) (id : PeerId) :
    host.trace <:+ (host.forgetPeer id).trace := by
  unfold forgetPeer
  dsimp only
  split
  · exact List.suffix_cons _ _
  · exact List.suffix_rfl

/-- Taking note of who is alive changes the notes and informs the user. -/
structure Noted (before after : Host π τ) : Prop where
  node : ∃ peerOnline versionWarned election clipboard, after.node =
    { before.node with peerOnline, versionWarned, election, clipboard }
  heap : after.heap = before.heap
  trace : ∃ events, after.trace = events ++ before.trace ∧
    ∀ event ∈ events, event.isNotice = true

namespace Noted

variable {before middle after : Host π τ}

theorem refl (host : Host π τ) : Noted host host :=
  ⟨⟨_, _, _, _, rfl⟩, rfl, [], rfl, fun _ member => absurd member List.not_mem_nil⟩

theorem trans (left : Noted before middle) (right : Noted middle after) : Noted before after := by
  obtain ⟨_, _, _, _, leftNode⟩ := left.node
  obtain ⟨_, _, _, _, rightNode⟩ := right.node
  obtain ⟨first, leftTrace, leftNotices⟩ := left.trace
  obtain ⟨second, rightTrace, rightNotices⟩ := right.trace
  refine ⟨⟨_, _, _, _, rightNode.trans (by rw [leftNode])⟩, right.heap.trans left.heap,
    second ++ first, by rw [rightTrace, leftTrace, List.append_assoc], ?_⟩
  intro event member
  rcases List.mem_append.mp member with new | old
  · exact rightNotices event new
  · exact leftNotices event old

theorem emit (host : Host π τ) {event : MeshEvent} (notice : event.isNotice = true) :
    Noted host (host.emit event) :=
  ⟨⟨_, _, _, _, rfl⟩, rfl, [event], rfl,
    fun other member => by rw [List.mem_singleton.mp member]; exact notice⟩

theorem frame (noted : Noted before after) : OwnerFrame before after := by
  obtain ⟨_, _, _, _, node⟩ := noted.node
  obtain ⟨events, trace, notices⟩ := noted.trace
  exact ⟨by rw [node], by rw [node], by rw [node], by rw [node], by rw [node], by rw [node],
    events, trace, fun event member => MeshEvent.isNotice.quiet (notices event member)⟩

end Noted

theorem noteLiveness_noted (now : UInt64) (host : Host π τ) (id : PeerId) :
    Noted host (host.noteLiveness now id) := by
  unfold noteLiveness
  dsimp only
  split
  · exact .refl host
  · refine ⟨⟨_, _, _, _, rfl⟩, rfl, [_], rfl, ?_⟩
    intro event member
    rw [List.mem_singleton.mp member]
    split <;> rfl

theorem foldl_noteLiveness_noted (now : UInt64) (ids : List PeerId) (host : Host π τ) :
    Noted host (ids.foldl (noteLiveness now) host) :=
  foldl_related Noted.refl Noted.trans (noteLiveness_noted now) ids host

section Sending

variable [Transport τ]

@[simp] theorem broadcast_node (host : Host π τ) (message : Bytes) :
    (host.broadcast message).node = host.node := rfl

@[simp] theorem broadcast_trace (host : Host π τ) (message : Bytes) :
    (host.broadcast message).trace = host.trace := rfl

theorem foldl_broadcast_node (messages : List Bytes) (host : Host π τ) :
    (messages.foldl broadcast host).node = host.node := by
  induction messages generalizing host with
  | nil => rfl
  | cons message rest ih => exact ih (host.broadcast message)

theorem foldl_broadcast_trace (messages : List Bytes) (host : Host π τ) :
    (messages.foldl broadcast host).trace = host.trace := by
  induction messages generalizing host with
  | nil => rfl
  | cons message rest ih => exact ih (host.broadcast message)

theorem releaseHeldKeys_node (host : Host π τ) (ts : UInt32) :
    (host.releaseHeldKeys ts).node = { host.node with pipeline := .init } :=
  foldl_broadcast_node _ _

@[simp] theorem releaseHeldKeys_trace (host : Host π τ) (ts : UInt32) :
    (host.releaseHeldKeys ts).trace = host.trace :=
  foldl_broadcast_trace _ _

theorem broadcast_frame (host : Host π τ) (message : Bytes) :
    OwnerFrame host (host.broadcast message) :=
  ⟨rfl, rfl, rfl, rfl, rfl, rfl, [], rfl, fun _ member => absurd member List.not_mem_nil⟩

theorem releaseHeldKeys_frame (host : Host π τ) (ts : UInt32) :
    OwnerFrame host (host.releaseHeldKeys ts) := by
  have node := host.releaseHeldKeys_node ts
  exact ⟨by rw [node], by rw [node], by rw [node], by rw [node], by rw [node], by rw [node], [],
    host.releaseHeldKeys_trace ts, fun _ member => absurd member List.not_mem_nil⟩

theorem onOwnerChanged_frame (hook : OwnerHook) (host : Host π τ) (owner : PeerId) :
    OwnerFrame (host.emit (.ownerChanged owner)) (host.onOwnerChanged hook owner) := by
  cases hook with
  | silent => exact .refl _
  | releaseHeld =>
      unfold onOwnerChanged
      dsimp only
      split
      · exact .refl _
      · exact releaseHeldKeys_frame _ _

theorem perform_sends (hook : OwnerHook) (host : Host π τ) {call : MeshCall}
    (sends : call.onlySends = true) :
    ∃ election clipboard pipeline lastHeartbeatSent, ∃ messages : List Bytes,
      host.perform hook call = messages.foldl broadcast { host with node := {
        host.node with election, clipboard, pipeline, lastHeartbeatSent
                       now := call.clock host.node.now } } := by
  cases call with
  | requestSwitchTo target => contradiction
  | poll now => contradiction
  | setPriority priority => exact ⟨_, _, _, _, [], rfl⟩
  | releaseHeldKeys ts => exact ⟨_, _, _, _, _, rfl⟩
  | forwardMouseMove dx dy ts =>
      simp only [perform, forwardMouseMove]
      split
      · exact ⟨_, _, _, _, [_], rfl⟩
      · exact ⟨_, _, _, _, [], rfl⟩
  | forwardMouseButton button down ts =>
      simp only [perform, forwardMouseButton]
      split
      · exact ⟨_, _, _, _, [_], rfl⟩
      · exact ⟨_, _, _, _, [], rfl⟩
  | forwardKey code down ts =>
      simp only [perform, forwardKey]
      split
      · exact ⟨_, _, _, _, [_], rfl⟩
      · exact ⟨_, _, _, _, [], rfl⟩
  | clipboardChange text =>
      simp only [perform, onLocalClipboardChange]
      split
      · exact ⟨_, _, _, _, [_], rfl⟩
      · exact ⟨_, _, _, _, [], rfl⟩
  | announceFilePromise files =>
      simp only [perform, announceFilePromise]
      split
      · exact ⟨_, _, _, _, [], rfl⟩
      · exact ⟨_, _, _, _, [_], rfl⟩
  | sendHeartbeats now =>
      simp only [perform, sendHeartbeats]
      split
      · exact ⟨_, _, _, _, [], rfl⟩
      · exact ⟨_, _, _, _, [_], rfl⟩

theorem perform_frame (hook : OwnerHook) (host : Host π τ) {call : MeshCall}
    (sends : call.onlySends = true) :
    OwnerFrame { host with node.now := call.clock host.node.now } (host.perform hook call) := by
  obtain ⟨election, clipboard, pipeline, sent, messages, same⟩ := perform_sends hook host sends
  have node := congrArg Host.node same
  rw [foldl_broadcast_node] at node
  exact ⟨by rw [node], by rw [node], by rw [node], by rw [node], by rw [node], by rw [node], [],
    by rw [same, foldl_broadcast_trace]; rfl, fun _ member => absurd member List.not_mem_nil⟩

theorem refreshOnlineAndFailSafe_eq (hook : OwnerHook) (host : Host π τ) (now : UInt64) :
    ∃ noted, Noted host noted ∧
      host.refreshOnlineAndFailSafe hook now = noted.failSafe hook now := by
  have notes := foldl_noteLiveness_noted now (host.node.peers.entries.map Prod.fst) host
  have elected : ∀ (noted : Host π τ) (online : List PeerId),
      Noted noted { noted with node.election := noted.node.election.setOnline online } :=
    fun noted online => ⟨⟨_, _, _, _, rfl⟩, rfl, [], rfl,
      fun _ member => absurd member List.not_mem_nil⟩
  exact ⟨_, notes.trans (elected _ _), rfl⟩

/-- What one received message can do once its sender has been heard. -/
inductive Outcome (hook : OwnerHook) (heard : Host π τ) (sender : PeerId) (data : Bytes) :
    Host π τ → Prop where
  | noted {after : Host π τ} (input : readInput data = none) (claim : readClaim data = none)
      (noted : Noted heard after) : Outcome hook heard sender data after
  | injected {event : InputEvent} (input : readInput data = some event)
      (claim : readClaim data = none) (sink : heard.isLocalOwner = false) :
      Outcome hook heard sender data (heard.emit (.inject sender event))
  | ignored {event : InputEvent} (input : readInput data = some event)
      (claim : readClaim data = none) (owner : heard.isLocalOwner = true) :
      Outcome hook heard sender data (heard.emit (.ignored sender event))
  | claimed {claim : OwnershipClaim} (input : readInput data = none)
      (found : readClaim data = some claim) :
      Outcome hook heard sender data (heard.handleClaim hook claim)

theorem handleMessage_outcome (hook : OwnerHook) (heard : Host π τ) (sender : PeerId)
    {data : Bytes} {message : DecodedMessage} {consumed : Nat}
    (decoded : decodeMessage data = .ok message consumed) :
    Outcome hook heard sender data (heard.handleMessage hook sender message) := by
  have input : readInput data =
      if message.isFixed ∧ message.type ∈ [.mouseMove, .mouseButton, .keyEvent] then
        some message.fixed
      else none := by rw [readInput, decoded]
  have claim : readClaim data =
      if message.isFixed = false ∧ message.type = .switchOwner then
        decodeOwnershipClaim message.payload
      else none := by rw [readClaim, decoded]
  have inputCase : message.isFixed = true →
      message.type ∈ [.mouseMove, .mouseButton, .keyEvent] →
      Outcome hook heard sender data
        (if heard.isLocalOwner then heard.emit (.ignored sender message.fixed)
          else heard.emit (.inject sender message.fixed)) := by
    intro fixed member
    rw [if_pos ⟨fixed, member⟩] at input
    rw [if_neg (by simp [fixed])] at claim
    split
    · rename_i owner
      exact .ignored input claim owner
    · rename_i sink
      exact .injected input claim (Bool.not_eq_true _ ▸ sink)
  unfold handleMessage
  split
  · rename_i fixed
    split
    · rename_i type; exact inputCase fixed (by simp [type])
    · rename_i type; exact inputCase fixed (by simp [type])
    · rename_i type; exact inputCase fixed (by simp [type])
    · rename_i move button key
      have other : message.type ∉ [MessageType.mouseMove, .mouseButton, .keyEvent] := by
        simpa using ⟨move, button, key⟩
      rw [if_neg fun both => other both.2] at input
      rw [if_neg (by simp [fixed])] at claim
      exact .noted input claim (.refl heard)
  · rename_i varying
    have noInput : readInput data = none := by rw [input, if_neg (fun both => varying both.1)]
    split
    · rename_i type
      rw [if_pos ⟨Bool.not_eq_true _ ▸ varying, type⟩] at claim
      split
      · rename_i found
        exact .claimed noInput (claim.trans found)
      · rename_i malformed
        exact .noted noInput (claim.trans malformed) (.refl heard)
    · rename_i type
      rw [if_neg (by simp [type])] at claim
      exact .noted noInput claim ⟨⟨_, _, _, _, rfl⟩, rfl, [_], rfl, by simp [MeshEvent.isNotice]⟩
    · rename_i type
      rw [if_neg (by simp [type])] at claim
      split
      · exact .noted noInput claim (.emit heard rfl)
      · exact .noted noInput claim (.refl heard)
    · rename_i switch _ _
      rw [if_neg (fun both => switch both.2)] at claim
      exact .noted noInput claim (.refl heard)

theorem handle_outcome (hook : OwnerHook) (host : Host π τ) (sender : PeerId) (data : Bytes)
    (now : UInt64) :
    Outcome hook (host.hear sender data now) sender data (host.handle hook sender data now) := by
  unfold handle
  dsimp only
  split
  · rename_i mismatch
    have input : readInput data = none := by rw [readInput, mismatch]
    have claim : readClaim data = none := by rw [readClaim, mismatch]
    split
    · exact .noted input claim (.refl _)
    · exact .noted input claim
        ⟨⟨_, _, _, _, rfl⟩, rfl, [_], rfl, by simp [MeshEvent.isNotice]⟩
  · rename_i decoded
    exact handleMessage_outcome hook _ sender decoded
  · rename_i mismatch wrong
    have input : readInput data = none := by
      unfold readInput
      split
      · rename_i decoded
        exact absurd decoded (wrong _ _)
      · rfl
    have claim : readClaim data = none := by
      unfold readClaim
      split
      · rename_i decoded
        exact absurd decoded (wrong _ _)
      · rfl
    exact .noted input claim (.refl _)

variable {hook : OwnerHook} {sender : PeerId} {pointer : π} {now : UInt64}

/-- One round of the receive loop keeps `P`, whether it ends the loop or
handles a message; then so does the loop. -/
theorem drain_preserves {P : Host π τ → Prop}
    (ended : ∀ (host : Host π τ) transport, host.heap.find? pointer = some transport →
      ((Transport.recv transport kPollBufferSize).1 = none ∨
        (Transport.recv transport kPollBufferSize).1 = some []) →
      P host → P { host with
        heap := host.heap.insert pointer (Transport.recv transport kPollBufferSize).2 })
    (handled : ∀ (host : Host π τ) transport data, host.heap.find? pointer = some transport →
      (Transport.recv transport kPollBufferSize).1 = some data → data ≠ [] →
      P host → P (Host.handle hook { host with
        heap := host.heap.insert pointer (Transport.recv transport kPollBufferSize).2 }
          sender data now))
    (fuel : Nat) {host : Host π τ} (start : P host) :
    P (host.drain hook sender pointer now fuel) := by
  induction fuel generalizing host with
  | zero => exact start
  | succ fuel ih =>
      unfold drain
      split
      · exact start
      · rename_i transport found
        dsimp only
        split
        · rename_i failed
          exact ended host transport found (.inl failed) start
        · rename_i empty
          exact ended host transport found (.inr empty) start
        · rename_i data nonempty received
          exact ih (handled host transport data found received nonempty start)

/-- What neither the transports nor a message from one of the peers can break,
the receive loops of a poll do not break. -/
theorem drains_preserve {P : Host π τ → Prop} (entries : List (PeerId × Option π))
    (heap : ∀ (host : Host π τ) heap, P host → P { host with heap })
    (handled : ∀ (host : Host π τ) sender data, sender ∈ entries.map Prod.fst → P host →
      P (host.handle hook sender data now))
    {host : Host π τ} (start : P host) : P (entries.foldl (drainPeer hook now) host) := by
  induction entries generalizing host with
  | nil => exact start
  | cons entry rest ih =>
      refine ih (fun host sender data member =>
        handled host sender data (List.mem_cons_of_mem _ member)) ?_
      obtain ⟨id, transport⟩ := entry
      cases transport with
      | none => exact start
      | some pointer =>
          exact drain_preserves (fun host _ _ _ before => heap host _ before)
            (fun host _ data _ _ _ before =>
              handled _ id data List.mem_cons_self (heap host _ before)) _ start

theorem onOwnerChanged_suffix (hook : OwnerHook) (host : Host π τ) (owner : PeerId) :
    host.trace <:+ (host.onOwnerChanged hook owner).trace :=
  (List.suffix_cons _ _).trans (onOwnerChanged_frame hook host owner).suffix

theorem handleClaim_suffix (hook : OwnerHook) (host : Host π τ) (claim : OwnershipClaim) :
    host.trace <:+ (host.handleClaim hook claim).trace := by
  have claimed : host.trace <:+ (host.applyClaim claim).trace := List.suffix_cons _ _
  unfold handleClaim
  dsimp only
  split
  · exact claimed.trans (onOwnerChanged_suffix hook _ _)
  · exact claimed

theorem requestSwitchTo_suffix (hook : OwnerHook) (host : Host π τ) (target : PeerId) :
    host.trace <:+ (host.requestSwitchTo hook target).trace := by
  unfold requestSwitchTo
  split
  · exact List.suffix_cons _ _
  · have issued : host.trace <:+ ((host.issueClaim target).2.broadcast
        (claimMessage (host.issueClaim target).1)).trace := List.suffix_cons _ _
    dsimp only
    split
    · exact issued.trans (onOwnerChanged_suffix hook _ _)
    · exact issued

theorem handle_suffix (host : Host π τ) (data : Bytes) :
    host.trace <:+ (host.handle hook sender data now).trace := by
  have heard : host.trace <:+ (host.hear sender data now).trace := List.suffix_cons _ _
  have outcome := handle_outcome hook host sender data now
  generalize host.handle hook sender data now = after at outcome ⊢
  cases outcome with
  | noted input claim noted => exact heard.trans noted.frame.suffix
  | injected input claim sink => exact heard.trans (List.suffix_cons _ _)
  | ignored input claim owner => exact heard.trans (List.suffix_cons _ _)
  | claimed input found => exact heard.trans (handleClaim_suffix hook _ _)

theorem failSafe_suffix (hook : OwnerHook) (host : Host π τ) (now : UInt64) :
    host.trace <:+ (host.failSafe hook now).trace := by
  unfold failSafe
  split
  · have reverted : host.trace <:+ ((host.issueClaim host.node.self).2.emit .reverted).trace :=
      (List.suffix_cons _ _).trans (List.suffix_cons _ _)
    exact reverted.trans (onOwnerChanged_suffix hook _ _)
  · exact List.suffix_rfl

theorem refresh_suffix (hook : OwnerHook) (host : Host π τ) (now : UInt64) :
    host.trace <:+ (host.refreshOnlineAndFailSafe hook now).trace := by
  obtain ⟨noted, notes, same⟩ := refreshOnlineAndFailSafe_eq hook host now
  rw [same]
  exact notes.frame.suffix.trans (failSafe_suffix hook noted now)

theorem drains_suffix (entries : List (PeerId × Option π)) (host : Host π τ) :
    host.trace <:+ (entries.foldl (drainPeer hook now) host).trace :=
  @drains_preserve π τ _ _ hook now (fun after => host.trace <:+ after.trace) entries
    (fun _ _ before => before) (fun current _ data _ before => before.trans (handle_suffix current data))
    host List.suffix_rfl

theorem poll_suffix (hook : OwnerHook) (host : Host π τ) (now : UInt64) :
    host.trace <:+ (host.poll hook now).trace :=
  (drains_suffix host.node.peers.entries { host with node.now := now }).trans
    (refresh_suffix hook _ now)

theorem removePeer_suffix (hook : OwnerHook) (host : Host π τ) (id : PeerId) :
    host.trace <:+ (host.removePeer hook id).trace :=
  (forgetPeer_suffix host id).trans (refresh_suffix hook _ _)

theorem perform_suffix (hook : OwnerHook) (host : Host π τ) (call : MeshCall) :
    host.trace <:+ (host.perform hook call).trace := by
  by_cases sends : call.onlySends = true
  · exact (perform_frame hook host sends).suffix
  · cases call with
    | requestSwitchTo target => exact requestSwitchTo_suffix hook host target
    | poll now => exact poll_suffix hook host now
    | _ => exact absurd rfl sends

end Sending

end Host

end Skittermouse.App

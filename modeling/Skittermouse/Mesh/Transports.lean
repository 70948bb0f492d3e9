import Skittermouse.Mesh.Frame

/-! # What a node does to the transports it can reach

It sends on them and receives from them; it neither replaces one nor moves it
to another pointer.
-/

namespace Skittermouse.Net

open Skittermouse.Data

/-- `after` is the transport `before` after some sends, and some receives where
those are allowed. -/
inductive Used {τ : Type} [Transport τ] (receives : Bool) (before : τ) : τ → Prop where
  | refl : Used receives before before
  | sent {after : τ} (used : Used receives before after) (message : Bytes) :
      Used receives before (Transport.send after message).2
  | received {after : τ} (allowed : receives = true) (used : Used receives before after) (cap : Nat) :
      Used receives before (Transport.recv after cap).2

variable {τ : Type} [Transport τ] {receives : Bool} {first second third : τ}

theorem Used.trans (left : Used receives first second) (right : Used receives second third) :
    Used receives first third := by
  induction right with
  | refl => exact left
  | sent used message ih => exact ih.sent message
  | received allowed used cap ih => exact ih.received allowed cap

theorem Used.preserves (used : Used receives first second) (P : τ → Prop)
    (sent : ∀ transport message, P transport → P (Transport.send transport message).2)
    (received : receives = true → ∀ transport cap, P transport → P (Transport.recv transport cap).2)
    (holds : P first) : P second := by
  induction used with
  | refl => exact holds
  | sent used message ih => exact sent _ message ih
  | received allowed used cap ih => exact received allowed _ cap ih

end Skittermouse.Net

namespace Skittermouse.App

open Skittermouse.Data Skittermouse.Core Skittermouse.Net

variable {π τ : Type} [LinearOrder π]

variable [Transport τ]

/-- The same peers are registered, and every pointer leads to the transport it
led to. -/
structure Host.Uses (receives : Bool) (before after : Host π τ) : Prop where
  self : after.node.self = before.node.self
  peers : after.node.peers = before.node.peers
  heap : ∀ pointer, Option.Rel (Used receives) (before.heap.find? pointer) (after.heap.find? pointer)

variable {receives : Bool} {hook : OwnerHook} {before middle after host : Host π τ}

theorem rel_used_refl (transport : Option τ) : Option.Rel (Used receives) transport transport := by
  cases transport with
  | none => exact .none
  | some transport => exact .some .refl

theorem rel_used_trans {first second third : Option τ}
    (left : Option.Rel (Used receives) first second)
    (right : Option.Rel (Used receives) second third) : Option.Rel (Used receives) first third := by
  cases left with
  | none => exact right
  | some left =>
      cases right with
      | some right => exact .some (left.trans right)

namespace Host.Uses

theorem refl (host : Host π τ) : Uses receives host host := ⟨rfl, rfl, fun _ => rel_used_refl _⟩

theorem trans (left : Uses receives before middle) (right : Uses receives middle after) :
    Uses receives before after :=
  ⟨right.self.trans left.self, right.peers.trans left.peers,
    fun pointer => rel_used_trans (left.heap pointer) (right.heap pointer)⟩

theorem idle (self : after.node.self = before.node.self)
    (peers : after.node.peers = before.node.peers) (heap : after.heap = before.heap) :
    Uses receives before after :=
  ⟨self, peers, fun _ => by rw [heap]; exact rel_used_refl _⟩

theorem noted (noted : before.Noted after) : Uses receives before after :=
  .idle noted.frame.self noted.frame.peers noted.heap

theorem contains (uses : Uses receives before after) (pointer : π) :
    after.heap.contains pointer = before.heap.contains pointer := by
  have related := uses.heap pointer
  simp only [OrdMap.contains]
  generalize before.heap.find? pointer = earlier, after.heap.find? pointer = later at *
  cases related with
  | none => rfl
  | some used => rfl

theorem origin (uses : Uses receives before after) {pointer : π} {transport : τ}
    (found : after.heap.find? pointer = some transport) :
    ∃ earlier, before.heap.find? pointer = some earlier ∧ Used receives earlier transport := by
  have related := uses.heap pointer
  rw [found] at related
  generalize before.heap.find? pointer = earlier at *
  cases related with
  | some used => exact ⟨_, rfl, used⟩

theorem survivor (uses : Uses receives before after) {pointer : π} {transport : τ}
    (found : before.heap.find? pointer = some transport) :
    ∃ later, after.heap.find? pointer = some later ∧ Used receives transport later := by
  have related := uses.heap pointer
  rw [found] at related
  generalize after.heap.find? pointer = later at *
  cases related with
  | some used => exact ⟨_, rfl, used⟩

end Host.Uses

namespace Host

open Host.Uses

theorem modify_used (heap : OrdMap π τ) (other : π) (message : Bytes) (pointer : π) :
    Option.Rel (Used receives) (heap.find? pointer)
      ((heap.modify other fun transport => (Transport.send transport message).2).find? pointer) := by
  rw [OrdMap.find?_modify]
  split
  · rename_i same
    subst same
    cases heap.find? pointer with
    | none => exact .none
    | some transport => exact .some (Used.refl.sent message)
  · exact rel_used_refl _

theorem foldl_modify_used (heap : OrdMap π τ) (pointers : List π) (message : Bytes) (pointer : π) :
    Option.Rel (Used receives) (heap.find? pointer)
      ((pointers.foldl (fun heap pointer => heap.modify pointer fun transport =>
        (Transport.send transport message).2) heap).find? pointer) :=
  @foldl_related _ _ (fun before after : OrdMap π τ =>
      Option.Rel (Used receives) (before.find? pointer) (after.find? pointer)) _
    (fun _ => rel_used_refl _) (fun first second => rel_used_trans first second)
    (fun heap other => modify_used heap other message pointer) pointers heap

theorem broadcast_uses (host : Host π τ) (message : Bytes) : Uses receives host (host.broadcast message) :=
  ⟨rfl, rfl, foldl_modify_used _ _ _⟩

theorem foldl_broadcast_uses (messages : List Bytes) (host : Host π τ) :
    Uses receives host (messages.foldl broadcast host) :=
  foldl_related Uses.refl Uses.trans broadcast_uses messages host

theorem releaseHeldKeys_uses (host : Host π τ) (ts : UInt32) :
    Uses receives host (host.releaseHeldKeys ts) := by
  have piped : Uses receives host { host with node.pipeline := .init } := .idle rfl rfl rfl
  exact piped.trans (foldl_broadcast_uses _ _)

theorem onOwnerChanged_uses (hook : OwnerHook) (host : Host π τ) (owner : PeerId) :
    Uses receives host (host.onOwnerChanged hook owner) := by
  have told : Uses receives host (host.emit (.ownerChanged owner)) := .idle rfl rfl rfl
  cases hook with
  | silent => exact told
  | releaseHeld =>
      simp only [onOwnerChanged]
      split
      · exact told
      · exact told.trans (releaseHeldKeys_uses _ _)

theorem handleClaim_uses (hook : OwnerHook) (host : Host π τ) (claim : OwnershipClaim) :
    Uses receives host (host.handleClaim hook claim) := by
  have claimed : Uses receives host (host.applyClaim claim) := .idle rfl rfl rfl
  simp only [handleClaim]
  split
  · exact claimed.trans (onOwnerChanged_uses hook _ _)
  · exact claimed

theorem handle_uses (hook : OwnerHook) (host : Host π τ) (sender : PeerId) (data : Bytes)
    (now : UInt64) : Uses receives host (host.handle hook sender data now) := by
  have heard : Uses receives host (host.hear sender data now) := .idle rfl rfl rfl
  have outcome := handle_outcome hook host sender data now
  generalize host.handle hook sender data now = after at outcome ⊢
  cases outcome with
  | noted input claim noted => exact heard.trans (.noted noted)
  | injected input claim sink => exact heard.trans (.idle rfl rfl rfl)
  | ignored input claim owner => exact heard.trans (.idle rfl rfl rfl)
  | claimed input found => exact heard.trans (handleClaim_uses hook _ _)

theorem receive_uses {pointer : π} {transport : τ} (cap : Nat)
    (found : host.heap.find? pointer = some transport) :
    Uses true host { host with heap := host.heap.insert pointer (Transport.recv transport cap).2 } := by
  refine ⟨rfl, rfl, fun other => ?_⟩
  rw [OrdMap.find?_insert]
  split
  · rename_i same
    rw [same, found]
    exact .some (Used.refl.received rfl cap)
  · exact rel_used_refl _

theorem drain_uses (hook : OwnerHook) (sender : PeerId) (pointer : π) (now : UInt64) (fuel : Nat)
    (host : Host π τ) : Uses true host (host.drain hook sender pointer now fuel) := by
  refine drain_preserves (fun current transport found _ uses => ?_)
    (fun current transport data found _ _ uses => ?_) fuel (.refl host)
  · exact uses.trans (receive_uses _ found)
  · exact (uses.trans (receive_uses kPollBufferSize found)).trans (handle_uses hook _ sender data now)

theorem drainPeer_uses (hook : OwnerHook) (now : UInt64) (host : Host π τ)
    (entry : PeerId × Option π) : Uses true host (host.drainPeer hook now entry) := by
  obtain ⟨id, transport⟩ := entry
  cases transport with
  | none => exact .refl host
  | some pointer => exact drain_uses hook id pointer now _ host

theorem drains_uses (hook : OwnerHook) (now : UInt64) (entries : List (PeerId × Option π))
    (host : Host π τ) : Uses true host (entries.foldl (drainPeer hook now) host) :=
  foldl_related Uses.refl Uses.trans (drainPeer_uses hook now) entries host

theorem failSafe_uses (hook : OwnerHook) (host : Host π τ) (now : UInt64) :
    Uses receives host (host.failSafe hook now) := by
  simp only [failSafe]
  split
  · have reverted : Uses receives host ((host.issueClaim host.node.self).2.emit .reverted) :=
      .idle rfl rfl rfl
    exact reverted.trans (onOwnerChanged_uses hook _ _)
  · exact .refl host

theorem refresh_uses (hook : OwnerHook) (host : Host π τ) (now : UInt64) :
    Uses receives host (host.refreshOnlineAndFailSafe hook now) := by
  obtain ⟨noted, notes, same⟩ := refreshOnlineAndFailSafe_eq hook host now
  rw [same]
  exact (Uses.noted notes).trans (failSafe_uses hook noted now)

theorem poll_uses (hook : OwnerHook) (host : Host π τ) (now : UInt64) :
    Uses true host (host.poll hook now) := by
  have timed : Uses true host { host with node.now := now } := .idle rfl rfl rfl
  exact (timed.trans (drains_uses hook now _ _)).trans (refresh_uses hook _ now)

theorem requestSwitchTo_uses (hook : OwnerHook) (host : Host π τ) (target : PeerId) :
    Uses receives host (host.requestSwitchTo hook target) := by
  have issued : Uses receives host (host.issueClaim target).2 := .idle rfl rfl rfl
  simp only [requestSwitchTo]
  split
  · exact .idle rfl rfl rfl
  · have told := issued.trans (broadcast_uses _ (claimMessage (host.issueClaim target).1))
    split
    · exact told.trans (onOwnerChanged_uses hook _ _)
    · exact told

theorem sends_uses (hook : OwnerHook) (host : Host π τ) {call : MeshCall}
    (sends : call.onlySends = true) : Uses receives host (host.perform hook call) := by
  obtain ⟨_, _, _, _, messages, same⟩ := perform_sends hook host sends
  rw [same]
  refine Uses.trans ?_ (foldl_broadcast_uses messages _)
  exact .idle rfl rfl rfl

theorem sendHeartbeats_uses (host : Host π τ) (now : UInt64) :
    Uses receives host (host.sendHeartbeats now) :=
  sends_uses .silent host (rfl : MeshCall.onlySends (.sendHeartbeats now) = true)

theorem perform_uses (hook : OwnerHook) (host : Host π τ) (call : MeshCall) :
    Uses true host (host.perform hook call) := by
  by_cases sends : call.onlySends = true
  · exact sends_uses hook host sends
  · cases call with
    | requestSwitchTo target => exact requestSwitchTo_uses hook host target
    | poll now => exact poll_uses hook host now
    | _ => exact absurd rfl sends

theorem removePeer_uses (hook : OwnerHook) (host : Host π τ) (id : PeerId) :
    Uses receives (host.forgetPeer id) (host.removePeer hook id) :=
  refresh_uses hook _ _

end Host

end Skittermouse.App

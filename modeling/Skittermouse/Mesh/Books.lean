import Skittermouse.Mesh.Frame

namespace Skittermouse.App

open Skittermouse.Data Skittermouse.Core Skittermouse.Net

/-! # The node's books

Peers, election and heartbeats are kept by a few operations only, and the
clipboard guard follows the remote texts that were applied. `Kept` is what
every other step leaves as it is.
-/

def MeshEvent.applied? : MeshEvent → Option Bytes
  | .remoteClipboard text => some text
  | _ => none

def appliedTexts (events : List MeshEvent) : List Bytes := events.filterMap MeshEvent.applied?

def noteTexts (texts : List Bytes) (clipboard : ClipboardSync) : ClipboardSync :=
  texts.foldr (fun text clipboard => clipboard.noteAppliedRemote text) clipboard

theorem noteTexts_append (newer older : List Bytes) (clipboard : ClipboardSync) :
    noteTexts (newer ++ older) clipboard = noteTexts newer (noteTexts older clipboard) :=
  List.foldr_append

theorem appliedTexts_append (newer older : List MeshEvent) :
    appliedTexts (newer ++ older) = appliedTexts newer ++ appliedTexts older :=
  List.filterMap_append

namespace Host

variable {π τ : Type} [LinearOrder π]

/-- The clipboard guard has taken note of what was applied since. -/
def Noting (before after : Host π τ) : Prop :=
  ∃ events, after.trace = events ++ before.trace ∧
    after.node.clipboard = noteTexts (appliedTexts events) before.node.clipboard

theorem Noting.refl (host : Host π τ) : Noting host host := ⟨[], rfl, rfl⟩

theorem Noting.trans {before middle after : Host π τ} (left : Noting before middle)
    (right : Noting middle after) : Noting before after := by
  obtain ⟨first, leftTrace, leftClipboard⟩ := left
  obtain ⟨second, rightTrace, rightClipboard⟩ := right
  refine ⟨second ++ first, ?_, ?_⟩
  · rw [rightTrace, leftTrace, List.append_assoc]
  · rw [rightClipboard, leftClipboard, appliedTexts_append, noteTexts_append]

structure Kept (before after : Host π τ) : Prop where
  self : after.node.self = before.node.self
  peers : after.node.peers = before.node.peers
  election : after.node.election = before.node.election
  heartbeat : after.node.heartbeat = before.node.heartbeat
  timeout : after.node.heartbeatTimeoutMs = before.node.heartbeatTimeoutMs
  now : after.node.now = before.node.now
  clipboard : Noting before after

namespace Kept

variable {before middle after : Host π τ}

theorem refl (host : Host π τ) : Kept host host := ⟨rfl, rfl, rfl, rfl, rfl, rfl, .refl host⟩

theorem trans (left : Kept before middle) (right : Kept middle after) : Kept before after :=
  ⟨right.self.trans left.self, right.peers.trans left.peers, right.election.trans left.election,
    right.heartbeat.trans left.heartbeat, right.timeout.trans left.timeout,
    right.now.trans left.now, left.clipboard.trans right.clipboard⟩

theorem emit (host : Host π τ) {event : MeshEvent} (silent : event.applied? = none) :
    Kept host (host.emit event) := by
  refine ⟨rfl, rfl, rfl, rfl, rfl, rfl, [event], rfl, ?_⟩
  rw [appliedTexts, List.filterMap_cons_none silent]
  rfl

theorem applyClaim (host : Host π τ) (claim : OwnershipClaim) : Kept host (host.applyClaim claim) :=
  ⟨rfl, rfl, rfl, rfl, rfl, rfl, [_], rfl, rfl⟩

theorem issueClaim (host : Host π τ) (target : PeerId) : Kept host (host.issueClaim target).2 :=
  ⟨rfl, rfl, rfl, rfl, rfl, rfl, [_], rfl, rfl⟩

theorem noteLiveness (now : UInt64) (host : Host π τ) (id : PeerId) :
    Kept host (host.noteLiveness now id) := by
  simp only [Host.noteLiveness]
  split
  · exact .refl host
  · refine ⟨rfl, rfl, rfl, rfl, rfl, rfl, [_], rfl, ?_⟩
    split <;> rfl

theorem notes (now : UInt64) (ids : List PeerId) (host : Host π τ) :
    Kept host (ids.foldl (Host.noteLiveness now) host) :=
  foldl_related Kept.refl Kept.trans (Kept.noteLiveness now) ids host

section Sending

variable [Transport τ]

theorem broadcast (host : Host π τ) (message : Bytes) : Kept host (host.broadcast message) :=
  ⟨rfl, rfl, rfl, rfl, rfl, rfl, [], rfl, rfl⟩

theorem releaseHeldKeys (host : Host π τ) (ts : UInt32) : Kept host (host.releaseHeldKeys ts) := by
  have node := host.releaseHeldKeys_node ts
  exact ⟨by rw [node], by rw [node], by rw [node], by rw [node], by rw [node], by rw [node], [],
    host.releaseHeldKeys_trace ts, by rw [node]; rfl⟩

theorem onOwnerChanged (hook : OwnerHook) (host : Host π τ) (owner : PeerId) :
    Kept host (host.onOwnerChanged hook owner) := by
  have told : Kept host (host.emit (.ownerChanged owner)) := .emit host rfl
  cases hook with
  | silent => exact told
  | releaseHeld =>
      simp only [Host.onOwnerChanged]
      split
      · exact told
      · exact told.trans (.releaseHeldKeys _ _)

theorem handleClaim (hook : OwnerHook) (host : Host π τ) (claim : OwnershipClaim) :
    Kept host (host.handleClaim hook claim) := by
  have applied := Kept.applyClaim host claim
  simp only [Host.handleClaim]
  split
  · exact applied.trans (.onOwnerChanged hook _ _)
  · exact applied

theorem handleMessage (hook : OwnerHook) (host : Host π τ) (sender : PeerId)
    (message : DecodedMessage) : Kept host (host.handleMessage hook sender message) := by
  simp only [Host.handleMessage]
  split
  · split
    all_goals first
      | exact .refl host
      | split <;> exact .emit host rfl
  · split
    · split
      · exact .handleClaim hook host _
      · exact .refl host
    · exact ⟨rfl, rfl, rfl, rfl, rfl, rfl, [_], rfl, rfl⟩
    · split
      · exact .emit host rfl
      · exact .refl host
    · exact .refl host

theorem handle (hook : OwnerHook) (host : Host π τ) (sender : PeerId) (data : Bytes) (now : UInt64) :
    Kept (host.hear sender data now) (host.handle hook sender data now) := by
  simp only [Host.handle]
  split
  · split
    · exact .refl _
    · exact ⟨rfl, rfl, rfl, rfl, rfl, rfl, [_], rfl, rfl⟩
  · exact .handleMessage hook _ sender _
  · exact .refl _

theorem requestSwitchTo (hook : OwnerHook) (host : Host π τ) (target : PeerId) :
    Kept host (host.requestSwitchTo hook target) := by
  simp only [Host.requestSwitchTo]
  split
  · exact .emit host rfl
  · have issued := (Kept.issueClaim host target).trans
      (.broadcast _ (claimMessage (host.issueClaim target).1))
    split
    · exact issued.trans (.onOwnerChanged hook _ _)
    · exact issued

theorem failSafe (hook : OwnerHook) (host : Host π τ) (now : UInt64) :
    Kept host (host.failSafe hook now) := by
  simp only [Host.failSafe]
  split
  · have issued := (Kept.issueClaim host host.node.self).trans
      (.emit _ (rfl : MeshEvent.reverted.applied? = none))
    exact issued.trans (.onOwnerChanged hook _ _)
  · exact .refl host

end Sending

end Kept

def onlineAt (host : Host π τ) (now : UInt64) : List PeerId :=
  host.node.self :: (host.node.peers.entries.map Prod.fst).filter fun id =>
    host.node.heartbeat.isAlive id now host.node.heartbeatTimeoutMs

theorem forgetPeer_kept (host : Host π τ) (id : PeerId) :
    Kept { host with
      node.peers := host.node.peers.erase id
      node.heartbeat := host.node.heartbeat.forget id } (host.forgetPeer id) := by
  simp only [forgetPeer]
  split
  · exact ⟨rfl, rfl, rfl, rfl, rfl, rfl, [_], rfl, rfl⟩
  · exact ⟨rfl, rfl, rfl, rfl, rfl, rfl, [], rfl, rfl⟩

section Sending

variable [Transport τ]

theorem refresh_kept (hook : OwnerHook) (host : Host π τ) (now : UInt64) :
    Kept { host with node.election := host.node.election.setOnline (host.onlineAt now) }
      (host.refreshOnlineAndFailSafe hook now) := by
  have noted := Kept.notes now (host.node.peers.entries.map Prod.fst) host
  simp only [refreshOnlineAndFailSafe]
  generalize (host.node.peers.entries.map Prod.fst).foldl (noteLiveness now) host = after at noted ⊢
  refine Kept.trans ?_ (.failSafe hook _ now)
  exact ⟨noted.self, noted.peers, by rw [noted.election]; rfl, noted.heartbeat, noted.timeout,
    noted.now, noted.clipboard⟩

/-- Only a poll, and a call that is about the election or the clipboard, does
more to the books than set the time. -/
theorem perform_kept (hook : OwnerHook) (host : Host π τ) (call : MeshCall) :
    (∃ priority, call = .setPriority priority) ∨ (∃ text, call = .clipboardChange text) ∨
      (∃ now, call = .poll now) ∨
        Kept { host with node.now := call.clock host.node.now } (host.perform hook call) := by
  cases call with
  | setPriority priority => exact .inl ⟨priority, rfl⟩
  | clipboardChange text => exact .inr (.inl ⟨text, rfl⟩)
  | poll now => exact .inr (.inr (.inl ⟨now, rfl⟩))
  | requestSwitchTo target => exact .inr (.inr (.inr (.requestSwitchTo hook host target)))
  | releaseHeldKeys ts => exact .inr (.inr (.inr (.releaseHeldKeys host ts)))
  | announceFilePromise files =>
      refine .inr (.inr (.inr ?_))
      simp only [perform, announceFilePromise]
      split
      · exact .refl host
      · exact .broadcast host _
  | sendHeartbeats now =>
      refine .inr (.inr (.inr ?_))
      simp only [perform, sendHeartbeats]
      split <;> exact ⟨rfl, rfl, rfl, rfl, rfl, rfl, [], rfl, rfl⟩
  | forwardMouseMove dx dy ts =>
      refine .inr (.inr (.inr ?_))
      simp only [perform, forwardMouseMove]
      split <;> exact ⟨rfl, rfl, rfl, rfl, rfl, rfl, [], rfl, rfl⟩
  | forwardMouseButton button down ts =>
      refine .inr (.inr (.inr ?_))
      simp only [perform, forwardMouseButton]
      split <;> exact ⟨rfl, rfl, rfl, rfl, rfl, rfl, [], rfl, rfl⟩
  | forwardKey code down ts =>
      refine .inr (.inr (.inr ?_))
      simp only [perform, forwardKey]
      split <;> exact ⟨rfl, rfl, rfl, rfl, rfl, rfl, [], rfl, rfl⟩

theorem clipboardChange_kept (host : Host π τ) (text : Bytes) :
    Kept { host with node.clipboard := (host.node.clipboard.shouldBroadcastLocalChange text).2 }
      (host.onLocalClipboardChange text) := by
  simp only [onLocalClipboardChange]
  split
  · exact .broadcast _ _
  · exact .refl _

/-- What neither the transports, a heartbeat from one of the peers nor a step
that keeps the books can break, the receive loops of a poll do not break. -/
theorem drains_keep {P : Host π τ → Prop} {now : UInt64} (hook : OwnerHook)
    (entries : List (PeerId × Option π))
    (kept : ∀ before after : Host π τ, before.Kept after → P before → P after)
    (heap : ∀ (host : Host π τ) heap, P host → P { host with heap })
    (heard : ∀ (host : Host π τ) sender data, sender ∈ entries.map Prod.fst → P host →
      P (host.hear sender data now))
    {host : Host π τ} (start : P host) : P (entries.foldl (drainPeer hook now) host) :=
  drains_preserve entries heap (fun host sender data member before =>
    kept _ _ (.handle hook host sender data now) (heard host sender data member before)) start

end Sending

end Host

end Skittermouse.App

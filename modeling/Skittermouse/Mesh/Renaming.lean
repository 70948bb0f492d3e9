import Skittermouse.Mesh.Frame

namespace Skittermouse.App

open Skittermouse.Data Skittermouse.Core Skittermouse.Net

/-! # A node does not look at its pointers

It only follows them. Two hosts whose transports go by different names do the
same, as long as no two transports share a name.
-/

structure Renaming (π ρ : Type) where
  pairs : π → ρ → Prop
  unique : ∀ {pointer other renamed otherRenamed}, pairs pointer renamed →
    pairs other otherRenamed → (pointer = other ↔ renamed = otherRenamed)

def MeshNode.withPeers {π ρ : Type} (node : MeshNode π) (peers : OrdMap PeerId (Option ρ)) :
    MeshNode ρ :=
  { self := node.self
    peers
    peerOnline := node.peerOnline
    versionWarned := node.versionWarned
    ownership := node.ownership
    election := node.election
    heartbeat := node.heartbeat
    clipboard := node.clipboard
    pipeline := node.pipeline
    now := node.now
    lastHeartbeatSent := node.lastHeartbeatSent
    heartbeatTimeoutMs := node.heartbeatTimeoutMs
    heartbeatIntervalMs := node.heartbeatIntervalMs }

variable {π ρ τ : Type} [LinearOrder π] [LinearOrder ρ]

/-- A renamed pointer leads to the same transport, and the others lead where
they are said to lead. -/
structure SameHeap (names : Renaming π ρ) (aside : π → Option τ) (heap : OrdMap π τ)
    (other : OrdMap ρ τ) : Prop where
  named : ∀ {pointer renamed}, names.pairs pointer renamed →
    heap.find? pointer = other.find? renamed
  aside : ∀ pointer, (∀ renamed, ¬ names.pairs pointer renamed) →
    heap.find? pointer = aside pointer
  only : ∀ renamed, (∀ pointer, ¬ names.pairs pointer renamed) → other.find? renamed = none

inductive Renames (names : Renaming π ρ) (aside : π → Option τ) (left : Host π τ) :
    Host ρ τ → Prop where
  | intro {peers : OrdMap PeerId (Option ρ)} {heap : OrdMap ρ τ}
      (pointers : ∀ id, Option.Rel (Option.Rel names.pairs) (left.node.peers.find? id)
        (peers.find? id))
      (heaps : SameHeap names aside left.heap heap) :
      Renames names aside left ⟨left.node.withPeers peers, heap, left.trace⟩

variable {names : Renaming π ρ} {aside : π → Option τ} {heap : OrdMap π τ} {other : OrdMap ρ τ}
variable {left after : Host π τ} {right : Host ρ τ}

theorem SameHeap.update (same : SameHeap names aside heap other) {pointer : π} {renamed : ρ}
    (named : names.pairs pointer renamed) {later : OrdMap π τ} {otherLater : OrdMap ρ τ}
    {transport : Option τ}
    (changed : ∀ wanted, later.find? wanted =
      if wanted = pointer then transport else heap.find? wanted)
    (otherChanged : ∀ wanted, otherLater.find? wanted =
      if wanted = renamed then transport else other.find? wanted) :
    SameHeap names aside later otherLater where
  named {wanted otherWanted} found := by
    have unique := names.unique found named
    rw [changed, otherChanged]
    by_cases own : wanted = pointer
    · rw [if_pos own, if_pos (unique.mp own)]
    · rw [if_neg own, if_neg fun renamed => own (unique.mpr renamed), same.named found]
  aside wanted unnamed := by
    have apart : wanted ≠ pointer := fun own => unnamed renamed (own ▸ named)
    rw [changed, if_neg apart, same.aside wanted unnamed]
  only wanted unnamed := by
    have apart : wanted ≠ renamed := fun own => unnamed pointer (own ▸ named)
    rw [otherChanged, if_neg apart, same.only wanted unnamed]

theorem SameHeap.insert (same : SameHeap names aside heap other) {pointer : π} {renamed : ρ}
    (named : names.pairs pointer renamed) (transport : τ) :
    SameHeap names aside (heap.insert pointer transport) (other.insert renamed transport) :=
  same.update named (fun _ => OrdMap.find?_insert _ _ _ _) fun _ => OrdMap.find?_insert _ _ _ _

theorem SameHeap.modify (same : SameHeap names aside heap other) {pointer : π} {renamed : ρ}
    (named : names.pairs pointer renamed) (change : τ → τ) :
    SameHeap names aside (heap.modify pointer change) (other.modify renamed change) := by
  refine same.update named (fun _ => OrdMap.find?_modify _ _ _ _) fun wanted => ?_
  rw [OrdMap.find?_modify, same.named named]

theorem SameHeap.foldl_modify {pointers : List π} {renamed : List ρ}
    (same : SameHeap names aside heap other)
    (named : List.Forall₂ names.pairs pointers renamed) (change : τ → τ) :
    SameHeap names aside (pointers.foldl (fun heap pointer => heap.modify pointer change) heap)
      (renamed.foldl (fun heap pointer => heap.modify pointer change) other) := by
  induction named generalizing heap other with
  | nil => exact same
  | cons first rest ih => exact ih (same.modify first change)

namespace Renames

theorem ite {c : Prop} [Decidable c] {left other : Host π τ} {right otherRight : Host ρ τ}
    (yes : c → Renames names aside left right)
    (no : ¬ c → Renames names aside other otherRight) :
    Renames names aside (if c then left else other) (if c then right else otherRight) := by
  split
  · rename_i holds
    exact yes holds
  · rename_i fails
    exact no fails

theorem emit (renames : Renames names aside left right) (event : MeshEvent) :
    Renames names aside (left.emit event) (right.emit event) := by
  cases renames with
  | intro pointers heaps => exact .intro pointers heaps

theorem pipe (renames : Renames names aside left right) (pipeline : InputPipeline) :
    Renames names aside { left with node.pipeline := pipeline }
      { right with node.pipeline := pipeline } := by
  cases renames with
  | intro pointers heaps => exact .intro pointers heaps

theorem applyClaim (renames : Renames names aside left right) (claim : OwnershipClaim) :
    Renames names aside (left.applyClaim claim) (right.applyClaim claim) := by
  cases renames with
  | intro pointers heaps => exact .intro pointers heaps

theorem issueClaim (renames : Renames names aside left right) (target : PeerId) :
    (right.issueClaim target).1 = (left.issueClaim target).1 ∧
      Renames names aside (left.issueClaim target).2 (right.issueClaim target).2 := by
  cases renames with
  | intro pointers heaps => exact ⟨rfl, .intro pointers heaps⟩

theorem pointers (renames : Renames names aside left right) :
    List.Forall₂ names.pairs left.node.pointers right.node.pointers := by
  cases renames with
  | @intro peers heap pointers heaps =>
      have entries := OrdMap.forall₂_entries pointers
      simp only [MeshNode.pointers, MeshNode.withPeers]
      generalize left.node.peers.entries = one, peers.entries = two at entries ⊢
      induction entries with
      | nil => exact .nil
      | @cons entry renamed _ _ related rest ih =>
          obtain ⟨id, pointer⟩ := entry
          obtain ⟨same, target⟩ := renamed
          obtain ⟨_, related⟩ := related
          simp only [List.filterMap_cons] at related ⊢
          cases related with
          | none => exact ih
          | some named => exact .cons named ih

theorem keys (renames : Renames names aside left right) :
    right.node.peers.entries.map Prod.fst = left.node.peers.entries.map Prod.fst := by
  cases renames with
  | @intro peers heap pointers heaps =>
      have entries := OrdMap.forall₂_entries pointers
      simp only [MeshNode.withPeers]
      generalize left.node.peers.entries = one, peers.entries = two at entries ⊢
      induction entries with
      | nil => rfl
      | cons related rest ih => rw [List.map_cons, List.map_cons, ih, related.1]

theorem noteLiveness (renames : Renames names aside left right) (now : UInt64) (id : PeerId) :
    Renames names aside (left.noteLiveness now id) (right.noteLiveness now id) := by
  cases renames with
  | intro pointers heaps =>
      exact .ite (fun _ => .intro pointers heaps) fun _ => .intro pointers heaps

theorem notes (renames : Renames names aside left right) (now : UInt64) (ids : List PeerId) :
    Renames names aside (ids.foldl (Host.noteLiveness now) left)
      (ids.foldl (Host.noteLiveness now) right) := by
  induction ids generalizing left right with
  | nil => exact renames
  | cons id rest ih => exact ih (renames.noteLiveness now id)

theorem setNow (renames : Renames names aside left right) (now : UInt64) :
    Renames names aside { left with node.now := now } { right with node.now := now } := by
  cases renames with
  | intro pointers heaps => exact .intro pointers heaps

theorem stamp (renames : Renames names aside left right) (sent : UInt64) :
    Renames names aside { left with node.lastHeartbeatSent := sent }
      { right with node.lastHeartbeatSent := sent } := by
  cases renames with
  | intro pointers heaps => exact .intro pointers heaps

theorem elect (renames : Renames names aside left right) (online : List PeerId) :
    Renames names aside { left with node.election := left.node.election.setOnline online }
      { right with node.election := right.node.election.setOnline online } := by
  cases renames with
  | intro pointers heaps => exact .intro pointers heaps

theorem forgetPeer (renames : Renames names aside left right) (id : PeerId) :
    Renames names aside (left.forgetPeer id) (right.forgetPeer id) := by
  have forgotten : ∀ {left : Host π τ} {right : Host ρ τ}, Renames names aside left right →
      Renames names aside
        { left with
          node.peers := left.node.peers.erase id
          node.heartbeat := left.node.heartbeat.forget id
          node.peerOnline := left.node.peerOnline.erase id
          node.versionWarned := left.node.versionWarned.erase id }
        { right with
          node.peers := right.node.peers.erase id
          node.heartbeat := right.node.heartbeat.forget id
          node.peerOnline := right.node.peerOnline.erase id
          node.versionWarned := right.node.versionWarned.erase id } := by
    intro left right renames
    cases renames with
    | @intro peers heap pointers heaps =>
        have erased : ∀ other, Option.Rel (Option.Rel names.pairs)
            ((left.node.peers.erase id).find? other) ((peers.erase id).find? other) := by
          intro other
          simp only [OrdMap.find?_erase]
          split
          · exact .none
          · exact pointers other
        exact .intro erased heaps
  have told := renames.emit (.peerOffline id)
  refine forgotten ?_
  cases renames with
  | intro pointers heaps => exact .ite (fun _ => told) fun _ => .intro pointers heaps

theorem hear (renames : Renames names aside left right) (sender : PeerId) (data : Bytes)
    (now : UInt64) :
    Renames names aside (left.hear sender data now) (right.hear sender data now) := by
  cases renames with
  | intro pointers heaps => exact .intro pointers heaps

section Sending

variable [Transport τ] {hook : OwnerHook} {now : UInt64} {sender : PeerId}

theorem broadcast (renames : Renames names aside left right) (message : Bytes) :
    Renames names aside (left.broadcast message) (right.broadcast message) := by
  have named := renames.pointers
  cases renames with
  | intro pointers heaps =>
      refine .intro pointers ?_
      exact heaps.foldl_modify named _

theorem foldl_broadcast (renames : Renames names aside left right) (messages : List Bytes) :
    Renames names aside (messages.foldl Host.broadcast left)
      (messages.foldl Host.broadcast right) := by
  induction messages generalizing left right with
  | nil => exact renames
  | cons message rest ih => exact ih (renames.broadcast message)

theorem releaseHeldKeys (renames : Renames names aside left right) (ts : UInt32) :
    Renames names aside (left.releaseHeldKeys ts) (right.releaseHeldKeys ts) := by
  cases renames with
  | intro pointers heaps =>
      exact (pipe (.intro pointers heaps) (left.node.pipeline.releaseAll ts).2).foldl_broadcast
        (left.node.pipeline.releaseAll ts).1

theorem onOwnerChanged (renames : Renames names aside left right) (hook : OwnerHook)
    (owner : PeerId) :
    Renames names aside (left.onOwnerChanged hook owner) (right.onOwnerChanged hook owner) := by
  have told := renames.emit (.ownerChanged owner)
  cases hook with
  | silent => exact told
  | releaseHeld =>
      cases renames with
      | intro pointers heaps => exact .ite (fun _ => told) fun _ => told.releaseHeldKeys _

theorem requestSwitchTo (renames : Renames names aside left right) (target : PeerId) :
    Renames names aside (left.requestSwitchTo hook target) (right.requestSwitchTo hook target) := by
  have refused := renames.emit (.switchUnavailable target)
  obtain ⟨claim, issued⟩ := renames.issueClaim target
  cases renames with
  | intro pointers heaps =>
      have told := issued.broadcast (claimMessage (left.issueClaim target).1)
      exact .ite (fun _ => refused) fun _ => .ite (fun _ => told.onOwnerChanged hook _) fun _ => told

theorem handleClaim (renames : Renames names aside left right) (hook : OwnerHook)
    (claim : OwnershipClaim) :
    Renames names aside (left.handleClaim hook claim) (right.handleClaim hook claim) := by
  have claimed := renames.applyClaim claim
  cases renames with
  | intro pointers heaps => exact .ite (fun _ => claimed.onOwnerChanged hook _) fun _ => claimed

theorem handleMessage (renames : Renames names aside left right) (hook : OwnerHook)
    (sender : PeerId) (message : DecodedMessage) :
    Renames names aside (left.handleMessage hook sender message)
      (right.handleMessage hook sender message) := by
  have claimed := fun claim => renames.handleClaim hook claim
  have ignored := renames.emit (.ignored sender message.fixed)
  have injected := renames.emit (.inject sender message.fixed)
  have announced := fun files => renames.emit (.remoteFilePromise sender files)
  simp only [Host.handleMessage]
  split
  · have input : Renames names aside
        (if left.isLocalOwner then left.emit (.ignored sender message.fixed)
          else left.emit (.inject sender message.fixed))
        (if right.isLocalOwner then right.emit (.ignored sender message.fixed)
          else right.emit (.inject sender message.fixed)) := by
      cases renames with
      | intro pointers heaps => exact .ite (fun _ => ignored) fun _ => injected
    split <;> first | exact input | exact renames
  · split
    · split
      · exact claimed _
      · exact renames
    · cases renames with
      | intro pointers heaps => exact .intro pointers heaps
    · split
      · exact announced _
      · exact renames
    · exact renames

theorem handle (renames : Renames names aside left right) (data : Bytes) :
    Renames names aside (left.handle hook sender data now) (right.handle hook sender data now) := by
  have heard := renames.hear sender data now
  have told := fun message => heard.handleMessage hook sender message
  simp only [Host.handle]
  split
  · cases renames with
    | intro pointers heaps => exact .ite (fun _ => heard) fun _ => .intro pointers heaps
  · exact told _
  · exact heard

theorem drain (renames : Renames names aside left right) {pointer : π} {renamed : ρ}
    (named : names.pairs pointer renamed) (fuel : Nat) :
    Renames names aside (left.drain hook sender pointer now fuel)
      (right.drain hook sender renamed now fuel) := by
  induction fuel generalizing left right with
  | zero => exact renames
  | succ fuel ih =>
      have same : left.heap.find? pointer = right.heap.find? renamed := by
        cases renames with
        | intro pointers heaps => exact heaps.named named
      simp only [Host.drain]
      rw [← same]
      cases found : left.heap.find? pointer with
      | none => exact renames
      | some transport =>
          have received : Renames names aside
              { left with
                heap := left.heap.insert pointer (Transport.recv transport Host.kPollBufferSize).2 }
              { right with
                heap := right.heap.insert renamed (Transport.recv transport Host.kPollBufferSize).2 } := by
            cases renames with
            | intro pointers heaps => exact .intro pointers (heaps.insert named _)
          dsimp only
          split
          · exact received
          · exact received
          · exact ih (received.handle _)

theorem backlog (renames : Renames names aside left right) {pointer : π} {renamed : ρ}
    (named : names.pairs pointer renamed) : right.backlog renamed = left.backlog pointer := by
  cases renames with
  | intro pointers heaps => simp only [Host.backlog, heaps.named named]

theorem drains (renames : Renames names aside left right) {entries : List (PeerId × Option π)}
    {others : List (PeerId × Option ρ)} (related : List.Forall₂ (fun entry other =>
      entry.1 = other.1 ∧ Option.Rel names.pairs entry.2 other.2) entries others) :
    Renames names aside (entries.foldl (Host.drainPeer hook now) left)
      (others.foldl (Host.drainPeer hook now) right) := by
  induction related generalizing left right with
  | nil => exact renames
  | @cons entry other _ _ first rest ih =>
      obtain ⟨id, pointer⟩ := entry
      obtain ⟨same, target⟩ := other
      obtain ⟨rfl, first⟩ := first
      refine ih ?_
      cases first with
      | none => exact renames
      | @some pointer renamed named =>
          simp only [Host.drainPeer, renames.backlog named]
          exact renames.drain named _

theorem failSafe (renames : Renames names aside left right) (hook : OwnerHook) (now : UInt64) :
    Renames names aside (left.failSafe hook now) (right.failSafe hook now) := by
  have issued := (renames.issueClaim left.node.self).2.emit .reverted
  have reverted := issued.onOwnerChanged hook left.node.self
  cases renames with
  | intro pointers heaps => exact .ite (fun _ => reverted) fun _ => .intro pointers heaps

theorem refresh (renames : Renames names aside left right) (hook : OwnerHook) (now : UInt64) :
    Renames names aside (left.refreshOnlineAndFailSafe hook now)
      (right.refreshOnlineAndFailSafe hook now) := by
  have noted := renames.notes now (left.node.peers.entries.map Prod.fst)
  simp only [Host.refreshOnlineAndFailSafe, renames.keys]
  cases renames with
  | intro pointers heaps => exact (noted.elect _).failSafe hook now

theorem removePeer (renames : Renames names aside left right) (hook : OwnerHook) (id : PeerId) :
    Renames names aside (left.removePeer hook id) (right.removePeer hook id) := by
  have refreshed := (renames.forgetPeer id).refresh hook left.node.now
  cases renames with
  | intro pointers heaps => exact refreshed

theorem poll (renames : Renames names aside left right) (hook : OwnerHook) (now : UInt64) :
    Renames names aside (left.poll hook now) (right.poll hook now) := by
  have timed := renames.setNow now
  cases renames with
  | intro pointers heaps =>
      exact (timed.drains (OrdMap.forall₂_entries pointers)).refresh hook now

theorem sendHeartbeats (renames : Renames names aside left right) (now : UInt64) :
    Renames names aside (left.sendHeartbeats now) (right.sendHeartbeats now) := by
  have timed := renames.setNow now
  have told := timed.broadcast (encodeInputEvent (Host.heartbeatEvent now))
  have stamped := told.stamp now
  cases renames with
  | intro pointers heaps => exact .ite (fun _ => timed) fun _ => stamped

theorem perform (renames : Renames names aside left right) (hook : OwnerHook) (call : MeshCall) :
    Renames names aside (left.perform hook call) (right.perform hook call) := by
  cases call with
  | requestSwitchTo target => exact renames.requestSwitchTo target
  | sendHeartbeats now => exact renames.sendHeartbeats now
  | poll now => exact renames.poll hook now
  | releaseHeldKeys ts => exact renames.releaseHeldKeys ts
  | setPriority priority =>
      cases renames with
      | intro pointers heaps => exact .intro pointers heaps
  | forwardMouseMove dx dy ts =>
      have sent := (renames.pipe (left.node.pipeline.onMouseMove dx dy ts).2).broadcast
        (left.node.pipeline.onMouseMove dx dy ts).1
      cases renames with
      | intro pointers heaps => exact .ite (fun _ => sent) fun _ => .intro pointers heaps
  | forwardMouseButton button down ts =>
      have sent := (renames.pipe (left.node.pipeline.onMouseButton button down ts).2).broadcast
        (left.node.pipeline.onMouseButton button down ts).1
      cases renames with
      | intro pointers heaps => exact .ite (fun _ => sent) fun _ => .intro pointers heaps
  | forwardKey code down ts =>
      have sent := (renames.pipe (left.node.pipeline.onKey code down ts).2).broadcast
        (left.node.pipeline.onKey code down ts).1
      cases renames with
      | intro pointers heaps => exact .ite (fun _ => sent) fun _ => .intro pointers heaps
  | clipboardChange text =>
      cases renames with
      | @intro peers heap pointers heaps =>
          have noted : Renames names aside
              { left with node.clipboard := (left.node.clipboard.shouldBroadcastLocalChange text).2 } _ :=
            .intro pointers heaps
          exact .ite (fun _ => noted.broadcast _) fun _ => noted
  | announceFilePromise files =>
      exact .ite (fun _ => renames) fun _ => renames.broadcast _

end Sending

end Renames

end Skittermouse.App

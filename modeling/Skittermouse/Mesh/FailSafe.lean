import Skittermouse.Data.Exec
import Skittermouse.Mesh.Frame

namespace Skittermouse.Mesh

open Skittermouse.Data Skittermouse.Core Skittermouse.Net Skittermouse.App

/-! # Fail-safe local control

One node under any order of its operations, with a network that may put
anything into its transports between them.
-/

inductive NodeOp (π τ : Type) [LinearOrder π] where
  | call (call : MeshCall)
  | addPeer (id : PeerId) (transport : Option π)
  | removePeer (id : PeerId)
  | setTimeouts (timeout interval : UInt64)
  | network (heap : OrdMap π τ)

variable {π τ : Type} [LinearOrder π]

def NodeOp.time? : NodeOp π τ → Option UInt64
  | .call (.poll now) | .call (.sendHeartbeats now) => some now
  | _ => none

def NodeOp.refreshes : NodeOp π τ → Bool
  | .call (.poll _) | .removePeer _ => true
  | _ => false

def nodeStep [Transport τ] : NodeOp π τ → Host π τ → Host π τ
  | .call call, host => host.perform .silent call
  | .addPeer id transport, host => host.addPeer id transport
  | .removePeer id, host => host.removePeer .silent id
  | .setTimeouts timeout interval, host =>
      { host with node.heartbeatTimeoutMs := timeout, node.heartbeatIntervalMs := interval }
  | .network heap, host => { host with heap }

def OnTime (op : NodeOp π τ) (host : Host π τ) : Prop :=
  ∀ now, op.time? = some now → host.node.now ≤ now

def inRange : MeshEvent → Bool
  | .claimed claim => decide (claim.sequence < UInt64.ofNat (2 ^ 64 - 1))
  | _ => true

/-- Every claim received or issued had a sequence number below the last one. -/
def SequencesInRange (trace : List MeshEvent) : Prop := ∀ event ∈ trace, inRange event = true

instance (trace : List MeshEvent) : Decidable (SequencesInRange trace) :=
  inferInstanceAs (Decidable (∀ event ∈ trace, inRange event = true))

/-- The last argument of `onOwnerChanged`, or the node itself before the first. -/
def lastOwner (self : PeerId) : List MeshEvent → PeerId
  | [] => self
  | .ownerChanged owner :: _ => owner
  | _ :: rest => lastOwner self rest

/-- The node controls itself, or its owner is a registered peer that was heard
within the timeout. -/
def Guarded (host : Host π τ) : Prop :=
  host.isLocalOwner = true ∨
    host.node.peers.contains host.owner = true ∧
    ∃ seen data, .handled host.owner seen data ∈ host.trace ∧ seen ≤ host.node.now ∧
      host.node.now - seen < host.node.heartbeatTimeoutMs

structure Sound (host : Host π τ) : Prop where
  owned : host.node.ownership.self = host.node.self
  current : host.node.ownership.Current
  /-- The clock is the start value or came in with some claim. -/
  clock : host.node.ownership.clock = 0 ∨
    ∃ claim, .claimed claim ∈ host.trace ∧ claim.sequence = host.node.ownership.clock
  heard : ∀ id seen, host.node.heartbeat.last.find? id = some seen →
    host.node.peers.contains id = true ∧ seen ≤ host.node.now ∧
      ∃ data, .handled id seen data ∈ host.trace

def Reported (host : Host π τ) : Prop := lastOwner host.node.self host.trace = host.owner

variable {host before after : Host π τ}

theorem lastOwner_append {self : PeerId} {events trace : List MeshEvent}
    (quiet : ∀ event ∈ events, event.concernsOwner = false) :
    lastOwner self (events ++ trace) = lastOwner self trace := by
  induction events with
  | nil => rfl
  | cons event rest ih =>
      have tail := ih fun other member => quiet other (List.mem_cons_of_mem _ member)
      have head := quiet event List.mem_cons_self
      cases event with
      | ownerChanged owner => contradiction
      | _ => exact tail

theorem Sound.init (self : PeerId) : Sound (Host.init π τ self) where
  owned := rfl
  current := OwnershipState.init_current self
  clock := .inl rfl
  heard _ _ found := by cases found

theorem Sound.frame (sound : Sound before) (frame : before.OwnerFrame after) : Sound after := by
  obtain ⟨events, trace, quiet⟩ := frame.trace
  have kept : ∀ event ∈ before.trace, event ∈ after.trace := fun event member => by
    rw [trace]
    exact List.mem_append_right _ member
  refine ⟨by rw [frame.ownership, frame.self, sound.owned], by rw [frame.ownership]; exact sound.current,
    ?_, ?_⟩
  · rw [frame.ownership]
    exact sound.clock.imp_right fun ⟨claim, member, same⟩ => ⟨claim, kept _ member, same⟩
  · intro id seen found
    rw [frame.heartbeat] at found
    obtain ⟨registered, earlier, data, member⟩ := sound.heard id seen found
    exact ⟨by rwa [frame.peers], by rwa [frame.now], data, kept _ member⟩

theorem Reported.frame (reported : Reported before) (frame : before.OwnerFrame after) :
    Reported after := by
  obtain ⟨events, trace, quiet⟩ := frame.trace
  rw [Reported, frame.owner, frame.self, trace, lastOwner_append quiet]
  exact reported

theorem Sound.emit (sound : Sound host) (event : MeshEvent) : Sound (host.emit event) where
  owned := sound.owned
  current := sound.current
  clock := sound.clock.imp_right fun ⟨claim, member, same⟩ =>
    ⟨claim, List.mem_cons_of_mem _ member, same⟩
  heard id seen found := by
    obtain ⟨registered, earlier, data, member⟩ := sound.heard id seen found
    exact ⟨registered, earlier, data, List.mem_cons_of_mem _ member⟩

theorem Sound.applyClaim (sound : Sound host) (claim : OwnershipClaim) :
    Sound (host.applyClaim claim) where
  owned := OwnershipState.applyClaim_self.trans sound.owned
  current := sound.current.applyClaim claim
  clock := by
    have clock : (host.applyClaim claim).node.ownership.clock =
        max host.node.ownership.clock claim.sequence := OwnershipState.applyClaim_clock
    rw [clock]
    rcases le_total claim.sequence host.node.ownership.clock with older | newer
    · rw [max_eq_left older]
      exact sound.clock.imp_right fun ⟨claim, member, same⟩ =>
        ⟨claim, List.mem_cons_of_mem _ member, same⟩
    · rw [max_eq_right newer]
      exact .inr ⟨claim, List.mem_cons_self, rfl⟩
  heard id seen found := by
    obtain ⟨registered, earlier, data, member⟩ := sound.heard id seen found
    exact ⟨registered, earlier, data, List.mem_cons_of_mem _ member⟩

theorem Sound.hear {sender : PeerId} (sound : Sound host)
    (registered : host.node.peers.contains sender = true) (data : Bytes) :
    Sound (host.hear sender data host.node.now) where
  owned := sound.owned
  current := sound.current
  clock := sound.clock.imp_right fun ⟨claim, member, same⟩ =>
    ⟨claim, List.mem_cons_of_mem _ member, same⟩
  heard id seen found := by
    simp only [Host.hear, Host.emit, Heartbeat.onHeartbeat, OrdMap.find?_insert] at found
    split at found
    · rename_i own
      cases found
      exact ⟨by rw [own]; exact registered, le_refl _, data, by rw [own]; exact List.mem_cons_self⟩
    · obtain ⟨member, earlier, old, handled⟩ := sound.heard id seen found
      exact ⟨member, earlier, old, List.mem_cons_of_mem _ handled⟩

theorem Sound.addPeer (sound : Sound host) (id : PeerId) (transport : Option π) :
    Sound (host.addPeer id transport) where
  owned := sound.owned
  current := sound.current
  clock := sound.clock
  heard other seen found := by
    obtain ⟨registered, earlier, data, member⟩ := sound.heard other seen found
    refine ⟨?_, earlier, data, member⟩
    rw [OrdMap.contains_iff] at registered ⊢
    simp only [Host.addPeer, OrdMap.find?_insert]
    split
    · exact ⟨_, rfl⟩
    · exact registered

theorem Sound.setNow {now : UInt64} (sound : Sound host) (onTime : host.node.now ≤ now) :
    Sound { host with node.now := now } where
  owned := sound.owned
  current := sound.current
  clock := sound.clock
  heard id seen found := by
    obtain ⟨registered, earlier, data, member⟩ := sound.heard id seen found
    exact ⟨registered, earlier.trans onTime, data, member⟩

variable {now : UInt64} {peers : OrdMap PeerId (Option π)}

/-- Handling a message keeps the invariants and the time of a host that polls. -/
structure Polling (peers : OrdMap PeerId (Option π)) (now : UInt64) (host : Host π τ) : Prop where
  sound : Sound host
  reported : Reported host
  peers : host.node.peers = peers
  now : host.node.now = now

theorem Polling.frame (polling : Polling peers now before)
    (frame : before.OwnerFrame after) : Polling peers now after :=
  ⟨polling.sound.frame frame, polling.reported.frame frame, frame.peers.trans polling.peers,
    frame.now.trans polling.now⟩

theorem Polling.heap (polling : Polling peers now host)
    (heap : OrdMap π τ) : Polling peers now { host with heap } :=
  ⟨⟨polling.sound.owned, polling.sound.current, polling.sound.clock, polling.sound.heard⟩,
    polling.reported, polling.peers, polling.now⟩

theorem Sound.room (sound : Sound host) (bounded : SequencesInRange host.trace) :
    host.node.ownership.clock < UInt64.ofNat (2 ^ 64 - 1) := by
  rcases sound.clock with start | ⟨claim, member, same⟩
  · rw [start]
    decide
  · rw [← same]
    exact of_decide_eq_true (bounded _ member)

theorem Sound.forgetPeer (sound : Sound host) (id : PeerId) : Sound (host.forgetPeer id) := by
  have erased : ∀ trace, host.trace <:+ trace → ∀ other seen,
      (host.node.heartbeat.forget id).last.find? other = some seen →
      (host.node.peers.erase id).contains other = true ∧ seen ≤ host.node.now ∧
        ∃ data, .handled other seen data ∈ trace := by
    intro trace grown other seen found
    simp only [Heartbeat.forget, OrdMap.find?_erase] at found
    split at found
    · contradiction
    · rename_i different
      obtain ⟨registered, earlier, data, member⟩ := sound.heard other seen found
      refine ⟨?_, earlier, data, grown.subset member⟩
      rw [OrdMap.contains_iff] at registered ⊢
      rwa [OrdMap.find?_erase_of_ne _ different]
  unfold Host.forgetPeer
  dsimp only
  split
  · exact ⟨sound.owned, sound.current, (sound.emit _).clock, erased _ (List.suffix_cons _ _)⟩
  · exact ⟨sound.owned, sound.current, sound.clock, erased _ List.suffix_rfl⟩

theorem OnTime.clock {call : MeshCall} (onTime : OnTime (.call call) host) :
    host.node.now ≤ call.clock host.node.now := by
  cases call with
  | sendHeartbeats now => exact onTime now rfl
  | poll now => exact onTime now rfl
  | _ => exact UInt64.le_refl _

theorem Reported.forgetPeer (reported : Reported host) (id : PeerId) :
    Reported (host.forgetPeer id) := by
  unfold Host.forgetPeer
  dsimp only
  split <;> exact reported

section Sending

variable [Transport τ] {hook : OwnerHook}

theorem Reported.settle (hook : OwnerHook) {claim : OwnershipClaim} {claimed : Host π τ} (reported : Reported host)
    (frame : (host.applyClaim claim).OwnerFrame claimed) :
    Reported (if claimed.owner ≠ host.owner then claimed.onOwnerChanged hook claimed.owner
      else claimed) := by
  split
  · have changed : Reported (claimed.emit (.ownerChanged claimed.owner)) := rfl
    exact changed.frame (Host.onOwnerChanged_frame hook claimed _)
  · rename_i same
    have kept : Reported (host.applyClaim claim) := by
      rw [not_not, frame.owner] at same
      exact reported.trans same.symm
    exact kept.frame frame

theorem Sound.onOwnerChanged (sound : Sound host) (owner : PeerId) :
    Sound (host.onOwnerChanged hook owner) :=
  (sound.emit _).frame (Host.onOwnerChanged_frame hook host owner)

theorem Sound.requestSwitchTo (sound : Sound host) (target : PeerId) :
    Sound (host.requestSwitchTo hook target) := by
  unfold Host.requestSwitchTo
  split
  · exact sound.emit _
  · dsimp only
    split
    · exact ((sound.applyClaim _).frame (Host.broadcast_frame _ _)).onOwnerChanged _
    · exact (sound.applyClaim _).frame (Host.broadcast_frame _ _)

theorem Reported.requestSwitchTo (reported : Reported host) (target : PeerId) :
    Reported (host.requestSwitchTo hook target) := by
  unfold Host.requestSwitchTo
  split
  · exact reported.frame (.emit host rfl)
  · exact reported.settle hook (Host.broadcast_frame _ _)

theorem Polling.handleClaim (polling : Polling peers now host)
    (claim : OwnershipClaim) : Polling peers now (host.handleClaim hook claim) := by
  have reported := polling.reported.settle hook (.refl (host.applyClaim claim))
  refine ⟨?_, reported, ?_, ?_⟩ <;> unfold Host.handleClaim <;> dsimp only <;> split
  · exact (polling.sound.applyClaim claim).onOwnerChanged _
  · exact polling.sound.applyClaim claim
  · exact (Host.onOwnerChanged_frame hook _ _).peers.trans polling.peers
  · exact polling.peers
  · exact (Host.onOwnerChanged_frame hook _ _).now.trans polling.now
  · exact polling.now

theorem Polling.handle {sender : PeerId}
    (polling : Polling peers now host) (registered : peers.contains sender = true)
    (data : Bytes) : Polling peers now (host.handle hook sender data now) := by
  have heard : Polling peers now (host.hear sender data now) :=
    ⟨by rw [← polling.now]; exact polling.sound.hear (by rwa [polling.peers]) data,
      polling.reported, polling.peers, polling.now⟩
  have outcome := Host.handle_outcome hook host sender data now
  generalize host.handle hook sender data now = handled at outcome ⊢
  cases outcome with
  | noted input claim noted => exact heard.frame noted.frame
  | injected input claim sink => exact heard.frame (.emit _ rfl)
  | ignored input claim owner => exact heard.frame (.emit _ rfl)
  | claimed input found => exact heard.handleClaim _

theorem Polling.drains (polling : Polling peers now host)
    {entries : List (PeerId × Option π)}
    (registered : ∀ entry ∈ entries, peers.contains entry.1 = true) :
    Polling peers now (entries.foldl (Host.drainPeer hook now) host) :=
  Host.drains_preserve entries (fun _ heap before => before.heap heap)
    (fun _ _ data member before => by
      obtain ⟨entry, inside, rfl⟩ := List.mem_map.mp member
      exact before.handle (registered entry inside) data) polling

theorem failSafe_heap (host : Host π τ) (now : UInt64) :
    (host.failSafe .silent now).heap = host.heap := by
  unfold Host.failSafe
  split <;> rfl

theorem refresh_heap (host : Host π τ) (now : UInt64) :
    (host.refreshOnlineAndFailSafe .silent now).heap = host.heap := by
  obtain ⟨noted, notes, same⟩ := Host.refreshOnlineAndFailSafe_eq .silent host now
  rw [same, failSafe_heap, notes.heap]

theorem Sound.failSafe (sound : Sound host) (now : UInt64) : Sound (host.failSafe hook now) := by
  unfold Host.failSafe
  split
  · exact ((sound.applyClaim _).emit _).onOwnerChanged _
  · exact sound

theorem failSafe_settles (sound : Sound host) (reported : Reported host)
    (bounded : SequencesInRange host.trace) :
    Reported (host.failSafe hook host.node.now) ∧ Guarded (host.failSafe hook host.node.now) := by
  unfold Host.failSafe
  split
  · have owner : (host.issueClaim host.node.self).2.owner = host.node.self :=
      OwnershipState.requestSwitchTo_owner sound.current (sound.room bounded)
    have frame := Host.onOwnerChanged_frame hook ((host.issueClaim host.node.self).2.emit .reverted)
      host.node.self
    have changed : Reported (((host.issueClaim host.node.self).2.emit .reverted).emit
        (.ownerChanged host.node.self)) := owner.symm
    refine ⟨changed.frame frame, .inl ?_⟩
    have owned : (host.issueClaim host.node.self).2.node.ownership.self = host.node.self :=
      (sound.applyClaim _).owned
    rw [frame.isLocalOwner]
    exact beq_iff_eq.mpr (owner.trans owned.symm)
  · rename_i calm
    refine ⟨reported, ?_⟩
    cases own : host.isLocalOwner with
    | true => exact .inl own
    | false =>
        refine .inr ?_
        have alive : host.node.heartbeat.isAlive host.owner host.node.now
            host.node.heartbeatTimeoutMs = true := by
          cases found : host.node.heartbeat.isAlive host.owner host.node.now
              host.node.heartbeatTimeoutMs with
          | true => rfl
          | false => exact absurd ⟨own, found⟩ calm
        obtain ⟨seen, found, recent⟩ := Heartbeat.isAlive_iff.mp alive
        obtain ⟨registered, earlier, data, handled⟩ := sound.heard _ seen found
        exact ⟨registered, seen, data, handled, earlier, recent⟩

theorem Sound.refresh (sound : Sound host) (now : UInt64) :
    Sound (host.refreshOnlineAndFailSafe hook now) := by
  obtain ⟨noted, notes, same⟩ := Host.refreshOnlineAndFailSafe_eq hook host now
  rw [same]
  exact (sound.frame notes.frame).failSafe now

theorem refresh_settles (hook : OwnerHook) (sound : Sound host) (reported : Reported host)
    (bounded : SequencesInRange (host.refreshOnlineAndFailSafe hook host.node.now).trace) :
    Reported (host.refreshOnlineAndFailSafe hook host.node.now) ∧
      Guarded (host.refreshOnlineAndFailSafe hook host.node.now) := by
  obtain ⟨noted, notes, same⟩ := Host.refreshOnlineAndFailSafe_eq hook host host.node.now
  rw [same] at bounded ⊢
  rw [← notes.frame.now] at bounded ⊢
  exact failSafe_settles (sound.frame notes.frame) (reported.frame notes.frame)
    fun event member => bounded event ((Host.failSafe_suffix hook noted _).subset member)

theorem Sound.polled (hook : OwnerHook) (sound : Sound host) (reported : Reported host)
    (onTime : host.node.now ≤ now) :
    Polling host.node.peers now (host.node.peers.entries.foldl (Host.drainPeer hook now)
      { host with node.now := now }) :=
  Polling.drains ⟨sound.setNow onTime, reported, rfl, rfl⟩ fun entry member =>
    OrdMap.contains_iff.mpr ⟨entry.2, OrdMap.mem_entries.mp member⟩

variable {op : NodeOp π τ}

/-- One operation: the invariants hold again, and a refresh leaves the node guarded. -/
theorem nodeStep_settles (sound : Sound host) (reported : Reported host) (onTime : OnTime op host)
    (bounded : SequencesInRange (nodeStep op host).trace) :
    Sound (nodeStep op host) ∧ Reported (nodeStep op host) ∧
      (op.refreshes = true → Guarded (nodeStep op host)) := by
  cases op with
  | call call =>
      by_cases sends : call.onlySends = true
      · have frame := Host.perform_frame .silent host sends
        have timed : Reported { host with node.now := call.clock host.node.now } := reported
        exact ⟨(sound.setNow onTime.clock).frame frame, timed.frame frame,
          fun refreshes => by cases call <;> contradiction⟩
      · cases call with
        | requestSwitchTo target =>
            exact ⟨sound.requestSwitchTo target, reported.requestSwitchTo target, nofun⟩
        | poll now =>
            have polling := sound.polled .silent reported (onTime now rfl)
            have settled := refresh_settles .silent polling.sound polling.reported
            rw [polling.now] at settled
            obtain ⟨told, guarded⟩ := settled bounded
            exact ⟨polling.sound.refresh now, told, fun _ => guarded⟩
        | _ => exact absurd rfl sends
  | addPeer id transport => exact ⟨sound.addPeer id transport, reported, nofun⟩
  | removePeer id =>
      have settled := refresh_settles .silent (sound.forgetPeer id)
        (reported.forgetPeer id)
      simp only [Host.forgetPeer_node] at settled
      obtain ⟨told, guarded⟩ := settled bounded
      exact ⟨(sound.forgetPeer id).refresh _, told, fun _ => guarded⟩
  | setTimeouts timeout interval =>
      exact ⟨⟨sound.owned, sound.current, sound.clock, sound.heard⟩, reported, nofun⟩
  | network heap =>
      exact ⟨⟨sound.owned, sound.current, sound.clock, sound.heard⟩, reported, nofun⟩

theorem nodeStep_suffix (op : NodeOp π τ) (host : Host π τ) :
    host.trace <:+ (nodeStep op host).trace := by
  cases op with
  | call call => exact Host.perform_suffix .silent host call
  | addPeer id transport => exact List.suffix_rfl
  | removePeer id => exact Host.removePeer_suffix .silent host id
  | setTimeouts timeout interval => exact List.suffix_rfl
  | network heap => exact List.suffix_rfl

/-- Over a run: the last report is the owner, and after a refresh the owner is
the node itself or a peer heard within the timeout. -/
theorem run_settles {ops : List (NodeOp π τ)} (self : PeerId)
    (onTime : Along nodeStep OnTime (Host.init π τ self) ops)
    (bounded : SequencesInRange (exec nodeStep (Host.init π τ self) ops).trace) :
    Sound (exec nodeStep (Host.init π τ self) ops) ∧
      Reported (exec nodeStep (Host.init π τ self) ops) := by
  induction ops using List.reverseRecOn with
  | nil => exact ⟨.init self, rfl⟩
  | append_singleton earlier op ih =>
      rw [exec_concat] at bounded ⊢
      obtain ⟨before, timed⟩ := along_concat.mp onTime
      obtain ⟨sound, reported⟩ := ih before fun event member =>
        bounded event ((nodeStep_suffix op _).subset member)
      obtain ⟨kept, told, _⟩ := nodeStep_settles sound reported timed bounded
      exact ⟨kept, told⟩

/-- Fail-safe local control: in every run whose times do not go backwards and
whose claims are in range, the last report is the owner, a refresh ends with
the node in charge of itself or with an owner it has just heard, and no revert
reaches a transport. -/
theorem fail_safe_local_control {ops : List (NodeOp π τ)} (self : PeerId)
    (onTime : Along nodeStep OnTime (Host.init π τ self) ops)
    (bounded : SequencesInRange (exec nodeStep (Host.init π τ self) ops).trace) :
    Reported (exec nodeStep (Host.init π τ self) ops) ∧
    (∀ earlier op, ops = earlier ++ [op] → op.refreshes = true →
      Guarded (exec nodeStep (Host.init π τ self) ops)) ∧
    ∀ (host : Host π τ) (now : UInt64),
      (host.refreshOnlineAndFailSafe .silent now).heap = host.heap := by
  refine ⟨(run_settles self onTime bounded).2, ?_, refresh_heap⟩
  rintro earlier op rfl refreshes
  rw [exec_concat] at bounded ⊢
  obtain ⟨before, timed⟩ := along_concat.mp onTime
  obtain ⟨sound, reported⟩ := run_settles self before fun event member =>
    bounded event ((nodeStep_suffix op _).subset member)
  exact (nodeStep_settles sound reported timed bounded).2.2 refreshes

end Sending

def silentOwner : List (NodeOp Nat Wire) :=
  [.addPeer [66] (some 0),
    .network (OrdMap.insert ∅ 0 ⟨0, true, [claimMessage ⟨[66], [66], 1⟩], []⟩),
    .call (.poll 1000), .call (.poll 4000), .removePeer [66]]

theorem fail_safe_after_silent_owner :
    Reported (exec nodeStep (Host.init Nat Wire [65]) silentOwner) ∧
    (∀ earlier op, silentOwner = earlier ++ [op] → op.refreshes = true →
      Guarded (exec nodeStep (Host.init Nat Wire [65]) silentOwner)) ∧
    ∀ (host : Host Nat Wire) (now : UInt64),
      (host.refreshOnlineAndFailSafe .silent now).heap = host.heap := by
  refine fail_safe_local_control [65] ⟨nofun, nofun, ?_, ?_, nofun, trivial⟩ ?_
  · rintro now ⟨⟩
    decide
  · rintro now ⟨⟩
    decide
  · decide

end Skittermouse.Mesh

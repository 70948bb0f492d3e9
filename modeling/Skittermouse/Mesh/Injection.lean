import Skittermouse.Mesh.FailSafe

namespace Skittermouse.Mesh

open Skittermouse.Data Skittermouse.Core Skittermouse.Net Skittermouse.App

/-! # Whose input is injected

A node's trace tells which messages it received, which claims it saw and what
it injected, and the claims tell who owned input at each of them. A sink does
not ask who sent an input event.
-/

def heldAfter (self : PeerId) : List MeshEvent → OwnershipClaim
  | [] => (OwnershipState.init self).current
  | .claimed claim :: older => adopt OwnershipClaim.key (heldAfter self older) claim
  | _ :: older => heldAfter self older

def ownerAfter (self : PeerId) (trace : List MeshEvent) : PeerId := (heldAfter self trace).target

structure Arrival where
  sender : PeerId
  owner : PeerId
  event : InputEvent
deriving DecidableEq

def injections (self : PeerId) : List MeshEvent → List Arrival
  | [] => []
  | .inject sender event :: older => ⟨sender, ownerAfter self older, event⟩ :: injections self older
  | _ :: older => injections self older

/-- The input events that were received while another machine owned input. -/
def sinkInputs (self : PeerId) : List MeshEvent → List Arrival
  | [] => []
  | .handled sender _ data :: older => match readInput data with
    | some event =>
        if ownerAfter self older = self then sinkInputs self older
        else ⟨sender, ownerAfter self older, event⟩ :: sinkInputs self older
    | none => sinkInputs self older
  | _ :: older => sinkInputs self older

def passing : MeshEvent → Bool
  | .handled _ _ _ | .claimed _ | .inject _ _ => false
  | _ => true

section Hosts

variable {π τ : Type} [LinearOrder π] {own : PeerId} {host before after : Host π τ}

structure Passes (before after : Host π τ) : Prop where
  self : after.node.self = before.node.self
  ownership : after.node.ownership = before.node.ownership
  trace : ∃ events, after.trace = events ++ before.trace ∧ ∀ event ∈ events, passing event = true

structure Accounted (own : PeerId) (host : Host π τ) : Prop where
  named : host.node.self = own
  owned : host.node.ownership.self = own
  held : host.node.ownership.current = heldAfter own host.trace
  injected : injections own host.trace = sinkInputs own host.trace

theorem passing_append {self : PeerId} {events trace : List MeshEvent}
    (idle : ∀ event ∈ events, passing event = true) :
    heldAfter self (events ++ trace) = heldAfter self trace ∧
      injections self (events ++ trace) = injections self trace ∧
      sinkInputs self (events ++ trace) = sinkInputs self trace := by
  induction events with
  | nil => exact ⟨rfl, rfl, rfl⟩
  | cons event rest ih =>
      have tail := ih fun other member => idle other (List.mem_cons_of_mem _ member)
      have head := idle event List.mem_cons_self
      cases event with
      | handled sender now data => contradiction
      | claimed claim => contradiction
      | inject sender event => contradiction
      | _ => exact tail

theorem sinkInputs_owner {self : PeerId} {trace : List MeshEvent} {input : Arrival}
    (member : input ∈ sinkInputs self trace) : input.owner ≠ self := by
  fun_induction sinkInputs self trace with
  | case1 => contradiction
  | case2 older sender now data event read own ih => exact ih member
  | case3 older sender now data event read other ih =>
      rcases List.mem_cons.mp member with rfl | before
      · exact other
      · exact ih before
  | case4 older sender now data none ih => exact ih member
  | case5 older event passes ih => exact ih member

theorem Passes.same (self : after.node.self = before.node.self)
    (ownership : after.node.ownership = before.node.ownership) (trace : after.trace = before.trace) :
    Passes before after := ⟨self, ownership, [], trace, nofun⟩

theorem Passes.emit (host : Host π τ) {event : MeshEvent} (idle : passing event = true) :
    Passes host (host.emit event) :=
  ⟨rfl, rfl, [event], rfl, fun other member => by rw [List.mem_singleton.mp member]; exact idle⟩

theorem Passes.noted (noted : Host.Noted before after) : Passes before after := by
  obtain ⟨_, _, _, _, node⟩ := noted.node
  obtain ⟨events, trace, notices⟩ := noted.trace
  refine ⟨by rw [node], by rw [node], events, trace, fun event member => ?_⟩
  have notice := notices event member
  cases event <;> first | rfl | contradiction

theorem Accounted.init (self : PeerId) : Accounted self (Host.init π τ self) := ⟨rfl, rfl, rfl, rfl⟩

theorem Accounted.passes (accounted : Accounted own before) (passes : Passes before after) :
    Accounted own after := by
  obtain ⟨events, trace, idle⟩ := passes.trace
  obtain ⟨held, injected, inputs⟩ := @passing_append own events before.trace idle
  refine ⟨passes.self.trans accounted.named, ?_, ?_, ?_⟩
  · rw [passes.ownership, accounted.owned]
  · rw [passes.ownership, trace, held, accounted.held]
  · rw [trace, injected, inputs, accounted.injected]

theorem Accounted.applyClaim (accounted : Accounted own host) (claim : OwnershipClaim) :
    Accounted own (host.applyClaim claim) where
  named := accounted.named
  owned := OwnershipState.applyClaim_self.trans accounted.owned
  held := by
    have current : (host.applyClaim claim).node.ownership.current =
        adopt OwnershipClaim.key host.node.ownership.current claim :=
      OwnershipState.applyClaim_current
    rw [current, accounted.held]
    rfl
  injected := accounted.injected

theorem Accounted.isLocalOwner (accounted : Accounted own host) :
    host.isLocalOwner = true ↔ ownerAfter own host.trace = own := by
  have owner : host.node.ownership.owner = ownerAfter own host.trace :=
    congrArg OwnershipClaim.target accounted.held
  rw [Host.isLocalOwner, OwnershipState.isLocalOwner, beq_iff_eq, accounted.owned, ← owner]
  rfl

theorem Accounted.hear (accounted : Accounted own host) {data : Bytes} (input : readInput data = none)
    (sender : PeerId) (now : UInt64) : Accounted own (host.hear sender data now) := by
  refine ⟨accounted.named, accounted.owned, accounted.held, accounted.injected.trans ?_⟩
  simp only [Host.hear, Host.emit, sinkInputs, input]

section Sending

variable [Transport τ] {hook : OwnerHook}

theorem Passes.releaseHeldKeys (host : Host π τ) (ts : UInt32) :
    Passes host (host.releaseHeldKeys ts) := by
  have node := host.releaseHeldKeys_node ts
  exact .same (by rw [node]) (by rw [node]) (host.releaseHeldKeys_trace ts)

theorem Accounted.onOwnerChanged (accounted : Accounted own host) (hook : OwnerHook)
    (owner : PeerId) : Accounted own (host.onOwnerChanged hook owner) := by
  have told : Accounted own (host.emit (.ownerChanged owner)) := accounted.passes (.emit host rfl)
  cases hook with
  | silent => exact told
  | releaseHeld =>
      simp only [Host.onOwnerChanged]
      split
      · exact told
      · exact told.passes (.releaseHeldKeys _ _)

theorem Accounted.handleClaim (accounted : Accounted own host) (claim : OwnershipClaim) :
    Accounted own (host.handleClaim hook claim) := by
  simp only [Host.handleClaim]
  split
  · exact (accounted.applyClaim claim).onOwnerChanged hook _
  · exact accounted.applyClaim claim

theorem Accounted.handle (accounted : Accounted own host) (sender : PeerId) (data : Bytes)
    (now : UInt64) : Accounted own (host.handle hook sender data now) := by
  have outcome := Host.handle_outcome hook host sender data now
  generalize host.handle hook sender data now = handled at outcome ⊢
  cases outcome with
  | noted input claim noted => exact (accounted.hear input sender now).passes (.noted noted)
  | claimed input found => exact (accounted.hear input sender now).handleClaim _
  | injected input claim sink =>
      -- The claims seen so far name another owner, so the event counts as a sink's.
      have other : ownerAfter own host.trace ≠ own := fun same =>
        absurd (accounted.isLocalOwner.mpr same) (by rw [← Bool.not_eq_false]; exact not_not.mpr sink)
      refine ⟨accounted.named, accounted.owned, accounted.held, ?_⟩
      simp only [Host.hear, Host.emit, injections, sinkInputs, input, if_neg other]
      rw [accounted.injected]
      rfl
  | ignored input claim owner =>
      refine ⟨accounted.named, accounted.owned, accounted.held, ?_⟩
      simp only [Host.hear, Host.emit, injections, sinkInputs, input,
        if_pos (accounted.isLocalOwner.mp owner)]
      exact accounted.injected

theorem Accounted.refresh (accounted : Accounted own host) (hook : OwnerHook) (now : UInt64) :
    Accounted own (host.refreshOnlineAndFailSafe hook now) := by
  obtain ⟨noted, notes, same⟩ := Host.refreshOnlineAndFailSafe_eq hook host now
  have taken := accounted.passes (.noted notes)
  rw [same, Host.failSafe]
  split
  · have issued : Accounted own (noted.issueClaim noted.node.self).2 := taken.applyClaim _
    exact (issued.passes (.emit _ rfl)).onOwnerChanged hook _
  · exact taken

theorem Accounted.poll (accounted : Accounted own host) (hook : OwnerHook) (now : UInt64) :
    Accounted own (host.poll hook now) := by
  have timed : Accounted own { host with node.now := now } := accounted.passes (.same rfl rfl rfl)
  have drained := @Host.drains_preserve π τ _ _ hook now (Accounted own) host.node.peers.entries
    (fun _ _ before => before.passes (.same rfl rfl rfl))
    (fun _ sender data _ before => before.handle sender data now) _ timed
  exact drained.refresh hook now

theorem Accounted.requestSwitchTo (accounted : Accounted own host) (hook : OwnerHook) (target : PeerId) :
    Accounted own (host.requestSwitchTo hook target) := by
  simp only [Host.requestSwitchTo]
  split
  · exact accounted.passes (.emit host rfl)
  · have issued : Accounted own ((host.issueClaim target).2.broadcast
        (claimMessage (host.issueClaim target).1)) :=
      (accounted.applyClaim _).passes (.same rfl rfl rfl)
    split
    · exact issued.onOwnerChanged hook _
    · exact issued

theorem Accounted.step (accounted : Accounted own host) (op : NodeOp π τ) :
    Accounted own (nodeStep op host) := by
  cases op with
  | call call =>
      by_cases sends : call.onlySends = true
      · obtain ⟨_, _, _, _, messages, same⟩ := Host.perform_sends .silent host sends
        have node := congrArg Host.node same
        have trace := congrArg Host.trace same
        rw [Host.foldl_broadcast_node] at node
        rw [Host.foldl_broadcast_trace] at trace
        have sent : Passes host (host.perform .silent call) :=
          .same (by rw [node]) (by rw [node]) trace
        exact accounted.passes sent
      · cases call with
        | requestSwitchTo target => exact accounted.requestSwitchTo .silent target
        | poll now => exact accounted.poll .silent now
        | _ => exact absurd rfl sends
  | addPeer id transport => exact accounted.passes (.same rfl rfl rfl)
  | removePeer id =>
      have forgotten : Passes host (host.forgetPeer id) := by
        simp only [Host.forgetPeer]
        split
        · exact ⟨rfl, rfl, [_], rfl, by simp [passing]⟩
        · exact .same rfl rfl rfl
      exact (accounted.passes forgotten).refresh .silent _
  | setTimeouts timeout interval => exact accounted.passes (.same rfl rfl rfl)
  | network heap => exact accounted.passes (.same rfl rfl rfl)

/-- Whatever input a message carries, it leaves the node as it was, but for the
sender's liveness. -/
theorem handle_input {host : Host π τ} {sender : PeerId} {data : Bytes} {event : InputEvent}
    (input : readInput data = some event) (hook : OwnerHook) (now : UInt64) :
    (host.handle hook sender data now).node =
        { host.node with heartbeat := host.node.heartbeat.onHeartbeat sender now } ∧
      (host.handle hook sender data now).heap = host.heap := by
  have outcome := Host.handle_outcome hook host sender data now
  generalize host.handle hook sender data now = handled at outcome ⊢
  cases outcome with
  | noted none claim noted =>
      rw [input] at none
      contradiction
  | claimed none found =>
      rw [input] at none
      contradiction
  | injected found claim sink => exact ⟨rfl, rfl⟩
  | ignored found claim owner => exact ⟨rfl, rfl⟩

theorem run_accounted (self : PeerId) (ops : List (NodeOp π τ)) :
    Accounted self (exec nodeStep (Host.init π τ self) ops) :=
  @exec_preserves _ _ nodeStep (Accounted self) (fun op _ before => before.step op)
    (Host.init π τ self) (.init self) ops

/-- In every run a node injects for its owner alone, and only while it is not the owner
itself, exactly if every input event that reaches it as a sink comes from its owner;
and no input event changes a node beyond the liveness of its sender. -/
theorem injects_for_owner_iff (self : PeerId) (ops : List (NodeOp π τ)) :
    (exec nodeStep (Host.init π τ self) ops).owner =
        ownerAfter self (exec nodeStep (Host.init π τ self) ops).trace ∧
      ((∀ injected ∈ injections self (exec nodeStep (Host.init π τ self) ops).trace,
          injected.sender = injected.owner ∧ injected.owner ≠ self) ↔
        ∀ input ∈ sinkInputs self (exec nodeStep (Host.init π τ self) ops).trace,
          input.sender = input.owner) ∧
      ∀ (host : Host π τ) (sender : PeerId) (data : Bytes) (now : UInt64) (event : InputEvent),
        readInput data = some event →
        (host.handle .silent sender data now).node =
            { host.node with heartbeat := host.node.heartbeat.onHeartbeat sender now } ∧
          (host.handle .silent sender data now).heap = host.heap := by
  have accounted : Accounted self (exec nodeStep (Host.init π τ self) ops) := run_accounted self ops
  refine ⟨congrArg OwnershipClaim.target accounted.held, ?_,
    fun _ _ _ now _ input => handle_input input .silent now⟩
  rw [accounted.injected]
  constructor
  · exact fun owned input member => (owned input member).1
  · exact fun owned input member => ⟨owned input member, sinkInputs_owner member⟩

/-- One peer takes ownership, and then a key event comes from another. -/
def keyFromThird : List (NodeOp Nat Wire) :=
  [.addPeer [66] (some 0), .addPeer [67] (some 1),
    .network ((OrdMap.insert ∅ 0 ⟨0, true, [claimMessage ⟨[66], [66], 1⟩], []⟩).insert 1
      ⟨1, true, [encodeInputEvent (InputPipeline.make .keyEvent 0 0 65 1 0)], []⟩),
    .call (.poll 1000)]

theorem key_from_third_injected :
    (exec nodeStep (Host.init Nat Wire [65]) keyFromThird).owner = [66] ∧
      injections [65] (exec nodeStep (Host.init Nat Wire [65]) keyFromThird).trace =
        [⟨[67], [66], InputPipeline.make .keyEvent 0 0 65 1 0⟩] := by decide

end Sending

end Hosts

end Skittermouse.Mesh

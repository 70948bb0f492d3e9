import Skittermouse.Data.Exec
import Skittermouse.Link.Registration
import Skittermouse.Platform.TrayWin

namespace Skittermouse.Platform

open Skittermouse.Data Skittermouse.Core Skittermouse.Net Skittermouse.App

/-! # The tray follows its node

What the node reports to the tray comes back into the node: `syncCapture` lets
the held keys go. Between two messages the capture, the driving state and the
held keys agree, and then this hook does exactly what the `releaseHeld` hook of
a node does. `Follows` says so of one call.
-/

namespace Tray

variable {τ : Type}

/-- What `syncCapture` needs. `works` says that hooks can always be set. -/
structure Ready (works : Prop) (tray : Tray τ) : Prop where
  released : tray.capture.installed = false → tray.mesh.node.pipeline = .init
  swallow : tray.capture.swallow = true
  hooked : works → tray.hooked = true
  ids : ∀ id, tray.connectedIds.contains id = true ↔ tray.cm.connected.contains id = true
  named : tray.mesh.node.ownership.self = tray.mesh.node.self

/-- What holds between two messages, and whenever the node has been heard out. -/
structure Settled (works : Prop) (tray : Tray τ) : Prop extends Ready works tray where
  owner : tray.driving = true → tray.mesh.isLocalOwner = true
  driving : tray.capture.installed = true → tray.driving = true
  installs : works → tray.driving = true → tray.capture.installed = true

/-- The manager has become `cm`, and the tray is settled around it. -/
structure Follows (works : Prop) (before : Tray τ) (cm : ConnectionTable τ) (after : Tray τ) :
    Prop where
  settled : Settled works after
  same : ∃ capture mouse driving connectedIds,
    after = { before with cm, capture, mouse, driving, connectedIds }

variable {works : Prop} {tray before middle after : Tray τ} {first second : ConnectionTable τ}

theorem Follows.trans (left : Follows works before first middle)
    (right : Follows works middle second after) : Follows works before second after := by
  obtain ⟨capture, mouse, driving, connectedIds, middleSame⟩ := left.same
  obtain ⟨_, _, _, _, afterSame⟩ := right.same
  exact ⟨right.settled, _, _, _, _, afterSame.trans (by rw [middleSame])⟩

theorem Follows.cm (follows : Follows works before first after) : after.cm = first := by
  obtain ⟨_, _, _, _, same⟩ := follows.same
  rw [same]

theorem Follows.mesh {host : Host Nat τ}
    (follows : Follows works before { before.cm with mesh := host } after) : after.mesh = host := by
  rw [Tray.mesh, follows.cm]

theorem Follows.mesh_eq (follows : Follows works before first after) : after.mesh = first.mesh := by
  rw [Tray.mesh, follows.cm]

theorem Follows.wake (follows : Follows works before first after) : after.wake = before.wake := by
  obtain ⟨_, _, _, _, same⟩ := follows.same
  rw [same]

theorem Follows.tick (follows : Follows works before first after) : after.tick = before.tick := by
  obtain ⟨_, _, _, _, same⟩ := follows.same
  rw [same]

theorem Settled.quiet (settled : Settled works tray) {change : Host Nat τ → Host Nat τ}
    (self : (change tray.mesh).node.self = tray.mesh.node.self)
    (ownership : (change tray.mesh).node.ownership = tray.mesh.node.ownership)
    (pipeline : (change tray.mesh).node.pipeline = tray.mesh.node.pipeline) :
    Follows works tray { tray.cm with mesh := change tray.mesh } (tray.onMesh change) where
  settled :=
    { released := fun idle => pipeline.trans (settled.released idle)
      swallow := settled.swallow
      hooked := settled.hooked
      ids := settled.ids
      named := (congrArg OwnershipState.self ownership).trans (settled.named.trans self.symm)
      owner := fun driving => by
        have owned := settled.owner driving
        rw [Host.isLocalOwner] at owned ⊢
        exact (congrArg OwnershipState.isLocalOwner ownership).trans owned
      driving := settled.driving
      installs := settled.installs }
  same := ⟨_, _, _, _, rfl⟩

theorem Settled.manage (settled : Settled works tray) {cm : ConnectionTable τ}
    {connectedIds : OrdMap PeerId Unit}
    (self : cm.mesh.node.self = tray.mesh.node.self)
    (ownership : cm.mesh.node.ownership = tray.mesh.node.ownership)
    (pipeline : cm.mesh.node.pipeline = tray.mesh.node.pipeline)
    (ids : ∀ id, connectedIds.contains id = true ↔ cm.connected.contains id = true) :
    Follows works tray cm { tray with cm, connectedIds } where
  settled :=
    { released := fun idle => pipeline.trans (settled.released idle)
      swallow := settled.swallow
      hooked := settled.hooked
      ids
      named := (congrArg OwnershipState.self ownership).trans (settled.named.trans self.symm)
      owner := fun driving =>
        (congrArg OwnershipState.isLocalOwner ownership).trans (settled.owner driving)
      driving := settled.driving
      installs := settled.installs }
  same := ⟨_, _, _, _, rfl⟩

/-! ## The hook -/

theorem startCapture_capture (tray : Tray τ) (idle : tray.capture.installed = false) :
    tray.startCapture.capture.installed = tray.hooked ∧
      tray.startCapture.capture.swallow = tray.capture.swallow := by
  unfold startCapture WinCapture.start
  cases tray.hooked <;> simp [idle, WinCapture.stop]

theorem Ready.idle (ready : Ready works tray) (undriven : tray.driving = false)
    (inactive : tray.capture.installed = false) : Follows works tray tray.cm tray where
  settled :=
    { ready with
      owner := fun driven => absurd (undriven.symm.trans driven) Bool.false_ne_true
      driving := fun active => absurd (inactive.symm.trans active) Bool.false_ne_true
      installs := fun _ driven => absurd (undriven.symm.trans driven) Bool.false_ne_true }
  same := ⟨_, _, _, _, rfl⟩

theorem startCapture_follows (ready : Ready works tray) (owned : tray.mesh.isLocalOwner = true)
    (driven : tray.driving = true) (inactive : tray.capture.installed = false) :
    Follows works tray tray.cm tray.startCapture where
  settled :=
    { released := fun _ => ready.released inactive
      swallow := (tray.startCapture_capture inactive).2.trans ready.swallow
      hooked := ready.hooked
      ids := ready.ids
      named := ready.named
      owner := fun _ => owned
      driving := fun _ => driven
      installs := fun working _ =>
        (tray.startCapture_capture inactive).1.trans (ready.hooked working) }
  same := ⟨_, _, _, _, rfl⟩

variable [Transport τ]

theorem releaseHeldKeys_of_init {host : Host Nat τ} (nothing : host.node.pipeline = .init)
    (ts : UInt32) : host.releaseHeldKeys ts = host := by
  cases host with
  | mk node heap trace =>
      cases node
      cases nothing
      rfl

def Stops (tray : Tray τ) : Prop :=
  tray.capture.installed = true ∧ (tray.driving = false ∨ tray.mesh.isLocalOwner = false)

instance instDecidableStops (tray : Tray τ) : Decidable tray.Stops :=
  inferInstanceAs (Decidable (_ ∧ _))

def letGo (tray : Tray τ) : Tray τ :=
  { tray with capture := tray.capture.stop }.onMesh (·.releaseHeldKeys tray.tick.toUInt32)

theorem syncCapture_sink (sink : tray.mesh.isLocalOwner = false) :
    tray.syncCapture =
      if tray.capture.installed then { tray with driving := false }.letGo
      else { tray with driving := false } := by
  have still : Host.isLocalOwner { tray with driving := false }.mesh = false := sink
  simp only [syncCapture, sink, still, letGo, Bool.not_false, Bool.false_and, Bool.false_eq_true,
    if_false, if_true, Bool.true_and]

theorem syncCapture_owner (owned : tray.mesh.isLocalOwner = true) :
    tray.syncCapture =
      if tray.driving && !tray.capture.installed then tray.startCapture
      else if !tray.driving && tray.capture.installed then tray.letGo
      else tray := by
  simp only [syncCapture, owned, letGo, Bool.not_true, Bool.false_eq_true, if_false, Bool.and_true]

theorem letGo_follows (ready : Ready works tray) (undriven : tray.driving = false) :
    Follows works tray { tray.cm with mesh := tray.mesh.releaseHeldKeys tray.tick.toUInt32 }
      tray.letGo where
  settled :=
    { released := fun _ => by
        rw [letGo, onMesh, mesh, Host.releaseHeldKeys_node]
      swallow := ready.swallow
      hooked := ready.hooked
      ids := ready.ids
      named := by
        rw [letGo, onMesh, mesh, Host.releaseHeldKeys_node]
        exact ready.named
      owner := fun driven => absurd (undriven.symm.trans driven) Bool.false_ne_true
      driving := fun active => absurd active Bool.false_ne_true
      installs := fun _ driven => absurd (undriven.symm.trans driven) Bool.false_ne_true }
  same := ⟨_, _, _, _, rfl⟩

/-- The mesh as `syncCapture` leaves it. -/
def synced (tray : Tray τ) : Host Nat τ :=
  if tray.Stops then tray.mesh.releaseHeldKeys tray.tick.toUInt32 else tray.mesh

theorem syncCapture_follows (ready : Ready works tray) :
    Follows works tray { tray.cm with mesh := tray.synced } tray.syncCapture := by
  have undriven : Ready works { tray with driving := false } := { ready with }
  cases owned : tray.mesh.isLocalOwner with
  | false =>
      rw [syncCapture_sink owned]
      cases active : tray.capture.installed with
      | false =>
          have same : tray.synced = tray.mesh := if_neg fun stops =>
            absurd (active.symm.trans stops.1) Bool.false_ne_true
          rw [same, if_neg Bool.false_ne_true]
          exact ⟨(undriven.idle rfl active).settled, _, _, _, _, rfl⟩
      | true =>
          have released : tray.synced = tray.mesh.releaseHeldKeys tray.tick.toUInt32 :=
            if_pos ⟨active, .inr owned⟩
          rw [released, if_pos rfl]
          exact ⟨(letGo_follows undriven rfl).settled, _, _, _, _, rfl⟩
  | true =>
      rw [syncCapture_owner owned]
      cases driven : tray.driving with
      | false =>
          cases active : tray.capture.installed with
          | false =>
              have same : tray.synced = tray.mesh := if_neg fun stops =>
                absurd (active.symm.trans stops.1) Bool.false_ne_true
              rw [same]
              exact ready.idle driven active
          | true =>
              have released : tray.synced = tray.mesh.releaseHeldKeys tray.tick.toUInt32 :=
                if_pos ⟨active, .inl driven⟩
              rw [released]
              exact letGo_follows ready driven
      | true =>
          have same : tray.synced = tray.mesh := if_neg fun stops => by
            rcases stops.2 with stopped | sink
            · exact absurd (stopped.symm.trans driven) Bool.false_ne_true
            · exact absurd (sink.symm.trans owned) Bool.false_ne_true
          rw [same]
          cases active : tray.capture.installed with
          | false => exact startCapture_follows ready owned driven active
          | true =>
              exact ⟨{ ready with
                owner := fun _ => owned
                driving := fun _ => driven
                installs := fun _ _ => active }, _, _, _, _, rfl⟩

/-- A report of the node is answered as the `releaseHeld` hook answers it. -/
theorem onOwnerChanged_follows (ready : Ready works tray)
    (driving : tray.capture.installed = true → tray.driving = true)
    (clock : tray.mesh.isLocalOwner = false → tray.capture.installed = true →
      tray.tick.toUInt32 = tray.mesh.node.now.toUInt32) (owner : PeerId) :
    Follows works tray { tray.cm with mesh := tray.mesh.onOwnerChanged .releaseHeld owner }
      (tray.onOwnerChanged owner) := by
  have told : Ready works (tray.onMesh (·.emit (.ownerChanged owner))) := { ready with }
  have follows := syncCapture_follows told
  have same : (tray.onMesh (·.emit (.ownerChanged owner))).synced =
      tray.mesh.onOwnerChanged .releaseHeld owner := by
    rw [synced]
    cases owned : tray.mesh.isLocalOwner with
    | true =>
        have keeps : ¬ (tray.onMesh (·.emit (.ownerChanged owner))).Stops := fun stops => by
          rcases stops.2 with stopped | sink
          · exact absurd (stopped.symm.trans (driving stops.1)) Bool.false_ne_true
          · exact absurd (sink.symm.trans owned) Bool.false_ne_true
        have still : (tray.mesh.emit (.ownerChanged owner)).isLocalOwner = true := owned
        rw [if_neg keeps]
        simp only [Host.onOwnerChanged, still, if_true]
        rfl
    | false =>
        have still : (tray.mesh.emit (.ownerChanged owner)).isLocalOwner = false := owned
        simp only [Host.onOwnerChanged, still, Bool.false_eq_true, if_false]
        cases active : tray.capture.installed with
        | true =>
            rw [if_pos ⟨active, .inr owned⟩]
            exact congrArg _ (clock owned active)
        | false =>
            rw [if_neg fun stops => absurd (active.symm.trans stops.1) Bool.false_ne_true]
            exact (@releaseHeldKeys_of_init τ _ (tray.mesh.emit (.ownerChanged owner))
              (ready.released active) _).symm
  rw [same] at follows
  obtain ⟨capture, mouse, driving, connectedIds, after⟩ := follows.same
  exact ⟨follows.settled, capture, mouse, driving, connectedIds, after⟩

/-! ## The calls that report -/

theorem settle_follows (settled : Settled works before)
    {change : Host Nat τ → Host Nat τ}
    (clock : (change before.mesh).owner ≠ before.mesh.owner →
      (change before.mesh).isLocalOwner = false → before.tick = before.mesh.node.now)
    (self : (change before.mesh).node.ownership.self = before.mesh.node.ownership.self)
    (named : (change before.mesh).node.self = before.mesh.node.self)
    (pipeline : (change before.mesh).node.pipeline = before.mesh.node.pipeline)
    (now : (change before.mesh).node.now = before.mesh.node.now) :
    Follows works before
      { before.cm with
        mesh := if (change before.mesh).owner ≠ before.mesh.owner then
          (change before.mesh).onOwnerChanged .releaseHeld (change before.mesh).owner
        else change before.mesh }
      (if (before.onMesh change).mesh.owner ≠ before.mesh.owner then
        (before.onMesh change).onOwnerChanged (before.onMesh change).mesh.owner
      else before.onMesh change) := by
  have changed : (before.onMesh change).mesh = change before.mesh := rfl
  rw [changed]
  by_cases moved : (change before.mesh).owner = before.mesh.owner
  · have owner : (change before.mesh).isLocalOwner = before.mesh.isLocalOwner := by
      rw [Host.isLocalOwner, Host.isLocalOwner, OwnershipState.isLocalOwner,
        OwnershipState.isLocalOwner, self]
      exact congrArg (· == before.mesh.node.ownership.self) moved
    rw [if_neg (not_not.mpr moved), if_neg (not_not.mpr moved)]
    exact ⟨{ settled with
      released := fun idle => pipeline.trans (settled.released idle)
      named := self.trans (settled.named.trans named.symm)
      owner := fun driving => owner.trans (settled.owner driving) }, _, _, _, _, rfl⟩
  · have ready : Ready works (before.onMesh change) :=
      { settled with
        released := fun idle => pipeline.trans (settled.released idle)
        named := self.trans (settled.named.trans named.symm) }
    rw [if_pos moved, if_pos moved]
    have follows := onOwnerChanged_follows ready settled.driving
      (fun sink _ => congrArg UInt64.toUInt32 ((clock moved sink).trans now.symm))
      (change before.mesh).owner
    obtain ⟨capture, mouse, driving, connectedIds, same⟩ := follows.same
    exact ⟨follows.settled, capture, mouse, driving, connectedIds, same⟩

theorem handleClaim_follows (settled : Settled works tray) (clock : tray.tick = tray.mesh.node.now)
    (claim : OwnershipClaim) :
    Follows works tray { tray.cm with mesh := tray.mesh.handleClaim .releaseHeld claim }
      (tray.handleClaim claim) :=
  @settle_follows τ works tray _ settled (·.applyClaim claim) (fun _ _ => clock)
    OwnershipState.applyClaim_self rfl rfl rfl

omit [Transport τ] in
theorem issueClaim_owner (host : Host Nat τ) (target : PeerId) :
    (host.issueClaim target).2.owner = target ∨ (host.issueClaim target).2.owner = host.owner := by
  have current := @OwnershipState.applyClaim_current host.node.ownership
    ⟨target, host.node.ownership.self, host.node.ownership.clock + 1⟩
  have owner : (host.issueClaim target).2.owner = (host.node.ownership.applyClaim
      ⟨target, host.node.ownership.self, host.node.ownership.clock + 1⟩).2.current.target := rfl
  rw [owner, current, adopt]
  split
  · exact .inl rfl
  · exact .inr rfl

theorem requestSwitchTo_follows (library : CLibrary) (settled : Settled works tray)
    {target : PeerId}
    (clock : target = tray.mesh.node.self ∨ tray.mesh.isPeerOnline target = false ∨
      tray.tick = tray.mesh.node.now) :
    ∃ wake, Follows works { tray with wake }
      { tray.cm with mesh := tray.mesh.requestSwitchTo .releaseHeld target }
      (tray.requestSwitchTo library target) := by
  unfold Tray.requestSwitchTo Host.requestSwitchTo
  by_cases offline : target ≠ tray.mesh.node.self ∧ tray.mesh.isPeerOnline target = false
  · rw [if_pos offline, if_pos offline]
    have told := @Settled.quiet τ works tray settled (·.emit (.switchUnavailable target)) rfl rfl
      rfl
    unfold onSwitchUnavailable
    split
    · exact ⟨tray.wake, told.settled, _, _, _, _, rfl⟩
    · split
      · exact ⟨_, { told.settled with }, _, _, _, _, rfl⟩
      · exact ⟨tray.wake, told.settled, _, _, _, _, rfl⟩
  · rw [if_neg offline, if_neg offline]
    refine ⟨tray.wake, @settle_follows τ works tray _ settled (fun host =>
      (host.issueClaim target).2.broadcast (claimMessage (host.issueClaim target).1)) ?_
      OwnershipState.applyClaim_self rfl rfl rfl⟩
    intro moved sink
    by_cases mine : target = tray.mesh.node.self
    · have owner := (issueClaim_owner tray.mesh target).resolve_right moved
      have owned : (tray.mesh.issueClaim target).2.isLocalOwner = true := by
        rw [Host.isLocalOwner, OwnershipState.isLocalOwner, beq_iff_eq]
        exact (owner.trans mine).trans
          (settled.named.symm.trans OwnershipState.applyClaim_self.symm)
      exact absurd (sink.symm.trans owned) Bool.false_ne_true
    · rcases clock with same | unreachable | same
      · exact absurd same mine
      · exact absurd ⟨mine, unreachable⟩ offline
      · exact same

/-! ## Receiving -/

variable {sender : PeerId} {data : Bytes} {now : UInt64} {hook : OwnerHook} {host : Host Nat τ}

theorem handle_of_claim {claim : OwnershipClaim} (read : readClaim data = some claim) :
    host.handle hook sender data now = (host.hear sender data now).handleClaim hook claim := by
  unfold readClaim at read
  split at read
  · rename_i message consumed decoded
    split at read
    · rename_i switch
      obtain ⟨varying, type⟩ := switch
      simp only [Host.handle, decoded, Host.handleMessage, varying, type, Bool.false_eq_true,
        if_false, read]
    · contradiction
  · contradiction

theorem handle_hook (read : readClaim data = none) :
    host.handle hook sender data now = host.handle .silent sender data now := by
  cases decoded : decodeMessage data with
  | ok message consumed =>
      simp only [Host.handle, decoded, Host.handleMessage]
      split
      · rfl
      · rename_i varying
        split
        · rename_i type
          have malformed : decodeOwnershipClaim message.payload = none := by
            simpa only [readClaim, decoded, Bool.not_eq_true _ ▸ varying, type, and_self, if_true]
              using read
          rw [malformed]
        all_goals rfl
  | _ => simp only [Host.handle, decoded]

theorem handle_quiet (read : readClaim data = none) :
    (host.handle hook sender data now).node.self = host.node.self ∧
      (host.handle hook sender data now).node.ownership = host.node.ownership ∧
      (host.handle hook sender data now).node.pipeline = host.node.pipeline ∧
      (host.handle hook sender data now).node.now = host.node.now := by
  have outcome := Host.handle_outcome hook host sender data now
  generalize host.handle hook sender data now = after at outcome
  cases outcome with
  | noted input claim noted =>
      obtain ⟨_, _, _, _, node⟩ := noted.node
      rw [node]
      exact ⟨rfl, rfl, rfl, rfl⟩
  | injected input claim sink => exact ⟨rfl, rfl, rfl, rfl⟩
  | ignored input claim owner => exact ⟨rfl, rfl, rfl, rfl⟩
  | claimed input found => exact absurd (read.symm.trans found).symm (Option.some_ne_none _)

theorem handleClaim_now (host : Host Nat τ) (claim : OwnershipClaim) :
    (host.handleClaim hook claim).node.now = host.node.now := by
  unfold Host.handleClaim
  dsimp only
  split
  · exact (Host.onOwnerChanged_frame hook (host.applyClaim claim) _).now
  · rfl

/-- The tray's clock and the node's show the same time. -/
def Clocked (now : UInt64) (tray : Tray τ) : Prop := tray.tick = now ∧ tray.mesh.node.now = now

theorem handle_follows (settled : Settled works tray) (clocked : Clocked now tray)
    (sender : PeerId) (data : Bytes) :
    Follows works tray { tray.cm with mesh := tray.mesh.handle .releaseHeld sender data now }
        (tray.handle sender data now) ∧ Clocked now (tray.handle sender data now) := by
  unfold Tray.handle
  cases read : readClaim data with
  | some claim =>
      rw [handle_of_claim read]
      have heard := @Settled.quiet τ works tray settled (·.hear sender data now) rfl rfl rfl
      have follows := heard.trans
        (handleClaim_follows heard.settled (clocked.1.trans clocked.2.symm) claim)
      refine ⟨follows, follows.tick.trans clocked.1, ?_⟩
      rw [follows.mesh]
      exact (handleClaim_now _ claim).trans clocked.2
  | none =>
      obtain ⟨self, ownership, pipeline, same⟩ :=
        @handle_quiet τ _ sender data now .silent tray.mesh read
      have follows := @Settled.quiet τ works tray settled (·.handle .silent sender data now)
        self ownership pipeline
      rw [handle_hook read]
      exact ⟨follows, follows.tick.trans clocked.1, same.trans clocked.2⟩

theorem drain_follows (settled : Settled works tray) (clocked : Clocked now tray)
    (sender : PeerId) (pointer fuel : Nat) :
    Follows works tray
        { tray.cm with mesh := tray.mesh.drain .releaseHeld sender pointer now fuel }
        (tray.drain sender pointer now fuel) ∧
      Clocked now (tray.drain sender pointer now fuel) := by
  induction fuel generalizing tray with
  | zero => exact ⟨⟨settled, _, _, _, _, rfl⟩, clocked⟩
  | succ fuel ih =>
      cases found : tray.mesh.heap.find? pointer with
      | none =>
          simp only [Tray.drain, Host.drain, found]
          exact ⟨⟨settled, _, _, _, _, rfl⟩, clocked⟩
      | some transport =>
          have stored := @Settled.quiet τ works tray settled (fun host => { host with
            heap := host.heap.insert pointer (Transport.recv transport Host.kPollBufferSize).2 })
            rfl rfl rfl
          simp only [Tray.drain, Host.drain, found]
          cases received : (Transport.recv transport Host.kPollBufferSize).1 with
          | none => exact ⟨stored, clocked⟩
          | some data =>
              cases data with
              | nil => exact ⟨stored, clocked⟩
              | cons byte rest =>
                  obtain ⟨handled, handledClock⟩ :=
                    handle_follows stored.settled clocked sender (byte :: rest)
                  obtain ⟨drained, drainedClock⟩ := ih handled.settled handledClock
                  rw [handled.mesh, handled.cm] at drained
                  exact ⟨(stored.trans handled).trans drained, drainedClock⟩

theorem drainPeer_follows (settled : Settled works tray) (clocked : Clocked now tray)
    (entry : PeerId × Option Nat) :
    Follows works tray { tray.cm with mesh := tray.mesh.drainPeer .releaseHeld now entry }
        (tray.drainPeer now entry) ∧
      Clocked now (tray.drainPeer now entry) := by
  obtain ⟨id, pointer⟩ := entry
  cases pointer with
  | none => exact ⟨⟨settled, _, _, _, _, rfl⟩, clocked⟩
  | some pointer => exact drain_follows settled clocked id pointer _

theorem drains_follow (settled : Settled works tray) (clocked : Clocked now tray)
    (entries : List (PeerId × Option Nat)) :
    Follows works tray
        { tray.cm with mesh := entries.foldl (Host.drainPeer .releaseHeld now) tray.mesh }
        (entries.foldl (Tray.drainPeer now) tray) ∧
      Clocked now (entries.foldl (Tray.drainPeer now) tray) := by
  induction entries generalizing tray with
  | nil => exact ⟨⟨settled, _, _, _, _, rfl⟩, clocked⟩
  | cons entry rest ih =>
      obtain ⟨first, firstClock⟩ := drainPeer_follows settled clocked entry
      obtain ⟨others, othersClock⟩ := ih first.settled firstClock
      rw [first.mesh, first.cm] at others
      exact ⟨first.trans others, othersClock⟩

/-! ## The fail-safe and the polls -/

theorem failSafe_follows (settled : Settled works tray) (now : UInt64) :
    Follows works tray { tray.cm with mesh := tray.mesh.failSafe .releaseHeld now }
      (tray.failSafe now) := by
  unfold Tray.failSafe Host.failSafe
  by_cases silent : tray.mesh.isLocalOwner = false ∧
      tray.mesh.node.heartbeat.isAlive tray.mesh.owner now tray.mesh.node.heartbeatTimeoutMs = false
  · rw [if_pos silent, if_pos silent]
    have undriven : tray.driving = false := Bool.eq_false_iff.mpr fun driven =>
      Bool.false_ne_true (silent.1.symm.trans (settled.owner driven))
    have inactive : tray.capture.installed = false := Bool.eq_false_iff.mpr fun active =>
      Bool.false_ne_true (undriven.symm.trans (settled.driving active))
    have ready : Ready works
        (tray.onMesh fun host => (host.issueClaim host.node.self).2.emit .reverted) :=
      { settled with named := OwnershipState.applyClaim_self.trans settled.named }
    have follows := onOwnerChanged_follows ready settled.driving
      (fun _ active => absurd (inactive.symm.trans active) Bool.false_ne_true) tray.mesh.node.self
    obtain ⟨capture, mouse, driving, connectedIds, same⟩ := follows.same
    exact ⟨follows.settled, capture, mouse, driving, connectedIds, same⟩
  · rw [if_neg silent, if_neg silent]
    exact ⟨settled, _, _, _, _, rfl⟩

theorem refresh_follows (settled : Settled works tray) (now : UInt64) :
    Follows works tray
      { tray.cm with mesh := tray.mesh.refreshOnlineAndFailSafe .releaseHeld now }
      (tray.refreshOnlineAndFailSafe now) := by
  unfold Tray.refreshOnlineAndFailSafe Host.refreshOnlineAndFailSafe
  dsimp only
  have noted := Host.foldl_noteLiveness_noted now (tray.mesh.node.peers.entries.map Prod.fst)
    tray.mesh
  obtain ⟨_, _, _, _, node⟩ := noted.node
  have quiet := @Settled.quiet τ works tray settled (fun host =>
    let noted := (tray.mesh.node.peers.entries.map Prod.fst).foldl (Host.noteLiveness now) host
    { noted with node.election := noted.node.election.setOnline (tray.mesh.node.self ::
      (tray.mesh.node.peers.entries.map Prod.fst).filter fun id =>
        tray.mesh.node.heartbeat.isAlive id now tray.mesh.node.heartbeatTimeoutMs) })
    (by dsimp only; rw [node]) (by dsimp only; rw [node]) (by dsimp only; rw [node])
  have failed := failSafe_follows quiet.settled now
  rw [quiet.mesh, quiet.cm] at failed
  exact quiet.trans failed

theorem removePeer_follows (settled : Settled works tray) (id : PeerId) :
    Follows works tray { tray.cm with mesh := tray.mesh.removePeer .releaseHeld id }
      (tray.removePeer id) := by
  have node := Host.forgetPeer_node tray.mesh id
  have forgotten := @Settled.quiet τ works tray settled (·.forgetPeer id)
    (by rw [node]) (by rw [node]) (by rw [node])
  have refreshed := refresh_follows forgotten.settled (tray.onMesh (·.forgetPeer id)).mesh.node.now
  rw [forgotten.mesh, forgotten.cm] at refreshed
  have follows := forgotten.trans refreshed
  have now : (tray.mesh.forgetPeer id).node.now = tray.mesh.node.now := by rw [node]
  rw [now] at follows
  unfold Tray.removePeer
  dsimp only
  rw [forgotten.mesh, now]
  exact follows

theorem pollMesh_follows (settled : Settled works tray) (tick : tray.tick = now) :
    Follows works tray { tray.cm with mesh := tray.mesh.poll .releaseHeld now }
      (tray.pollMesh now) := by
  have timed := @Settled.quiet τ works tray settled
    (fun host => { host with node.now := now }) rfl rfl rfl
  obtain ⟨drained, _⟩ := drains_follow timed.settled ⟨timed.tick.trans tick, rfl⟩
    tray.mesh.node.peers.entries
  have refreshed := refresh_follows drained.settled now
  rw [drained.mesh, drained.cm] at refreshed
  exact (timed.trans drained).trans refreshed

/-! ## The connection manager -/

theorem resolveNext_follows (settled : Settled works tray) (link : PendingLink) :
    Follows works tray (tray.cm.resolveNext link) (tray.resolveNext link) := by
  unfold Tray.resolveNext ConnectionTable.resolveNext
  cases tray.cm.resolve link with
  | wait transport => exact settled.manage rfl rfl rfl settled.ids
  | drop => exact settled.manage rfl rfl rfl settled.ids
  | promote id transport =>
      refine settled.manage rfl rfl rfl fun other => ?_
      have inserted := OrdMap.contains_insert tray.cm.connected id other link.address
      rw [OrdMap.contains_insert, settled.ids other]
      exact inserted.symm

theorem resolves_follow (settled : Settled works tray) (links : List PendingLink) :
    Follows works tray (links.foldl ConnectionTable.resolveNext tray.cm)
      (links.foldl Tray.resolveNext tray) := by
  induction links generalizing tray with
  | nil => exact ⟨settled, _, _, _, _, rfl⟩
  | cons link rest ih =>
      have first := resolveNext_follows settled link
      have others := ih first.settled
      rw [first.cm] at others
      exact first.trans others

theorem reapNext_follows (settled : Settled works tray) (id : PeerId) :
    Follows works tray (tray.cm.reapNext .releaseHeld id) (tray.reapNext id) := by
  unfold Tray.reapNext ConnectionTable.reapNext
  cases tray.cm.connected.find? id with
  | none => exact ⟨settled, _, _, _, _, rfl⟩
  | some address =>
      dsimp only
      split
      · exact ⟨settled, _, _, _, _, rfl⟩
      · have removed := removePeer_follows settled id
        refine removed.trans ?_
        rw [removed.cm]
        refine removed.settled.manage ?_ ?_ ?_ fun other => ?_
        · rw [removed.mesh]
          rfl
        · rw [removed.mesh]
          rfl
        · rw [removed.mesh]
          rfl
        · have ids := removed.settled.ids other
          rw [removed.cm] at ids
          have erased := OrdMap.contains_erase tray.cm.connected id other
          rw [OrdMap.contains_erase, ids]
          exact erased.symm

theorem reaps_follow (settled : Settled works tray) (ids : List PeerId) :
    Follows works tray (ids.foldl (ConnectionTable.reapNext .releaseHeld) tray.cm)
      (ids.foldl Tray.reapNext tray) := by
  induction ids generalizing tray with
  | nil => exact ⟨settled, _, _, _, _, rfl⟩
  | cons id rest ih =>
      have first := reapNext_follows settled id
      have others := ih first.settled
      rw [first.cm] at others
      exact first.trans others

theorem sendHeartbeats_node (host : Host Nat τ) (now : UInt64) :
    (host.sendHeartbeats now).node.self = host.node.self ∧
      (host.sendHeartbeats now).node.ownership = host.node.ownership ∧
      (host.sendHeartbeats now).node.pipeline = host.node.pipeline := by
  unfold Host.sendHeartbeats
  dsimp only
  split <;> exact ⟨rfl, rfl, rfl⟩

theorem beat_follows (settled : Settled works tray) (tick : tray.tick = now) :
    Follows works tray
      { tray.cm with mesh := (tray.mesh.poll .releaseHeld now).sendHeartbeats now }
      ((tray.pollMesh now).onMesh (·.sendHeartbeats now)) := by
  have polled := pollMesh_follows settled tick
  obtain ⟨self, ownership, pipeline⟩ := sendHeartbeats_node (tray.pollMesh now).mesh now
  have beaten := @Settled.quiet τ works _ polled.settled (·.sendHeartbeats now) self ownership
    pipeline
  rw [polled.mesh, polled.cm] at beaten
  exact polled.trans beaten

theorem pollLinks_follows (settled : Settled works tray) (tick : tray.tick = now) :
    Follows works tray (tray.cm.poll .releaseHeld now) (tray.pollLinks now) := by
  have emptied : Follows works tray { tray.cm with pending := [] } { tray with cm.pending := [] } :=
    settled.manage rfl rfl rfl settled.ids
  have resolved := emptied.trans (resolves_follow emptied.settled tray.cm.pending)
  have reaped := resolved.trans (reaps_follow resolved.settled
    ((tray.cm.pending.foldl Tray.resolveNext
      { tray with cm.pending := [] }).cm.connected.entries.map Prod.fst))
  rw [resolved.cm] at reaped
  have beaten := reaped.trans (beat_follows reaped.settled (reaped.tick.trans tick))
  rw [reaped.mesh_eq, reaped.cm] at beaten
  unfold Tray.pollLinks
  dsimp only
  rw [resolved.cm]
  exact beaten

end Tray

end Skittermouse.Platform

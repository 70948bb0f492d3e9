import Skittermouse.Mesh.Books
import Skittermouse.Tray.Runs

namespace Skittermouse.Platform

open Skittermouse.Data Skittermouse.Core Skittermouse.Net Skittermouse.App

/-! # The tray's own fail-safe

A user whose input is swallowed must not be left with nobody who receives it. The
timer lets go when no device is online, and a device counts as online only on
the strength of a message that was handled lately.
-/

section Listening

variable {π τ : Type} [LinearOrder π]

/-- Every heartbeat noted stems from a message of a registered peer, handled at
a time within `within`. -/
structure Listening (machine : PeerId) (within : UInt64 → Prop) (host : Host π τ) : Prop where
  own : host.node.self = machine
  timeout : host.node.heartbeatTimeoutMs = 2000
  heard : ∀ id seen, host.node.heartbeat.last.find? id = some seen →
    host.node.peers.contains id = true ∧ within seen ∧
      ∃ data, .handled id seen data ∈ host.trace

variable {self : PeerId} {within : UInt64 → Prop} {host before middle after : Host π τ} {hook : OwnerHook} {now : UInt64}

namespace Listening

theorem init (self : PeerId) : Listening self within (Host.init π τ self) where
  own := rfl
  timeout := rfl
  heard _ _ found := absurd found.symm (Option.some_ne_none _)

theorem grow (listening : Listening self within before)
    (own : after.node.self = before.node.self)
    (timeout : after.node.heartbeatTimeoutMs = before.node.heartbeatTimeoutMs)
    (heartbeat : after.node.heartbeat = before.node.heartbeat)
    (peers : ∀ id, before.node.peers.contains id = true → after.node.peers.contains id = true)
    (trace : before.trace <:+ after.trace) : Listening self within after where
  own := own.trans listening.own
  timeout := timeout.trans listening.timeout
  heard id seen found := by
    rw [heartbeat] at found
    obtain ⟨registered, timed, data, handled⟩ := listening.heard id seen found
    exact ⟨peers id registered, timed, data, trace.subset handled⟩

theorem kept (listening : Listening self within before) (kept : middle.Kept after)
    (own : middle.node.self = before.node.self)
    (timeout : middle.node.heartbeatTimeoutMs = before.node.heartbeatTimeoutMs)
    (heartbeat : middle.node.heartbeat = before.node.heartbeat)
    (peers : middle.node.peers = before.node.peers) (trace : middle.trace = before.trace) :
    Listening self within after := by
  obtain ⟨events, grown, _⟩ := kept.clipboard
  exact listening.grow (kept.self.trans own) (kept.timeout.trans timeout) (kept.heartbeat.trans heartbeat)
    (fun id registered => by rwa [kept.peers, peers]) ⟨events, (trace ▸ grown).symm⟩

theorem hear (listening : Listening self within host) {sender : PeerId}
    (registered : host.node.peers.contains sender = true) (timed : within now) (data : Bytes) :
    Listening self within (host.hear sender data now) where
  own := listening.own
  timeout := listening.timeout
  heard id seen found := by
    simp only [Host.hear, Host.emit, Heartbeat.onHeartbeat, OrdMap.find?_insert] at found
    split at found
    · rename_i own
      cases found
      exact ⟨own ▸ registered, timed, data, own ▸ List.mem_cons_self⟩
    · obtain ⟨known, earlier, old, handled⟩ := listening.heard id seen found
      exact ⟨known, earlier, old, List.mem_cons_of_mem _ handled⟩

theorem forgetPeer (listening : Listening self within host) (id : PeerId) :
    Listening self within (host.forgetPeer id) := by
  have node := Host.forgetPeer_node host id
  refine ⟨by rw [node]; exact listening.own, by rw [node]; exact listening.timeout, fun other seen found => ?_⟩
  rw [node] at found ⊢
  simp only [Heartbeat.forget, OrdMap.find?_erase] at found
  split at found
  · contradiction
  · rename_i different
    obtain ⟨registered, timed, data, handled⟩ := listening.heard other seen found
    exact ⟨(OrdMap.contains_erase _ _ _).mpr ⟨different, registered⟩, timed, data,
      (Host.forgetPeer_suffix host id).subset handled⟩

variable [Transport τ]

theorem refresh (listening : Listening self within host) (now : UInt64) :
    Listening self within (host.refreshOnlineAndFailSafe hook now) :=
  listening.kept (Host.refresh_kept hook host now) rfl rfl rfl rfl rfl

theorem poll (listening : Listening self within host) (timed : within now) :
    Listening self within (host.poll hook now) := by
  have drained := @Host.drains_keep π τ _ _
    (fun after => Listening self within after ∧ after.node.peers = host.node.peers) now hook
    host.node.peers.entries
    (fun _ _ kept before => ⟨before.1.kept kept rfl rfl rfl rfl rfl, kept.peers.trans before.2⟩)
    (fun _ _ before => ⟨before.1.grow rfl rfl rfl (fun _ registered => registered) List.suffix_rfl,
      before.2⟩)
    (fun current sender data member before => by
      obtain ⟨entry, inside, same⟩ := List.mem_map.mp member
      refine ⟨before.1.hear ?_ timed data, before.2⟩
      rw [before.2, ← same]
      exact OrdMap.contains_iff.mpr ⟨entry.2, OrdMap.mem_entries.mp inside⟩)
    { host with node.now := now }
    ⟨listening.grow rfl rfl rfl (fun _ registered => registered) List.suffix_rfl, rfl⟩
  exact drained.1.refresh now

theorem perform (listening : Listening self within host) {call : MeshCall}
    (timed : ∀ now, call = .poll now → within now) : Listening self within (host.perform hook call) := by
  obtain ⟨priority, rfl⟩ | ⟨text, rfl⟩ | ⟨now, rfl⟩ | kept := Host.perform_kept hook host call
  · exact listening.grow rfl rfl rfl (fun _ registered => registered) List.suffix_rfl
  · exact listening.kept (Host.clipboardChange_kept host text) rfl rfl rfl rfl rfl
  · exact listening.poll (timed now rfl)
  · exact listening.kept kept rfl rfl rfl rfl rfl

end Listening

end Listening

section Managing

variable {τ : Type} {self : PeerId} {within : UInt64 → Prop} {cm : ConnectionTable τ}
  {host : Host Nat τ} {hook : OwnerHook} {now : UInt64}

theorem Listening.heap (listening : Listening self within cm.mesh) {mesh : Host Nat τ}
    (node : mesh.node = cm.mesh.node) (trace : mesh.trace = cm.mesh.trace) :
    Listening self within mesh :=
  listening.grow (by rw [node]) (by rw [node]) (by rw [node]) (fun id registered => by rwa [node])
    (trace ▸ List.suffix_rfl)

variable [Transport τ]

theorem Listening.resolveNext (listening : Listening self within cm.mesh) (link : PendingLink) :
    Listening self within (cm.resolveNext link).mesh := by
  unfold ConnectionTable.resolveNext
  cases cm.resolve link with
  | wait transport => exact listening.heap rfl rfl
  | drop => exact listening.heap rfl rfl
  | promote id transport =>
      refine listening.grow rfl rfl rfl (fun other registered => ?_) List.suffix_rfl
      exact (OrdMap.contains_insert _ _ _ _).mpr (.inr registered)

theorem Listening.reapNext (listening : Listening self within cm.mesh) (id : PeerId) :
    Listening self within (cm.reapNext hook id).mesh := by
  unfold ConnectionTable.reapNext
  split
  · exact listening
  · split
    · exact listening
    · have removed : Listening self within (cm.mesh.removePeer hook id) :=
        (listening.forgetPeer id).refresh cm.mesh.node.now
      generalize cm.mesh.removePeer hook id = mesh at removed ⊢
      exact removed.grow rfl rfl rfl (fun _ registered => registered) List.suffix_rfl

theorem Listening.sendHeartbeats (listening : Listening self within host) (hook : OwnerHook)
    (now : UInt64) : Listening self within (host.sendHeartbeats now) :=
  @Listening.perform _ _ _ _ _ _ hook _ listening (.sendHeartbeats now)
    fun _ other => MeshCall.noConfusion other

theorem Listening.reaped (listening : Listening self within cm.mesh) :
    Listening self within (cm.resolvePending.reap hook).mesh := by
  have resolved : Listening self within cm.resolvePending.mesh :=
    List.foldlRecOn (motive := fun after => Listening self within after.mesh) cm.pending
      ConnectionTable.resolveNext
      (show Listening self within ({ cm with pending := [] } : ConnectionTable τ).mesh from listening)
      fun after before link _ => before.resolveNext link
  generalize cm.resolvePending = table at resolved ⊢
  exact List.foldlRecOn (motive := fun after => Listening self within after.mesh) _
    (ConnectionTable.reapNext hook) resolved fun after before id _ => before.reapNext id

theorem Listening.manage (listening : Listening self within cm.mesh)
    {action : ConnectionTable.TableAction τ}
    (timed : ∀ now, Tray.timeOf action = some now → within now) :
    Listening self within (ConnectionTable.tableStep hook action cm).mesh := by
  cases action with
  | addOutgoing expected transport => cases transport <;> exact listening.heap rfl rfl
  | addIncoming transport => cases transport <;> exact listening.heap rfl rfl
  | call call => exact listening.perform fun now polls => timed now (by rw [polls]; rfl)
  | disturb address transport => exact listening.heap rfl rfl
  | poll now =>
      have polled := @Listening.poll Nat τ _ self within _ hook now _
        (@Listening.reaped τ self within cm hook _ listening) (timed now rfl)
      rw [ConnectionTable.tableStep, Tray.poll_mesh]
      exact polled.sendHeartbeats hook now

end Managing

namespace Tray

variable {τ : Type} {tray : Tray τ} {works : Prop} {within : UInt64 → Prop}

def Overdue (tray : Tray τ) : Prop :=
  tray.wake.start ≤ tray.tick ∧ tray.wake.timeout ≤ tray.tick - tray.wake.start

instance instDecidableOverdue (tray : Tray τ) : Decidable tray.Overdue :=
  inferInstanceAs (Decidable (_ ∧ _))

theorem isPeerOnline_kept {before after : Host Nat τ} (kept : before.Kept after) (id : PeerId) :
    after.isPeerOnline id = before.isPeerOnline id := by
  rw [Host.isPeerOnline, Host.isPeerOnline, kept.self, kept.heartbeat, kept.timeout, kept.now]

theorem anyOnline_kept {before after : Tray τ} (devices : after.devices = before.devices)
    (kept : before.mesh.Kept after.mesh) : after.anyOnline = before.anyOnline := by
  rw [anyOnline, anyOnline, devices]
  exact congrArg before.devices.any (funext fun device => isPeerOnline_kept kept device.id)

variable [Transport τ] (library : CLibrary)

theorem resolveWake_eq (waking : tray.wake.isWaking = true) :
    tray.resolveWake library =
      if tray.mesh.isPeerOnline tray.wake.target then
        { { tray with wake := { tray.wake with status := .connected } }.requestSwitchTo library
            tray.wake.target with wake := .reset }
      else if tray.Overdue then { tray with wake := .reset }
      else tray := by
  have status : tray.wake.status = .waking := beq_iff_eq.mp waking
  unfold resolveWake
  rw [if_pos waking]
  dsimp only
  unfold WakeFlow.update
  rw [if_neg (not_not.mpr status)]
  by_cases online : tray.mesh.isPeerOnline tray.wake.target = true
  · simp only [if_pos online]
  · by_cases late : tray.Overdue
    · simp only [if_neg online, if_pos late, if_pos (show _ ∧ _ from late)]
    · simp only [if_neg online, if_neg late, if_neg (show ¬ (_ ∧ _) from late), status]

theorem syncCapture_driving (tray : Tray τ) :
    tray.syncCapture.driving = (tray.driving && tray.mesh.isLocalOwner) := by
  cases owned : tray.mesh.isLocalOwner with
  | false =>
      rw [syncCapture_sink owned]
      split <;> simp [letGo, onMesh]
  | true =>
      rw [syncCapture_owner owned]
      split
      · simp [startCapture]
      · split <;> simp [letGo, onMesh]

/-- A switch never makes this machine drive. -/
theorem requestSwitchTo_driving (target : PeerId)
    (driven : (tray.requestSwitchTo library target).driving = true) : tray.driving = true := by
  unfold requestSwitchTo at driven
  split at driven
  · unfold onSwitchUnavailable at driven
    split at driven
    · exact driven
    · split at driven <;> exact driven
  · dsimp only at driven
    split at driven
    · rw [onOwnerChanged, syncCapture_driving, Bool.and_eq_true] at driven
      exact driven.1
    · exact driven

theorem synced_kept (tray : Tray τ) : tray.mesh.Kept tray.synced := by
  unfold synced
  split
  · exact .releaseHeldKeys _ _
  · exact .refl _

theorem syncCapture_online (ready : Ready works tray) :
    tray.syncCapture.anyOnline = tray.anyOnline := by
  have follows := syncCapture_follows ready
  have kept : tray.mesh.Kept tray.syncCapture.mesh := by
    rw [follows.mesh]
    exact synced_kept tray
  obtain ⟨_, _, _, _, same⟩ := follows.same
  have devices : tray.syncCapture.devices = tray.devices := by rw [same]
  exact anyOnline_kept devices kept

omit [Transport τ] in
theorem releaseIfAlone_online (tray : Tray τ) (driven : tray.releaseIfAlone.driving = true) :
    tray.releaseIfAlone.anyOnline = true := by
  unfold releaseIfAlone at driven ⊢
  split at driven
  · contradiction
  · rename_i company
    rw [if_neg company]
    simpa [driven] using company

theorem tended_driving (settled : Settled works tray) (timed : within tray.tick)
    (driven : tray.tended.driving = true) : tray.tended.anyOnline = true := by
  have ready := releaseIfAlone_ready (@pumpMesh_follows τ _ works within tray settled timed).1
  rw [tended, syncCapture_driving, Bool.and_eq_true] at driven
  rw [tended, syncCapture_online ready]
  exact releaseIfAlone_online tray.pumpMesh driven.1

theorem requestSwitchTo_online (settled : Settled works tray)
    (clock : tray.tick = tray.mesh.node.now) (target : PeerId) :
    (tray.requestSwitchTo library target).anyOnline = tray.anyOnline ∧
      (tray.requestSwitchTo library target).mesh.node.now = tray.mesh.node.now := by
  obtain ⟨wake, follows⟩ := requestSwitchTo_follows library settled (.inr (.inr clock))
  have kept : tray.mesh.Kept (tray.requestSwitchTo library target).mesh := by
    rw [follows.mesh_eq]
    exact .requestSwitchTo .releaseHeld tray.mesh target
  obtain ⟨_, _, _, _, same⟩ := follows.same
  have devices : (tray.requestSwitchTo library target).devices = tray.devices := by rw [same]
  exact ⟨anyOnline_kept devices kept, kept.now⟩

theorem resolveWake_driving (settled : Settled works tray)
    (clock : tray.tick = tray.mesh.node.now)
    (alone : tray.driving = true → tray.anyOnline = true) :
    ((tray.resolveWake library).driving = true → (tray.resolveWake library).anyOnline = true) ∧
      (tray.resolveWake library).mesh.node.now = tray.mesh.node.now := by
  cases waking : tray.wake.isWaking with
  | false =>
      rw [resolveWake, waking, if_neg Bool.false_ne_true]
      exact ⟨alone, rfl⟩
  | true =>
      rw [resolveWake_eq library waking]
      split
      · have woken : Settled works { tray with wake := { tray.wake with status := .connected } } :=
          { settled with }
        obtain ⟨online, now⟩ := requestSwitchTo_online library woken clock tray.wake.target
        have driving := @requestSwitchTo_driving τ
          { tray with wake := { tray.wake with status := .connected } } _ library tray.wake.target
        exact ⟨fun driven => online.trans (alone (driving driven)), now⟩
      · split <;> exact ⟨alone, rfl⟩

theorem onTimer_driving (settled : Settled works tray) (timed : within tray.tick) :
    ((tray.onTimer library).driving = true → (tray.onTimer library).anyOnline = true) ∧
      (tray.onTimer library).mesh.node.now = tray.tick := by
  obtain ⟨tended, _, tick, now⟩ := tended_follows settled timed
  obtain ⟨alone, same⟩ := resolveWake_driving library tended (tick.trans now.symm)
    (tended_driving settled timed)
  rw [onTimer_eq]
  exact ⟨alone, same.trans now⟩

end Tray

variable {τ : Type} [Transport τ] (library : CLibrary) (self : PeerId)
  (priority : List PeerId) (devices : List PairedDevice) (modifiers : UInt32) (key : UInt16)
  (turns : List (TrayTurn τ))

theorem trayAfter_listening :
    Listening self (tickOf turns) (trayAfter library self priority devices modifiers key turns).mesh := by
  have steps := (trayAfter_follows library self priority devices modifiers key turns).2
  exact @Leads.preserves _ _ _ _ (fun cm => Listening self (tickOf turns) cm.mesh) _ _ steps
    (fun action cm timed listening => listening.manage timed)
    (Listening.grow (.init self) rfl rfl rfl (fun _ registered => registered) List.suffix_rfl)

theorem trayAfter_concat (last : TrayTurn τ) :
    trayAfter library self priority devices modifiers key (turns ++ [last]) =
      trayStep library last (trayAfter library self priority devices modifiers key turns) :=
  exec_concat _ _ _ _

/-- Whenever the timer has run, input is captured only for a device that has been
heard from within the last two seconds and still has its link. -/
theorem captured_for_somebody (tick : UInt64) (hooked : Bool) (screen : VirtualScreen) :
    let timer : TrayTurn τ := { tick, hooked, screen, message := .timer }
    let tray := trayAfter library self priority devices modifiers key (turns ++ [timer])
    tray.capture.installed = false ∨
      ∃ device ∈ tray.devices, device.id = self ∨
        tray.mesh.node.peers.contains device.id = true ∧
          ∃ seen data, .handled device.id seen data ∈ tray.mesh.trace ∧
            (∃ turn ∈ turns ++ [timer], turn.tick = seen) ∧ tick - seen < 2000 := by
  intro timer tray
  have settled := (trayAfter_follows library self priority devices modifiers key
    (turns ++ [timer])).1
  have listening := trayAfter_listening library self priority devices modifiers key
    (turns ++ [timer])
  cases active : tray.capture.installed with
  | false => exact .inl rfl
  | true =>
      right
      have before := (trayAfter_follows library self priority devices modifiers key turns).1
      have current : Tray.Settled False { trayAfter library self priority devices modifiers key
          turns with tick, hooked, screen } :=
        { before with hooked := False.elim, installs := fun never _ => never.elim }
      have online := @Tray.onTimer_driving τ _ False (fun _ => True) _ library current trivial
      have after : tray = Tray.onTimer library { trayAfter library self priority devices modifiers
          key turns with tick, hooked, screen } := trayAfter_concat _ _ _ _ _ _ _ _
      rw [← after] at online
      obtain ⟨device, member, alive⟩ := List.any_eq_true.mp (online.1 (settled.driving active))
      refine ⟨device, member, ?_⟩
      unfold Host.isPeerOnline at alive
      split at alive
      · rename_i own
        exact .inl (own.trans listening.own)
      · right
        obtain ⟨seen, found, recent⟩ := Heartbeat.isAlive_iff.mp alive
        obtain ⟨registered, timed, data, handled⟩ := listening.heard device.id seen found
        rw [listening.timeout, online.2] at recent
        exact ⟨registered, seen, data, handled, timed, recent⟩

end Skittermouse.Platform

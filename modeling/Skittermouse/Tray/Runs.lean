import Skittermouse.Capture.LocalKeys
import Skittermouse.Tray.Following

namespace Skittermouse.Platform

open Skittermouse.Data Skittermouse.Core Skittermouse.Net Skittermouse.App

/-! # Runs of the tray

Whatever the user, the network thread and the network do, between two messages
the hooks are installed only while this machine drives and owns input, and the
manager has only been used as its interface allows, under a hook that lets go of
the held keys.
-/

namespace Tray

variable {τ : Type} [Transport τ]

/-- The time that the manager is polled with. -/
def timeOf : ConnectionTable.TableAction τ → Option UInt64
  | .poll now | .call (.poll now) | .call (.sendHeartbeats now) => some now
  | _ => none

def addition : ConnectionTable.TableAction τ → Option (ConnectionTable.TableAction τ)
  | .addOutgoing expected transport => some (.addOutgoing expected transport)
  | .addIncoming transport => some (.addIncoming transport)
  | _ => none

def addingCall (link : HandedLink τ) : ConnectionTable.TableAction τ :=
  if link.outbound then .addOutgoing link.peerId link.transport else .addIncoming link.transport

/-- The manager has been used through its interface, polled at times within `within`
only, and given these links. -/
abbrev Registers (within : UInt64 → Prop) (links : List (HandedLink τ))
    (before after : ConnectionTable τ) : Prop :=
  LeadsBy (ConnectionTable.tableStep .releaseHeld)
    (fun action => ∀ now, timeOf action = some now → within now) addition (links.map addingCall) before
    after

abbrev Steps (within : UInt64 → Prop) (before after : ConnectionTable τ) : Prop :=
  Registers within [] before after

theorem Steps.poll {within : UInt64 → Prop} (cm : ConnectionTable τ) {now : UInt64}
    (timed : within now) : Steps within cm (cm.poll .releaseHeld now) :=
  @LeadsBy.one _ _ _ (ConnectionTable.tableStep .releaseHeld) _ _ cm (.poll now)
    (fun _ same => Option.some.inj same ▸ timed) _ rfl

theorem Steps.timeless {within : UInt64 → Prop} (cm : ConnectionTable τ)
    (action : ConnectionTable.TableAction τ) (timeless : timeOf action = none)
    (keeps : addition action = none) :
    Steps within cm (ConnectionTable.tableStep .releaseHeld action cm) :=
  .one cm (fun _ timed => absurd (timed.symm.trans timeless) (Option.some_ne_none _))
    (List.filterMap_cons_none keeps)

variable {works : Prop} {within : UInt64 → Prop} {tray : Tray τ} {library : CLibrary}

/-- The call of the node that a captured event becomes. -/
def callFor (event : CapturedEvent) (ts : UInt32) : MeshCall :=
  match event.kind with
  | .mouseMove => .forwardMouseMove event.dx.toInt16 event.dy.toInt16 ts
  | .mouseButton => .forwardMouseButton event.code event.down ts
  | .key => .forwardKey event.code event.down ts

theorem captureSink_eq (tray : Tray τ) (event : CapturedEvent) :
    tray.captureSink event =
      tray.onMesh (·.perform .releaseHeld (callFor event tray.tick.toUInt32)) := by
  unfold captureSink callFor
  cases event.kind <;> rfl

theorem callFor_onlySends (event : CapturedEvent) (ts : UInt32) :
    (callFor event ts).onlySends = true := by
  unfold callFor
  cases event.kind <;> rfl

theorem captureSink_follows (settled : Settled works tray)
    (active : tray.capture.installed = true) (event : CapturedEvent) :
    Settled works (tray.captureSink event) ∧ Steps within tray.cm (tray.captureSink event).cm := by
  have frame := Host.perform_frame .releaseHeld tray.mesh
    (callFor_onlySends event tray.tick.toUInt32)
  rw [captureSink_eq]
  refine ⟨{ settled with
    released := fun idle => absurd (idle.symm.trans active) Bool.false_ne_true
    named := ?_
    owner := fun driven => frame.isLocalOwner.trans (settled.owner driven) }, .timeless tray.cm (.call _) ?_ rfl⟩
  · exact (congrArg OwnershipState.self frame.ownership).trans (settled.named.trans frame.self.symm)
  · unfold callFor
    cases event.kind <;> rfl

theorem calls_follow {κ : Type} {call : Tray τ → κ → Tray τ}
    (one : ∀ (tray : Tray τ) item, Settled works tray → tray.capture.installed = true →
      Settled works (call tray item) ∧ Steps within tray.cm (call tray item).cm ∧
        (call tray item).capture = tray.capture)
    (settled : Settled works tray) (active : tray.capture.installed = true) (items : List κ) :
    Settled works (items.foldl call tray) ∧ Steps within tray.cm (items.foldl call tray).cm := by
  induction items generalizing tray with
  | nil => exact ⟨settled, .refl _ _ _⟩
  | cons item rest ih =>
      obtain ⟨next, first, still⟩ := one tray item settled active
      obtain ⟨last, second⟩ := ih next (still ▸ active)
      exact ⟨last, first.trans second⟩

theorem captureSink_capture (tray : Tray τ) (event : CapturedEvent) :
    (tray.captureSink event).capture = tray.capture := by
  rw [captureSink_eq]
  rfl

theorem onKey_follows (settled : Settled works tray) (stroke : KeyStroke) :
    Settled works (tray.onKey stroke) ∧ Steps within tray.cm (tray.onKey stroke).cm := by
  unfold Tray.onKey
  cases active : tray.capture.installed with
  | false => exact ⟨settled, .refl _ _ _⟩
  | true =>
      have state := Capture.onKey_state tray.capture stroke
      obtain ⟨installed, swallow⟩ :=
        Capture.updateModifier_hook tray.capture stroke.vkCode stroke.down
      rw [← state] at installed swallow
      have hooked : Settled works { tray with capture := (tray.capture.onKey stroke).2.2 } :=
        { settled with
          released := fun idle => settled.released (installed.symm.trans idle)
          swallow := swallow.trans settled.swallow
          driving := fun up => settled.driving (installed.symm.trans up)
          installs := fun working driven => installed.trans (settled.installs working driven) }
      refine calls_follow ?_ hooked (installed.trans active) _
      intro tray call settled active
      cases call with
      | sink event =>
          obtain ⟨next, steps⟩ := captureSink_follows settled active event
          exact ⟨next, steps, captureSink_capture tray event⟩
      | onEscape => exact ⟨settled, .refl _ _ _, rfl⟩

theorem onMouse_follows (settled : Settled works tray) (stroke : MouseStroke) :
    Settled works (tray.onMouse stroke) ∧ Steps within tray.cm (tray.onMouse stroke).cm := by
  unfold Tray.onMouse
  cases active : tray.capture.installed with
  | false => exact ⟨settled, .refl _ _ _⟩
  | true =>
      have moved : Settled works
          { tray with mouse := (tray.mouse.onMouse tray.capture.swallow stroke).2 } :=
        { settled with }
      refine calls_follow ?_ moved active _
      intro tray event settled active
      obtain ⟨next, steps⟩ := captureSink_follows settled active event
      exact ⟨next, steps, captureSink_capture tray event⟩

theorem synced_steps (tray : Tray τ) : Steps within tray.cm { tray.cm with mesh := tray.synced } := by
  unfold synced
  split
  · exact .timeless tray.cm (.call (.releaseHeldKeys tray.tick.toUInt32)) rfl rfl
  · exact .refl _ _ _

theorem stopDriving_follows (settled : Settled works tray) :
    Settled works tray.stopDriving ∧ Steps within tray.cm tray.stopDriving.cm := by
  have ready : Ready works { tray with driving := false } := { settled.toReady with }
  have follows := syncCapture_follows ready
  unfold stopDriving
  rw [follows.cm]
  exact ⟨follows.settled, synced_steps { tray with driving := false }⟩

theorem requestSwitchTo_steps (settled : Settled works tray) {target : PeerId}
    (clock : target = tray.mesh.node.self ∨ tray.mesh.isPeerOnline target = false ∨
      tray.tick = tray.mesh.node.now) :
    Settled works (tray.requestSwitchTo library target) ∧
      Steps within tray.cm (tray.requestSwitchTo library target).cm := by
  obtain ⟨wake, follows⟩ := requestSwitchTo_follows library settled clock
  rw [follows.cm]
  exact ⟨follows.settled, .timeless tray.cm (.call (.requestSwitchTo target)) rfl rfl⟩

theorem controlPeer_follows (settled : Settled works tray) (peerId : PeerId) :
    Settled works (tray.controlPeer library peerId) ∧
      Steps within tray.cm (tray.controlPeer library peerId).cm := by
  unfold controlPeer
  split
  · rename_i offline
    exact requestSwitchTo_steps settled (.inr (.inl offline))
  · obtain ⟨requested, steps⟩ := @requestSwitchTo_steps τ _ works within tray library settled _ (.inl rfl)
    have ready : Ready works
        { tray.requestSwitchTo library tray.mesh.node.self with driving := true } :=
      { requested.toReady with }
    have follows := syncCapture_follows ready
    dsimp only
    rw [follows.cm]
    exact ⟨follows.settled, steps.trans
      (synced_steps { tray.requestSwitchTo library tray.mesh.node.self with driving := true })⟩

theorem onDevice_follows (settled : Settled works tray) (index : Nat) :
    Settled works (tray.onDevice library index) ∧
      Steps within tray.cm (tray.onDevice library index).cm := by
  unfold onDevice
  split
  · exact ⟨settled, .refl _ _ _⟩
  · split
    · exact stopDriving_follows settled
    · exact controlPeer_follows settled _

omit [Transport τ] in
theorem Settled.links (settled : Settled works tray) (pendingLinks : List (HandedLink τ)) :
    Settled works { tray with pendingLinks } := { settled with }

theorem register_keeps (cm : ConnectionTable τ) (link : HandedLink τ) :
    Registers within [link] cm (register cm link) ∧ (register cm link).mesh.node = cm.mesh.node ∧
      (register cm link).connected = cm.connected := by
  have untimed : timeOf (addingCall link) = none := by
    unfold addingCall
    split <;> rfl
  have noted : [addingCall link].filterMap addition = [link].map addingCall := by
    unfold addingCall
    simp only [List.map_cons, List.map_nil]
    split <;> rfl
  have same : register cm link = ConnectionTable.tableStep .releaseHeld (addingCall link) cm := by
    unfold register addingCall
    split <;> rfl
  refine ⟨?_, ?_⟩
  · rw [same]
    exact .one cm (fun _ timed => absurd (timed.symm.trans untimed) (Option.some_ne_none _)) noted
  · unfold register
    split <;> cases link.transport <;> exact ⟨rfl, rfl⟩

theorem registers_keep (cm : ConnectionTable τ) (links : List (HandedLink τ)) :
    Registers within links cm (links.foldl register cm) ∧ (links.foldl register cm).mesh.node = cm.mesh.node ∧
      (links.foldl register cm).connected = cm.connected := by
  induction links generalizing cm with
  | nil => exact ⟨.refl _ _ cm, rfl, rfl⟩
  | cons link rest ih =>
      obtain ⟨first, node, connected⟩ := register_keeps cm link
      obtain ⟨others, othersNode, othersConnected⟩ := ih (register cm link)
      exact ⟨first.trans others, othersNode.trans node, othersConnected.trans connected⟩

theorem poll_mesh (hook : OwnerHook) (cm : ConnectionTable τ) (now : UInt64) :
    (cm.poll hook now).mesh =
      ((cm.resolvePending.reap hook).mesh.poll hook now).sendHeartbeats now := by
  unfold ConnectionTable.poll
  dsimp only

theorem sendHeartbeats_now (host : Host Nat τ) (now : UInt64) :
    (host.sendHeartbeats now).node.now = now := by
  unfold Host.sendHeartbeats
  dsimp only
  split <;> rfl

theorem pumpMesh_polls (settled : Settled works tray) :
    Follows works { tray with pendingLinks := [] }
      ((tray.pendingLinks.foldl register tray.cm).poll .releaseHeld tray.tick) tray.pumpMesh := by
  obtain ⟨_, node, connected⟩ :=
    @registers_keep τ _ (fun _ => True) tray.cm tray.pendingLinks
  have registered := (settled.links []).manage (congrArg MeshNode.self node)
    (congrArg MeshNode.ownership node) (congrArg MeshNode.pipeline node)
    (fun id => by rw [connected]; exact settled.ids id)
  exact registered.trans (pollLinks_follows registered.settled (registered.tick.trans rfl))

theorem pumpMesh_follows (settled : Settled works tray) (timed : within tray.tick) :
    Settled works tray.pumpMesh ∧ Registers within tray.pendingLinks tray.cm tray.pumpMesh.cm ∧
      tray.pumpMesh.tick = tray.tick ∧ tray.pumpMesh.mesh.node.now = tray.tick := by
  have polls := pumpMesh_polls settled
  have steps := (@registers_keep τ _ within tray.cm tray.pendingLinks).1
  refine ⟨polls.settled, ?_, polls.tick, ?_⟩
  · rw [polls.cm]
    have polled := steps.trans (Steps.poll _ timed)
    rwa [List.map_nil, List.append_nil] at polled
  · rw [polls.mesh_eq, poll_mesh]
    exact sendHeartbeats_now _ _

theorem synced_now (tray : Tray τ) : tray.synced.node.now = tray.mesh.node.now := by
  unfold synced
  split
  · rw [Host.releaseHeldKeys_node]
  · rfl

theorem syncCapture_steps (ready : Ready works tray) :
    Settled works tray.syncCapture ∧ Steps within tray.cm tray.syncCapture.cm ∧
      tray.syncCapture.tick = tray.tick ∧
      tray.syncCapture.mesh.node.now = tray.mesh.node.now := by
  have follows := syncCapture_follows ready
  refine ⟨follows.settled, ?_, follows.tick, ?_⟩
  · rw [follows.cm]
    exact synced_steps tray
  · rw [follows.mesh]
    exact synced_now tray

def tended (tray : Tray τ) : Tray τ := tray.pumpMesh.releaseIfAlone.syncCapture

omit [Transport τ] in
theorem releaseIfAlone_ready (settled : Settled works tray) : Ready works tray.releaseIfAlone := by
  unfold releaseIfAlone
  split
  · exact { settled.toReady with }
  · exact settled.toReady

omit [Transport τ] in
theorem releaseIfAlone_keeps (tray : Tray τ) :
    tray.releaseIfAlone.cm = tray.cm ∧ tray.releaseIfAlone.tick = tray.tick ∧
      tray.releaseIfAlone.wake = tray.wake ∧
      tray.releaseIfAlone.mesh.node.now = tray.mesh.node.now := by
  unfold releaseIfAlone
  split <;> exact ⟨rfl, rfl, rfl, rfl⟩

theorem tended_follows (settled : Settled works tray) (timed : within tray.tick) :
    Settled works tray.tended ∧ Registers within tray.pendingLinks tray.cm tray.tended.cm ∧
      tray.tended.tick = tray.tick ∧ tray.tended.mesh.node.now = tray.tick := by
  obtain ⟨pumped, steps, tick, now⟩ := pumpMesh_follows settled timed
  obtain ⟨cm, same, _, node⟩ := releaseIfAlone_keeps tray.pumpMesh
  obtain ⟨synced, released, syncedTick, syncedNow⟩ :=
    syncCapture_steps (releaseIfAlone_ready pumped)
  rw [cm] at released
  unfold tended
  have both := steps.trans released
  rw [List.map_nil, List.append_nil] at both
  exact ⟨synced, both, syncedTick.trans (same.trans tick),
    syncedNow.trans (node.trans now)⟩

theorem resolveWake_follows (settled : Settled works tray)
    (clock : tray.tick = tray.mesh.node.now) :
    Settled works (tray.resolveWake library) ∧ Steps within tray.cm (tray.resolveWake library).cm := by
  unfold resolveWake
  split
  · have updated : Settled works { tray with
        wake := tray.wake.update tray.tick (tray.mesh.isPeerOnline tray.wake.target) } :=
      { settled with }
    dsimp only
    split
    · obtain ⟨requested, steps⟩ := @requestSwitchTo_steps τ _ works within _ library updated
        tray.wake.target (.inr (.inr clock))
      exact ⟨{ requested with }, steps⟩
    · exact ⟨{ updated with }, .refl _ _ _⟩
    · exact ⟨updated, .refl _ _ _⟩
  · exact ⟨settled, .refl _ _ _⟩

theorem onTimer_eq (library : CLibrary) (tray : Tray τ) :
    tray.onTimer library = tray.tended.resolveWake library := rfl

theorem onTimer_follows (settled : Settled works tray) (timed : within tray.tick) :
    Settled works (tray.onTimer library) ∧
      Registers within tray.pendingLinks tray.cm (tray.onTimer library).cm := by
  obtain ⟨tended, steps, tick, now⟩ := tended_follows settled timed
  obtain ⟨resolved, switch⟩ := @resolveWake_follows τ _ works within _ library tended
    (tick.trans now.symm)
  rw [onTimer_eq]
  have both := steps.trans switch
  rw [List.map_nil, List.append_nil] at both
  exact ⟨resolved, both⟩

theorem onClipboard_follows (settled : Settled works tray) (files : List FilePromiseItem)
    (text : Option Bytes) :
    Settled works (tray.onClipboard files text) ∧ Steps within tray.cm (tray.onClipboard files text).cm := by
  unfold onClipboard
  split
  · rename_i announced
    have node : (tray.mesh.announceFilePromise files).node = tray.mesh.node := by
      unfold Host.announceFilePromise
      split <;> rfl
    have quiet := @Settled.quiet τ works tray settled (·.announceFilePromise files)
      (congrArg MeshNode.self node) (congrArg MeshNode.ownership node)
      (congrArg MeshNode.pipeline node)
    exact ⟨quiet.settled, .timeless tray.cm (.call (.announceFilePromise files)) rfl rfl⟩
  · split
    · rename_i text
      have node : (tray.mesh.onLocalClipboardChange text).node = { tray.mesh.node with
          clipboard := (tray.mesh.node.clipboard.shouldBroadcastLocalChange text).2 } := by
        unfold Host.onLocalClipboardChange
        dsimp only
        split <;> rfl
      have quiet := @Settled.quiet τ works tray settled (·.onLocalClipboardChange text)
        (by rw [node]) (by rw [node]) (by rw [node])
      exact ⟨quiet.settled, .timeless tray.cm (.call (.clipboardChange text)) rfl rfl⟩
    · exact ⟨settled, .refl _ _ _⟩

end Tray

variable {τ : Type} [Transport τ] {works : Prop} {within : UInt64 → Prop}
  {library : CLibrary}

def TrayMessage.pumps : TrayMessage τ → Bool
  | .pump | .timer => true
  | _ => false

/-- Hooks can be set if they always can, and the time is one of those expected. -/
def Expected (works : Prop) (within : UInt64 → Prop) (turn : TrayTurn τ) (_ : Tray τ) : Prop :=
  (works → turn.hooked = true) ∧ within turn.tick

theorem trayStep_follows (turn : TrayTurn τ) (tray : Tray τ) (settled : tray.Settled works)
    (expected : Expected works within turn tray) :
    (trayStep library turn tray).Settled works ∧
      Tray.Registers within (if turn.message.pumps then tray.pendingLinks else []) tray.cm
        (trayStep library turn tray).cm := by
  have current : Tray.Settled works
      { tray with tick := turn.tick, hooked := turn.hooked, screen := turn.screen } :=
    { settled with hooked := expected.1 }
  unfold trayStep
  cases turn.message with
  | key stroke => exact Tray.onKey_follows current stroke
  | mouse stroke => exact Tray.onMouse_follows current stroke
  | device index => exact Tray.onDevice_follows current index
  | picked sel =>
      simp only [Tray.dispatch]
      split
      · exact ⟨current, .refl _ _ _⟩
      · exact Tray.controlPeer_follows current sel
  | escape =>
      simp only [Tray.dispatch]
      split
      · exact Tray.stopDriving_follows current
      · exact ⟨current, .refl _ _ _⟩
  | pump =>
      obtain ⟨pumped, steps, _⟩ := Tray.pumpMesh_follows current expected.2
      exact ⟨pumped, steps⟩
  | timer => exact Tray.onTimer_follows current expected.2
  | clipboard files text => exact Tray.onClipboard_follows current files text
  | handLink link => exact ⟨current.links _, .refl _ _ _⟩
  | setDevices devices => exact ⟨{ current with }, .refl _ _ _⟩
  | disturb address transport =>
      exact ⟨{ current with }, Tray.Steps.timeless tray.cm (.disturb address transport) rfl rfl⟩

omit [Transport τ] in
theorem init_settled (self : PeerId) (priority : List PeerId) (devices : List PairedDevice)
    (modifiers : UInt32) (key : UInt16) :
    (Tray.init τ self priority devices modifiers key).Settled works where
  released _ := rfl
  swallow := rfl
  hooked _ := rfl
  ids _ := Iff.rfl
  named := rfl
  owner driven := absurd driven Bool.false_ne_true
  driving active := absurd active Bool.false_ne_true
  installs _ driven := absurd driven Bool.false_ne_true

variable (library : CLibrary) (self : PeerId) (priority : List PeerId)
  (devices : List PairedDevice) (modifiers : UInt32) (key : UInt16) (turns : List (TrayTurn τ))

def trayAfter : Tray τ :=
  exec (trayStep library) (Tray.init τ self priority devices modifiers key) turns

def tickOf (turns : List (TrayTurn τ)) (tick : UInt64) : Prop := ∃ turn ∈ turns, turn.tick = tick

theorem trayAfter_follows :
    (trayAfter library self priority devices modifiers key turns).Settled
        (∀ turn ∈ turns, turn.hooked = true) ∧
      Leads (ConnectionTable.tableStep .releaseHeld)
        (fun action => ∀ now, Tray.timeOf action = some now → tickOf turns now)
        (Tray.init τ self priority devices modifiers key).cm
        (trayAfter library self priority devices modifiers key turns).cm :=
  exec_simulates
    (fun turn tray settled expected => (trayStep_follows turn tray settled expected).imp_right (·.leads))
    (init_settled self priority devices modifiers key)
    (along_of_forall
      (fun turn member _ => ⟨fun works => works turn member, turn, member, rfl⟩) _)

/-- Until the window is torn down, the hooks are installed only while this machine drives
a peer, it drives only while it owns input, and nothing is tracked as held once the hooks
are gone. If Windows never refuses a hook, they are installed whenever it drives. -/
theorem capture_while_driving (turns : List (TrayTurn τ)) :
    let tray := trayAfter library self priority devices modifiers key turns
    (tray.capture.installed = true → tray.driving = true) ∧
      (tray.driving = true → tray.mesh.isLocalOwner = true) ∧
      (tray.capture.installed = false → tray.mesh.node.pipeline = .init) ∧
      ((∀ turn ∈ turns, turn.hooked = true) → tray.driving = true → tray.capture.installed = true) :=
  have settled := (trayAfter_follows library self priority devices modifiers key turns).1
  ⟨settled.driving, settled.owner, settled.released, settled.installs⟩

/-- Every run of the tray, with its callbacks into the node, is a run of the
connection manager under the hook that lets the held keys go, polled only at the
ticks of the messages. -/
theorem tray_refines_manager :
    ∃ actions : List (ConnectionTable.TableAction τ),
      (∀ action ∈ actions, ∀ now, Tray.timeOf action = some now → ∃ turn ∈ turns, turn.tick = now) ∧
      (trayAfter library self priority devices modifiers key turns).cm =
        exec (ConnectionTable.tableStep .releaseHeld) (ConnectionTable.init τ self) actions := by
  have start := @Tray.Steps.timeless τ _ (tickOf turns) (ConnectionTable.init τ self)
    (.call (.setPriority priority)) rfl rfl
  exact start.leads.trans (trayAfter_follows library self priority devices modifiers key turns).2

end Skittermouse.Platform

import Skittermouse.Tray.Runs

namespace Skittermouse.Platform

open Skittermouse.Data Skittermouse.Core Skittermouse.Net Skittermouse.App

/-! # What the UI thread leaves alone

Most messages move the node, the hooks and the driving state. The devices, the
queue of links and the wake-up flow have their own few places.
-/

namespace Tray

variable {τ : Type} {tray before middle after : Tray τ} {works : Prop}

/-- Only the manager, the hooks and the driving state have moved. -/
def Untouched (before after : Tray τ) : Prop :=
  ∃ cm capture mouse driving connectedIds,
    after = { before with cm, capture, mouse, driving, connectedIds }

theorem Untouched.refl (tray : Tray τ) : Untouched tray tray := ⟨_, _, _, _, _, rfl⟩

theorem Untouched.trans (left : Untouched before middle) (right : Untouched middle after) :
    Untouched before after := by
  obtain ⟨_, _, _, _, _, rfl⟩ := left
  obtain ⟨_, _, _, _, _, rfl⟩ := right
  exact ⟨_, _, _, _, _, rfl⟩

theorem Untouched.wake (untouched : Untouched before after) : after.wake = before.wake := by
  obtain ⟨_, _, _, _, _, rfl⟩ := untouched
  rfl

theorem Untouched.pendingLinks (untouched : Untouched before after) :
    after.pendingLinks = before.pendingLinks := by
  obtain ⟨_, _, _, _, _, rfl⟩ := untouched
  rfl

theorem Follows.untouched {cm : ConnectionTable τ} (follows : Follows works before cm after) :
    Untouched before after := by
  obtain ⟨_, _, _, _, same⟩ := follows.same
  exact ⟨_, _, _, _, _, same⟩

variable [Transport τ] (library : CLibrary)

theorem syncCapture_untouched (tray : Tray τ) : Untouched tray tray.syncCapture := by
  cases owned : tray.mesh.isLocalOwner with
  | false =>
      rw [syncCapture_sink owned]
      split <;> exact ⟨_, _, _, _, _, rfl⟩
  | true =>
      rw [syncCapture_owner owned]
      split
      · exact ⟨_, _, _, _, _, rfl⟩
      · split <;> exact ⟨_, _, _, _, _, rfl⟩

theorem requestSwitchTo_untouched (tray : Tray τ) (target : PeerId) :
    ∃ wake, Untouched { tray with wake } (tray.requestSwitchTo library target) := by
  unfold requestSwitchTo
  split
  · unfold onSwitchUnavailable
    split
    · exact ⟨_, _, _, _, _, _, rfl⟩
    · split <;> exact ⟨_, _, _, _, _, _, rfl⟩
  · dsimp only
    refine ⟨tray.wake, ?_⟩
    split
    · exact Untouched.trans ⟨_, _, _, _, _, rfl⟩ (syncCapture_untouched _)
    · exact ⟨_, _, _, _, _, rfl⟩

theorem captureSink_untouched (tray : Tray τ) (event : CapturedEvent) :
    Untouched tray (tray.captureSink event) := by
  rw [captureSink_eq]
  exact ⟨_, _, _, _, _, rfl⟩

theorem answer_untouched (tray : Tray τ) (call : CaptureCall) : Untouched tray (tray.answer call) := by
  cases call with
  | sink event => exact captureSink_untouched tray event
  | onEscape => exact .refl tray

theorem onKey_untouched (tray : Tray τ) (stroke : KeyStroke) : Untouched tray (tray.onKey stroke) := by
  unfold onKey
  split
  · exact Untouched.trans ⟨_, _, _, _, _, rfl⟩
      (foldl_related Untouched.refl Untouched.trans answer_untouched _ _)
  · exact .refl tray

theorem onMouse_untouched (tray : Tray τ) (stroke : MouseStroke) :
    Untouched tray (tray.onMouse stroke) := by
  unfold onMouse
  split
  · exact Untouched.trans ⟨_, _, _, _, _, rfl⟩
      (foldl_related Untouched.refl Untouched.trans captureSink_untouched _ _)
  · exact .refl tray

theorem onClipboard_untouched (tray : Tray τ) (files : List FilePromiseItem) (text : Option Bytes) :
    Untouched tray (tray.onClipboard files text) := by
  unfold onClipboard
  split
  · exact ⟨_, _, _, _, _, rfl⟩
  · cases text <;> exact ⟨_, _, _, _, _, rfl⟩

theorem stopDriving_untouched (tray : Tray τ) : Untouched tray tray.stopDriving :=
  Untouched.trans ⟨_, _, _, _, _, rfl⟩ (syncCapture_untouched { tray with driving := false })

theorem controlPeer_untouched (tray : Tray τ) (peerId : PeerId) :
    ∃ wake, Untouched { tray with wake } (tray.controlPeer library peerId) := by
  unfold controlPeer
  split
  · exact requestSwitchTo_untouched library tray peerId
  · obtain ⟨wake, requested⟩ := requestSwitchTo_untouched library tray tray.mesh.node.self
    exact ⟨wake, requested.trans (Untouched.trans ⟨_, _, _, _, _, rfl⟩ (syncCapture_untouched _))⟩

theorem pumpMesh_untouched (settled : Settled works tray) :
    Untouched { tray with pendingLinks := [] } tray.pumpMesh := (pumpMesh_polls settled).untouched

theorem tended_untouched (settled : Settled works tray) :
    Untouched { tray with pendingLinks := [] } tray.tended := by
  have alone : Untouched tray.pumpMesh tray.pumpMesh.releaseIfAlone := by
    unfold releaseIfAlone
    split
    · exact ⟨_, _, _, _, _, rfl⟩
    · exact .refl _
  exact (pumpMesh_untouched settled).trans (alone.trans (syncCapture_untouched _))

theorem resolveWake_untouched (tray : Tray τ) :
    ∃ wake, Untouched { tray with wake } (tray.resolveWake library) := by
  unfold resolveWake
  split
  · dsimp only
    split
    · obtain ⟨_, requested⟩ := requestSwitchTo_untouched library
        { tray with wake := tray.wake.update tray.tick (tray.mesh.isPeerOnline tray.wake.target) }
        tray.wake.target
      obtain ⟨_, _, _, _, _, same⟩ := requested
      rw [same]
      exact ⟨.reset, _, _, _, _, _, rfl⟩
    · exact ⟨_, .refl _⟩
    · exact ⟨_, .refl _⟩
  · exact ⟨_, .refl _⟩

theorem resolveWake_pendingLinks (tray : Tray τ) :
    (tray.resolveWake library).pendingLinks = tray.pendingLinks :=
  (resolveWake_untouched library tray).elim fun _ resolved => resolved.pendingLinks

theorem onTimer_pendingLinks (settled : Settled works tray) :
    (tray.onTimer library).pendingLinks = [] := by
  rw [onTimer_eq, resolveWake_pendingLinks, (tended_untouched settled).pendingLinks]

end Tray

end Skittermouse.Platform

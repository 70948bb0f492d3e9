import Skittermouse.Tray.FailSafe
import Skittermouse.Tray.Frame

namespace Skittermouse.Platform

open Skittermouse.Data Skittermouse.Core Skittermouse.Net Skittermouse.App

/-! # Waking a machine up

A choice of an offline machine starts the wake-up flow, in place of one that is under
way, and the timer ends it: with a switch once the machine is back, or at the deadline.
-/

section Current

variable {π τ : Type} [LinearOrder π] [Transport τ] {host : Host π τ} {hook : OwnerHook} {now : UInt64}

end Current

def TrayMessage.chooses {τ : Type} : TrayMessage τ → Bool
  | .device _ | .picked _ => true
  | _ => false

namespace Tray

variable {τ : Type} {tray : Tray τ} {works : Prop} {within : UInt64 → Prop} {self : PeerId}

/-- The flow rests between two messages, or waits for another machine, since a
message at a time within `within`. -/
def Waits (self : PeerId) (within : UInt64 → Prop) (wake : WakeFlow) : Prop :=
  wake = .reset ∨
    wake.status = .waking ∧ wake.timeout = 45000 ∧ within wake.start ∧ wake.target ≠ self

theorem Waits.mono {wider : UInt64 → Prop} {wake : WakeFlow} (waits : Waits self within wake)
    (more : ∀ now, within now → wider now) : Waits self wider wake :=
  waits.imp_right fun ⟨status, timeout, start, other⟩ => ⟨status, timeout, more _ start, other⟩

variable [Transport τ] (library : CLibrary)

omit [Transport τ] in
/-- The flow is as it was, or has been started for a machine that is not there. -/
def Starts (tray after : Tray τ) : Prop :=
  after.wake = tray.wake ∨ ∃ id, id ≠ tray.mesh.node.self ∧ tray.mesh.isPeerOnline id = false ∧
    after.wake = .begin id tray.tick 45000

theorem requestSwitchTo_starts (tray : Tray τ) (target : PeerId) :
    tray.Starts (tray.requestSwitchTo library target) := by
  unfold requestSwitchTo
  split
  · rename_i offline
    unfold onSwitchUnavailable
    split
    · exact .inl rfl
    · split
      · exact .inr ⟨target, offline.1, offline.2, rfl⟩
      · exact .inl rfl
  · dsimp only
    split
    · exact .inl (syncCapture_untouched _).wake
    · exact .inl rfl

theorem controlPeer_starts (tray : Tray τ) (peerId : PeerId) :
    tray.Starts (tray.controlPeer library peerId) := by
  unfold controlPeer
  split
  · exact requestSwitchTo_starts library tray peerId
  · unfold Starts
    dsimp only
    rw [(syncCapture_untouched _).wake]
    exact requestSwitchTo_starts library tray tray.mesh.node.self

theorem onDevice_starts (tray : Tray τ) (index : Nat) : tray.Starts (tray.onDevice library index) := by
  unfold onDevice
  split
  · exact .inl rfl
  · split
    · exact .inl (stopDriving_untouched tray).wake
    · exact controlPeer_starts library tray _

theorem dispatch_starts (settled : Settled works tray) {message : TrayMessage τ}
    (other : message ≠ .timer) :
    (tray.dispatch library message).wake = tray.wake ∨
      message.chooses = true ∧ tray.Starts (tray.dispatch library message) := by
  cases message <;> rw [Tray.dispatch]
  case key stroke => exact .inl (onKey_untouched tray stroke).wake
  case mouse stroke => exact .inl (onMouse_untouched tray stroke).wake
  case device index => exact .inr ⟨rfl, onDevice_starts library tray index⟩
  case picked sel =>
    split
    · exact .inl rfl
    · exact .inr ⟨rfl, controlPeer_starts library tray sel⟩
  case escape =>
    split
    · exact .inl (stopDriving_untouched tray).wake
    · exact .inl rfl
  case pump => exact .inl (pumpMesh_untouched settled).wake
  case timer => exact absurd rfl other
  case clipboard files text => exact .inl (onClipboard_untouched tray files text).wake
  all_goals exact .inl rfl

omit [Transport τ] in
theorem Waits.starts (waits : Waits self within tray.wake) (timed : within tray.tick)
    (own : tray.mesh.node.self = self) {after : Tray τ} (starts : tray.Starts after) :
    Waits self within after.wake := by
  rcases starts with same | ⟨id, other, _, started⟩
  · rwa [same]
  · rw [started]
    exact .inr ⟨rfl, rfl, timed, own ▸ other⟩

omit [Transport τ] in
theorem Waits.idle (waits : Waits self within tray.wake) (rests : tray.wake.isWaking = false) :
    tray.wake = .reset :=
  waits.resolve_right fun ⟨waking, _⟩ => by
    rw [WakeFlow.isWaking, waking] at rests
    contradiction

theorem Waits.resolveWake (waits : Waits self within tray.wake) :
    Waits self within (tray.resolveWake library).wake := by
  cases waking : tray.wake.isWaking with
  | false =>
      rw [Tray.resolveWake, waking, if_neg Bool.false_ne_true]
      exact waits
  | true =>
      rw [resolveWake_eq library waking]
      split
      · exact .inl rfl
      · split
        · exact .inl rfl
        · exact waits

theorem Waits.onTimer (waits : Waits self within tray.wake) (settled : Settled works tray) :
    Waits self within (tray.onTimer library).wake := by
  rw [onTimer_eq]
  rw [← (tended_untouched settled).wake] at waits
  exact waits.resolveWake library

theorem Waits.dispatch (waits : Waits self within tray.wake) (settled : Settled works tray)
    (timed : within tray.tick) (own : tray.mesh.node.self = self) (message : TrayMessage τ) :
    Waits self within (tray.dispatch library message).wake := by
  by_cases timer : message = .timer
  · rw [timer]
    exact waits.onTimer library settled
  · rcases dispatch_starts library settled timer with same | ⟨_, starts⟩
    · rwa [same]
    · exact waits.starts timed own starts

end Tray

variable {τ : Type} [Transport τ] (library : CLibrary) (self : PeerId)
  (priority : List PeerId) (devices : List PairedDevice) (modifiers : UInt32) (key : UInt16)
  (turns : List (TrayTurn τ))

end Skittermouse.Platform

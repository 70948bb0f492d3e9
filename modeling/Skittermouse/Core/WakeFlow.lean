import Skittermouse.Core.EventTypes

namespace Skittermouse.Core

open Skittermouse.Data

/-! The "Waking…" flow of a machine that was asked to wake up: bounded by a
deadline, with the caller's clock. -/

inductive WakeStatus where
  | idle
  | waking
  | connected
  | timedOut
deriving DecidableEq

structure WakeFlow where
  status : WakeStatus
  target : PeerId
  start : UInt64
  timeout : UInt64
deriving DecidableEq

namespace WakeFlow

def init : WakeFlow := { status := .idle, target := [], start := 0, timeout := 0 }

/-- `start`; the magic packet is the caller's business. -/
def begin (target : PeerId) (now timeoutMs : UInt64) : WakeFlow :=
  { status := .waking, target, start := now, timeout := timeoutMs }

def isWaking (wake : WakeFlow) : Bool := wake.status == .waking

def update (now : UInt64) (targetOnline : Bool) (wake : WakeFlow) : WakeFlow :=
  if wake.status ≠ .waking then wake
  -- Reconnection wins over the deadline.
  else if targetOnline then { wake with status := .connected }
  else if wake.start ≤ now ∧ wake.timeout ≤ now - wake.start then { wake with status := .timedOut }
  else wake

def reset : WakeFlow := init

end WakeFlow

end Skittermouse.Core

import Skittermouse.Platform.WinCapture

namespace Skittermouse.Platform

open Skittermouse.Data

/-! # Capturing the mouse

The mouse half of the low-level hooks. While the hook swallows, the cursor is
parked in the middle of the screen and every motion is measured from there.
-/

/-- The messages a mouse hook is called with; `other` is the wheel and the X-buttons. -/
inductive MouseMessage where
  | move
  | leftDown
  | leftUp
  | rightDown
  | rightUp
  | middleDown
  | middleUp
  | other
deriving DecidableEq

/-- `MSLLHOOKSTRUCT` with the message. -/
structure MouseStroke where
  message : MouseMessage
  x : Int32
  y : Int32
  /-- `LLMHF_INJECTED`. -/
  injected : Bool
deriving DecidableEq

/-- The `SM_XVIRTUALSCREEN` family of metrics. -/
structure VirtualScreen where
  x : Int32
  y : Int32
  cx : Int32
  cy : Int32
deriving DecidableEq

structure MouseHook where
  havePt : Bool
  lastX : Int32
  lastY : Int32
  anchorX : Int32
  anchorY : Int32
deriving DecidableEq

/-- What a mouse event leads to: the calls into the sink, whether the cursor is
put back to the anchor, and whether the event is swallowed. -/
structure MouseReply where
  calls : List CapturedEvent
  recentre : Bool
  swallowed : Bool
deriving DecidableEq

def MouseMessage.button? : MouseMessage → Option (UInt8 × Bool)
  | .leftDown => some (1, true)
  | .leftUp => some (1, false)
  | .rightDown => some (2, true)
  | .rightUp => some (2, false)
  | .middleDown => some (3, true)
  | .middleUp => some (3, false)
  | .move | .other => none

def movedBy (dx dy : Int32) : CapturedEvent :=
  { kind := .mouseMove, dx, dy, code := 0, down := false }

namespace MouseHook

def init : MouseHook := { havePt := false, lastX := 0, lastY := 0, anchorX := 0, anchorY := 0 }

/-- The middle of the virtual screen; the cursor is set to it as well. -/
def anchorCursor (screen : VirtualScreen) (hook : MouseHook) : MouseHook :=
  { hook with
    anchorX := screen.x + screen.cx / 2
    anchorY := screen.y + screen.cy / 2 }

/-- The part of `start` that prepares the mouse. -/
def start (screen : VirtualScreen) (hooked swallow : Bool) (hook : MouseHook) : MouseHook :=
  let hook := { hook with havePt := false }
  if hooked && swallow then hook.anchorCursor screen else hook

def onMove (swallow : Bool) (stroke : MouseStroke) (hook : MouseHook) : MouseReply × MouseHook :=
  if swallow then
    -- our own re-centre; drop
    if stroke.injected then ({ calls := [], recentre := false, swallowed := true }, hook)
    else
      let dx := stroke.x - hook.anchorX
      let dy := stroke.y - hook.anchorY
      if dx ≠ 0 ∨ dy ≠ 0 then
        ({ calls := [movedBy dx dy], recentre := true, swallowed := true }, hook)
      else ({ calls := [], recentre := false, swallowed := true }, hook)
  else
    let dx := stroke.x - hook.lastX
    let dy := stroke.y - hook.lastY
    ({ calls := if hook.havePt ∧ (dx ≠ 0 ∨ dy ≠ 0) then [movedBy dx dy] else []
       recentre := false
       swallowed := false },
      { hook with lastX := stroke.x, lastY := stroke.y, havePt := true })

def onMouse (swallow : Bool) (stroke : MouseStroke) (hook : MouseHook) : MouseReply × MouseHook :=
  if stroke.message = .move then hook.onMove swallow stroke
  else match stroke.message.button? with
  | some (code, down) =>
      ({ calls := [{ kind := .mouseButton, dx := 0, dy := 0, code, down }]
         recentre := false
         swallowed := swallow }, hook)
  -- wheel / X-buttons: consume locally, not forwarded yet
  | none => ({ calls := [], recentre := false, swallowed := swallow }, hook)

end MouseHook

end Skittermouse.Platform

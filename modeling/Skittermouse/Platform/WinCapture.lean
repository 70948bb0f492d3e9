import Skittermouse.Data.Words

namespace Skittermouse.Platform

/-! # Capturing the keyboard

The low-level keyboard hook of a machine that drives another one. Every key
event passes `onKey`, which forwards it or takes it for the reclaim chord, and
says whether this machine gets to see it.
-/

def hotkeyModAlt : UInt32 := 0x0001
def hotkeyModControl : UInt32 := 0x0002
def hotkeyModShift : UInt32 := 0x0004
def hotkeyModWin : UInt32 := 0x0008

def vkShift : UInt32 := 0x10
def vkControl : UInt32 := 0x11
def vkMenu : UInt32 := 0x12
def vkLWin : UInt32 := 0x5B
def vkRWin : UInt32 := 0x5C
def vkLShift : UInt32 := 0xA0
def vkRShift : UInt32 := 0xA1
def vkLControl : UInt32 := 0xA2
def vkRControl : UInt32 := 0xA3
def vkLMenu : UInt32 := 0xA4
def vkRMenu : UInt32 := 0xA5

inductive KeyMessage where
  | keyDown
  | keyUp
  | sysKeyDown
  | sysKeyUp
deriving DecidableEq

structure KeyStroke where
  message : KeyMessage
  vkCode : UInt32
deriving DecidableEq

def KeyStroke.down (stroke : KeyStroke) : Bool :=
  stroke.message == .keyDown || stroke.message == .sysKeyDown

inductive CapturedKind where
  | mouseMove
  | mouseButton
  | key
deriving DecidableEq

structure CapturedEvent where
  kind : CapturedKind
  dx : Int32
  dy : Int32
  code : UInt8
  down : Bool
deriving DecidableEq

/-- The calls the hook makes: into the sink, and the reclaim callback. -/
inductive CaptureCall where
  | sink (event : CapturedEvent)
  | onEscape
deriving DecidableEq

structure WinCapture where
  installed : Bool
  swallow : Bool
  escMods : UInt32
  escKey : UInt16
  onEscape : Bool
  ctrl : Bool
  alt : Bool
  shift : Bool
  win : Bool
deriving DecidableEq

namespace WinCapture

def init : WinCapture :=
  { installed := false, swallow := false, escMods := 0, escKey := 0, onEscape := false,
    ctrl := false, alt := false, shift := false, win := false }

def stop (capture : WinCapture) : WinCapture := { capture with installed := false }

/-- `hooked` tells whether both hooks could be set. -/
def start (hooked : Bool) (capture : WinCapture) : Bool × WinCapture :=
  if capture.installed then (true, capture)
  else
    let capture : WinCapture :=
      { capture with ctrl := false, alt := false, shift := false, win := false, installed := hooked }
    if !hooked then (false, capture.stop) else (true, capture)

def setSwallow (swallow : Bool) (capture : WinCapture) : WinCapture := { capture with swallow }

def setEscape (modifiers : UInt32) (key : UInt16) (onEscape : Bool) (capture : WinCapture) :
    WinCapture :=
  { capture with escMods := modifiers, escKey := key, onEscape }

def updateModifier (vk : UInt32) (down : Bool) (capture : WinCapture) : WinCapture :=
  if vk = vkLControl ∨ vk = vkRControl ∨ vk = vkControl then { capture with ctrl := down }
  else if vk = vkLMenu ∨ vk = vkRMenu ∨ vk = vkMenu then { capture with alt := down }
  else if vk = vkLShift ∨ vk = vkRShift ∨ vk = vkShift then { capture with shift := down }
  else if vk = vkLWin ∨ vk = vkRWin then { capture with win := down }
  else capture

def need (capture : WinCapture) (flag : UInt32) : Bool := capture.escMods &&& flag != 0

def modifiersMatch (capture : WinCapture) : Bool :=
  capture.ctrl == capture.need hotkeyModControl && capture.alt == capture.need hotkeyModAlt &&
    capture.shift == capture.need hotkeyModShift && capture.win == capture.need hotkeyModWin

/-- The calls made, whether the event is swallowed, and the state afterwards. -/
def onKey (stroke : KeyStroke) (capture : WinCapture) : List CaptureCall × Bool × WinCapture :=
  let down := stroke.down
  let capture := capture.updateModifier stroke.vkCode down
  -- The one combination that is never forwarded and always swallowed.
  if down && capture.escKey != 0 && stroke.vkCode == capture.escKey.toUInt32 &&
      capture.modifiersMatch then
    (if capture.onEscape then [.onEscape] else [], true, capture)
  else
    ([.sink { kind := .key, dx := 0, dy := 0, code := stroke.vkCode.toUInt8, down }],
      capture.swallow, capture)

end WinCapture

end Skittermouse.Platform

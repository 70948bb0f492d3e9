import Mathlib.Data.List.DropRight
import Skittermouse.Core.Config
import Skittermouse.Platform.WinCapture

namespace Skittermouse.Core

open Skittermouse.Data Skittermouse.Platform

structure Hotkey where
  modifiers : UInt32
  key : UInt16
  valid : Bool
deriving DecidableEq

def Hotkey.init : Hotkey := { modifiers := 0, key := 0, valid := false }

def lowerChar (c : UInt8) : UInt8 := if 0x41 ≤ c && c ≤ 0x5A then c - 0x41 + 0x61 else c

def lower (s : Bytes) : Bytes := s.map lowerChar

def isBlank (c : UInt8) : Bool := c == 0x20 || c == 0x09

def trim (s : Bytes) : Bytes := (s.dropWhile isBlank).rdropWhile isBlank

/-- The names that the parser compares a token with, and the flag each stands for. -/
def modifierNames : List (String × UInt32) :=
  [("ctrl", hotkeyModControl), ("control", hotkeyModControl),
    ("alt", hotkeyModAlt), ("option", hotkeyModAlt), ("opt", hotkeyModAlt),
    ("shift", hotkeyModShift),
    ("win", hotkeyModWin), ("cmd", hotkeyModWin), ("super", hotkeyModWin), ("meta", hotkeyModWin)]

/-- The named keys and their virtual-key codes. -/
def keyNames : List (String × UInt16) :=
  [("space", 0x20), ("enter", 0x0D), ("return", 0x0D), ("tab", 0x09), ("esc", 0x1B),
    ("escape", 0x1B), ("backspace", 0x08), ("delete", 0x2E), ("del", 0x2E), ("insert", 0x2D),
    ("ins", 0x2D), ("home", 0x24), ("end", 0x23), ("pageup", 0x21), ("pgup", 0x21),
    ("pagedown", 0x22), ("pgdn", 0x22), ("left", 0x25), ("up", 0x26), ("right", 0x27),
    ("down", 0x28)]

def named (names : List (String × α)) (t : Bytes) : Option α :=
  (names.find? fun entry => textOf entry.1 == t).map Prod.snd

def letterOrDigit : Bytes → Option UInt16
  | [c] =>
      if 0x61 ≤ c && c ≤ 0x7A then some (UInt16.ofNat (0x41 + (c.toNat - 0x61)))
      else if isDigit c then some (UInt16.ofNat (0x30 + digitOf c))
      else none
  | _ => none

def kIntMax : Nat := 2 ^ 31 - 1

/-- The number behind an `f`, summed up in an `int`: nothing at all where the sum
leaves its range, which the language leaves undefined, and no number where
something else stands among the digits. -/
def functionNumberFrom (n : Nat) : Bytes → Option (Option Nat)
  | [] => some (some n)
  | c :: rest =>
      if !isDigit c then some none
      else if n * 10 + digitOf c ≤ kIntMax then functionNumberFrom (n * 10 + digitOf c) rest
      else none

def functionKey (number : Option Nat) : UInt16 :=
  match number with
  | some n => if 1 ≤ n ∧ n ≤ 24 then UInt16.ofNat (0x70 + (n - 1)) else 0
  | none => 0

/-- The virtual-key code of a token that is no modifier, 0 if it is not recognized. -/
def keyFor (t : Bytes) : Option UInt16 :=
  match letterOrDigit t, named keyNames t, t with
  | some vk, _, _ => some vk
  | none, some vk, _ => some vk
  | none, none, first :: second :: rest =>
      if first = 0x66 then (functionNumberFrom 0 (second :: rest)).map functionKey else some 0
  | none, none, _ => some 0

/-- The loop over the tokens. A blank or unknown token, and a second key, are no hotkey. -/
def parseTokens (hk : Hotkey) (haveKey : Bool) : List Bytes → Option Hotkey
  | [] => some { hk with valid := haveKey }
  | raw :: rest =>
      let t := lower (trim raw)
      if t = [] then some .init
      else match named modifierNames t with
        | some flag => parseTokens { hk with modifiers := hk.modifiers ||| flag } haveKey rest
        | none => match keyFor t with
          | none => none
          | some vk =>
              if vk = 0 then some .init
              else if haveKey then some .init
              else parseTokens { hk with key := vk } true rest

/-- Nothing where the number of a function key overflows. -/
def parseHotkey (s : Bytes) : Option Hotkey := parseTokens .init false (s.splitOn plusSign)

end Skittermouse.Core

import Skittermouse.Core.EventTypes
import Skittermouse.Data.Decimal

namespace Skittermouse.Core

open Skittermouse.Data

/-! # The configuration file

Paired devices, the coordinator's priority list, the layout and the settings,
and the lines of text they are stored in.
-/

def textOf (text : String) : Bytes := text.toList.map fun letter => UInt8.ofNat letter.toNat

def backslash : UInt8 := 0x5C
def pipe : UInt8 := 0x7C
def lineFeed : UInt8 := 0x0A
def carriageReturn : UInt8 := 0x0D
def equalsSign : UInt8 := 0x3D
def hashSign : UInt8 := 0x23

def escChar (c : UInt8) : Bytes :=
  if c = backslash then textOf "\\\\"
  else if c = pipe then textOf "\\p"
  else if c = lineFeed then textOf "\\n"
  else if c = carriageReturn then textOf "\\r"
  else [c]

def esc (s : Bytes) : Bytes := s.flatMap escChar

/-- What a backslash in front of the character stands for; an unknown escape
keeps the character. -/
def unescChar (n : UInt8) : UInt8 :=
  if n = backslash then backslash
  else if n = 0x70 then pipe
  else if n = 0x6E then lineFeed
  else if n = 0x72 then carriageReturn
  else n

def unesc : Bytes → Bytes
  | [] => []
  | [c] => [c]
  | c :: n :: rest => if c = backslash then unescChar n :: unesc rest else c :: unesc (n :: rest)

def joinFields (fields : List Bytes) : Bytes := [pipe].intercalate (fields.map esc)

/-- An empty value has no fields. -/
def splitFields (s : Bytes) : List Bytes :=
  if s = [] then [] else (s.splitOn pipe).map unesc

def stripReturn (line : Bytes) : Bytes :=
  if line.getLast? = some carriageReturn then line.dropLast else line

/-- `cur` is the line read so far. What stands behind the last line feed is a
line when there is anything. -/
def splitLinesFrom (cur : Bytes) : Bytes → List Bytes
  | [] => if cur = [] then [] else [stripReturn cur]
  | c :: rest =>
      if c = lineFeed then stripReturn cur :: splitLinesFrom [] rest
      else splitLinesFrom (cur ++ [c]) rest

def splitLines (text : Bytes) : List Bytes := splitLinesFrom [] text

/-- The product runs on Windows, where `long` has 32 bits, and elsewhere, where
it has 64. -/
inductive Platform where
  | windows
  | elsewhere
deriving DecidableEq

def Platform.longBits : Platform → Nat
  | .windows => 32
  | .elsewhere => 64

def toU16From (v : Nat) : Bytes → UInt16
  | [] => UInt16.ofNat v
  | c :: rest =>
      if !isDigit c then UInt16.ofNat v
      else if v * 10 + digitOf c > 65535 then 65535
      else toU16From (v * 10 + digitOf c) rest

def toU16 (s : Bytes) : UInt16 := toU16From 0 s

/-- The leading digits as a `long`; nothing where the sum leaves its range,
which the language leaves undefined. -/
def toLongFrom (platform : Platform) (v : Nat) : Bytes → Option Nat
  | [] => some v
  | c :: rest =>
      if !isDigit c then some v
      else if v * 10 + digitOf c < 2 ^ (platform.longBits - 1) then
        toLongFrom platform (v * 10 + digitOf c) rest
      else none

def toI32 (platform : Platform) (s : Bytes) : Option Int32 :=
  match s with
  | [] => some 0
  | c :: rest =>
      if c = minusSign then (toLongFrom platform 0 rest).map fun v : Nat => Int32.ofInt (-(v : Int))
      else if c = plusSign then (toLongFrom platform 0 rest).map fun v : Nat => Int32.ofInt v
      else (toLongFrom platform 0 s).map fun v : Nat => Int32.ofInt v

/-- `std::to_string`. -/
def decimalInt (x : Int) : Bytes :=
  if x < 0 then minusSign :: decimal x.natAbs else decimal x.natAbs

structure PairedDevice where
  id : PeerId
  name : Bytes
  lastIp : Bytes
  port : UInt16
  os : Bytes
  wolCapable : Bool
  mac : Bytes
deriving DecidableEq

structure LayoutMonitor where
  machineId : PeerId
  monitorIndex : Int32
  x : Int32
  y : Int32
  w : Int32
  h : Int32
deriving DecidableEq

structure Settings where
  hotkey : Bytes
  broadcastPresence : Bool
  lockPropagationOptin : Bool
  runOnStartup : Bool
deriving DecidableEq

def Settings.init : Settings where
  hotkey := textOf "Ctrl+Alt+Space"
  broadcastPresence := true
  lockPropagationOptin := false
  runOnStartup := false

structure Config where
  settings : Settings
  devices : List PairedDevice
  priority : List PeerId
  ineligible : List PeerId
  monitors : List LayoutMonitor
deriving DecidableEq

namespace Config

def init : Config :=
  { settings := .init, devices := [], priority := [], ineligible := [], monitors := [] }

def flagText (flag : Bool) : Bytes := if flag then textOf "1" else textOf "0"

def line (key : String) (value : Bytes) : Bytes := textOf key ++ equalsSign :: value

def deviceLine (d : PairedDevice) : Bytes :=
  line "device" (joinFields [d.id, d.name, d.lastIp, decimal d.port.toNat, d.os,
    flagText d.wolCapable, d.mac])

def monitorLine (m : LayoutMonitor) : Bytes :=
  line "monitor" (joinFields [m.machineId, decimalInt m.monitorIndex.toInt, decimalInt m.x.toInt,
    decimalInt m.y.toInt, decimalInt m.w.toInt, decimalInt m.h.toInt])

def lines (c : Config) : List Bytes :=
  [textOf "# Skittermouse config", line "version" (textOf "1"),
    line "setting.hotkey" (esc c.settings.hotkey),
    line "setting.broadcast" (flagText c.settings.broadcastPresence),
    line "setting.lock_optin" (flagText c.settings.lockPropagationOptin),
    line "setting.run_on_startup" (flagText c.settings.runOnStartup)] ++
  c.devices.map deviceLine ++
  [line "priority" (joinFields c.priority), line "ineligible" (joinFields c.ineligible)] ++
  c.monitors.map monitorLine

def serialize (c : Config) : Bytes := c.lines.flatMap fun line => line ++ [lineFeed]

def parseDevice (f : List Bytes) : PairedDevice :=
  { id := f.getD 0 []
    name := f.getD 1 []
    lastIp := f.getD 2 []
    port := (f[3]?.map toU16).getD 0
    os := f.getD 4 []
    wolCapable := f[5]? == some (textOf "1")
    mac := f.getD 6 [] }

def coordinate (platform : Platform) : Option Bytes → Option Int32
  | none => some 0
  | some field => toI32 platform field

def parseMonitor (platform : Platform) (f : List Bytes) : Option LayoutMonitor := do
  let monitorIndex ← coordinate platform f[1]?
  let x ← coordinate platform f[2]?
  let y ← coordinate platform f[3]?
  let w ← coordinate platform f[4]?
  let h ← coordinate platform f[5]?
  return { machineId := f.getD 0 [], monitorIndex, x, y, w, h }

/-- The value of one known key; unknown keys are ignored. -/
def parseValue (platform : Platform) (c : Config) (key val : Bytes) : Option Config :=
  if key = textOf "setting.hotkey" then
    some { c with settings := { c.settings with hotkey := unesc val } }
  else if key = textOf "setting.broadcast" then
    some { c with settings := { c.settings with broadcastPresence := val == textOf "1" } }
  else if key = textOf "setting.lock_optin" then
    some { c with settings := { c.settings with lockPropagationOptin := val == textOf "1" } }
  else if key = textOf "setting.run_on_startup" then
    some { c with settings := { c.settings with runOnStartup := val == textOf "1" } }
  else if key = textOf "device" then
    some { c with devices := c.devices ++ [parseDevice (splitFields val)] }
  else if key = textOf "priority" then some { c with priority := splitFields val }
  else if key = textOf "ineligible" then some { c with ineligible := splitFields val }
  else if key = textOf "monitor" then
    (parseMonitor platform (splitFields val)).map fun m => { c with monitors := c.monitors ++ [m] }
  else some c

/-- Blank lines, comments and lines without an equals sign are skipped. -/
def parseLine (platform : Platform) (c : Config) (line : Bytes) : Option Config :=
  if line.head? = none ∨ line.head? = some hashSign ∨ equalsSign ∉ line then some c
  else parseValue platform c (line.takeWhile (· ≠ equalsSign))
    ((line.dropWhile (· ≠ equalsSign)).drop 1)

/-- Nothing where a number of the text overflows. -/
def parse (platform : Platform) (text : Bytes) : Option Config :=
  (splitLines text).foldlM (parseLine platform) init

def addDevice (c : Config) (d : PairedDevice) : Config :=
  let devices :=
    if c.devices.any (·.id == d.id) then
      -- The first device with the id is replaced.
      c.devices.modify (c.devices.findIdx (·.id == d.id)) fun _ => d
    else c.devices ++ [d]
  let priority :=
    if d.id ∉ c.priority ∧ d.id ∉ c.ineligible then c.priority ++ [d.id] else c.priority
  { c with devices, priority }

def findDevice (c : Config) (id : PeerId) : Option PairedDevice :=
  c.devices.find? fun d => d.id == id

end Config

end Skittermouse.Core

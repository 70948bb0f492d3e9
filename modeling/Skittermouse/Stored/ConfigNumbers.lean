import Skittermouse.Stored.ConfigText

namespace Skittermouse.Stored

open Skittermouse.Data Skittermouse.Core

/-! # The numbers of a configuration

Ports and coordinates are read digit by digit into a `long`, whose width depends
on the platform. One reader stops as soon as the port is known to be too large,
the other goes on to the last digit.
-/

def leadingNumber (s : Bytes) : Nat := decimalValue 0 (s.takeWhile isDigit)

def leadingInteger : Bytes → Int
  | [] => 0
  | c :: rest =>
      if c = minusSign then -(leadingNumber rest : Int)
      else if c = plusSign then leadingNumber rest
      else leadingNumber (c :: rest)

def clamped (field : Bytes) : UInt16 := UInt16.ofNat (min (leadingNumber field) 65535)

def reduced (field : Bytes) : Int32 := Int32.ofInt (leadingInteger field)

/-- `toU16`, or nothing where its sum leaves the range of an `unsigned long`. -/
def toU16WithinFrom (platform : Platform) (v : Nat) : Bytes → Option UInt16
  | [] => some (UInt16.ofNat v)
  | c :: rest =>
      if !isDigit c then some (UInt16.ofNat v)
      else if v * 10 + digitOf c < 2 ^ platform.longBits then
        if v * 10 + digitOf c > 65535 then some 65535
        else toU16WithinFrom platform (v * 10 + digitOf c) rest
      else none

def toU16Within (platform : Platform) (s : Bytes) : Option UInt16 := toU16WithinFrom platform 0 s

def valueOf (key : String) (line : Bytes) : Option Bytes :=
  if line.head? = none ∨ line.head? = some hashSign ∨ equalsSign ∉ line then none
  else if line.takeWhile (· ≠ equalsSign) = textOf key then
    some ((line.dropWhile (· ≠ equalsSign)).drop 1)
  else none

def fieldsIn (key : String) (lines : List Bytes) : List (List Bytes) :=
  lines.filterMap fun line => (valueOf key line).map splitFields

def fieldsOf (key : String) (text : Bytes) : List (List Bytes) := fieldsIn key (splitLines text)

def portFields (text : Bytes) : List Bytes := (fieldsOf "device" text).filterMap fun f => f[3]?

def coordinatePlaces : List Nat := [1, 2, 3, 4, 5]

def coordinatesIn (f : List Bytes) : List Bytes := coordinatePlaces.filterMap fun place => f[place]?

def coordinateFields (text : Bytes) : List Bytes := (fieldsOf "monitor" text).flatMap coordinatesIn

def portIn (f : List Bytes) : UInt16 := (f[3]?.map clamped).getD 0

def numbersIn (f : List Bytes) : List Int32 :=
  coordinatePlaces.map fun place => (f[place]?.map reduced).getD 0

def coordinatesOf (m : LayoutMonitor) : List Int32 := [m.monitorIndex, m.x, m.y, m.w, m.h]

/-- Both platforms read the same configuration, without leaving the range of a
type, and its numbers are the leading numbers of their fields, clamped or reduced. -/
structure NumbersRead (text : Bytes) (c : Config) : Prop where
  everywhere : ∀ platform, Config.parse platform text = some c
  portsWithin : ∀ platform, ∀ field ∈ portFields text,
    toU16Within platform field = some (clamped field)
  coordinatesWithin : ∀ platform, ∀ field ∈ coordinateFields text,
    toI32 platform field = some (reduced field)
  ports : c.devices.map PairedDevice.port = (fieldsOf "device" text).map portIn
  coordinates : c.monitors.map coordinatesOf = (fieldsOf "monitor" text).map numbersIn

variable {platform : Platform} {v : Nat} {s : Bytes}

theorem toU16WithinFrom_some (small : v ≤ 65535) :
    toU16WithinFrom platform v s = some (toU16From v s) := by
  have wide : 2 ^ 32 ≤ 2 ^ platform.longBits := by
    cases platform <;> decide
  induction s generalizing v with
  | nil => rfl
  | cons c rest ih =>
      have single : digitOf c < 256 := (Nat.sub_le _ _).trans_lt c.toNat_lt
      rw [toU16WithinFrom, toU16From, if_pos (by omega : v * 10 + digitOf c < _)]
      split
      · rfl
      · split
        · rfl
        · rename_i still
          exact ih (not_lt.mp still)

theorem toU16From_clamps (small : v ≤ 65535) :
    toU16From v s = UInt16.ofNat (min (decimalValue v (s.takeWhile isDigit)) 65535) := by
  induction s generalizing v with
  | nil => rw [toU16From, List.takeWhile_nil, decimalValue_nil, min_eq_left small]
  | cons c rest ih =>
      rw [toU16From, List.takeWhile_cons]
      cases digit : isDigit c with
      | false => simp [min_eq_left small]
      | true =>
          rw [if_neg (by simp), if_pos rfl, decimalValue_cons]
          split
          · rename_i beyond
            have grows := le_decimalValue (v * 10 + digitOf c) (rest.takeWhile isDigit)
            rw [min_eq_right (by omega)]
            rfl
          · rename_i still
            exact ih (not_lt.mp still)

theorem toU16_clamped (s : Bytes) : toU16 s = clamped s := toU16From_clamps (Nat.zero_le _)

theorem toU16Within_clamped (platform : Platform) (s : Bytes) :
    toU16Within platform s = some (clamped s) := by
  rw [toU16Within, toU16WithinFrom_some (Nat.zero_le _), ← toU16, toU16_clamped]

theorem toLongFrom_takeWhile :
    toLongFrom platform v s = toLongFrom platform v (s.takeWhile isDigit) := by
  induction s generalizing v with
  | nil => rfl
  | cons c rest ih =>
      rw [toLongFrom, List.takeWhile_cons]
      cases digit : isDigit c with
      | false => simp [toLongFrom]
      | true => simp [toLongFrom, digit, ih]

theorem toLongFrom_leading : toLongFrom platform 0 s =
    if leadingNumber s < 2 ^ (platform.longBits - 1) then some (leadingNumber s) else none := by
  rw [toLongFrom_takeWhile, toLongFrom_eq (Nat.two_pow_pos _) (List.all_eq_true.mp List.all_takeWhile)]
  rfl

theorem toI32_leading (platform : Platform) (s : Bytes) : toI32 platform s =
    if (leadingInteger s).natAbs < 2 ^ (platform.longBits - 1) then some (reduced s) else none := by
  cases s with
  | nil => exact (if_pos (Nat.two_pow_pos _)).symm
  | cons c rest =>
      rw [toI32, reduced, leadingInteger, toLongFrom_leading, toLongFrom_leading]
      split
      · rw [Int.natAbs_neg, Int.natAbs_natCast, apply_ite (Option.map _), Option.map_some,
          Option.map_none]
      · split
        · rw [Int.natAbs_natCast, apply_ite (Option.map _), Option.map_some, Option.map_none]
        · rw [Int.natAbs_natCast, apply_ite (Option.map _), Option.map_some, Option.map_none]

def Small (field : Bytes) : Prop := (leadingInteger field).natAbs < 2 ^ 31

theorem Small.reads {field : Bytes} (small : Small field) (platform : Platform) :
    toI32 platform field = some (reduced field) := by
  rw [Small] at small
  rw [toI32_leading, if_pos]
  cases platform with
  | windows => exact small
  | elsewhere => exact small.trans (by decide)

theorem small_of_windows {field : Bytes} {x : Int32} (read : toI32 .windows field = some x) :
    Small field := by
  rw [toI32_leading] at read
  split at read
  · rename_i small
    exact small
  · contradiction

theorem parseMonitor_reads {f : List Bytes} (small : ∀ field ∈ coordinatesIn f, Small field) :
    ∃ m, (∀ platform, Config.parseMonitor platform f = some m) ∧ coordinatesOf m = numbersIn f := by
  have read (platform : Platform) (place : Nat) (listed : place ∈ coordinatePlaces) :
      Config.coordinate platform f[place]? = some ((f[place]?.map reduced).getD 0) := by
    cases there : f[place]? with
    | none => rfl
    | some field =>
        exact (small field (List.mem_filterMap.mpr ⟨place, listed, there⟩)).reads platform
  refine ⟨⟨f.getD 0 [], (f[1]?.map reduced).getD 0, (f[2]?.map reduced).getD 0,
    (f[3]?.map reduced).getD 0, (f[4]?.map reduced).getD 0, (f[5]?.map reduced).getD 0⟩,
    fun platform => ?_, rfl⟩
  rw [Config.parseMonitor, read platform 1 (by decide), read platform 2 (by decide),
    read platform 3 (by decide), read platform 4 (by decide), read platform 5 (by decide)]
  rfl

/-- The lines lead from one configuration to another on both platforms, and add
the numbers of their fields. -/
structure Reads (c : Config) (lines : List Bytes) (next : Config) : Prop where
  everywhere : ∀ platform, lines.foldlM (Config.parseLine platform) c = some next
  ports : next.devices.map PairedDevice.port =
    c.devices.map PairedDevice.port ++ (fieldsIn "device" lines).map portIn
  coordinates : next.monitors.map coordinatesOf =
    c.monitors.map coordinatesOf ++ (fieldsIn "monitor" lines).map numbersIn

theorem parseValue_other (c : Config) {key : Bytes} (val : Bytes) (noDevice : key ≠ textOf "device")
    (noMonitor : key ≠ textOf "monitor") :
    ∃ next, (∀ platform, Config.parseValue platform c key val = some next) ∧
      next.devices = c.devices ∧ next.monitors = c.monitors := by
  simp only [Config.parseValue, if_neg noDevice, if_neg noMonitor]
  split_ifs
  all_goals exact ⟨_, fun _ => rfl, rfl, rfl⟩

theorem parseLine_cases (line : Bytes) :
    ((∀ name, fieldsIn name [line] = []) ∧
        ∀ platform c, Config.parseLine platform c line = some c) ∨
      ∃ key val,
        (∀ name, fieldsIn name [line] = if key = textOf name then [splitFields val] else []) ∧
          ∀ platform c, Config.parseLine platform c line = Config.parseValue platform c key val := by
  have single (name : String) : fieldsIn name [line] =
      ((valueOf name line).map splitFields).toList := by
    rw [fieldsIn, List.filterMap_cons, List.filterMap_nil]
    cases valueOf name line <;> rfl
  by_cases skipped : line.head? = none ∨ line.head? = some hashSign ∨ equalsSign ∉ line
  · left
    constructor
    · intro name
      rw [single, valueOf, if_pos skipped]
      rfl
    · intro platform c
      rw [Config.parseLine, if_pos skipped]
  · right
    refine ⟨line.takeWhile (· ≠ equalsSign), (line.dropWhile (· ≠ equalsSign)).drop 1, ?_, ?_⟩
    · intro name
      rw [single, valueOf, if_neg skipped]
      split_ifs
      · rfl
      · rfl
    · intro platform c
      rw [Config.parseLine, if_neg skipped]

theorem parseLine_reads (c : Config) {line : Bytes}
    (small : ∀ f ∈ fieldsIn "monitor" [line], ∀ field ∈ coordinatesIn f, Small field) :
    ∃ next, Reads c [line] next := by
  have parse (platform : Platform) :
      [line].foldlM (Config.parseLine platform) c = Config.parseLine platform c line := by
    rw [List.foldlM_cons]
    simp
  rcases parseLine_cases line with ⟨nothing, skip⟩ | ⟨key, val, fields, value⟩
  · refine ⟨c, fun platform => ?_, ?_, ?_⟩
    · rw [parse, skip]
    · rw [nothing, List.map_nil, List.append_nil]
    · rw [nothing, List.map_nil, List.append_nil]
  · by_cases device : key = textOf "device"
    · have noMonitor : key ≠ textOf "monitor" := by
        rw [device]
        decide
      refine ⟨{ c with devices := c.devices ++ [Config.parseDevice (splitFields val)] },
        fun platform => ?_, ?_, ?_⟩
      · rw [parse, value, device, parseValue_device]
      · rw [fields, if_pos device, List.map_append, List.map_singleton, List.map_singleton, portIn,
          Config.parseDevice, funext toU16_clamped]
      · rw [fields, if_neg noMonitor, List.map_nil, List.append_nil]
    · by_cases monitor : key = textOf "monitor"
      · rw [fields, if_pos monitor] at small
        obtain ⟨m, read, numbers⟩ := parseMonitor_reads (small _ List.mem_cons_self)
        refine ⟨{ c with monitors := c.monitors ++ [m] }, fun platform => ?_, ?_, ?_⟩
        · rw [parse, value, monitor, parseValue_monitor, read, Option.map_some]
        · rw [fields, if_neg device, List.map_nil, List.append_nil]
        · rw [fields, if_pos monitor, List.map_append, List.map_singleton, List.map_singleton, numbers]
      · obtain ⟨next, read, devices, monitors⟩ := parseValue_other c val device monitor
        refine ⟨next, fun platform => ?_, ?_, ?_⟩
        · rw [parse, value, read]
        · rw [fields, if_neg device, List.map_nil, List.append_nil, devices]
        · rw [fields, if_neg monitor, List.map_nil, List.append_nil, monitors]

theorem fieldsIn_append (key : String) (front behind : List Bytes) :
    fieldsIn key (front ++ behind) = fieldsIn key front ++ fieldsIn key behind := by
  rw [fieldsIn, List.filterMap_append, fieldsIn, fieldsIn]

theorem Reads.trans {c middle last : Config} {front behind : List Bytes}
    (first : Reads c front middle) (second : Reads middle behind last) :
    Reads c (front ++ behind) last where
  everywhere platform := by
    rw [List.foldlM_append, first.everywhere platform, Option.bind_eq_bind, Option.bind_some,
      second.everywhere platform]
  ports := by
    rw [second.ports, first.ports, fieldsIn_append, List.map_append, List.append_assoc]
  coordinates := by
    rw [second.coordinates, first.coordinates, fieldsIn_append, List.map_append, List.append_assoc]

theorem lines_read (c : Config) {lines : List Bytes}
    (small : ∀ f ∈ fieldsIn "monitor" lines, ∀ field ∈ coordinatesIn f, Small field) :
    ∃ next, Reads c lines next := by
  induction lines generalizing c with
  | nil =>
      refine ⟨c, fun _ => rfl, ?_, ?_⟩
      · simp [fieldsIn]
      · simp [fieldsIn]
  | cons line lines ih =>
      rw [← List.singleton_append, fieldsIn_append] at small
      obtain ⟨next, first⟩ := parseLine_reads c fun f member =>
        small f (List.mem_append_left _ member)
      obtain ⟨last, others⟩ := ih next fun f member => small f (List.mem_append_right _ member)
      exact ⟨last, first.trans others⟩

/-- The numbers of a text are read alike on both platforms, without an overflow,
exactly when every coordinate in it begins with a number of at most 31 bits. -/
theorem numbers_read_iff (text : Bytes) : (∃ c, NumbersRead text c) ↔
    ∀ field ∈ coordinateFields text, (leadingInteger field).natAbs < 2 ^ 31 := by
  constructor
  · rintro ⟨c, read⟩ field member
    exact small_of_windows (read.coordinatesWithin .windows field member)
  · intro small
    have within : ∀ f ∈ fieldsOf "monitor" text, ∀ field ∈ coordinatesIn f, Small field :=
      fun f member field listed => small field (List.mem_flatMap.mpr ⟨f, member, listed⟩)
    obtain ⟨c, read⟩ := lines_read .init within
    exact ⟨c, {
      everywhere := read.everywhere
      portsWithin := fun platform field _ => toU16Within_clamped platform field
      coordinatesWithin := fun platform field member => Small.reads (small field member) platform
      ports := read.ports
      coordinates := read.coordinates }⟩

def leftmost : Config := { Config.init with monitors := [⟨textOf "m", 0, -2147483648, 0, 1, 1⟩] }

/-- What is written for it overflows when Windows reads it. -/
theorem leftmost_overflows : Config.parse .windows leftmost.serialize = none ∧
    ¬ ∃ c, NumbersRead leftmost.serialize c := by
  have overflow : Config.parse .windows leftmost.serialize = none := by decide
  refine ⟨overflow, ?_⟩
  rintro ⟨c, read⟩
  have parsed := read.everywhere .windows
  rw [overflow] at parsed
  contradiction

end Skittermouse.Stored

import Skittermouse.Core.Config

namespace Skittermouse.Stored

open Skittermouse.Data Skittermouse.Core

/-! # The text of a configuration

Escaping, fields, lines, keys and numbers undone one after another. A field may
hold any bytes; escaped it has no separator and no line end.
-/

variable {platform : Platform} {c : Config} {s rest : Bytes} {fields : List Bytes} {b : UInt8}

theorem unesc_escChar (c : UInt8) (rest : Bytes) : unesc (escChar c ++ rest) = c :: unesc rest := by
  have escape (n : UInt8) : unesc (backslash :: n :: rest) = unescChar n :: unesc rest := by
    rw [unesc, if_pos rfl]
  unfold escChar
  split
  · rename_i same
    subst same
    exact escape backslash
  · rename_i plain
    split
    · rename_i same
      subst same
      exact escape 0x70
    · split
      · rename_i same
        subst same
        exact escape 0x6E
      · split
        · rename_i same
          subst same
          exact escape 0x72
        · cases rest with
          | nil => rfl
          | cons n rest => rw [List.singleton_append, unesc, if_neg plain]

theorem unesc_esc (s : Bytes) : unesc (esc s) = s := by
  induction s with
  | nil => rfl
  | cons c s ih => rw [esc, List.flatMap_cons, unesc_escChar, ← esc, ih]

def Plain (b : UInt8) : Prop := b ≠ pipe ∧ b ≠ lineFeed ∧ b ≠ carriageReturn

instance (b : UInt8) : Decidable (Plain b) := inferInstanceAs (Decidable (_ ∧ _))

theorem escape_plain {code : UInt8} (plain : Plain code) : ∀ b ∈ [backslash, code], Plain b := by
  intro b member
  rcases List.mem_cons.mp member with rfl | last
  · decide
  · rw [List.mem_singleton.mp last]
    exact plain

theorem escChar_plain (c : UInt8) : ∀ b ∈ escChar c, Plain b := by
  unfold escChar
  split
  · exact escape_plain (by decide)
  · split
    · exact escape_plain (by decide)
    · split
      · exact escape_plain (by decide)
      · split
        · exact escape_plain (by decide)
        · rename_i noPipe noFeed noReturn
          intro b member
          rw [List.mem_singleton] at member
          exact member ▸ ⟨noPipe, noFeed, noReturn⟩

theorem esc_plain (s : Bytes) : ∀ b ∈ esc s, Plain b := by
  intro b member
  obtain ⟨c, _, inside⟩ := List.mem_flatMap.mp member
  exact escChar_plain c b inside

theorem unesc_ne_nil (nonempty : s ≠ []) : unesc s ≠ [] := by
  fun_cases unesc s with
  | case1 => exact absurd rfl nonempty
  | case2 => exact List.cons_ne_nil _ _
  | case3 => exact List.cons_ne_nil _ _
  | case4 => exact List.cons_ne_nil _ _

theorem splitFields_joinFields (fields : List Bytes) (kept : fields ≠ [[]]) :
    splitFields (joinFields fields) = fields := by
  by_cases none : fields = []
  · subst none
    rfl
  · have free : ∀ field ∈ fields.map esc, pipe ∉ field := by
      intro field member inside
      obtain ⟨s, _, rfl⟩ := List.mem_map.mp member
      exact (esc_plain s pipe inside).1 rfl
    have back : (joinFields fields).splitOn pipe = fields.map esc :=
      List.splitOn_intercalate pipe free (by simpa using none)
    have undone : unesc ∘ esc = id := funext unesc_esc
    have same : (fields.map esc).map unesc = fields := by rw [List.map_map, undone, List.map_id]
    rw [splitFields, if_neg, back, same]
    intro empty
    rw [empty, List.splitOn_nil] at back
    exact kept (by rw [← same, ← back]; rfl)

theorem splitFields_ne (s : Bytes) : splitFields s ≠ [[]] := by
  unfold splitFields
  split
  · exact nofun
  · rename_i nonempty
    intro single
    obtain ⟨field, pieces, blank⟩ : ∃ field, s.splitOn pipe = [field] ∧ unesc field = [] := by
      cases pieces : s.splitOn pipe with
      | nil => exact absurd pieces (List.splitOn_ne_nil pipe s)
      | cons field others =>
          rw [pieces, List.map_cons, List.cons.injEq, List.map_eq_nil_iff] at single
          exact ⟨field, by rw [single.2], single.1⟩
    have whole := @List.intercalate_splitOn UInt8 s _ _ pipe
    rw [pieces, List.intercalate_singleton] at whole
    exact unesc_ne_nil (whole ▸ nonempty) blank

theorem mem_joinFields (member : b ∈ joinFields fields) : b = pipe ∨ ∃ field, b ∈ esc field := by
  induction fields with
  | nil => exact absurd member List.not_mem_nil
  | cons field fields ih =>
      cases fields with
      | nil =>
          rw [joinFields, List.map_singleton, List.intercalate_singleton] at member
          exact .inr ⟨field, member⟩
      | cons next fields =>
          rw [joinFields, List.map_cons, List.map_cons, List.intercalate_cons_cons, List.mem_append,
            List.mem_append, List.mem_singleton] at member
          rcases member with (first | bar) | others
          · exact .inr ⟨field, first⟩
          · exact .inl bar
          · exact ih others

def Whole (line : Bytes) : Prop := lineFeed ∉ line ∧ carriageReturn ∉ line

instance (line : Bytes) : Decidable (Whole line) := inferInstanceAs (Decidable (_ ∧ _))

theorem whole_esc (s : Bytes) : Whole (esc s) :=
  ⟨fun member => (esc_plain s _ member).2.1 rfl, fun member => (esc_plain s _ member).2.2 rfl⟩

theorem whole_joinFields (fields : List Bytes) : Whole (joinFields fields) := by
  refine ⟨fun member => ?_, fun member => ?_⟩
  · rcases mem_joinFields member with bar | ⟨field, inside⟩
    · exact absurd bar (by decide)
    · exact (whole_esc field).1 inside
  · rcases mem_joinFields member with bar | ⟨field, inside⟩
    · exact absurd bar (by decide)
    · exact (whole_esc field).2 inside

theorem whole_line {key : String} {val : Bytes} (named : Whole (textOf key)) (value : Whole val) :
    Whole (Config.line key val) := by
  constructor
  · rw [Config.line, List.mem_append, List.mem_cons]
    rintro (inKey | equals | inValue)
    · exact named.1 inKey
    · exact absurd equals (by decide)
    · exact value.1 inValue
  · rw [Config.line, List.mem_append, List.mem_cons]
    rintro (inKey | equals | inValue)
    · exact named.2 inKey
    · exact absurd equals (by decide)
    · exact value.2 inValue

theorem stripReturn_whole {line : Bytes} (whole : Whole line) : stripReturn line = line := by
  rw [stripReturn, if_neg]
  exact fun last => whole.2 (List.mem_of_getLast? last)

theorem splitLinesFrom_line {line : Bytes} (unbroken : lineFeed ∉ line) (cur rest : Bytes) :
    splitLinesFrom cur (line ++ lineFeed :: rest) =
      stripReturn (cur ++ line) :: splitLinesFrom [] rest := by
  induction line generalizing cur with
  | nil => rw [List.nil_append, splitLinesFrom, if_pos rfl, List.append_nil]
  | cons c line ih =>
      obtain ⟨apart, unbroken⟩ : lineFeed ≠ c ∧ lineFeed ∉ line := by simpa using unbroken
      rw [List.cons_append, splitLinesFrom, if_neg (Ne.symm apart), ih unbroken, List.append_assoc,
        List.singleton_append]

theorem splitLines_lines {lines : List Bytes} (whole : ∀ line ∈ lines, Whole line) :
    splitLines (lines.flatMap fun line => line ++ [lineFeed]) = lines := by
  rw [splitLines]
  induction lines with
  | nil => rfl
  | cons line lines ih =>
      have here := whole line List.mem_cons_self
      rw [List.flatMap_cons, List.append_assoc, List.singleton_append, splitLinesFrom_line here.1,
        List.nil_append, stripReturn_whole here,
        ih fun other member => whole other (List.mem_cons_of_mem _ member)]

theorem whole_flagText (flag : Bool) : Whole (Config.flagText flag) := by
  cases flag <;> decide

theorem whole_lines (c : Config) : ∀ line ∈ c.lines, Whole line := by
  intro line member
  simp only [Config.lines, List.mem_append, List.mem_cons, List.mem_map, List.not_mem_nil,
    or_false] at member
  rcases member with ((fixed | ⟨d, _, rfl⟩) | rfl | rfl) | ⟨m, _, rfl⟩
  · rcases fixed with rfl | rfl | rfl | rfl | rfl | rfl
    · decide
    · decide
    · exact whole_line (by decide) (whole_esc _)
    · exact whole_line (by decide) (whole_flagText _)
    · exact whole_line (by decide) (whole_flagText _)
    · exact whole_line (by decide) (whole_flagText _)
  · exact whole_line (by decide) (whole_joinFields _)
  · exact whole_line (by decide) (whole_joinFields _)
  · exact whole_line (by decide) (whole_joinFields _)
  · exact whole_line (by decide) (whole_joinFields _)

theorem toU16From_eq {digits : Bytes} {v : Nat} (all : ∀ c ∈ digits, isDigit c = true)
    (fits : decimalValue v digits ≤ 65535) :
    toU16From v digits = UInt16.ofNat (decimalValue v digits) := by
  induction digits generalizing v with
  | nil => rfl
  | cons c digits ih =>
      rw [decimalValue_cons] at fits ⊢
      have small := (le_decimalValue _ digits).trans fits
      have digit := all c List.mem_cons_self
      rw [toU16From, digit, Bool.not_true, if_neg Bool.false_ne_true, if_neg (not_lt.mpr small),
        ih (fun c member => all c (List.mem_cons_of_mem _ member)) fits]

theorem toU16_decimal (port : UInt16) : toU16 (decimal port.toNat) = port := by
  have value := decimalValue_decimal port.toNat
  have fits : decimalValue 0 (decimal port.toNat) ≤ 65535 := by
    rw [value]
    exact Nat.le_of_lt_succ port.toNat_lt
  rw [toU16, toU16From_eq (decimal_digits _) fits, value, UInt16.ofNat_toNat]

theorem toLongFrom_eq {digits : Bytes} {v : Nat} (start : v < 2 ^ (platform.longBits - 1))
    (all : ∀ c ∈ digits, isDigit c = true) :
    toLongFrom platform v digits = if decimalValue v digits < 2 ^ (platform.longBits - 1) then
      some (decimalValue v digits) else none := by
  induction digits generalizing v with
  | nil => rw [toLongFrom, decimalValue_nil, if_pos start]
  | cons c digits ih =>
      have digit := all c List.mem_cons_self
      have larger := le_decimalValue (v * 10 + digitOf c) digits
      rw [toLongFrom, digit, Bool.not_true, if_neg Bool.false_ne_true, decimalValue_cons]
      split
      · rename_i next
        exact ih next fun c member => all c (List.mem_cons_of_mem _ member)
      · rename_i beyond
        rw [if_neg (by omega)]

theorem toLongFrom_lt {v n : Nat} (start : v < 2 ^ (platform.longBits - 1))
    (read : toLongFrom platform v s = some n) : n < 2 ^ (platform.longBits - 1) := by
  induction s generalizing v with
  | nil =>
      cases read
      exact start
  | cons c s ih =>
      rw [toLongFrom] at read
      split at read
      · cases read
        exact start
      · split at read
        · rename_i next
          exact ih next read
        · contradiction

def Fits (platform : Platform) (x : Int32) : Prop := x.toInt.natAbs < 2 ^ (platform.longBits - 1)

instance (platform : Platform) (x : Int32) : Decidable (Fits platform x) :=
  inferInstanceAs (Decidable (_ < _))

theorem toI32_decimalInt (platform : Platform) (x : Int32) :
    toI32 platform (decimalInt x.toInt) = if Fits platform x then some x else none := by
  have positive : 0 < 2 ^ (platform.longBits - 1) := Nat.two_pow_pos _
  have digits : toLongFrom platform 0 (decimal x.toInt.natAbs) =
      if Fits platform x then some x.toInt.natAbs else none := by
    rw [toLongFrom_eq positive (decimal_digits _), decimalValue_decimal]
    rfl
  rw [decimalInt]
  split
  · rename_i negative
    have back : Int32.ofInt (-(x.toInt.natAbs : Int)) = x := by
      have same : -(x.toInt.natAbs : Int) = x.toInt := by omega
      rw [same, Int32.ofInt_toInt]
    rw [toI32, if_pos rfl, digits, apply_ite (Option.map _), Option.map_some, Option.map_none, back]
  · rename_i natural
    have back : Int32.ofInt (x.toInt.natAbs : Int) = x := by
      have same : (x.toInt.natAbs : Int) = x.toInt := by omega
      rw [same, Int32.ofInt_toInt]
    have first := decimal_digits x.toInt.natAbs
    cases text : decimal x.toInt.natAbs with
    | nil => exact absurd text (decimal_ne_nil _)
    | cons c rest =>
        have digit := first c (text ▸ List.mem_cons_self)
        have noMinus : c ≠ minusSign := fun same => absurd digit (by rw [same]; decide)
        have noPlus : c ≠ plusSign := fun same => absurd digit (by rw [same]; decide)
        rw [toI32, if_neg noMinus, if_neg noPlus, ← text, digits, apply_ite (Option.map _),
          Option.map_some, Option.map_none, back]

theorem ofInt_fits {n : Int} (fits : n.natAbs < 2 ^ (platform.longBits - 1)) :
    Fits platform (Int32.ofInt n) := by
  cases platform with
  | windows =>
      change n.natAbs < 2 ^ 31 at fits
      have same : (Int32.ofInt n).toInt = n := Int32.toInt_ofInt_of_le (by omega) (by omega)
      rw [Fits, same]
      exact fits
  | elsewhere =>
      have lower := Int32.le_toInt (Int32.ofInt n)
      have upper := Int32.toInt_lt (Int32.ofInt n)
      change (Int32.ofInt n).toInt.natAbs < 2 ^ 63
      omega

theorem toI32_fits {x : Int32} (read : toI32 platform s = some x) : Fits platform x := by
  have positive : 0 < 2 ^ (platform.longBits - 1) := Nat.two_pow_pos _
  unfold toI32 at read
  split at read
  · cases read
    exact positive
  · split at read
    · obtain ⟨v, digits, rfl⟩ := Option.map_eq_some_iff.mp read
      exact ofInt_fits (by simpa using toLongFrom_lt positive digits)
    · split at read
      · obtain ⟨v, digits, rfl⟩ := Option.map_eq_some_iff.mp read
        exact ofInt_fits (by simpa using toLongFrom_lt positive digits)
      · obtain ⟨v, digits, rfl⟩ := Option.map_eq_some_iff.mp read
        exact ofInt_fits (by simpa using toLongFrom_lt positive digits)

theorem parseLine_line {key : String} (named : equalsSign ∉ textOf key)
    (content : (textOf key).head? ≠ some hashSign) (c : Config) (val : Bytes) :
    Config.parseLine platform c (Config.line key val) =
      Config.parseValue platform c (textOf key) val := by
  have letters : ∀ b ∈ textOf key, decide (b ≠ equalsSign) = true := by
    intro b member
    exact decide_eq_true fun same => named (same ▸ member)
  have front : (Config.line key val).takeWhile (· ≠ equalsSign) = textOf key := by
    rw [Config.line, List.takeWhile_append_of_pos letters, List.takeWhile_cons]
    simp
  have behind : ((Config.line key val).dropWhile (· ≠ equalsSign)).drop 1 = val := by
    rw [Config.line, List.dropWhile_append_of_pos letters, List.dropWhile_cons]
    simp
  have there : ¬((Config.line key val).head? = none ∨ (Config.line key val).head? = some hashSign ∨
      equalsSign ∉ Config.line key val) := by
    rw [Config.line]
    cases text : textOf key with
    | nil => simp +decide
    | cons b text_ =>
        rw [text, List.head?_cons] at content
        simpa using content
  rw [Config.parseLine, if_neg there, front, behind]

theorem flagText_one (flag : Bool) : (Config.flagText flag == textOf "1") = flag := by
  cases flag <;> decide

theorem parse_hotkeyLine (c : Config) (hotkey : Bytes) :
    Config.parseLine platform c (Config.line "setting.hotkey" (esc hotkey)) =
      some { c with settings := { c.settings with hotkey } } := by
  rw [parseLine_line (by decide) (by decide), Config.parseValue, if_pos rfl, unesc_esc]

theorem parse_broadcastLine (c : Config) (flag : Bool) :
    Config.parseLine platform c (Config.line "setting.broadcast" (Config.flagText flag)) =
      some { c with settings := { c.settings with broadcastPresence := flag } } := by
  rw [parseLine_line (by decide) (by decide), Config.parseValue, if_neg (by decide), if_pos rfl,
    flagText_one]

theorem parse_lockLine (c : Config) (flag : Bool) :
    Config.parseLine platform c (Config.line "setting.lock_optin" (Config.flagText flag)) =
      some { c with settings := { c.settings with lockPropagationOptin := flag } } := by
  rw [parseLine_line (by decide) (by decide), Config.parseValue, if_neg (by decide),
    if_neg (by decide), if_pos rfl, flagText_one]

theorem parse_startupLine (c : Config) (flag : Bool) :
    Config.parseLine platform c (Config.line "setting.run_on_startup" (Config.flagText flag)) =
      some { c with settings := { c.settings with runOnStartup := flag } } := by
  rw [parseLine_line (by decide) (by decide), Config.parseValue, if_neg (by decide),
    if_neg (by decide), if_neg (by decide), if_pos rfl, flagText_one]

theorem parseValue_device (c : Config) (val : Bytes) :
    Config.parseValue platform c (textOf "device") val =
      some { c with devices := c.devices ++ [Config.parseDevice (splitFields val)] } := by
  rw [Config.parseValue, if_neg (by decide), if_neg (by decide), if_neg (by decide),
    if_neg (by decide), if_pos rfl]

theorem parseValue_monitor (c : Config) (val : Bytes) :
    Config.parseValue platform c (textOf "monitor") val =
      (Config.parseMonitor platform (splitFields val)).map fun m =>
        { c with monitors := c.monitors ++ [m] } := by
  rw [Config.parseValue, if_neg (by decide), if_neg (by decide), if_neg (by decide),
    if_neg (by decide), if_neg (by decide), if_neg (by decide), if_neg (by decide), if_pos rfl]

theorem parse_deviceLine (c : Config) (d : PairedDevice) :
    Config.parseLine platform c (Config.deviceLine d) =
      some { c with devices := c.devices ++ [d] } := by
  have fields := splitFields_joinFields [d.id, d.name, d.lastIp, decimal d.port.toNat, d.os,
    Config.flagText d.wolCapable, d.mac] (by simp)
  have back : Config.parseDevice [d.id, d.name, d.lastIp, decimal d.port.toNat, d.os,
      Config.flagText d.wolCapable, d.mac] = d := by
    have flag : (some (Config.flagText d.wolCapable) == some (textOf "1")) = d.wolCapable :=
      flagText_one d.wolCapable
    rw [Config.parseDevice]
    simp only [List.getD_cons_zero, List.getD_cons_succ, List.getElem?_cons_zero,
      List.getElem?_cons_succ, Option.map_some, Option.getD_some, toU16_decimal, flag]
  rw [Config.deviceLine, parseLine_line (by decide) (by decide), parseValue_device, fields, back]

theorem parse_priorityLine (c : Config) {priority : List PeerId} (kept : priority ≠ [[]]) :
    Config.parseLine platform c (Config.line "priority" (joinFields priority)) =
      some { c with priority } := by
  rw [parseLine_line (by decide) (by decide), Config.parseValue, if_neg (by decide),
    if_neg (by decide), if_neg (by decide), if_neg (by decide), if_neg (by decide), if_pos rfl,
    splitFields_joinFields priority kept]

theorem parse_ineligibleLine (c : Config) {ineligible : List PeerId} (kept : ineligible ≠ [[]]) :
    Config.parseLine platform c (Config.line "ineligible" (joinFields ineligible)) =
      some { c with ineligible } := by
  rw [parseLine_line (by decide) (by decide), Config.parseValue, if_neg (by decide),
    if_neg (by decide), if_neg (by decide), if_neg (by decide), if_neg (by decide),
    if_neg (by decide), if_pos rfl, splitFields_joinFields ineligible kept]

structure MonitorFits (platform : Platform) (m : LayoutMonitor) : Prop where
  monitorIndex : Fits platform m.monitorIndex
  x : Fits platform m.x
  y : Fits platform m.y
  w : Fits platform m.w
  h : Fits platform m.h

theorem parse_monitorLine (c : Config) {m : LayoutMonitor} (fits : MonitorFits platform m) :
    Config.parseLine platform c (Config.monitorLine m) =
      some { c with monitors := c.monitors ++ [m] } := by
  have fields := splitFields_joinFields [m.machineId, decimalInt m.monitorIndex.toInt,
    decimalInt m.x.toInt, decimalInt m.y.toInt, decimalInt m.w.toInt, decimalInt m.h.toInt] (by simp)
  have back : Config.parseMonitor platform [m.machineId, decimalInt m.monitorIndex.toInt,
      decimalInt m.x.toInt, decimalInt m.y.toInt, decimalInt m.w.toInt, decimalInt m.h.toInt] =
        some m := by
    rw [Config.parseMonitor]
    simp only [List.getD_cons_zero, List.getElem?_cons_zero, List.getElem?_cons_succ,
      Config.coordinate, toI32_decimalInt, if_pos fits.monitorIndex, if_pos fits.x, if_pos fits.y,
      if_pos fits.w, if_pos fits.h]
    rfl
  rw [Config.monitorLine, parseLine_line (by decide) (by decide), parseValue_monitor, fields, back,
    Option.map_some]

theorem parse_deviceLines (c : Config) (devices : List PairedDevice) :
    (devices.map Config.deviceLine).foldlM (Config.parseLine platform) c =
      some { c with devices := c.devices ++ devices } := by
  induction devices generalizing c with
  | nil => rw [List.append_nil]; rfl
  | cons d devices ih =>
      rw [List.map_cons, List.foldlM_cons, parse_deviceLine, Option.bind_eq_bind, Option.bind_some,
        ih, List.append_assoc, List.singleton_append]

theorem parse_monitorLines (c : Config) {monitors : List LayoutMonitor}
    (fit : ∀ m ∈ monitors, MonitorFits platform m) :
    (monitors.map Config.monitorLine).foldlM (Config.parseLine platform) c =
      some { c with monitors := c.monitors ++ monitors } := by
  induction monitors generalizing c with
  | nil => rw [List.append_nil]; rfl
  | cons m monitors ih =>
      rw [List.map_cons, List.foldlM_cons, parse_monitorLine c (fit m List.mem_cons_self),
        Option.bind_eq_bind, Option.bind_some,
        ih _ fun other member => fit other (List.mem_cons_of_mem _ member), List.append_assoc,
        List.singleton_append]

structure Storable (platform : Platform) (c : Config) : Prop where
  priority : c.priority ≠ [[]]
  ineligible : c.ineligible ≠ [[]]
  monitors : ∀ m ∈ c.monitors, MonitorFits platform m

theorem parse_serialize (storable : Storable platform c) :
    Config.parse platform c.serialize = some c := by
  have comment (c : Config) : Config.parseLine platform c (textOf "# Skittermouse config") = some c := by
    rw [Config.parseLine, if_pos (by decide)]
  have version (c : Config) : Config.parseLine platform c (Config.line "version" (textOf "1")) = some c := by
    rw [parseLine_line (by decide) (by decide)]
    rfl
  rw [Config.parse, Config.serialize, splitLines_lines (whole_lines c), Config.lines]
  simp only [List.foldlM_append, List.foldlM_cons, List.foldlM_nil, comment, version,
    parse_hotkeyLine, parse_broadcastLine, parse_lockLine, parse_startupLine, parse_deviceLines,
    parse_priorityLine _ storable.priority, parse_ineligibleLine _ storable.ineligible,
    parse_monitorLines _ storable.monitors, Option.bind_eq_bind, Option.bind_some, Option.pure_def,
    Config.init, List.nil_append]

theorem Storable.init (platform : Platform) : Storable platform .init where
  priority := nofun
  ineligible := nofun
  monitors _ member := absurd member List.not_mem_nil

theorem coordinate_fits {field : Option Bytes} {x : Int32}
    (read : Config.coordinate platform field = some x) : Fits platform x := by
  cases field with
  | none =>
      cases read
      exact Nat.two_pow_pos _
  | some field => exact toI32_fits read

theorem parseMonitor_fits {m : LayoutMonitor}
    (read : Config.parseMonitor platform fields = some m) : MonitorFits platform m := by
  simp only [Config.parseMonitor, Option.bind_eq_bind, Option.bind_eq_some_iff] at read
  obtain ⟨index, indexRead, x, xRead, y, yRead, w, wRead, h, hRead, built⟩ := read
  cases built
  exact ⟨coordinate_fits indexRead, coordinate_fits xRead, coordinate_fits yRead,
    coordinate_fits wRead, coordinate_fits hRead⟩

theorem Storable.choice {p : Prop} [Decidable p] {first second : Option Config}
    (yes : ∀ next, first = some next → Storable platform next)
    (no : ∀ next, second = some next → Storable platform next) :
    ∀ next, (if p then first else second) = some next → Storable platform next := by
  split
  · exact yes
  · exact no

theorem Storable.given (storable : Storable platform c) :
    ∀ next, some c = some next → Storable platform next := by
  rintro next ⟨⟩
  exact storable

theorem Storable.settings (storable : Storable platform c) (settings : Settings) :
    Storable platform { c with settings } :=
  ⟨storable.priority, storable.ineligible, storable.monitors⟩

theorem Storable.addMonitor (storable : Storable platform c) {m : LayoutMonitor}
    (fits : MonitorFits platform m) : Storable platform { c with monitors := c.monitors ++ [m] } := by
  refine ⟨storable.priority, storable.ineligible, fun other member => ?_⟩
  rcases List.mem_append.mp member with earlier | last
  · exact storable.monitors other earlier
  · exact List.mem_singleton.mp last ▸ fits

theorem Storable.parseValue (storable : Storable platform c) {key val : Bytes} {next : Config}
    (read : Config.parseValue platform c key val = some next) : Storable platform next := by
  have device : Storable platform
      { c with devices := c.devices ++ [Config.parseDevice (splitFields val)] } :=
    ⟨storable.priority, storable.ineligible, storable.monitors⟩
  have priority : Storable platform { c with priority := splitFields val } :=
    ⟨splitFields_ne val, storable.ineligible, storable.monitors⟩
  have ineligible : Storable platform { c with ineligible := splitFields val } :=
    ⟨storable.priority, splitFields_ne val, storable.monitors⟩
  have monitor : ∀ next, (Config.parseMonitor platform (splitFields val)).map
      (fun m => { c with monitors := c.monitors ++ [m] }) = some next → Storable platform next := by
    intro next read
    obtain ⟨m, found, rfl⟩ := Option.map_eq_some_iff.mp read
    exact storable.addMonitor (parseMonitor_fits found)
  have last := (choice (p := key = textOf "monitor") monitor storable.given)
  have lists := choice (p := key = textOf "device") device.given
    (choice (p := key = textOf "priority") priority.given
      (choice (p := key = textOf "ineligible") ineligible.given last))
  unfold Config.parseValue at read
  exact choice (storable.settings _).given (choice (storable.settings _).given
    (choice (storable.settings _).given (choice (storable.settings _).given lists))) next read

theorem Storable.parseLine (storable : Storable platform c) {line : Bytes} {next : Config}
    (read : Config.parseLine platform c line = some next) : Storable platform next := by
  unfold Config.parseLine at read
  split at read
  · cases read
    exact storable
  · exact storable.parseValue read

theorem Storable.parse {text : Bytes} (read : Config.parse platform text = some c) :
    Storable platform c := by
  have run (lines : List Bytes) (start : Config) (storable : Storable platform start)
      (read : lines.foldlM (Config.parseLine platform) start = some c) : Storable platform c := by
    induction lines generalizing start with
    | nil =>
        cases read
        exact storable
    | cons line lines ih =>
        rw [List.foldlM_cons, Option.bind_eq_bind, Option.bind_eq_some_iff] at read
        obtain ⟨next, first, others⟩ := read
        exact ih next (storable.parseLine first) others
  exact run _ _ (.init platform) read

/-- A configuration comes back from its text as it was, and what was read from
any text comes back once more. -/
theorem config_round_trips (platform : Platform) :
    (∀ c : Config, Storable platform c → Config.parse platform c.serialize = some c) ∧
      ∀ (text : Bytes) (c : Config), Config.parse platform text = some c →
        Config.parse platform c.serialize = some c :=
  ⟨fun _ storable => parse_serialize storable, fun _ _ read => parse_serialize (.parse read)⟩

/-- A device and a monitor with every kind of separator in their texts. -/
def awkward : Config where
  settings := .init
  devices := [⟨textOf "a|b", textOf "My|Weird\\Name", textOf "\r\n", 7777, textOf "=#", true, []⟩]
  priority := [textOf "a|b", []]
  ineligible := []
  monitors := [⟨textOf "m", 1, 1920, -200, 2560, 1440⟩]

theorem awkward_round_trips : Config.parse .windows awkward.serialize = some awkward := by
  refine (config_round_trips .windows).1 awkward ⟨by decide, by decide, ?_⟩
  intro m member
  obtain rfl := List.mem_singleton.mp member
  exact ⟨by decide, by decide, by decide, by decide, by decide⟩

end Skittermouse.Stored

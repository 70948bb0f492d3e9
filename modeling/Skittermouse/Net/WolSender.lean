import Skittermouse.Data.Decimal

namespace Skittermouse.Net

open Skittermouse.Data

/-! # The text form of a hardware address

`parseMac` leaves the text to `sscanf`, whose `%x` takes more than two digits:
blanks, a sign, a `0x` and any number of digits may stand there.
-/

/-- `std::array<uint8_t, 6>`. -/
abbrev Mac := { bytes : Bytes // bytes.length = 6 }

/-- `isspace` in the "C" locale. -/
def isSpace (c : UInt8) : Bool := c == 0x20 || (0x09 ≤ c && c ≤ 0x0D)

def isHexDigit (c : UInt8) : Bool :=
  isDigit c || (0x41 ≤ c && c ≤ 0x46) || (0x61 ≤ c && c ≤ 0x66)

def hexDigitOf (c : UInt8) : Nat :=
  if isDigit c then digitOf c else if c ≤ 0x46 then c.toNat - 0x41 + 10 else c.toNat - 0x61 + 10

def hexValue (digits : Bytes) : Nat := digits.foldl (fun v c => v * 16 + hexDigitOf c) 0

def colonChar : UInt8 := 0x3A

/-- What `%x` makes of some texts is up to the C library. -/
structure CLibrary where
  overflow : Bool → Nat → UInt32
  /-- A `0x` without a digit behind it is a zero. Elsewhere there is no number, or the
  zero alone is taken and the letter is in the place of the separator. -/
  bareMark : Bool

/-- What `%x` stores for its digits: a minus sign negates the unsigned number. -/
def storedHex (library : CLibrary) (negative : Bool) (digits : Bytes) : UInt32 :=
  let value := hexValue digits
  if 2 ^ 32 ≤ value then library.overflow negative value
  else if negative then 0 - UInt32.ofNat value
  else UInt32.ofNat value

def scanSign : Bytes → Bool × Bytes
  | c :: rest =>
      if c = minusSign then (true, rest) else if c = plusSign then (false, rest) else (false, c :: rest)
  | [] => (false, [])

def skipHexPrefix : Bytes → Bool × Bytes
  | zero :: x :: rest =>
      if zero = zeroDigit ∧ (x = 0x78 ∨ x = 0x58) then (true, rest) else (false, zero :: x :: rest)
  | s => (false, s)

def scanHex (library : CLibrary) (s : Bytes) : Option (UInt32 × Bytes) :=
  let signed := scanSign (s.dropWhile isSpace)
  let marked := skipHexPrefix signed.2
  let digits := marked.2.takeWhile isHexDigit
  if digits = [] ∧ ¬ (marked.1 ∧ library.bareMark) then none
  else some (storedHex library signed.1 digits, marked.2.dropWhile isHexDigit)

/-- The `%x%c` pairs of the format and the last `%x`. The `%c` behind that one
takes any character that is left, and then there is one field too many. -/
def scanGroups (library : CLibrary) : Nat → Bytes → Option (List UInt32 × Bytes)
  | 0, s => match scanHex library s with
    | some (value, []) => some ([value], [])
    | _ => none
  | pairs + 1, s => match scanHex library s with
    | some (value, sep :: rest) => match scanGroups library pairs rest with
      | some (values, seps) => some (value :: values, sep :: seps)
      | none => none
    | _ => none

def macOf (values : List UInt32) : Option Mac :=
  if fits : values.length = 6 ∧ values.all (· ≤ 255) = true then
    some ⟨values.map UInt32.toUInt8, by rw [List.length_map, fits.1]⟩
  else none

def parseMac (library : CLibrary) (s : Bytes) : Option Mac :=
  -- The scan ends at the terminator of `c_str()`.
  match scanGroups library 5 (s.takeWhile (· ≠ 0)) with
  | some (values, seps) =>
      -- Accept ':' or '-' as the (single, consistent) separator.
      if seps = List.replicate 5 colonChar ∨ seps = List.replicate 5 minusSign then macOf values
      else none
  | none => none

end Skittermouse.Net

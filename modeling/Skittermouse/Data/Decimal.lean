import Mathlib.Data.List.Basic
import Mathlib.Tactic.IntervalCases
import Skittermouse.Data.Words

namespace Skittermouse.Data

/-! # Decimal numbers as text -/

def zeroDigit : UInt8 := 0x30
def nineDigit : UInt8 := 0x39
def minusSign : UInt8 := 0x2D
def plusSign : UInt8 := 0x2B

def isDigit (c : UInt8) : Bool := zeroDigit ≤ c && c ≤ nineDigit

def digitOf (c : UInt8) : Nat := c.toNat - zeroDigit.toNat

def decimal (n : Nat) : Bytes := (Nat.toDigits 10 n).map fun digit => UInt8.ofNat digit.toNat

def decimalValue (v : Nat) (digits : Bytes) : Nat :=
  digits.foldl (fun v c => v * 10 + digitOf c) v

variable {n v : Nat} {digits : Bytes}

@[simp] theorem decimalValue_nil (v : Nat) : decimalValue v [] = v := rfl

@[simp] theorem decimalValue_cons (v : Nat) (c : UInt8) (digits : Bytes) :
    decimalValue v (c :: digits) = decimalValue (v * 10 + digitOf c) digits := by
  rw [decimalValue, List.foldl_cons, decimalValue]

theorem decimalValue_append (v : Nat) (front behind : Bytes) :
    decimalValue v (front ++ behind) = decimalValue (decimalValue v front) behind := by
  rw [decimalValue, List.foldl_append, decimalValue, decimalValue]

theorem le_decimalValue (v : Nat) (digits : Bytes) : v ≤ decimalValue v digits := by
  induction digits generalizing v with
  | nil => exact le_refl _
  | cons c digits ih =>
      have next := ih (v * 10 + digitOf c)
      rw [decimalValue_cons]
      omega

theorem digitChar_byte (small : n < 10) :
    isDigit (UInt8.ofNat (Nat.digitChar n).toNat) = true ∧
      digitOf (UInt8.ofNat (Nat.digitChar n).toNat) = n := by
  interval_cases n <;> decide

theorem decimal_of_lt (small : n < 10) :
    decimal n = [UInt8.ofNat (Nat.digitChar n).toNat] := by
  rw [decimal, Nat.toDigits_of_lt_base small, List.map_singleton]

theorem decimal_of_le (large : 10 ≤ n) :
    decimal n = decimal (n / 10) ++ [UInt8.ofNat (Nat.digitChar (n % 10)).toNat] := by
  rw [decimal, Nat.toDigits_of_base_le (by decide) large, List.map_append, List.map_singleton,
    decimal]

theorem decimal_ne_nil (n : Nat) : decimal n ≠ [] := by
  rcases Nat.lt_or_ge n 10 with small | large
  · simp [decimal_of_lt small]
  · simp [decimal_of_le large]

theorem decimal_digits (n : Nat) : ∀ c ∈ decimal n, isDigit c = true := by
  induction n using Nat.strongRecOn with
  | ind n ih =>
      intro c member
      rcases Nat.lt_or_ge n 10 with small | large
      · rw [decimal_of_lt small, List.mem_singleton] at member
        exact member ▸ (digitChar_byte small).1
      · rw [decimal_of_le large, List.mem_append, List.mem_singleton] at member
        rcases member with front | rfl
        · exact ih (n / 10) (by omega) c front
        · exact (digitChar_byte (Nat.mod_lt n (by decide))).1

theorem decimalValue_decimal (n : Nat) : decimalValue 0 (decimal n) = n := by
  induction n using Nat.strongRecOn with
  | ind n ih =>
      rcases Nat.lt_or_ge n 10 with small | large
      · rw [decimal_of_lt small, decimalValue_cons, decimalValue_nil, (digitChar_byte small).2]
        omega
      · have last := (digitChar_byte (Nat.mod_lt n (by decide : 0 < 10))).2
        have front : decimalValue 0 (decimal (n / 10)) = n / 10 := ih (n / 10) (by omega)
        rw [decimal_of_le large, decimalValue_append, front, decimalValue_cons, decimalValue_nil, last]
        omega

end Skittermouse.Data

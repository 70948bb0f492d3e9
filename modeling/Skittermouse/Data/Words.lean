import Mathlib.Order.Lattice
import Mathlib.Algebra.Group.Nat.Defs
import Mathlib.Data.List.Lex

namespace Skittermouse.Data

/-! Machine words and byte strings as ordered, encodable data. -/

abbrev Bytes := List UInt8

/-- No vector or string is longer than a difference of pointers can be. -/
def kMaxRequest : Nat := 2 ^ 63 - 1

/-- Byte strings compare as `memcmp` does: bytes as unsigned numbers, left to right. -/
instance instLinearOrderUInt8 : LinearOrder UInt8 where
  le_refl := UInt8.le_refl
  le_trans _ _ _ := UInt8.le_trans
  lt_iff_le_not_ge left right := by
    rw [UInt8.lt_iff_toNat_lt, UInt8.le_iff_toNat_le, UInt8.le_iff_toNat_le]
    omega
  le_antisymm _ _ := UInt8.le_antisymm
  le_total left right := UInt8.le_total left right
  toDecidableLE := inferInstance
  toDecidableEq := inferInstance
  toDecidableLT := inferInstance

instance instLinearOrderUInt64 : LinearOrder UInt64 where
  le_refl := UInt64.le_refl
  le_trans _ _ _ := UInt64.le_trans
  lt_iff_le_not_ge left right := by
    rw [UInt64.lt_iff_toNat_lt, UInt64.le_iff_toNat_le, UInt64.le_iff_toNat_le]
    omega
  le_antisymm _ _ := UInt64.le_antisymm
  le_total left right := UInt64.le_total left right
  toDecidableLE := inferInstance
  toDecidableEq := inferInstance
  toDecidableLT := inferInstance

-- Found once here and not at each test for a byte or a byte string in a list.
instance instLawfulBEqByte : LawfulBEq UInt8 := inferInstance

instance instLawfulBEqBytes : LawfulBEq Bytes := inferInstance

theorem lt_succ_of_ne_last {counter : UInt64} (room : counter ≠ UInt64.ofNat (2 ^ 64 - 1)) :
    counter < counter + 1 := by
  have apart : counter.toNat ≠ 2 ^ 64 - 1 := fun same =>
    room (UInt64.toNat_inj.mp (by rw [same]; rfl))
  have bound := counter.toNat_lt
  rw [UInt64.lt_iff_toNat_lt, UInt64.toNat_add]
  simp only [UInt64.reduceToNat]
  omega

def leBytes : Nat → Nat → Bytes
  | 0, _ => []
  | width + 1, value => UInt8.ofNat (value % 256) :: leBytes width (value / 256)

def leValue : Bytes → Nat
  | [] => 0
  | byte :: rest => byte.toNat + 256 * leValue rest

def beBytes (width value : Nat) : Bytes := (leBytes width value).reverse

def beValue (bytes : Bytes) : Nat := leValue bytes.reverse

@[simp] theorem leBytes_length (width value : Nat) : (leBytes width value).length = width := by
  induction width generalizing value with
  | zero => rfl
  | succ width ih => simp [leBytes, ih]

@[simp] theorem beBytes_length (width value : Nat) : (beBytes width value).length = width := by
  simp [beBytes]

theorem leValue_leBytes (width value : Nat) : leValue (leBytes width value) = value % 256 ^ width := by
  induction width generalizing value with
  | zero => simp [leBytes, leValue, Nat.mod_one]
  | succ width ih =>
      have low : (UInt8.ofNat (value % 256)).toNat = value % 256 := by simp
      rw [leBytes, leValue, ih, low, Nat.pow_succ, Nat.mul_comm (256 ^ width), Nat.mod_mul]

theorem leValue_leBytes_of_lt {width value : Nat} (small : value < 256 ^ width) :
    leValue (leBytes width value) = value := by
  rw [leValue_leBytes, Nat.mod_eq_of_lt small]

theorem beValue_beBytes_of_lt {width value : Nat} (small : value < 256 ^ width) :
    beValue (beBytes width value) = value := by
  simp only [beValue, beBytes, List.reverse_reverse]
  exact leValue_leBytes_of_lt small

theorem leValue_lt (bytes : Bytes) : leValue bytes < 256 ^ bytes.length := by
  induction bytes with
  | nil => exact Nat.one_pos
  | cons byte rest ih =>
      have bound := byte.toNat_lt
      rw [leValue, List.length_cons, Nat.pow_succ]
      omega

theorem leBytes_leValue (bytes : Bytes) : leBytes bytes.length (leValue bytes) = bytes := by
  induction bytes with
  | nil => rfl
  | cons byte rest ih =>
      have bound := byte.toNat_lt
      have low : (byte.toNat + 256 * leValue rest) % 256 = byte.toNat := by omega
      have high : (byte.toNat + 256 * leValue rest) / 256 = leValue rest := by omega
      rw [leValue, List.length_cons, leBytes, low, high, ih, UInt8.ofNat_toNat]

theorem leValue_concat (bytes : Bytes) (last : UInt8) :
    leValue (bytes ++ [last]) = leValue bytes + 256 ^ bytes.length * last.toNat := by
  induction bytes with
  | nil => simp [leValue]
  | cons byte rest ih =>
      rw [List.cons_append, leValue, ih, leValue, List.length_cons, Nat.pow_succ, Nat.mul_add,
        Nat.mul_comm _ 256, Nat.mul_assoc, Nat.add_assoc]

theorem beValue_cons (byte : UInt8) (rest : Bytes) :
    beValue (byte :: rest) = byte.toNat * 256 ^ rest.length + beValue rest := by
  rw [beValue, List.reverse_cons, leValue_concat, List.length_reverse, beValue, Nat.mul_comm,
    Nat.add_comm]

theorem beValue_lt (bytes : Bytes) : beValue bytes < 256 ^ bytes.length := by
  have bound := leValue_lt bytes.reverse
  rwa [List.length_reverse] at bound

theorem beBytes_beValue (bytes : Bytes) : beBytes bytes.length (beValue bytes) = bytes := by
  have same := leBytes_leValue bytes.reverse
  rw [List.length_reverse] at same
  rw [beBytes, beValue, same, List.reverse_reverse]

/-! ## Cursors

A decoder that advances a position through a buffer is a function on the rest
of the buffer. `takeField` is its bounds check and its advance in one.
-/

/-- The next `width` bytes and what follows them, when that many are left. -/
def takeField (width : Nat) (bytes : Bytes) : Option (Bytes × Bytes) :=
  if width ≤ bytes.length then some (bytes.take width, bytes.drop width) else none

theorem takeField_append {width : Nat} {field : Bytes} (rest : Bytes)
    (size : field.length = width) : takeField width (field ++ rest) = some (field, rest) := by
  subst size
  simp [takeField]

theorem takeField_eq_some {width : Nat} {bytes field rest : Bytes}
    (taken : takeField width bytes = some (field, rest)) :
    bytes = field ++ rest ∧ field.length = width := by
  unfold takeField at taken
  split at taken
  · rename_i enough
    simp only [Option.some.injEq, Prod.mk.injEq] at taken
    obtain ⟨rfl, rfl⟩ := taken
    exact ⟨(List.take_append_drop width bytes).symm, by simp [enough]⟩
  · contradiction

/-- The decode loop of a counted list: `count` items, or failure at the first
that is cut short. -/
def takeMany (takeItem : Bytes → Option (α × Bytes)) : Nat → Bytes → Option (List α × Bytes)
  | 0, bytes => some ([], bytes)
  | count + 1, bytes => match takeItem bytes with
    | none => none
    | some (item, rest) => match takeMany takeItem count rest with
      | none => none
      | some (items, rest) => some (item :: items, rest)

theorem takeMany_flatMap {takeItem : Bytes → Option (α × Bytes)} {encode : α → Bytes} {items : List α}
    (reads : ∀ item ∈ items, ∀ rest, takeItem (encode item ++ rest) = some (item, rest))
    (rest : Bytes) : takeMany takeItem items.length (items.flatMap encode ++ rest) =
      some (items, rest) := by
  induction items with
  | nil => rfl
  | cons item items ih =>
      have later := ih fun other member => reads other (List.mem_cons_of_mem item member)
      simp only [List.length_cons, List.flatMap_cons, List.append_assoc, takeMany,
        reads item List.mem_cons_self, later]

end Skittermouse.Data

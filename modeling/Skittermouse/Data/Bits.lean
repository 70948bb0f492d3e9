import Mathlib.Data.List.Defs
import Mathlib.Algebra.Group.Nat.Defs

namespace Skittermouse.Data

/-! Numbers as bit strings, most significant bit first. -/

def bitsOf : Nat → Nat → List Bool
  | 0, _ => []
  | width + 1, value => value.testBit width :: bitsOf width value

@[simp] theorem bitsOf_length (width value : Nat) : (bitsOf width value).length = width := by
  induction width with
  | zero => rfl
  | succ width ih => rw [bitsOf, List.length_cons, ih]

theorem bitsOf_add (high low value : Nat) :
    bitsOf (high + low) value = bitsOf high (value / 2 ^ low) ++ bitsOf low value := by
  induction high with
  | zero => simp [bitsOf]
  | succ high ih =>
      rw [Nat.succ_add, bitsOf, ih, bitsOf, Nat.testBit_div_two_pow]
      rfl

theorem bitsOf_congr {width left right : Nat}
    (same : ∀ position < width, left.testBit position = right.testBit position) :
    bitsOf width left = bitsOf width right := by
  induction width with
  | zero => rfl
  | succ width ih =>
      rw [bitsOf, bitsOf, same width (Nat.lt_succ_self width),
        ih fun position below => same position (Nat.lt_succ_of_lt below)]

theorem bitsOf_mod (width value : Nat) : bitsOf width (value % 2 ^ width) = bitsOf width value := by
  apply bitsOf_congr
  intro position below
  simp [Nat.testBit_mod_two_pow, below]

theorem bitsOf_eq_of_mod {width left right : Nat}
    (same : left % 2 ^ width = right % 2 ^ width) : bitsOf width left = bitsOf width right := by
  rw [← bitsOf_mod width left, same, bitsOf_mod]

end Skittermouse.Data

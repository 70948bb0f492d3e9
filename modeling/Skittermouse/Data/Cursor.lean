import Mathlib.Data.List.Basic

namespace Skittermouse.Data

/-! A reading position in a list. Reading takes what is there, and two reads in
a row are one read of both sizes. -/

structure Cursor (α : Type u) where
  content : List α
  position : Nat

namespace Cursor

variable {α : Type u} {cursor : Cursor α} {count : Nat}

def rest (cursor : Cursor α) : List α := cursor.content.drop cursor.position

def read (cursor : Cursor α) (count : Nat) : List α × Cursor α :=
  (cursor.rest.take count,
    { cursor with position := cursor.position + (cursor.rest.take count).length })

theorem read_zero : cursor.read 0 = ([], cursor) := rfl

theorem read_of_le (enough : count ≤ cursor.rest.length) : cursor.read count =
    (cursor.rest.take count, { cursor with position := cursor.position + count }) := by
  rw [read, List.length_take, Nat.min_eq_left enough]

theorem read_of_rest_nil (done : cursor.rest = []) (count : Nat) : cursor.read count = ([], cursor) := by
  rw [read, done, List.take_nil]
  rfl

theorem read_length : (cursor.read count).1.length =
    min count (cursor.content.length - cursor.position) := by
  rw [read, List.length_take, rest, List.length_drop]

theorem rest_read : (cursor.read count).2.rest = cursor.rest.drop count := by
  rw [read, rest, rest, ← List.drop_drop, ← rest, List.length_take]
  rcases Nat.le_total count cursor.rest.length with less | more
  · rw [Nat.min_eq_left less]
  · rw [Nat.min_eq_right more, List.drop_length, List.drop_of_length_le more]

theorem read_add (first second : Nat) : cursor.read (first + second) =
    ((cursor.read first).1 ++ ((cursor.read first).2.read second).1,
      ((cursor.read first).2.read second).2) := by
  have later : (cursor.read first).2.read second = ((cursor.rest.drop first).take second,
      ⟨cursor.content, cursor.position + (cursor.rest.take first).length +
        ((cursor.rest.drop first).take second).length⟩) := by
    rw [← rest_read]
    rfl
  rw [later, read, List.take_add, List.length_append, Nat.add_assoc]
  rfl

end Cursor

end Skittermouse.Data

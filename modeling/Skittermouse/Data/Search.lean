import Mathlib.Data.List.Infix

namespace Skittermouse.Data

/-! # Where a text first stands in another -/

variable {α : Type u} [DecidableEq α] {needle text before rest : List α}

def search (needle : List α) : List α → Option Nat
  | [] => if needle = [] then some 0 else none
  | first :: rest =>
      if needle <+: first :: rest then some 0 else (search needle rest).map (· + 1)

theorem search_isSome : (search needle text).isSome = true ↔ needle <:+: text := by
  induction text with
  | nil =>
      rw [search, List.infix_nil]
      split
      · rename_i empty
        simp [empty]
      · rename_i some_
        simp [some_]
  | cons first rest ih =>
      rw [search, List.infix_cons_iff]
      split
      · rename_i front
        simp [front]
      · rename_i other
        rw [Option.isSome_map, ih, or_iff_right other]

theorem search_isNone : (search needle text).isNone = true ↔ ¬ needle <:+: text := by
  rw [← search_isSome, Option.isNone_iff_eq_none, Option.not_isSome_iff_eq_none]

theorem search_append (absent : ¬ needle <:+: before ++ needle.dropLast) :
    search needle (before ++ needle ++ rest) = some before.length := by
  induction before with
  | nil =>
      cases needle with
      | nil => exact absurd List.nil_infix absent
      | cons first more => exact if_pos (List.prefix_append _ _)
  | cons first before ih =>
      have later : ¬ needle <+: first :: (before ++ needle ++ rest) := fun front => absent <| by
        have whole : first :: before ++ needle.dropLast <+: first :: (before ++ needle ++ rest) := by
          rw [← List.cons_append, ← List.cons_append, List.append_assoc]
          exact List.prefix_append_right_inj _ |>.mpr
            ((List.dropLast_prefix needle).trans (List.prefix_append _ _))
        refine (List.prefix_of_prefix_length_le front whole ?_).isInfix
        rw [List.length_append, List.length_cons, List.length_dropLast]
        omega
      rw [List.cons_append, List.cons_append, search, if_neg later,
        ih fun inside => absent (List.infix_cons inside)]
      rfl

omit [DecidableEq α] in
theorem infix_split {separator : α} (free : separator ∉ needle)
    (inside : needle <:+: before ++ separator :: rest) : needle <:+: before ∨ needle <:+: rest := by
  rcases List.infix_append_iff.mp inside with left | right | ⟨front, back, rfl, suffix, begins⟩
  · exact .inl left
  · refine (List.infix_cons_iff.mp right).elim (fun begins => ?_) .inr
    cases needle with
    | nil => exact .inl List.nil_infix
    | cons first more =>
        rw [(List.cons_prefix_cons.mp begins).1] at free
        exact absurd List.mem_cons_self free
  · cases back with
    | nil => exact .inl (by rw [List.append_nil]; exact suffix.isInfix)
    | cons first more =>
        rw [(List.cons_prefix_cons.mp begins).1] at free
        exact absurd (List.mem_append_right _ List.mem_cons_self) free

end Skittermouse.Data

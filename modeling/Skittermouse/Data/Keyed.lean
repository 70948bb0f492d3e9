import Mathlib.Data.List.Induction
import Mathlib.Data.List.Nodup
import Skittermouse.Data.Exec

namespace Skittermouse.Data

/-! # Lists kept by key

One value for each key, in the order in which the keys first came: a value takes
the place of the one that has its key, and goes to the end where there is none.
-/

variable {α : Type u} {κ : Type v} [BEq κ] [LawfulBEq κ] (key : α → κ)

def put (value : α) : List α → List α
  | [] => [value]
  | held :: rest => if key held == key value then value :: rest else held :: put value rest

variable {key} {value : α} {list : List α}

theorem put_of_notMem (absent : key value ∉ list.map key) : put key value list = list ++ [value] := by
  induction list with
  | nil => rfl
  | cons held rest ih =>
      rw [List.map_cons, List.mem_cons, not_or] at absent
      have apart : ¬ (key held == key value) = true := by
        rw [beq_iff_eq]
        exact Ne.symm absent.1
      rw [put, if_neg apart, ih absent.2, List.cons_append]

theorem put_of_mem (distinct : (list.map key).Nodup) (there : key value ∈ list.map key) :
    put key value list = list.map fun held => if key held == key value then value else held := by
  induction list with
  | nil => exact absurd there List.not_mem_nil
  | cons held rest ih =>
      rw [List.map_cons, List.nodup_cons] at distinct
      rw [put, List.map_cons]
      by_cases same : (key held == key value) = true
      · have others : ∀ other ∈ rest, (if key other == key value then value else other) = other := by
          intro other member
          rw [if_neg]
          rw [beq_iff_eq] at same ⊢
          intro again
          exact distinct.1 (List.mem_map.mpr ⟨other, member, again.trans same.symm⟩)
        rw [if_pos same, if_pos same, List.map_congr_left others, List.map_id']
      · have behind : key value ∈ rest.map key := by
          rw [List.map_cons, List.mem_cons] at there
          refine there.resolve_left fun first => same ?_
          rw [first]
          exact beq_self_eq_true _
        rw [if_neg same, if_neg same, ih distinct.2 behind]

theorem map_key_put_of_mem (there : key value ∈ list.map key) :
    (put key value list).map key = list.map key := by
  induction list with
  | nil => exact absurd there List.not_mem_nil
  | cons held rest ih =>
      rw [put]
      split
      · rename_i same
        rw [List.map_cons, List.map_cons, beq_iff_eq.mp same]
      · rename_i apart
        rw [List.map_cons, List.mem_cons] at there
        have behind := there.resolve_left fun first => apart (beq_iff_eq.mpr first.symm)
        rw [List.map_cons, List.map_cons, ih behind]

theorem nodup_put (distinct : (list.map key).Nodup) : ((put key value list).map key).Nodup := by
  by_cases there : key value ∈ list.map key
  · rwa [map_key_put_of_mem there]
  · rw [put_of_notMem there, List.map_append, List.map_singleton]
    exact distinct.append (List.nodup_singleton _) (by simpa using there)

/-- The value is found under its key, and nothing else is found differently. -/
theorem find?_put (wanted : κ) : (put key value list).find? (fun held => key held == wanted) =
    if key value == wanted then some value else list.find? fun held => key held == wanted := by
  induction list with
  | nil =>
      rw [put, List.find?_singleton]
      rfl
  | cons held rest ih =>
      rw [put]
      by_cases same : (key held == key value) = true
      · rw [if_pos same, List.find?_cons, List.find?_cons, beq_iff_eq.mp same]
        split
        · rename_i found
          rw [if_pos found]
        · rename_i other
          rw [if_neg (by simp [other])]
      · rw [if_neg same, List.find?_cons, ih, List.find?_cons]
        split
        · rename_i found
          rw [if_neg]
          rw [beq_iff_eq] at same found ⊢
          exact fun again => same (found.trans again.symm)
        · rfl

theorem map_key_puts (values : List α) :
    (exec (put key) [] values).map key = (values.map key).eraseDups := by
  induction values using List.reverseRecOn with
  | nil => rfl
  | append_singleton values last ih =>
      rw [exec_concat, List.map_append, List.map_singleton, List.eraseDups_append]
      by_cases there : key last ∈ values.map key
      · have again : key last ∈ (exec (put key) [] values).map key := by
          rwa [ih, List.mem_eraseDups]
        rw [map_key_put_of_mem again, ih]
        simp [List.removeAll, there]
      · have new : key last ∉ (exec (put key) [] values).map key := by
          rwa [ih, List.mem_eraseDups]
        rw [put_of_notMem new, List.map_append, ih, List.map_singleton]
        simp [List.removeAll, there, List.eraseDups_cons]

theorem nodup_puts (values : List α) : ((exec (put key) [] values).map key).Nodup := by
  have preserved (value : α) (list : List α) (distinct : (list.map key).Nodup) :
      ((put key value list).map key).Nodup := nodup_put distinct
  have start : (([] : List α).map key).Nodup := List.nodup_nil
  exact exec_preserves preserved start values

theorem find?_puts (values : List α) (wanted : κ) :
    (exec (put key) [] values).find? (fun held => key held == wanted) =
      values.reverse.find? fun value => key value == wanted := by
  induction values using List.reverseRecOn with
  | nil => rfl
  | append_singleton values last ih =>
      rw [exec_concat, find?_put, ih, List.reverse_append, List.reverse_singleton,
        List.singleton_append, List.find?_cons]
      split
      · rename_i found
        rw [found]
      · rename_i other
        rw [Bool.not_eq_true] at other
        rw [other]

end Skittermouse.Data

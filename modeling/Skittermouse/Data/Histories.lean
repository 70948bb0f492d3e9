import Mathlib.Data.List.Chain
import Mathlib.Data.List.Basic

namespace Skittermouse.Data

/-! # Histories

What has been told so far, newest first: calls that switch something on and
off, and what happened between two entries of one kind.
-/

/-- The calls switch on and off in turn, and the oldest one on. -/
structure Alternates (calls : List Bool) : Prop where
  apart : calls.IsChain (· ≠ ·)
  first : calls.getLast? ≠ some false

theorem Alternates.nil : Alternates [] := ⟨.nil, nofun⟩

theorem Alternates.cons {calls : List Bool} {call : Bool} (alternates : Alternates calls)
    (change : call ≠ calls.head?.getD false) : Alternates (call :: calls) := by
  cases calls with
  | nil =>
      refine ⟨.singleton call, ?_⟩
      simpa using change
  | cons last earlier =>
      refine ⟨.cons_cons change alternates.apart, ?_⟩
      simpa using alternates.first

variable {α : Type u} [DecidableEq α] {marker item entry : α} {log front : List α}

def sinceLast (marker : α) (log : List α) : List α := log.takeWhile (· ≠ marker)

/-- Between two markers, before the first and after the last one, `item` occurs
at most once. -/
def OncePerStretch (marker item : α) (log : List α) : Prop :=
  ∀ later between earlier, log = later ++ between ++ earlier → marker ∉ between →
    between.count item ≤ 1

@[simp] theorem sinceLast_nil (marker : α) : sinceLast marker [] = [] := rfl

@[simp] theorem sinceLast_cons_self (marker : α) (log : List α) :
    sinceLast marker (marker :: log) = [] := by
  simp [sinceLast]

@[simp] theorem sinceLast_cons_of_ne (apart : entry ≠ marker) (log : List α) :
    sinceLast marker (entry :: log) = entry :: sinceLast marker log := by
  simp [sinceLast, apart]

theorem sinceLast_append (clear : marker ∉ front) (log : List α) :
    sinceLast marker (front ++ log) = front ++ sinceLast marker log := by
  induction front with
  | nil => rfl
  | cons entry front ih =>
      obtain ⟨apart, clear⟩ : marker ≠ entry ∧ marker ∉ front := by simpa using clear
      simp [apart.symm, ih clear]

theorem OncePerStretch.nil : OncePerStretch marker item [] := by
  intro later between earlier pieces clear
  obtain rfl : between = [] := by simp_all
  simp

theorem OncePerStretch.cons (once : OncePerStretch marker item log)
    (fresh : entry = item → item ∉ sinceLast marker log) :
    OncePerStretch marker item (entry :: log) := by
  rintro (_ | ⟨newest, later⟩) between earlier pieces clear
  · cases between with
    | nil => simp
    | cons newest between =>
        obtain ⟨rfl, rfl⟩ : entry = newest ∧ log = between ++ earlier := by simpa using pieces
        have clear : marker ∉ between := fun inside => clear (List.mem_cons_of_mem _ inside)
        by_cases same : entry = item
        · have absent : item ∉ between := fun inside => fresh same (by
            rw [sinceLast_append clear]
            exact List.mem_append_left _ inside)
          simp [same, List.count_eq_zero_of_not_mem absent]
        · rw [List.count_cons_of_ne same]
          exact once [] between earlier rfl clear
  · obtain ⟨rfl, rfl⟩ : entry = newest ∧ log = later ++ between ++ earlier := by
      simpa using pieces
    exact once later between earlier rfl clear

end Skittermouse.Data

import Mathlib.Order.Lattice
import Mathlib.Data.Set.Insert

namespace Skittermouse.Data

/-! # Latest-wins registers

A replica that keeps the candidate with the greatest key holds, after any
deliveries, the latest of everything it has seen. Order, delay and repetition
of the deliveries do not matter, because only the seen set does.
-/

variable {α : Type u} {κ : Type v} [LinearOrder κ] (key : α → κ)

/-- Keeps the candidate exactly when its key is strictly greater. -/
def adopt (held candidate : α) : α := if key held < key candidate then candidate else held

def IsLatest (seen : Set α) (held : α) : Prop :=
  held ∈ seen ∧ ∀ other ∈ seen, key other ≤ key held

variable {key} {seen issued : Set α} {held candidate : α}

theorem IsLatest.singleton (start : α) : IsLatest key {start} start :=
  ⟨rfl, fun _ same => by rw [Set.mem_singleton_iff.mp same]⟩

theorem IsLatest.adopt (latest : IsLatest key seen held) (candidate : α) :
    IsLatest key (insert candidate seen) (adopt key held candidate) := by
  unfold Data.adopt
  split
  · rename_i newer
    refine ⟨Set.mem_insert _ _, ?_⟩
    rintro other (rfl | member)
    · exact le_refl _
    · exact (latest.2 other member).trans newer.le
  · rename_i older
    refine ⟨Set.mem_insert_of_mem _ latest.1, ?_⟩
    rintro other (rfl | member)
    · exact not_lt.mp older
    · exact latest.2 other member

/-- A replica that started below some issued candidate and has seen every
issued one holds an issued one. -/
theorem IsLatest.mem_issued {start : α} (latest : IsLatest key (insert start issued) held)
    (above : ∃ candidate ∈ issued, key start < key candidate) : held ∈ issued := by
  obtain ⟨candidate, member, newer⟩ := above
  rcases latest.1 with rfl | inside
  · exact absurd (latest.2 candidate (Set.mem_insert_of_mem _ member)) (not_le.mpr newer)
  · exact inside

/-- Two replicas that have seen the same issued candidates agree, wherever
they started, when keys identify issued candidates. -/
theorem IsLatest.agree {left right leftStart rightStart : α}
    (unique : Set.InjOn key issued)
    (leftLatest : IsLatest key (insert leftStart issued) left)
    (rightLatest : IsLatest key (insert rightStart issued) right)
    (leftAbove : ∃ candidate ∈ issued, key leftStart < key candidate)
    (rightAbove : ∃ candidate ∈ issued, key rightStart < key candidate) : left = right := by
  have leftIssued := leftLatest.mem_issued leftAbove
  have rightIssued := rightLatest.mem_issued rightAbove
  exact unique leftIssued rightIssued (le_antisymm
    (rightLatest.2 left (Set.mem_insert_of_mem _ leftIssued))
    (leftLatest.2 right (Set.mem_insert_of_mem _ rightIssued)))

end Skittermouse.Data

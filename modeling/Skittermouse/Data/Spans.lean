import Mathlib.Data.Set.Lattice

namespace Skittermouse.Data

/-! # Spans of a file

A file that arrives in pieces. A buffer that started blank shows the file where
a piece covered it and is still blank elsewhere, whatever the order of the
pieces and however they overlap.
-/

structure Span where
  offset : Nat
  length : Nat
deriving DecidableEq

def Span.positions (span : Span) : Set Nat :=
  {position | span.offset ≤ position ∧ position < span.offset + span.length}

def covered (spans : List Span) : Set Nat := {position | ∃ span ∈ spans, position ∈ span.positions}

instance (span : Span) (position : Nat) : Decidable (position ∈ span.positions) :=
  inferInstanceAs (Decidable (_ ∧ _))

instance (spans : List Span) (position : Nat) : Decidable (position ∈ covered spans) :=
  inferInstanceAs (Decidable (∃ span ∈ spans, position ∈ span.positions))

@[simp] theorem covered_nil : covered [] = ∅ := by
  ext position
  simp [covered]

theorem covered_concat (spans : List Span) (last : Span) :
    covered (spans ++ [last]) = covered spans ∪ last.positions := by
  ext position
  simp [covered, or_and_right, exists_or]

variable {α : Type u} {blank : α} {file buffer written : List α} {places : Set Nat} {span : Span}

/-- The buffer shows the file at these places and is blank everywhere else. -/
structure Reveals (blank : α) (file : List α) (places : Set Nat) (buffer : List α) : Prop where
  length : buffer.length = file.length
  shown : ∀ position ∈ places, buffer[position]? = file[position]?
  hidden : ∀ position ∉ places, position < file.length → buffer[position]? = some blank

theorem Reveals.start (blank : α) (file : List α) :
    Reveals blank file ∅ (List.replicate file.length blank) where
  length := List.length_replicate
  shown _ member := absurd member (Set.notMem_empty _)
  hidden position _ inside := by rw [List.getElem?_replicate, if_pos inside]

theorem Reveals.write (reveals : Reveals blank file places buffer)
    (length : written.length = buffer.length)
    (inside : ∀ position ∈ span.positions, written[position]? = file[position]?)
    (outside : ∀ position ∉ span.positions, written[position]? = buffer[position]?) :
    Reveals blank file (places ∪ span.positions) written where
  length := length.trans reveals.length
  shown position member := by
    by_cases here : position ∈ span.positions
    · exact inside position here
    · rw [outside position here]
      exact reveals.shown position (member.resolve_right here)
  hidden position absent bound := by
    obtain ⟨before, here⟩ : position ∉ places ∧ position ∉ span.positions := by
      simpa [not_or] using absent
    rw [outside position here]
    exact reveals.hidden position before bound

/-- The front of the buffer is the front of the file when what is not shown of
it is blank in the file too. -/
theorem Reveals.take_eq_iff (reveals : Reveals blank file places buffer) {count : Nat}
    (within : count ≤ file.length) :
    buffer.take count = file.take count ↔
      ∀ position < count, position ∈ places ∨ file[position]? = some blank := by
  constructor
  · intro same position before
    by_cases member : position ∈ places
    · exact .inl member
    · have here := congrArg (fun bytes : List α => bytes[position]?) same
      simp only [List.getElem?_take_of_lt before] at here
      exact .inr (here.symm.trans (reveals.hidden position member (before.trans_le within)))
  · intro shown
    apply List.ext_getElem?
    intro position
    rw [List.getElem?_take, List.getElem?_take]
    split
    · rename_i before
      by_cases member : position ∈ places
      · exact reveals.shown position member
      · rw [reveals.hidden position member (before.trans_le within),
          (shown position before).resolve_left member]
    · rfl

end Skittermouse.Data

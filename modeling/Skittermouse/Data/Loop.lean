import Mathlib.Data.Nat.Init

namespace Skittermouse.Data

/-! While loops as executable functions.

A loop runs within a bound on its rounds, and has no result when it would go
on. A result does not depend on the bound, and a variant that falls in every
round is a bound that suffices.
-/

section

variable {σ : Type} {going : σ → Bool} {body : σ → σ}

def whileLoop (going : σ → Bool) (body : σ → σ) : Nat → σ → Option σ
  | 0, state => if going state then none else some state
  | rounds + 1, state =>
      if going state then whileLoop going body rounds (body state) else some state

theorem whileLoop_exit {state : σ} (stopped : going state = false) (rounds : Nat) :
    whileLoop going body rounds state = some state := by
  cases rounds <;> simp [whileLoop, stopped]

theorem whileLoop_round {state : σ} (goes : going state = true) (rounds : Nat) :
    whileLoop going body (rounds + 1) state = whileLoop going body rounds (body state) := by
  simp [whileLoop, goes]

/-- The rule of total correctness: what every round preserves holds at the
exit, and the exit is reached. -/
theorem whileLoop_total {Invariant : σ → Prop} (variant : σ → Nat)
    (preserved : ∀ state, Invariant state → going state = true →
      Invariant (body state) ∧ variant (body state) < variant state)
    {state : σ} (start : Invariant state) {rounds : Nat} (enough : variant state ≤ rounds) :
    ∃ last, whileLoop going body rounds state = some last ∧ Invariant last ∧ going last = false := by
  induction rounds generalizing state with
  | zero =>
      cases goes : going state with
      | false => exact ⟨state, whileLoop_exit goes 0, start, goes⟩
      | true =>
          have falls := (preserved state start goes).2
          omega
  | succ rounds ih =>
      cases goes : going state with
      | false => exact ⟨state, whileLoop_exit goes _, start, goes⟩
      | true =>
          obtain ⟨kept, falls⟩ := preserved state start goes
          rw [whileLoop_round goes]
          exact ih kept (by omega)

end

end Skittermouse.Data

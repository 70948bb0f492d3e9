import Skittermouse.Data.OrdMap
import Skittermouse.Data.Words

namespace Skittermouse.Data

/-! # Cooldowns

Something that may be done again for a key only when a window of time has
passed since it was last done for that key.
-/

variable {κ : Type} [LinearOrder κ]

def lastPass (key : κ) : List (κ × UInt64) → Option UInt64
  | [] => none
  | (other, now) :: rest => if other = key then some now else lastPass key rest

/-- The window lies between any two in a row for the same key. -/
def Spaced (window : UInt64) : List (κ × UInt64) → Prop
  | [] => True
  | (key, now) :: rest =>
      (∀ last, lastPass key rest = some last → window ≤ now - last) ∧ Spaced window rest

/-- How often it was done for a key in a stretch of time. -/
def passesWithin (key : κ) (start stop : UInt64) (passes : List (κ × UInt64)) : Nat :=
  passes.countP fun pass => pass.1 = key ∧ start ≤ pass.2 ∧ pass.2 ≤ stop

def InOrder : List (κ × UInt64) → Prop
  | [] => True
  | (_, now) :: rest => (∀ pass ∈ rest, pass.2 ≤ now) ∧ InOrder rest

variable {key : κ} {window now last : UInt64} {passes : List (κ × UInt64)}

theorem lastPass_mem (found : lastPass key passes = some last) : (key, last) ∈ passes := by
  induction passes with
  | nil => contradiction
  | cons pass rest ih =>
      obtain ⟨other, now⟩ := pass
      simp only [lastPass] at found
      split at found
      · rename_i same
        cases found
        exact same ▸ List.mem_cons_self
      · exact List.mem_cons_of_mem _ (ih found)

theorem InOrder.le_lastPass (inOrder : InOrder passes) {time : UInt64} (member : (key, time) ∈ passes) :
    ∃ last, lastPass key passes = some last ∧ time ≤ last := by
  induction passes with
  | nil => exact absurd member List.not_mem_nil
  | cons pass rest ih =>
      obtain ⟨other, now⟩ := pass
      by_cases same : other = key
      · refine ⟨now, by rw [lastPass, if_pos same], ?_⟩
        rcases List.mem_cons.mp member with newest | earlier
        · exact UInt64.le_of_eq (Prod.mk.inj newest).2
        · exact inOrder.1 _ earlier
      · rcases List.mem_cons.mp member with newest | earlier
        · exact absurd (Prod.mk.inj newest).1.symm same
        · rw [lastPass, if_neg same]
          exact ih inOrder.2 earlier

theorem passesWithin_cons (key other : κ) (now start stop : UInt64) (rest : List (κ × UInt64)) :
    passesWithin key start stop ((other, now) :: rest) =
      passesWithin key start stop rest + if other = key ∧ start ≤ now ∧ now ≤ stop then 1 else 0 := by
  simp only [passesWithin, List.countP_cons, decide_eq_true_eq]

theorem passesWithin_stop (inOrder : InOrder passes) (found : lastPass key passes = some last)
    (start stop : UInt64) :
    passesWithin key start stop passes ≤ passesWithin key start last passes := by
  refine List.countP_mono_left fun pass member within => ?_
  simp only [decide_eq_true_eq] at within ⊢
  obtain ⟨same, late, _⟩ := within
  obtain ⟨latest, known, before⟩ := inOrder.le_lastPass (show (key, pass.2) ∈ passes from same ▸ member)
  rw [found] at known
  exact ⟨same, late, Option.some.inj known ▸ before⟩

/-- In a stretch of time there is room for one more than there are windows in it. -/
theorem Spaced.passesWithin_le (spaced : Spaced window passes) (inOrder : InOrder passes) (key : κ)
    (start stop : UInt64) :
    passesWithin key start stop passes * window.toNat ≤ (stop.toNat - start.toNat) + window.toNat := by
  induction passes generalizing stop with
  | nil => simp [passesWithin]
  | cons pass rest ih =>
      obtain ⟨other, now⟩ := pass
      have earlier := ih spaced.2 inOrder.2
      rw [passesWithin_cons]
      by_cases counted : other = key ∧ start ≤ now ∧ now ≤ stop
      · obtain ⟨rfl, late, soon⟩ := counted
        rw [if_pos ⟨rfl, late, soon⟩]
        rw [UInt64.le_iff_toNat_le] at late soon
        cases found : lastPass other rest with
        | none =>
            have none_ : passesWithin other start stop rest = 0 := by
              refine List.countP_eq_zero.mpr fun pass member within => ?_
              simp only [decide_eq_true_eq] at within
              obtain ⟨last, known, _⟩ := inOrder.2.le_lastPass
                (show (other, pass.2) ∈ rest from within.1 ▸ member)
              exact Option.some_ne_none _ (known.symm.trans found)
            rw [none_]
            omega
        | some last =>
            have apart := spaced.1 last found
            have before : last ≤ now := inOrder.1 _ (lastPass_mem found)
            rw [UInt64.le_iff_toNat_le, UInt64.toNat_sub_of_le _ _ before] at apart
            rw [UInt64.le_iff_toNat_le] at before
            have bound := (Nat.mul_le_mul_right window.toNat
              (passesWithin_stop inOrder.2 found start stop)).trans (earlier last)
            by_cases reaches : start.toNat ≤ last.toNat
            · rw [Nat.add_mul, Nat.one_mul]
              omega
            · have none_ : passesWithin other start last rest = 0 := by
                refine List.countP_eq_zero.mpr fun pass member within => ?_
                simp only [decide_eq_true_eq, UInt64.le_iff_toNat_le] at within
                omega
              have atMost := passesWithin_stop inOrder.2 found start stop
              have zero : passesWithin other start stop rest = 0 := by omega
              rw [zero]
              omega
      · rw [if_neg counted, Nat.add_zero]
        exact earlier stop

/-- A table that has for each key when it was last done. -/
def Remembers (table : OrdMap κ UInt64) (passes : List (κ × UInt64)) : Prop :=
  ∀ key, table.find? key = lastPass key passes

variable {table : OrdMap κ UInt64}

theorem Remembers.init : Remembers (∅ : OrdMap κ UInt64) [] := fun _ => rfl

theorem Remembers.insert (remembers : Remembers table passes) (key : κ) (now : UInt64) :
    Remembers (table.insert key now) ((key, now) :: passes) := fun other => by
  rw [OrdMap.find?_insert, lastPass]
  by_cases same : other = key
  · rw [if_pos same, if_pos same.symm]
  · rw [if_neg same, if_neg fun own => same own.symm, remembers other]

theorem Remembers.spaced (remembers : Remembers table passes) (spaced : Spaced window passes)
    (due : ∀ last, table.find? key = some last → window ≤ now - last) :
    Spaced window ((key, now) :: passes) :=
  ⟨fun last found => due last ((remembers key).trans found), spaced⟩

end Skittermouse.Data

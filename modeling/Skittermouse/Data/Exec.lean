import Mathlib.Data.List.Basic

namespace Skittermouse.Data

/-! Runs of a deterministic labelled system.

A run is the list of actions taken from a start state. `Along` says that every
action of the run is taken in a state that admits it, so a condition on the
environment is one predicate instead of a premise of every step lemma.
-/

def exec (step : α → σ → σ) (state : σ) (actions : List α) : σ :=
  actions.foldl (fun state action => step action state) state

/-- Every action of the run meets `Allowed` in the state where it is taken. -/
def Along (step : α → σ → σ) (Allowed : α → σ → Prop) : σ → List α → Prop
  | _, [] => True
  | state, action :: rest => Allowed action state ∧ Along step Allowed (step action state) rest

@[simp] theorem exec_nil (step : α → σ → σ) (state : σ) : exec step state [] = state := rfl

@[simp] theorem exec_cons (step : α → σ → σ) (state : σ) (action : α) (rest : List α) :
    exec step state (action :: rest) = exec step (step action state) rest := rfl

theorem exec_append (step : α → σ → σ) (state : σ) (first second : List α) :
    exec step state (first ++ second) = exec step (exec step state first) second := by
  simp [exec, List.foldl_append]

theorem exec_concat (step : α → σ → σ) (state : σ) (actions : List α) (last : α) :
    exec step state (actions ++ [last]) = step last (exec step state actions) := by
  rw [exec_append]
  rfl

@[simp] theorem along_nil (step : α → σ → σ) (Allowed : α → σ → Prop) (state : σ) :
    Along step Allowed state [] := trivial

theorem along_append {step : α → σ → σ} {Allowed : α → σ → Prop} {state : σ}
    {first second : List α} :
    Along step Allowed state (first ++ second) ↔
      Along step Allowed state first ∧ Along step Allowed (exec step state first) second := by
  induction first generalizing state with
  | nil => simp
  | cons action rest ih => simp [Along, ih, and_assoc]

theorem along_concat {step : α → σ → σ} {Allowed : α → σ → Prop} {state : σ}
    {actions : List α} {last : α} :
    Along step Allowed state (actions ++ [last]) ↔
      Along step Allowed state actions ∧ Allowed last (exec step state actions) := by
  rw [along_append]
  simp [Along]

theorem Along.and {step : α → σ → σ} {First Second : α → σ → Prop} {state : σ}
    {actions : List α} (first : Along step First state actions)
    (second : Along step Second state actions) :
    Along step (fun action state => First action state ∧ Second action state) state actions := by
  induction actions generalizing state with
  | nil => trivial
  | cons action rest ih => exact ⟨⟨first.1, second.1⟩, ih first.2 second.2⟩

theorem along_of_forall {step : α → σ → σ} {Allowed : α → σ → Prop} {actions : List α}
    (all : ∀ action ∈ actions, ∀ state, Allowed action state) (state : σ) :
    Along step Allowed state actions := by
  induction actions generalizing state with
  | nil => trivial
  | cons action rest ih =>
      exact ⟨all action List.mem_cons_self state,
        ih (fun other member => all other (List.mem_cons_of_mem _ member)) (step action state)⟩

/-- Conditions that say the same wherever an invariant holds say the same of a run. -/
theorem along_congr {step : α → σ → σ} {Allowed First Second : α → σ → Prop}
    {Invariant : σ → Prop}
    (preserved : ∀ action state, Invariant state → Allowed action state →
      Invariant (step action state))
    (same : ∀ action state, Invariant state → Allowed action state →
      (First action state ↔ Second action state))
    {state : σ} {actions : List α} (initial : Invariant state)
    (along : Along step Allowed state actions) :
    Along step First state actions ↔ Along step Second state actions := by
  induction actions generalizing state with
  | nil => exact Iff.rfl
  | cons action rest ih =>
      exact and_congr (same action state initial along.1)
        (ih (preserved action state initial along.1) along.2)

/-- What one admitted step preserves, a whole admitted run preserves. -/
theorem exec_invariant {step : α → σ → σ} {Allowed : α → σ → Prop} {Invariant : σ → Prop}
    (preserved : ∀ action state, Invariant state → Allowed action state →
      Invariant (step action state))
    {state : σ} {actions : List α} (initial : Invariant state)
    (along : Along step Allowed state actions) : Invariant (exec step state actions) := by
  induction actions generalizing state with
  | nil => exact initial
  | cons action rest ih => exact ih (preserved action state initial along.1) along.2

/-- A fold keeps to a reflexive and transitive relation that each of its steps keeps to. -/
theorem foldl_related {Related : σ → σ → Prop} {step : σ → α → σ}
    (refl : ∀ state, Related state state)
    (trans : ∀ {first second third}, Related first second → Related second third →
      Related first third)
    (steps : ∀ state item, Related state (step state item)) (items : List α) (start : σ) :
    Related start (items.foldl step start) := by
  induction items generalizing start with
  | nil => exact refl start
  | cons item rest ih => exact trans (steps start item) (ih (step start item))

/-- The unconditional form: every run preserves what every step preserves. -/
theorem exec_preserves {step : α → σ → σ} {Invariant : σ → Prop}
    (preserved : ∀ action state, Invariant state → Invariant (step action state))
    {state : σ} (initial : Invariant state) (actions : List α) :
    Invariant (exec step state actions) := by
  induction actions generalizing state with
  | nil => exact initial
  | cons action rest ih => exact ih (preserved action state initial)

/-- A run that has the chosen actions among its own, in this order, climbs one level
with each of them, if no action ever loses a level. -/
theorem exec_climbs {step : α → σ → σ} {Reached : Nat → σ → Prop}
    (kept : ∀ level action state, Reached level state → Reached level (step action state))
    {chosen actions : List α} (among : chosen.Sublist actions) {level : Nat}
    (climbs : ∀ place action, chosen[place]? = some action → ∀ state,
      Reached (level + place) state → Reached (level + place + 1) (step action state))
    {state : σ} (reached : Reached level state) :
    Reached (level + chosen.length) (exec step state actions) := by
  induction among generalizing level state with
  | slnil => exact reached
  | cons action _ ih => exact ih climbs (kept level action state reached)
  | @cons_cons first _ action _ ih =>
      have next := ih (fun place other found => by
        have higher := climbs (place + 1) other found
        rw [show level + (place + 1) = level + 1 + place by omega] at higher
        exact higher) (climbs 0 action rfl state reached)
      rw [List.length_cons, show level + (first.length + 1) = level + 1 + first.length by omega]
      exact next

/-- A run of permitted actions leads from one state to the other. -/
def Leads (step : α → σ → σ) (Permitted : α → Prop) (before after : σ) : Prop :=
  ∃ actions, (∀ action ∈ actions, Permitted action) ∧ after = exec step before actions

theorem Leads.refl (step : α → σ → σ) (Permitted : α → Prop) (state : σ) :
    Leads step Permitted state state :=
  ⟨[], fun _ member => absurd member List.not_mem_nil, rfl⟩

theorem Leads.one {step : α → σ → σ} {Permitted : α → Prop} (state : σ) {action : α}
    (permitted : Permitted action) : Leads step Permitted state (step action state) :=
  ⟨[action], fun _ member => List.mem_singleton.mp member ▸ permitted, rfl⟩

theorem Leads.trans {step : α → σ → σ} {Permitted : α → Prop} {first second third : σ}
    (left : Leads step Permitted first second) (right : Leads step Permitted second third) :
    Leads step Permitted first third := by
  obtain ⟨front, frontAll, rfl⟩ := left
  obtain ⟨behind, behindAll, rfl⟩ := right
  refine ⟨front ++ behind, fun action member => ?_, (exec_append _ _ _ _).symm⟩
  exact (List.mem_append.mp member).elim (frontAll action) (behindAll action)

theorem Leads.preserves {step : α → σ → σ} {Permitted : α → Prop} {Invariant : σ → Prop}
    {before after : σ} (leads : Leads step Permitted before after)
    (preserved : ∀ action state, Permitted action → Invariant state → Invariant (step action state))
    (initial : Invariant before) : Invariant after := by
  obtain ⟨actions, all, rfl⟩ := leads
  exact exec_invariant (fun action state holds permitted => preserved action state permitted holds)
    initial (along_of_forall (fun action member _ => all action member) before)

/-- So does a run in which an observer notes these things, in their order. -/
def LeadsBy (step : α → σ → σ) (Permitted : α → Prop) (note : α → Option γ) (noted : List γ)
    (before after : σ) : Prop :=
  ∃ actions, (∀ action ∈ actions, Permitted action) ∧ actions.filterMap note = noted ∧
    after = exec step before actions

section

variable {step : α → σ → σ} {Permitted : α → Prop} {note : α → Option γ}

theorem LeadsBy.refl (step : α → σ → σ) (Permitted : α → Prop) (state : σ) :
    LeadsBy step Permitted note [] state state :=
  ⟨[], fun _ member => absurd member List.not_mem_nil, rfl, rfl⟩

theorem LeadsBy.one (state : σ) {action : α} (permitted : Permitted action) {noted : List γ}
    (notes : [action].filterMap note = noted) :
    LeadsBy step Permitted note noted state (step action state) :=
  ⟨[action], fun _ member => List.mem_singleton.mp member ▸ permitted, notes, rfl⟩

theorem LeadsBy.trans {first second third : σ} {front behind : List γ}
    (left : LeadsBy step Permitted note front first second)
    (right : LeadsBy step Permitted note behind second third) :
    LeadsBy step Permitted note (front ++ behind) first third := by
  obtain ⟨earlier, earlierAll, rfl, rfl⟩ := left
  obtain ⟨later, laterAll, rfl, rfl⟩ := right
  refine ⟨earlier ++ later, fun action member => ?_, List.filterMap_append, (exec_append _ _ _ _).symm⟩
  exact (List.mem_append.mp member).elim (earlierAll action) (laterAll action)

theorem LeadsBy.leads {before after : σ} {noted : List γ}
    (leads : LeadsBy step Permitted note noted before after) : Leads step Permitted before after := by
  obtain ⟨actions, all, _, same⟩ := leads
  exact ⟨actions, all, same⟩

end

/-- Where an invariant holds, every step is a permitted run of another system as
`view` sees it; then so is a whole run. -/
theorem exec_simulates {step : α → σ → σ} {abstract : β → ρ → ρ} {Permitted : β → Prop}
    {view : σ → ρ} {Allowed : α → σ → Prop} {Invariant : σ → Prop}
    (simulated : ∀ action state, Invariant state → Allowed action state →
      Invariant (step action state) ∧
        Leads abstract Permitted (view state) (view (step action state)))
    {state : σ} {actions : List α} (initial : Invariant state)
    (along : Along step Allowed state actions) :
    Invariant (exec step state actions) ∧
      Leads abstract Permitted (view state) (view (exec step state actions)) := by
  induction actions generalizing state with
  | nil => exact ⟨initial, .refl _ _ _⟩
  | cons action rest ih =>
      obtain ⟨next, first⟩ := simulated action state initial along.1
      obtain ⟨last, others⟩ := ih next along.2
      exact ⟨last, first.trans others⟩

end Skittermouse.Data

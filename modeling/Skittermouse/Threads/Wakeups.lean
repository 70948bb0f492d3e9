import Skittermouse.Platform.Wakeups

/-! # No request between threads is lost -/

namespace Skittermouse.Platform

open Skittermouse.Data Skittermouse.Core Skittermouse.Net Skittermouse.Pairing

namespace PumpApp

/-- The pump messages on their way: about to be posted, in the queue, or just taken from it. -/
def outstanding (app : PumpApp) : Nat :=
  (if app.ticker = .posting then 1 else 0) + app.posted + if app.ui = .taken then 1 else 0

/-- `pumpScheduled` says whether a message is on its way, until one could not be posted. -/
structure Paced (app : PumpApp) : Prop where
  single : app.outstanding ≤ 1
  flagged : app.refused = false → (app.pumpScheduled = true ↔ app.outstanding = 1)
  silenced : app.refused = true → app.outstanding = 0 ∧ app.pumpScheduled = true
  owed : app.refused = false → app.pumped = app.ticks ∨ app.outstanding = 1 ∨ app.ui = .cleared

inductive Move (app : PumpApp) : PumpApp → Prop where
  | idle : Move app app
  | ticked (scheduled : app.pumpScheduled = true) : Move app { app with ticks := app.ticks + 1 }
  | raised (free : app.pumpScheduled = false) (waiting : app.ticker = .waiting) :
      Move app { app with ticks := app.ticks + 1, pumpScheduled := true, ticker := .posting }
  | posted (posting : app.ticker = .posting) :
      Move app { app with ticker := .waiting, posted := app.posted + 1 }
  | refused (posting : app.ticker = .posting) :
      Move app { app with ticker := .waiting, refused := true }
  | taken (messages : app.ui = .messages) (some_ : app.posted ≠ 0) :
      Move app { app with posted := app.posted - 1, ui := .taken }
  | cleared (taken : app.ui = .taken) : Move app { app with pumpScheduled := false, ui := .cleared }
  | pumped (cleared : app.ui = .cleared) :
      Move app { app with ui := .messages, pumped := app.ticks }
  | timer (messages : app.ui = .messages) : Move app { app with pumped := app.ticks }

theorem step_move (app : PumpApp) (action : PumpAction) : Move app (PumpApp.step action app) := by
  cases action with
  | tick =>
      simp only [step]
      split
      · exact .idle
      · rename_i waiting
        split
        · rename_i scheduled
          exact .ticked scheduled
        · rename_i free
          exact .raised (Bool.eq_false_of_not_eq_true free) waiting
  | post works =>
      simp only [step]
      split
      · exact .idle
      · rename_i posting
        split
        · exact .posted posting
        · exact .refused posting
  | take =>
      simp only [step]
      split
      · rename_i ready
        exact .taken ready.1 ready.2
      · exact .idle
  | clear =>
      simp only [step]
      split
      · rename_i taken
        exact .cleared taken
      · exact .idle
  | pump =>
      simp only [step]
      split
      · rename_i cleared
        exact .pumped cleared
      · exact .idle
  | timer =>
      simp only [step]
      split
      · rename_i messages
        exact .timer messages
      · exact .idle

theorem init_paced : init.Paced where
  single := by decide
  flagged _ := by decide
  silenced refused := absurd refused Bool.false_ne_true
  owed _ := .inl rfl

theorem Paced.move {app after : PumpApp} (paced : app.Paced) (move : Move app after) : after.Paced := by
  obtain ⟨single, flagged, silenced, owed⟩ := paced
  simp only [outstanding] at single flagged silenced owed
  cases move with
  | idle => exact ⟨single, flagged, silenced, owed⟩
  | ticked scheduled =>
      -- a message is on its way, and its pump will come behind this tick
      exact ⟨single, flagged, silenced, fun works => .inr (.inl ((flagged works).mp scheduled))⟩
  | raised free waiting => constructor <;> simp only [outstanding] <;> grind
  | posted posting => constructor <;> simp only [outstanding] <;> grind
  | refused posting => constructor <;> simp only [outstanding] <;> grind
  | taken messages some_ => constructor <;> simp only [outstanding] <;> grind
  | cleared taken => constructor <;> simp only [outstanding] <;> grind
  | pumped cleared => constructor <;> simp only [outstanding] <;> grind
  | timer messages => exact ⟨single, flagged, silenced, fun _ => .inl rfl⟩

end PumpApp

def pumpAfter (actions : List PumpAction) : PumpApp := exec PumpApp.step .init actions

theorem pumpAfter_paced (actions : List PumpAction) : (pumpAfter actions).Paced :=
  exec_preserves (fun action app paced => paced.move (app.step_move action)) PumpApp.init_paced actions

/-- However the ticker and the UI thread interleave, there is never more than one pump
message on its way. While all of them can be posted, every tick has been followed by a
pump from its beginning as soon as none is on its way any more. Once one could not be
posted, `pumpScheduled` stays set and no other is ever on its way; a pump whose message
had been taken before may still run. -/
theorem pumps_coalesce (actions : List PumpAction) :
    let app := pumpAfter actions
    app.outstanding ≤ 1 ∧
      (app.refused = false → app.outstanding = 0 → app.ui = .messages → app.pumped = app.ticks) ∧
      (app.refused = true → app.outstanding = 0 ∧ app.pumpScheduled = true) := by
  intro app
  have paced : app.Paced := pumpAfter_paced actions
  refine ⟨paced.single, fun works none_ messages => ?_, paced.silenced⟩
  rcases paced.owed works with all | one | cleared
  · exact all
  · exact absurd (none_.symm.trans one) Nat.zero_ne_one
  · exact absurd (messages.symm.trans cleared) PumpPhase.noConfusion

def OlePhase.batch {τ : Type} : OlePhase τ → List (PromiseRequest τ)
  | .waiting | .woken => []
  | .putting batch => batch

namespace PromiseApp

variable {τ : Type} {app after : PromiseApp τ}

/-- Somebody is about to look at the queue. -/
def Noticed (app : PromiseApp τ) : Prop :=
  app.ui = .pushed ∨ app.promiseEvent = true ∨ app.thread = .woken

theorem Noticed.unwoken (noticed : app.Noticed) (busy : app.thread ≠ .woken) :
    app.ui = .pushed ∨ app.promiseEvent = true := by
  rcases noticed with pushed | event | woken
  · exact .inl pushed
  · exact .inr event
  · exact absurd woken busy

structure Kept (app : PromiseApp τ) : Prop where
  order : app.announced = app.offered ++ app.thread.batch ++ app.promiseQueue
  noticed : app.promiseQueue ≠ [] → app.Noticed
  nonempty : ∀ request ∈ app.announced, request.files ≠ []

theorem init_kept (τ : Type) (devices : List PairedDevice) (keys : KeyStore) :
    (init τ devices keys).Kept where
  order := rfl
  noticed some_ := absurd rfl some_
  nonempty _ member := absurd member List.not_mem_nil

theorem Kept.announce (kept : app.Kept) (sender : PeerId) (files : List FilePromiseItem) :
    (app.onRemoteFilePromiseUi sender files).Kept := by
  unfold onRemoteFilePromiseUi
  split
  · exact kept
  · rename_i some_
    refine ⟨?_, fun _ => .inl rfl, fun request member => ?_⟩
    · show app.announced ++ [_] = _
      rw [kept.order]
      exact List.append_assoc _ _ _
    · rcases List.mem_append.mp member with old | new
      · exact kept.nonempty request old
      · rw [List.mem_singleton.mp new]
        exact fun empty => some_ (List.isEmpty_iff.mpr empty)

theorem Kept.step (kept : app.Kept) (action : PromiseAction) : (PromiseApp.step action app).Kept := by
  obtain ⟨order, noticed, nonempty⟩ := kept
  cases action with
  | announce sender files =>
      simp only [PromiseApp.step]
      split
      · exact ⟨order, noticed, nonempty⟩
      · exact Kept.announce ⟨order, noticed, nonempty⟩ sender files
  | setEvent =>
      simp only [PromiseApp.step]
      split
      · exact ⟨order, noticed, nonempty⟩
      · exact ⟨order, fun _ => .inr (.inl rfl), nonempty⟩
  | wake =>
      simp only [PromiseApp.step]
      split
      · rename_i waiting
        rw [waiting] at order
        split
        · exact ⟨order, fun _ => .inr (.inr rfl), nonempty⟩
        · exact ⟨waiting.symm ▸ order, noticed, nonempty⟩
      · exact ⟨order, noticed, nonempty⟩
      · exact ⟨order, noticed, nonempty⟩
  | swap =>
      simp only [PromiseApp.step]
      split
      · rename_i woken
        rw [woken, OlePhase.batch, List.append_nil] at order
        refine ⟨?_, fun some_ => absurd rfl some_, nonempty⟩
        show app.announced = app.offered ++ app.promiseQueue ++ []
        rw [List.append_nil]
        exact order
      · exact ⟨order, noticed, nonempty⟩
      · exact ⟨order, noticed, nonempty⟩
  | put =>
      simp only [PromiseApp.step]
      split
      · rename_i done
        rw [done] at order
        refine ⟨order, fun some_ => ?_, nonempty⟩
        have busy : app.thread ≠ .woken := by simp [done]
        exact ((noticed some_).unwoken busy).imp_right .inl
      · rename_i request batch putting
        rw [putting] at order
        refine ⟨?_, fun some_ => ?_, nonempty⟩
        · show app.announced = app.offered ++ [request] ++ batch ++ app.promiseQueue
          rw [order, List.append_assoc app.offered [request]]
          rfl
        · have busy : app.thread ≠ .woken := by simp [putting]
          exact ((noticed some_).unwoken busy).imp_right .inl
      · exact ⟨order, noticed, nonempty⟩
      · exact ⟨order, noticed, nonempty⟩
  | store => exact ⟨order, noticed, nonempty⟩

end PromiseApp

def promisesAfter (τ : Type) (devices : List PairedDevice) (keys : KeyStore)
    (actions : List PromiseAction) : PromiseApp τ :=
  exec PromiseApp.step (.init τ devices keys) actions

theorem promisesAfter_kept (τ : Type) (devices : List PairedDevice) (keys : KeyStore)
    (actions : List PromiseAction) : (promisesAfter τ devices keys actions).Kept :=
  @exec_preserves _ _ PromiseApp.step PromiseApp.Kept (fun action _ kept => kept.step action) _
    (PromiseApp.init_kept τ devices keys) actions

/-- Every announcement of files is offered on the clipboard once and in its turn: what has
been announced is what has been offered, then the thread's batch, then the queue. No
wake-up is lost: with the handler returned, the event not set and the thread waiting,
everything has been offered. -/
theorem promises_offered_in_order (τ : Type) (devices : List PairedDevice) (keys : KeyStore)
    (actions : List PromiseAction) :
    let app := promisesAfter τ devices keys actions
    app.announced = app.offered ++ app.thread.batch ++ app.promiseQueue ∧
      (∀ request ∈ app.announced, request.files ≠ []) ∧
      (app.promiseQueue ≠ [] → app.Noticed) ∧
      (app.ui = .messages → app.promiseEvent = false → app.thread = .waiting →
        app.offered = app.announced) := by
  intro app
  have kept : app.Kept := promisesAfter_kept τ devices keys actions
  refine ⟨kept.order, kept.nonempty, kept.noticed, fun messages unset waiting => ?_⟩
  have nothing : app.promiseQueue = [] := by
    by_contra some_
    have busy : app.thread ≠ .woken := by simp [waiting]
    rcases (kept.noticed some_).unwoken busy with pushed | event
    · exact absurd (messages.symm.trans pushed) AnnouncePhase.noConfusion
    · exact absurd (unset.symm.trans event) Bool.false_ne_true
  rw [kept.order, nothing, waiting, List.append_nil]
  exact (List.append_nil _).symm

end Skittermouse.Platform

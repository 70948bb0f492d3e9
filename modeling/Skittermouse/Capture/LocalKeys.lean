import Skittermouse.Capture.ReclaimChord

namespace Skittermouse.Capture

open Skittermouse.Data Skittermouse.Platform

/-! # The keys of the driving machine

Capture starts and stops while keys are held, and while it is active the hook
keeps the key events from its own machine. What the keyboard does and what the
local system gets to see of it are two histories of the same keys.
-/

/-- The driving machine: its hook, whether it controls a peer, the events of its
keyboard and those that its own system saw. -/
structure Desk where
  capture : WinCapture
  driving : Bool
  typed : List KeyStroke
  seen : List KeyStroke

namespace Desk

def init (modifiers : UInt32) (key : UInt16) : Desk :=
  { capture := (WinCapture.init.setEscape modifiers key true).setSwallow true
    driving := false
    typed := []
    seen := [] }

def physicallyDown (desk : Desk) : Set UInt32 := replay ∅ (keyStrokes desk.typed)

def locallyDown (desk : Desk) : Set UInt32 := replay ∅ (keyStrokes desk.seen)

/-- A key event passes the hook while it is installed, and reaches the system
unless the hook swallows it. -/
def keyProc (stroke : KeyStroke) (desk : Desk) : Desk :=
  let desk := { desk with typed := desk.typed ++ [stroke] }
  if desk.capture.installed then
    let (_, swallowed, capture) := desk.capture.onKey stroke
    { desk with capture, seen := if swallowed then desk.seen else desk.seen ++ [stroke] }
  else { desk with seen := desk.seen ++ [stroke] }

/-- The hook follows `driving` and the ownership of input. The releases behind a
stop go to the peers and to no one else. -/
def syncCapture (owner hooked : Bool) (desk : Desk) : Desk :=
  let driving := if !owner then false else desk.driving
  let want := driving && owner
  { desk with
    driving
    capture :=
      if want && !desk.capture.installed then (desk.capture.start hooked).2
      else if !want && desk.capture.installed then desk.capture.stop
      else desk.capture }

end Desk

inductive DeskAction where
  | key (stroke : KeyStroke)
  | drive (driving : Bool)
  | sync (owner hooked : Bool)
deriving DecidableEq

def deskStep : DeskAction → Desk → Desk
  | .key stroke, desk => desk.keyProc stroke
  | .drive driving, desk => { desk with driving }
  | .sync owner hooked, desk => desk.syncCapture owner hooked

def NothingStuckHere (desk : Desk) : Prop := desk.locallyDown ⊆ desk.physicallyDown

/-- The active hook keeps a release from a system that has the key down. -/
def HidesRelease (stroke : KeyStroke) (desk : Desk) : Prop :=
  desk.capture.installed = true ∧ stroke.down = false ∧ stroke.vkCode ∈ desk.locallyDown

def Stops (desk : Desk) : DeskAction → Prop
  | .sync owner _ => desk.capture.installed = true ∧ (desk.driving && owner) = false
  | _ => False

def Presses (key : UInt32) : DeskAction → Prop
  | .key stroke => stroke.down = true ∧ stroke.vkCode = key
  | _ => False

/-- Before capture stops, every key whose release it kept from the system is
pressed again. -/
def PressedAgain (start : Desk) (actions : List DeskAction) : Prop :=
  ∀ before stroke between last, before ++ .key stroke :: (between ++ [last]) <+: actions →
    HidesRelease stroke (exec deskStep start before) →
    Stops (exec deskStep start (before ++ .key stroke :: between)) last →
    ∃ action ∈ between, Presses stroke.vkCode action

variable {desk start : Desk} {stroke : KeyStroke} {action : DeskAction} {actions : List DeskAction}

theorem updateModifier_hook (capture : WinCapture) (vk : UInt32) (down : Bool) :
    (capture.updateModifier vk down).installed = capture.installed ∧
      (capture.updateModifier vk down).swallow = capture.swallow := by
  unfold WinCapture.updateModifier
  split_ifs <;> exact ⟨rfl, rfl⟩

theorem onKey_swallows (stroke : KeyStroke) {capture : WinCapture} (swallow : capture.swallow = true) :
    (capture.onKey stroke).2.1 = true := by
  rw [WinCapture.onKey]
  split
  · rfl
  · exact (updateModifier_hook capture stroke.vkCode stroke.down).2.trans swallow

theorem keyProc_active (stroke : KeyStroke) (swallow : desk.capture.swallow = true)
    (active : desk.capture.installed = true) :
    desk.keyProc stroke =
      { desk with
        capture := desk.capture.updateModifier stroke.vkCode stroke.down
        typed := desk.typed ++ [stroke] } := by
  simp only [Desk.keyProc, active, if_true, onKey_swallows stroke swallow, onKey_state]

theorem keyProc_idle (stroke : KeyStroke) (idle : desk.capture.installed = false) :
    desk.keyProc stroke =
      { desk with typed := desk.typed ++ [stroke], seen := desk.seen ++ [stroke] } := by
  simp only [Desk.keyProc, idle, Bool.false_eq_true, if_false]

theorem keyStrokes_concat (strokes : List KeyStroke) (last : KeyStroke) :
    keyStrokes (strokes ++ [last]) = keyStrokes strokes ++ [⟨last.vkCode, last.down⟩] := by
  simp [keyStrokes]

theorem syncCapture_installed (owner hooked : Bool) (desk : Desk) :
    (desk.syncCapture owner hooked).capture.installed =
      (desk.driving && owner && (desk.capture.installed || hooked)) := by
  obtain ⟨capture, driving, typed, seen⟩ := desk
  cases owner <;> cases driving <;> cases active : capture.installed <;> cases hooked <;>
    simp [Desk.syncCapture, WinCapture.start, WinCapture.stop, active]

theorem deskStep_swallow (action : DeskAction) (desk : Desk) (swallow : desk.capture.swallow = true) :
    (deskStep action desk).capture.swallow = true := by
  cases action with
  | key stroke =>
      cases active : desk.capture.installed with
      | true =>
          rw [deskStep, keyProc_active stroke swallow active]
          exact (updateModifier_hook _ _ _).2.trans swallow
      | false =>
          rw [deskStep, keyProc_idle stroke active]
          exact swallow
  | drive driving => exact swallow
  | sync owner hooked =>
      simp only [deskStep, Desk.syncCapture, WinCapture.start, WinCapture.stop]
      split_ifs <;> simp_all

theorem reached_swallow (swallow : start.capture.swallow = true) (actions : List DeskAction) :
    (exec deskStep start actions).capture.swallow = true :=
  exec_preserves deskStep_swallow swallow actions

theorem stops_iff (swallow : desk.capture.swallow = true) (active : desk.capture.installed = true) :
    Stops desk action ↔ (deskStep action desk).capture.installed = false := by
  cases action with
  | key stroke =>
      rw [deskStep, keyProc_active stroke swallow active]
      simp [Stops, (updateModifier_hook _ _ _).1, active]
  | drive driving => simp [Stops, deskStep, active]
  | sync owner hooked => simp [Stops, deskStep, syncCapture_installed, active]

theorem physicallyDown_key (stroke : KeyStroke) (swallow : desk.capture.swallow = true) :
    (deskStep (.key stroke) desk).physicallyDown =
      Stroke.apply desk.physicallyDown ⟨stroke.vkCode, stroke.down⟩ := by
  cases active : desk.capture.installed with
  | true =>
      rw [deskStep, keyProc_active stroke swallow active]
      simp only [Desk.physicallyDown, keyStrokes_concat, replay_concat]
  | false =>
      rw [deskStep, keyProc_idle stroke active]
      simp only [Desk.physicallyDown, keyStrokes_concat, replay_concat]

theorem locallyDown_key_idle (stroke : KeyStroke) (idle : desk.capture.installed = false) :
    (deskStep (.key stroke) desk).locallyDown =
      Stroke.apply desk.locallyDown ⟨stroke.vkCode, stroke.down⟩ := by
  rw [deskStep, keyProc_idle stroke idle]
  simp only [Desk.locallyDown, keyStrokes_concat, replay_concat]

theorem locallyDown_active (action : DeskAction) (swallow : desk.capture.swallow = true)
    (active : desk.capture.installed = true) :
    (deskStep action desk).locallyDown = desk.locallyDown := by
  cases action with
  | key stroke =>
      rw [deskStep, keyProc_active stroke swallow active]
      rfl
  | drive driving => rfl
  | sync owner hooked => rfl

theorem up_of_not_pressed {key : UInt32} (swallow : desk.capture.swallow = true)
    (up : key ∉ desk.physicallyDown) (unpressed : ¬ Presses key action) :
    key ∉ (deskStep action desk).physicallyDown := by
  cases action with
  | key stroke =>
      rw [physicallyDown_key stroke swallow]
      intro down
      unfold Stroke.apply at down
      split at down
      · rename_i pressed
        rcases down with rfl | down
        · exact unpressed ⟨pressed, rfl⟩
        · exact up down
      · exact up down.1
  | drive driving => exact up
  | sync owner hooked => exact up

theorem down_of_pressed {key : UInt32} (swallow : desk.capture.swallow = true)
    (pressed : Presses key action) : key ∈ (deskStep action desk).physicallyDown := by
  cases action with
  | key stroke =>
      obtain ⟨down, rfl⟩ := pressed
      rw [physicallyDown_key stroke swallow, Stroke.apply, if_pos down]
      exact Set.mem_insert _ _
  | drive driving => exact pressed.elim
  | sync owner hooked => exact pressed.elim

theorem released_of_up_now {key : UInt32} (swallow : desk.capture.swallow = true)
    (down : key ∈ desk.physicallyDown) (up : key ∉ (deskStep action desk).physicallyDown) :
    ∃ stroke, action = .key stroke ∧ stroke.down = false ∧ stroke.vkCode = key := by
  cases action with
  | key stroke =>
      rw [physicallyDown_key stroke swallow] at up
      have released : (⟨key, false⟩ : Stroke UInt32) ∈ [⟨stroke.vkCode, stroke.down⟩] :=
        released_of_up down up
      simp only [List.mem_singleton, Stroke.mk.injEq] at released
      exact ⟨stroke, rfl, released.2.symm, released.1.symm⟩
  | drive driving => exact absurd down up
  | sync owner hooked => exact absurd down up

/-- The hook kept the release of a key from the system, and the key has not been
pressed since. -/
def HeldBack (start : Desk) (key : UInt32) (front : List DeskAction) : Prop :=
  ∃ before stroke between, front = before ++ .key stroke :: between ∧
    HidesRelease stroke (exec deskStep start before) ∧ stroke.vkCode = key ∧
    ∀ action ∈ between, ¬ Presses key action

/-- Every key that the system has down is down, or an active hook held its release back. -/
def Accounted (start : Desk) (front : List DeskAction) : Prop :=
  ∀ key ∈ (exec deskStep start front).locallyDown,
    key ∈ (exec deskStep start front).physicallyDown ∨
      (exec deskStep start front).capture.installed = true ∧ HeldBack start key front

theorem Accounted.step {front : List DeskAction} {last : DeskAction}
    (swallow : start.capture.swallow = true) (accounted : Accounted start front)
    (again : PressedAgain start (front ++ [last])) : Accounted start (front ++ [last]) := by
  have swallowing := reached_swallow swallow front
  rw [Accounted, exec_concat]
  intro key locally
  cases active : (exec deskStep start front).capture.installed with
  | false =>
      have clear : (exec deskStep start front).locallyDown ⊆
          (exec deskStep start front).physicallyDown := fun key locally =>
        (accounted key locally).resolve_right fun held => Bool.false_ne_true (active.symm.trans held.1)
      left
      cases last with
      | key stroke =>
          rw [locallyDown_key_idle stroke active] at locally
          rw [physicallyDown_key stroke swallowing]
          exact Stroke.apply_mono _ clear locally
      | drive driving => exact clear locally
      | sync owner hooked => exact clear locally
  | true =>
      rw [locallyDown_active last swallowing active] at locally
      by_cases down : key ∈ (deskStep last (exec deskStep start front)).physicallyDown
      · exact .inl down
      · right
        rcases accounted key locally with before | ⟨_, before, stroke, between, whole, hides, same, unpressed⟩
        · obtain ⟨stroke, rfl, released, rfl⟩ := released_of_up_now swallowing before down
          refine ⟨?_, front, stroke, [], rfl, ⟨active, released, locally⟩, rfl, by simp⟩
          exact Bool.eq_true_of_not_eq_false fun stopped => (stops_iff swallowing active).mpr stopped
        · have still : ¬ Presses key last := fun pressed => down (down_of_pressed swallowing pressed)
          refine ⟨Bool.eq_true_of_not_eq_false fun stopped => ?_, before, stroke, between ++ [last],
            by rw [whole, List.append_assoc, List.cons_append], hides, same, ?_⟩
          · have stops := (stops_iff swallowing active).mpr stopped
            rw [whole] at stops
            have split : before ++ .key stroke :: (between ++ [last]) = front ++ [last] := by
              rw [whole, List.append_assoc, List.cons_append]
            obtain ⟨action, member, pressed⟩ := again before stroke between last
              (split ▸ List.prefix_rfl) hides stops
            exact unpressed action member (same ▸ pressed)
          · intro action member
            rcases List.mem_append.mp member with earlier | now
            · exact unpressed action earlier
            · rw [List.mem_singleton.mp now]
              exact still

theorem PressedAgain.front {front : List DeskAction} (again : PressedAgain start actions)
    (inside : front <+: actions) : PressedAgain start front :=
  fun before stroke between last within => again before stroke between last (within.trans inside)

theorem accounted_run (modifiers : UInt32) (key : UInt16)
    (again : PressedAgain (.init modifiers key) actions) : Accounted (.init modifiers key) actions := by
  induction actions using List.reverseRecOn with
  | nil => exact fun other locally => absurd locally (Set.notMem_empty other)
  | append_singleton earlier last ih =>
      exact (ih (again.front (List.prefix_append earlier [last]))).step rfl again

/-- A key that is up under an active capture, though the system has it down, is
stuck when capture stops before it is pressed again. -/
theorem stuck_of_unpressed {key : UInt32} {between : List DeskAction} {last : DeskAction}
    (swallow : desk.capture.swallow = true) (active : desk.capture.installed = true)
    (locally : key ∈ desk.locallyDown) (up : key ∉ desk.physicallyDown)
    (unpressed : ∀ action ∈ between, ¬ Presses key action)
    (stops : Stops (exec deskStep desk between) last) :
    ∃ front, front <+: between ++ [last] ∧ (exec deskStep desk front).capture.installed = false ∧
      ¬ NothingStuckHere (exec deskStep desk front) := by
  induction between generalizing desk with
  | nil =>
      refine ⟨[last], List.prefix_rfl, (stops_iff swallow active).mp stops, fun clear => ?_⟩
      have quiet : ¬ Presses key last := by
        cases last with
        | key stroke => exact stops.elim
        | drive driving => exact not_false
        | sync owner hooked => exact not_false
      refine up_of_not_pressed swallow up quiet (clear ?_)
      rw [exec_cons, exec_nil, locallyDown_active last swallow active]
      exact locally
  | cons action rest ih =>
      have locallyAfter : key ∈ (deskStep action desk).locallyDown := by
        rw [locallyDown_active action swallow active]
        exact locally
      have upAfter := up_of_not_pressed swallow up (unpressed action List.mem_cons_self)
      cases after : (deskStep action desk).capture.installed with
      | false =>
          exact ⟨[action], ⟨rest ++ [last], rfl⟩, after, fun clear => upAfter (clear locallyAfter)⟩
      | true =>
          obtain ⟨front, inside, idle, stuck⟩ := ih (deskStep_swallow action desk swallow) after
            locallyAfter upAfter (fun other member => unpressed other (List.mem_cons_of_mem _ member))
            stops
          exact ⟨action :: front, List.prefix_cons_inj action |>.mpr inside, idle, stuck⟩

/-- No key is stuck on the driving machine whenever capture is not active,
exactly when before each stop every key that the local system has down and whose
release capture kept from it is pressed again. -/
theorem nothing_stuck_here_iff (modifiers : UInt32) (key : UInt16) (actions : List DeskAction) :
    (∀ front, front <+: actions →
        (exec deskStep (.init modifiers key) front).capture.installed = false →
        NothingStuckHere (exec deskStep (.init modifiers key) front)) ↔
      PressedAgain (.init modifiers key) actions := by
  have swallow : (Desk.init modifiers key).capture.swallow = true := rfl
  constructor
  · intro clear before stroke between last inside hides stops
    by_contra unpressed
    have split (front : List DeskAction) :
        exec deskStep (.init modifiers key) (before ++ .key stroke :: front) =
          exec deskStep (deskStep (.key stroke) (exec deskStep (.init modifiers key) before)) front := by
      rw [exec_append, exec_cons]
    have swallowing := reached_swallow swallow before
    obtain ⟨active, released, locally⟩ := hides
    have activeAfter : (deskStep (.key stroke)
        (exec deskStep (.init modifiers key) before)).capture.installed = true :=
      Bool.eq_true_of_not_eq_false fun stopped => (stops_iff swallowing active).mpr stopped
    have up : stroke.vkCode ∉ (deskStep (.key stroke)
        (exec deskStep (.init modifiers key) before)).physicallyDown := by
      rw [physicallyDown_key stroke swallowing, Stroke.apply, released]
      simp
    rw [split] at stops
    obtain ⟨front, within, idle, stuck⟩ := stuck_of_unpressed (deskStep_swallow _ _ swallowing)
      activeAfter (by rwa [locallyDown_active _ swallowing active]) up
      (fun action member pressed => unpressed ⟨action, member, pressed⟩) stops
    refine stuck (split front ▸ clear (before ++ .key stroke :: front) ?_ (by rw [split]; exact idle))
    refine List.IsPrefix.trans ?_ inside
    rw [List.prefix_append_right_inj, List.prefix_cons_inj]
    exact within
  · intro again front inside idle
    have accounted := accounted_run modifiers key (again.front inside)
    exact fun other locally => (accounted other locally).resolve_right fun held =>
      Bool.false_ne_true (idle.symm.trans held.1)

/-- The control key goes down, a peer is driven, and the key comes up before
control is given back. -/
def controlHeld : List DeskAction :=
  [.key ⟨.keyDown, vkLControl⟩, .drive true, .sync true true, .key ⟨.keyUp, vkLControl⟩,
    .drive false, .sync true true]

/-- The local system still has the control key down. -/
theorem control_stuck_here :
    (exec deskStep (.init (hotkeyModControl ||| hotkeyModAlt) 0x20) controlHeld).capture.installed =
        false ∧
      ¬ NothingStuckHere (exec deskStep (.init (hotkeyModControl ||| hotkeyModAlt) 0x20) controlHeld) := by
  refine ⟨by decide, fun clear => ?_⟩
  have seen : (exec deskStep (.init (hotkeyModControl ||| hotkeyModAlt) 0x20) controlHeld).seen =
      [⟨.keyDown, vkLControl⟩] := by decide
  have typed : (exec deskStep (.init (hotkeyModControl ||| hotkeyModAlt) 0x20) controlHeld).typed =
      [⟨.keyDown, vkLControl⟩, ⟨.keyUp, vkLControl⟩] := by decide
  have locally : vkLControl ∈
      (exec deskStep (.init (hotkeyModControl ||| hotkeyModAlt) 0x20) controlHeld).locallyDown := by
    rw [Desk.locallyDown, seen]
    simp [keyStrokes, KeyStroke.down, Stroke.apply]
  have up := clear locally
  rw [Desk.physicallyDown, typed] at up
  simp [keyStrokes, KeyStroke.down, Stroke.apply] at up

end Skittermouse.Capture

import Skittermouse.Data.Exec
import Skittermouse.Data.Strokes
import Skittermouse.Platform.WinCapture

namespace Skittermouse.Capture

open Skittermouse.Data Skittermouse.Platform

/-! # The reclaim chord

What is physically held is what the presses and releases since the start leave
down. The hook remembers one flag for each class of modifier keys.
-/

inductive Modifier where
  | control
  | alt
  | shift
  | win
deriving DecidableEq

namespace Modifier

/-- Left, right, and the code that does not say which. -/
def keys : Modifier → UInt32 → Bool
  | .control, vk => vk == vkLControl || vk == vkRControl || vk == vkControl
  | .alt, vk => vk == vkLMenu || vk == vkRMenu || vk == vkMenu
  | .shift, vk => vk == vkLShift || vk == vkRShift || vk == vkShift
  | .win, vk => vk == vkLWin || vk == vkRWin

def flag : Modifier → UInt32
  | .control => hotkeyModControl
  | .alt => hotkeyModAlt
  | .shift => hotkeyModShift
  | .win => hotkeyModWin

def required (capture : WinCapture) (modifier : Modifier) : Bool := capture.need modifier.flag

def on (capture : WinCapture) : Modifier → Bool
  | .control => capture.ctrl
  | .alt => capture.alt
  | .shift => capture.shift
  | .win => capture.win

end Modifier

def keyStrokes (strokes : List KeyStroke) : List (Stroke UInt32) :=
  strokes.map fun stroke => ⟨stroke.vkCode, stroke.down⟩

def typed (capture : WinCapture) (strokes : List KeyStroke) : WinCapture :=
  exec (fun stroke capture => (capture.onKey stroke).2.2) capture strokes

def PressesEscape (capture : WinCapture) (stroke : KeyStroke) : Prop :=
  stroke.down = true ∧ capture.escKey ≠ 0 ∧ stroke.vkCode = capture.escKey.toUInt32

instance (capture : WinCapture) (stroke : KeyStroke) : Decidable (PressesEscape capture stroke) :=
  inferInstanceAs (Decidable (_ ∧ _))

/-- The last of these key events is the escape key going down while every
required class of modifiers is held and no other. -/
def Completes (capture : WinCapture) (earlier : List KeyStroke) (stroke : KeyStroke) : Prop :=
  PressesEscape capture stroke ∧ Chord (Modifier.required capture)
    fun modifier : Modifier => Holds modifier.keys (keyStrokes (earlier ++ [stroke]))

def forwarded (stroke : KeyStroke) : CaptureCall :=
  .sink { kind := .key, dx := 0, dy := 0, code := stroke.vkCode.toUInt8, down := stroke.down }

/-- The hook takes a completed chord for itself and forwards every other event once. -/
structure HandledRight (capture : WinCapture) (earlier : List KeyStroke) (stroke : KeyStroke) :
    Prop where
  taken : Completes capture earlier stroke →
    ((typed capture earlier).onKey stroke).1 = [.onEscape] ∧
      ((typed capture earlier).onKey stroke).2.1 = true
  passedOn : ¬ Completes capture earlier stroke →
    ((typed capture earlier).onKey stroke).1 = [forwarded stroke]

variable {capture : WinCapture} {stroke : KeyStroke} {earlier strokes : List KeyStroke}

theorem updateModifier_on (modifier : Modifier) (vk : UInt32) (down : Bool) :
    modifier.on (capture.updateModifier vk down) =
      if modifier.keys vk then down else modifier.on capture := by
  unfold WinCapture.updateModifier
  split
  · rename_i control
    rcases control with rfl | rfl | rfl <;> cases modifier <;> rfl
  · rename_i noControl
    split
    · rename_i alt
      rcases alt with rfl | rfl | rfl <;> cases modifier <;> rfl
    · rename_i noAlt
      split
      · rename_i shift
        rcases shift with rfl | rfl | rfl <;> cases modifier <;> rfl
      · rename_i noShift
        split
        · rename_i win
          rcases win with rfl | rfl <;> cases modifier <;> rfl
        · rename_i noWin
          cases modifier <;> simp_all [Modifier.keys]

theorem updateModifier_settings (vk : UInt32) (down : Bool) :
    (capture.updateModifier vk down).escMods = capture.escMods ∧
      (capture.updateModifier vk down).escKey = capture.escKey ∧
      (capture.updateModifier vk down).onEscape = capture.onEscape := by
  unfold WinCapture.updateModifier
  split_ifs <;> exact ⟨rfl, rfl, rfl⟩

theorem onKey_state (capture : WinCapture) (stroke : KeyStroke) :
    (capture.onKey stroke).2.2 = capture.updateModifier stroke.vkCode stroke.down := by
  rw [WinCapture.onKey]
  split <;> rfl

theorem modifiersMatch_iff : capture.modifiersMatch = true ↔
    Chord (Modifier.required capture) fun modifier : Modifier => modifier.on capture = true := by
  have whole : capture.modifiersMatch = true ↔
      ∀ modifier : Modifier, (modifier.on capture == Modifier.required capture modifier) = true := by
    rw [WinCapture.modifiersMatch]
    simp only [Bool.and_eq_true]
    constructor
    · rintro ⟨⟨⟨control, alt⟩, shift⟩, win⟩ modifier
      cases modifier
      · exact control
      · exact alt
      · exact shift
      · exact win
    · exact fun all => ⟨⟨⟨all .control, all .alt⟩, all .shift⟩, all .win⟩
  refine whole.trans (forall_congr' fun modifier => ?_)
  rw [beq_iff_eq, Bool.eq_iff_iff]

/-- The hook's flags after these events are the classes' last strokes. -/
structure Remembers (start : WinCapture) (strokes : List KeyStroke) (capture : WinCapture) : Prop where
  on : ∀ modifier : Modifier, modifier.on capture = pressedLast modifier.keys (keyStrokes strokes)
  escMods : capture.escMods = start.escMods
  escKey : capture.escKey = start.escKey
  onEscape : capture.onEscape = start.onEscape

theorem Remembers.step {start : WinCapture} (remembers : Remembers start strokes capture)
    (stroke : KeyStroke) : Remembers start (strokes ++ [stroke]) (capture.onKey stroke).2.2 := by
  rw [onKey_state]
  obtain ⟨escMods, escKey, onEscape⟩ := @updateModifier_settings capture stroke.vkCode stroke.down
  refine ⟨fun modifier => ?_, escMods.trans remembers.escMods, escKey.trans remembers.escKey,
    onEscape.trans remembers.onEscape⟩
  rw [keyStrokes, List.map_append, List.map_singleton, pressedLast_concat, updateModifier_on,
    remembers.on, keyStrokes]

theorem Remembers.run {start : WinCapture} (fresh : ∀ modifier : Modifier, modifier.on start = false)
    (strokes : List KeyStroke) : Remembers start strokes (typed start strokes) := by
  induction strokes using List.reverseRecOn with
  | nil => exact ⟨fresh, rfl, rfl, rfl⟩
  | append_singleton earlier last ih =>
      rw [Capture.typed, exec_concat]
      exact ih.step last

theorem Remembers.pressesEscape {start : WinCapture} (remembers : Remembers start strokes capture) :
    PressesEscape capture stroke ↔ PressesEscape start stroke := by
  rw [PressesEscape, PressesEscape, remembers.escKey]

theorem Remembers.required {start : WinCapture} (remembers : Remembers start strokes capture) :
    Modifier.required capture = Modifier.required start := by
  funext modifier
  rw [Modifier.required, WinCapture.need, remembers.escMods, Modifier.required, WinCapture.need]

/-- The hook takes an event for the chord when it is the escape key going down
and the flags, as they are afterwards, match. -/
theorem onKey_taken (capture : WinCapture) (stroke : KeyStroke) :
    PressesEscape capture stroke ∧ (capture.onKey stroke).2.2.modifiersMatch = true ∧
        (capture.onKey stroke).1 = (if capture.onEscape then [.onEscape] else []) ∧
        (capture.onKey stroke).2.1 = true ∨
      ¬ (PressesEscape capture stroke ∧ (capture.onKey stroke).2.2.modifiersMatch = true) ∧
        (capture.onKey stroke).1 = [forwarded stroke] := by
  have taken : ((capture.updateModifier stroke.vkCode stroke.down).escKey != 0) = (capture.escKey != 0) ∧
      (capture.updateModifier stroke.vkCode stroke.down).escKey.toUInt32 = capture.escKey.toUInt32 ∧
      (capture.updateModifier stroke.vkCode stroke.down).onEscape = capture.onEscape := by
    obtain ⟨_, escKey, onEscape⟩ := @updateModifier_settings capture stroke.vkCode stroke.down
    rw [escKey]
    exact ⟨rfl, rfl, onEscape⟩
  obtain ⟨set, key, callback⟩ := taken
  rw [onKey_state]
  simp only [WinCapture.onKey, PressesEscape, set, key, callback]
  split
  · rename_i matched
    simp only [Bool.and_eq_true, bne_iff_ne, beq_iff_eq] at matched
    exact .inl ⟨⟨matched.1.1.1, matched.1.1.2, matched.1.2⟩, matched.2, rfl, rfl⟩
  · rename_i unmatched
    refine .inr ⟨?_, rfl⟩
    rintro ⟨⟨down, some, same⟩, flags⟩
    simp only [Bool.and_eq_true, bne_iff_ne, beq_iff_eq] at unmatched
    exact unmatched ⟨⟨⟨down, some⟩, same⟩, flags⟩

/-- An event is handled right when the flags and the held keys agree on whether
it completes the chord, and only then. -/
theorem Remembers.handledRight_iff {start : WinCapture} (callback : start.onEscape = true)
    (remembers : Remembers start earlier (typed start earlier)) :
    HandledRight start earlier stroke ↔
      (PressesEscape start stroke →
        Decisive Modifier.keys (Modifier.required start) (keyStrokes (earlier ++ [stroke]))) := by
  have after := remembers.step stroke
  have flags : ((typed start earlier).onKey stroke).2.2.modifiersMatch = true ↔
      Chord (Modifier.required start) fun modifier : Modifier =>
        pressedLast modifier.keys (keyStrokes (earlier ++ [stroke])) = true := by
    rw [modifiersMatch_iff, after.required]
    exact forall_congr' fun modifier => iff_congr
      (iff_of_eq (congrArg (· = true) (after.on modifier))) Iff.rfl
  have apart : [CaptureCall.onEscape] ≠ [forwarded stroke] := by simp [forwarded]
  have taken := onKey_taken (typed start earlier) stroke
  rw [remembers.pressesEscape, remembers.onEscape, callback, if_pos rfl, flags] at taken
  rw [← chord_iff_decisive]
  rcases taken with ⟨presses, matched, calls, swallowed⟩ | ⟨unmatched, calls⟩
  · constructor
    · intro right _
      refine iff_of_true matched ?_
      by_contra unheld
      exact apart (calls.symm.trans (right.passedOn fun completes => unheld completes.2))
    · intro agree
      refine ⟨fun _ => ⟨calls, swallowed⟩, fun incomplete => ?_⟩
      exact absurd ⟨presses, (agree presses).mp matched⟩ incomplete
  · constructor
    · intro right presses
      refine iff_of_false (fun matched => unmatched ⟨presses, matched⟩) fun held => ?_
      exact apart ((right.taken ⟨presses, held⟩).1.symm.trans calls)
    · intro agree
      refine ⟨?_, fun _ => calls⟩
      rintro ⟨presses, held⟩
      exact absurd ⟨presses, (agree presses).mpr held⟩ unmatched

theorem start_fresh (idle : capture.installed = false) (modifier : Modifier) :
    modifier.on (capture.start true).2 = false := by
  simp only [WinCapture.start, idle, Bool.not_true, Bool.false_eq_true, if_false]
  cases modifier <;> rfl

theorem start_onEscape (hooked : Bool) (capture : WinCapture) :
    (capture.start hooked).2.onEscape = capture.onEscape := by
  unfold WinCapture.start
  split
  · rfl
  · dsimp only
    split <;> rfl

/-- From any start of the hook on, every key event is handled right exactly when
at every press of the escape key half released modifiers do not change the
verdict on the chord. -/
theorem reclaim_chord_iff (modifiers : UInt32) (key : UInt16) (idle : capture.installed = false)
    (strokes : List KeyStroke) :
    (∀ earlier stroke, earlier ++ [stroke] <+: strokes →
        HandledRight ((capture.setEscape modifiers key true).start true).2 earlier stroke) ↔
      ∀ earlier stroke, earlier ++ [stroke] <+: strokes →
        PressesEscape ((capture.setEscape modifiers key true).start true).2 stroke →
          Decisive Modifier.keys
            (Modifier.required ((capture.setEscape modifiers key true).start true).2)
            (keyStrokes (earlier ++ [stroke])) := by
  have fresh := @start_fresh (capture.setEscape modifiers key true) idle
  have callback := start_onEscape true (capture.setEscape modifiers key true)
  refine forall₃_congr fun earlier stroke _ => ?_
  exact (Remembers.run fresh earlier).handledRight_iff callback

def controlQ : WinCapture := ((WinCapture.init.setEscape hotkeyModControl 0x51 true).start true).2

def qDown : KeyStroke := ⟨.keyDown, 0x51⟩

theorem control_q_handled :
    PressesEscape controlQ qDown ∧
      ∀ earlier stroke, earlier ++ [stroke] <+: [⟨.keyDown, vkLControl⟩, qDown] →
        HandledRight controlQ earlier stroke := by
  refine ⟨by decide, (reclaim_chord_iff hotkeyModControl 0x51 rfl _).mpr ?_⟩
  rintro earlier stroke front ⟨_, _, escape⟩
  refine .inl ?_
  have held : keyStrokes (earlier ++ [stroke]) = [⟨vkLControl, true⟩, ⟨0x51, true⟩] := by
    obtain ⟨behind, whole⟩ := front
    rcases earlier with _ | ⟨first, _ | ⟨second, rest⟩⟩
    · obtain ⟨rfl, _⟩ := List.cons.inj whole
      exact absurd escape (by decide)
    · obtain ⟨rfl, later⟩ := List.cons.inj whole
      obtain ⟨rfl, _⟩ := List.cons.inj later
      rfl
    · have longer := congrArg List.length whole
      simp at longer
  rw [held]
  rintro modifier ⟨⟨key, inside, down⟩, off⟩
  have either : key = 0x51 ∨ key = vkLControl := by simpa [Stroke.apply] using down
  cases modifier with
  | control => exact absurd off (by decide)
  | alt => rcases either with rfl | rfl <;> exact absurd inside (by decide)
  | shift => rcases either with rfl | rfl <;> exact absurd inside (by decide)
  | win => rcases either with rfl | rfl <;> exact absurd inside (by decide)

/-- Both control keys go down and the right one comes up again. -/
def rightReleased : List KeyStroke :=
  [⟨.keyDown, vkLControl⟩, ⟨.keyDown, vkRControl⟩, ⟨.keyUp, vkRControl⟩]

/-- The left control key is still held, and Ctrl+Q goes to the other machine. -/
theorem right_control_released : ¬ HandledRight controlQ rightReleased qDown := by
  intro right
  have down (key : UInt32) : key ∈ replay ∅ (keyStrokes (rightReleased ++ [qDown])) ↔
      key = 0x51 ∨ key = vkLControl := by
    simp [rightReleased, qDown, keyStrokes, KeyStroke.down, Stroke.apply, vkLControl, vkRControl]
  have others (modifier : Modifier) (q : modifier.keys 0x51 = false)
      (control : modifier.keys vkLControl = false) :
      ¬ Holds modifier.keys (keyStrokes (rightReleased ++ [qDown])) := by
    rintro ⟨key, inside, member⟩
    rcases (down key).mp member with rfl | rfl
    · exact Bool.eq_false_iff.mp q inside
    · exact Bool.eq_false_iff.mp control inside
  have completes : Completes controlQ rightReleased qDown := by
    refine ⟨by decide, fun modifier => ?_⟩
    cases modifier with
    | control => exact iff_of_true ⟨vkLControl, rfl, (down _).mpr (.inr rfl)⟩ (by decide)
    | alt => exact iff_of_false (others _ rfl rfl) (by decide)
    | shift => exact iff_of_false (others _ rfl rfl) (by decide)
    | win => exact iff_of_false (others _ rfl rfl) (by decide)
  exact absurd (right.taken completes).1 (by decide)

end Skittermouse.Capture

import Skittermouse.Mesh.StuckKeys

namespace Skittermouse.Capture

open Skittermouse.Data Skittermouse.Core Skittermouse.Net Skittermouse.Mesh

/-! # Forwarded input and tracked state

The pipeline turns captured input into messages and keeps its own view of what
is down. A receiver has only the messages: it decodes them one after another and
replays the presses and releases.
-/

inductive PipelineCall where
  | mouseMove (dx dy : Int16) (ts : UInt32)
  | mouseButton (button : UInt8) (down : Bool) (ts : UInt32)
  | key (code : UInt8) (down : Bool) (ts : UInt32)
  | releaseAll (ts : UInt32)

structure Forwarder where
  pipeline : InputPipeline
  emitted : List Bytes

def Forwarder.init : Forwarder := ⟨.init, []⟩

def forwardStep : PipelineCall → Forwarder → Forwarder
  | .mouseMove dx dy ts, forwarder =>
      let (message, pipeline) := forwarder.pipeline.onMouseMove dx dy ts
      ⟨pipeline, forwarder.emitted ++ [message]⟩
  | .mouseButton button down ts, forwarder =>
      let (message, pipeline) := forwarder.pipeline.onMouseButton button down ts
      ⟨pipeline, forwarder.emitted ++ [message]⟩
  | .key code down ts, forwarder =>
      let (message, pipeline) := forwarder.pipeline.onKey code down ts
      ⟨pipeline, forwarder.emitted ++ [message]⟩
  | .releaseAll ts, forwarder =>
      let (messages, pipeline) := forwarder.pipeline.releaseAll ts
      ⟨pipeline, forwarder.emitted ++ messages⟩

def decodedInput (message : Bytes) : Option InputEvent :=
  match decodeMessage message with
  | .ok decoded consumed =>
      if decoded.isFixed ∧ consumed = message.length then some decoded.fixed else none
  | _ => none

def decodedStrokes (messages : List Bytes) : List (Stroke Release) :=
  messages.filterMap fun message => (decodedInput message).bind strokeOf

def releaseType (release : Release) : MessageType :=
  if release.isButton then .mouseButton else .keyEvent

/-- The message is one key-up or button-up, of the right kind and code. -/
def Lifts (release : Release) (message : Bytes) : Prop :=
  ∃ event, decodedInput message = some event ∧ event.type = (releaseType release).code ∧
    event.code = release.code ∧ event.down = 0

/-- One release for everything that is held, and none for anything else. -/
def LiftsExactly (held : Set Release) (messages : List Bytes) : Prop :=
  ∃ releases : List Release, releases.Nodup ∧ (∀ release, release ∈ releases ↔ release ∈ held) ∧
    List.Forall₂ Lifts releases messages

theorem decodedInput_make {type : MessageType} (fixed : isFixedType type = true) (dx dy : Int16)
    (code down : UInt8) (ts : UInt32) :
    decodedInput (encodeInputEvent (InputPipeline.make type dx dy code down ts)) =
      some (InputPipeline.make type dx dy code down ts) := by
  have decoded := @decodeMessage_encodeInputEvent (InputPipeline.make type dx dy code down ts) _
    rfl rfl fixed []
  rw [List.append_nil] at decoded
  rw [decodedInput, decoded]
  simp

theorem decodedStrokes_append (first second : List Bytes) :
    decodedStrokes (first ++ second) = decodedStrokes first ++ decodedStrokes second :=
  List.filterMap_append

theorem decodedStrokes_move (dx dy : Int16) (ts : UInt32) :
    decodedStrokes [encodeInputEvent (InputPipeline.make .mouseMove dx dy 0 0 ts)] = [] := by
  rw [decodedStrokes, List.filterMap_cons, decodedInput_make rfl]
  rfl

theorem decodedStrokes_button (button : UInt8) (down : Bool) (ts : UInt32) :
    decodedStrokes [encodeInputEvent
      (InputPipeline.make .mouseButton 0 0 button (if down then 1 else 0) ts)] =
      [⟨⟨button, true⟩, down⟩] := by
  rw [decodedStrokes, List.filterMap_cons, decodedInput_make rfl]
  cases down <;> rfl

theorem decodedStrokes_key (code : UInt8) (down : Bool) (ts : UInt32) :
    decodedStrokes [encodeInputEvent
      (InputPipeline.make .keyEvent 0 0 code (if down then 1 else 0) ts)] =
      [⟨⟨code, false⟩, down⟩] := by
  rw [decodedStrokes, List.filterMap_cons, decodedInput_make rfl]
  cases down <;> rfl

theorem decodedInput_release (release : Release) (ts : UInt32) :
    decodedInput (encodeInputEvent (InputPipeline.releaseEvent ts release)) =
      some (InputPipeline.releaseEvent ts release) := by
  obtain ⟨code, isButton⟩ := release
  cases isButton with
  | true => exact decodedInput_make rfl 0 0 code 0 ts
  | false => exact decodedInput_make rfl 0 0 code 0 ts

theorem strokeOf_releaseEvent (release : Release) (ts : UInt32) :
    strokeOf (InputPipeline.releaseEvent ts release) = some ⟨release, false⟩ := by
  obtain ⟨code, isButton⟩ := release
  cases isButton <;> rfl

theorem decodedStrokes_releases (releases : List Release) (ts : UInt32) :
    decodedStrokes (releases.map fun release =>
        encodeInputEvent (InputPipeline.releaseEvent ts release)) =
      releases.map fun release => ⟨release, false⟩ := by
  rw [decodedStrokes, List.filterMap_map]
  induction releases with
  | nil => rfl
  | cons release rest ih =>
      rw [List.filterMap_cons, ih]
      simp only [Function.comp_apply, decodedInput_release, Option.bind_some, strokeOf_releaseEvent,
        List.map_cons]

theorem drainReleases_nodup (tracker : InputTracker) : tracker.drainReleases.1.Nodup := by
  have named (codes : OrdMap UInt8 Unit) (isButton : Bool) :
      (codes.entries.map fun entry => (⟨entry.1, isButton⟩ : Release)).Nodup := by
    have keys := codes.keys_nodup
    rw [List.Nodup, List.pairwise_map] at keys ⊢
    exact keys.imp fun apart same => apart (congrArg Release.code same)
  refine List.nodup_append.mpr ⟨named _ true, named _ false, fun button inButtons key inKeys same => ?_⟩
  obtain ⟨_, _, rfl⟩ := List.mem_map.mp inButtons
  obtain ⟨_, _, rfl⟩ := List.mem_map.mp inKeys
  exact Bool.false_ne_true (congrArg Release.isButton same).symm

theorem releaseAll_lifts (pipeline : InputPipeline) (ts : UInt32) :
    LiftsExactly (trackedBy pipeline.tracker) (pipeline.releaseAll ts).1 := by
  refine ⟨pipeline.tracker.drainReleases.1, drainReleases_nodup _, fun _ => mem_drainReleases, ?_⟩
  rw [InputPipeline.releaseAll, List.forall₂_map_right_iff, List.forall₂_same]
  intro release _
  refine ⟨_, decodedInput_release release ts, ?_, rfl, rfl⟩
  obtain ⟨code, isButton⟩ := release
  cases isButton <;> rfl

/-- The receiver holds what the sender tracks, and every message is an input event. -/
structure Mirrors (forwarder : Forwarder) : Prop where
  held : replay ∅ (decodedStrokes forwarder.emitted) = trackedBy forwarder.pipeline.tracker
  decodes : ∀ message ∈ forwarder.emitted, (decodedInput message).isSome = true

theorem Mirrors.emit {forwarder : Forwarder} {messages : List Bytes} {pipeline : InputPipeline}
    (mirrors : Mirrors forwarder)
    (held : replay (trackedBy forwarder.pipeline.tracker) (decodedStrokes messages) =
      trackedBy pipeline.tracker)
    (decodes : ∀ message ∈ messages, (decodedInput message).isSome = true) :
    Mirrors ⟨pipeline, forwarder.emitted ++ messages⟩ := by
  constructor
  · rw [decodedStrokes_append, replay_append, mirrors.held, held]
  · intro message member
    rcases List.mem_append.mp member with earlier | now
    · exact mirrors.decodes message earlier
    · exact decodes message now

theorem Mirrors.step (call : PipelineCall) (forwarder : Forwarder) (mirrors : Mirrors forwarder) :
    Mirrors (forwardStep call forwarder) := by
  cases call with
  | mouseMove dx dy ts =>
      simp only [forwardStep, InputPipeline.onMouseMove]
      apply mirrors.emit
      · rw [decodedStrokes_move, replay_nil]
      · intro message member
        rw [List.mem_singleton.mp member, decodedInput_make rfl]
        rfl
  | mouseButton button down ts =>
      simp only [forwardStep, InputPipeline.onMouseButton]
      apply mirrors.emit
      · rw [decodedStrokes_button, replay_cons, replay_nil, trackedBy_onButton]
      · intro message member
        rw [List.mem_singleton.mp member, decodedInput_make rfl]
        rfl
  | key code down ts =>
      simp only [forwardStep, InputPipeline.onKey]
      apply mirrors.emit
      · rw [decodedStrokes_key, replay_cons, replay_nil, trackedBy_onKey]
      · intro message member
        rw [List.mem_singleton.mp member, decodedInput_make rfl]
        rfl
  | releaseAll ts =>
      simp only [forwardStep, InputPipeline.releaseAll]
      apply mirrors.emit
      · rw [decodedStrokes_releases, replay_releases]
        change _ = trackedBy .init
        rw [trackedBy_init]
        ext release
        simp only [mem_drainReleases, Set.mem_ofPred_eq, Set.mem_empty_iff_false, iff_false]
        exact fun both => both.2 both.1
      · intro message member
        obtain ⟨release, _, rfl⟩ := List.mem_map.mp member
        rw [decodedInput_release]
        rfl

/-- After every sequence of calls a receiver of the messages holds exactly what
the pipeline tracks, and a release of everything lifts exactly that. -/
theorem forwarding_mirrors (calls : List PipelineCall) :
    Mirrors (exec forwardStep .init calls) ∧
      ∀ ts, LiftsExactly (trackedBy (exec forwardStep .init calls).pipeline.tracker)
          ((exec forwardStep .init calls).pipeline.releaseAll ts).1 ∧
        trackedBy ((exec forwardStep .init calls).pipeline.releaseAll ts).2.tracker = ∅ := by
  have initial : Mirrors .init := ⟨by rw [Forwarder.init, InputPipeline.init, trackedBy_init]; rfl,
    fun message member => absurd member List.not_mem_nil⟩
  refine ⟨exec_preserves Mirrors.step initial calls, fun ts => ⟨releaseAll_lifts _ ts, ?_⟩⟩
  exact trackedBy_init

end Skittermouse.Capture

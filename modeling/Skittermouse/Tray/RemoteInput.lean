import Skittermouse.Mesh.StuckKeys
import Skittermouse.Mesh.Switch
import Skittermouse.Tray.Runs

namespace Skittermouse.Platform

open Skittermouse.Data Skittermouse.Core Skittermouse.Net Skittermouse.App Skittermouse.Mesh

/-! # Input from the hooks to the injector

The hooks of the machine that drives turn strokes into messages for its peers, and
the tray of a sink turns the messages into calls of `SendInput`. On the way an event
loses what a message has no room for.
-/

inductive HookEvent where
  | key (stroke : KeyStroke)
  | mouse (stroke : MouseStroke)

def HookEvent.message {τ : Type} : HookEvent → TrayMessage τ
  | .key stroke => .key stroke
  | .mouse stroke => .mouse stroke

structure HookCall where
  tick : UInt64
  hooked : Bool
  screen : VirtualScreen
  event : HookEvent

def HookCall.turn {τ : Type} (call : HookCall) : TrayTurn τ :=
  { tick := call.tick, hooked := call.hooked, screen := call.screen, message := call.event.message }

/-- The key event is the combination that takes control back. -/
def Reclaims (capture : WinCapture) (stroke : KeyStroke) : Prop :=
  Capture.PressesEscape capture stroke ∧
    (capture.updateModifier stroke.vkCode stroke.down).modifiersMatch = true

instance instDecidableReclaims (capture : WinCapture) (stroke : KeyStroke) :
    Decidable (Reclaims capture stroke) :=
  inferInstanceAs (Decidable (_ ∧ _))

def carriedMotion (delta : Int32) : Int32 := delta.toInt16.toInt32

namespace HookEvent

/-- What one event at the driver does at a sink. A motion counts from the anchor. -/
def effect (capture : WinCapture) (mouse : MouseHook) : HookEvent → List SendInput
  | .key stroke =>
      if Reclaims capture stroke then []
      else [.key stroke.vkCode.toUInt8.toUInt16 stroke.down]
  | .mouse stroke =>
      if stroke.message = .move then
        if stroke.injected ∨ stroke.x - mouse.anchorX = 0 ∧ stroke.y - mouse.anchorY = 0 then []
        else
          [.move (carriedMotion (stroke.x - mouse.anchorX))
            (carriedMotion (stroke.y - mouse.anchorY))]
      else match stroke.message.button? with
      | some (code, down) => [.button code down]
      | none => []

/-- What the keyboard hook knows about the modifiers after an event. -/
def remembered (capture : WinCapture) : HookEvent → WinCapture
  | .key stroke => capture.updateModifier stroke.vkCode stroke.down
  | .mouse _ => capture

/-- Whether the driver's own programs are spared an event. -/
def swallowed {τ : Type} (tray : Tray τ) : HookEvent → Bool
  | .key stroke => (tray.capture.onKey stroke).2.1
  | .mouse stroke => (tray.mouse.onMouse tray.capture.swallow stroke).1.swallowed

end HookEvent

def effects (mouse : MouseHook) : WinCapture → List HookEvent → List SendInput
  | _, [] => []
  | capture, event :: rest =>
      event.effect capture mouse ++ effects mouse (event.remembered capture) rest

def sentInputs : List MeshEvent → List SendInput
  | [] => []
  | .inject _ event :: rest => sentInputs rest ++ onInject event
  | _ :: rest => sentInputs rest

/-- A tray handles messages of one peer, each at a time of its own. -/
def Tray.hears {τ : Type} [Transport τ] (tray : Tray τ) (sender : PeerId) (clock : Nat → UInt64)
    (messages : List Bytes) : Tray τ :=
  messages.zipIdx.foldl (fun tray entry => tray.handle sender (seen entry.1) (clock entry.2)) tray

def carried (message : Bytes) : List SendInput := (readInput (seen message)).elim [] onInject

theorem sentInputs_notices {events : List MeshEvent} (trace : List MeshEvent)
    (notices : ∀ event ∈ events, event.isNotice = true) :
    sentInputs (events ++ trace) = sentInputs trace := by
  induction events with
  | nil => rfl
  | cons event rest ih =>
      have kept := ih fun other member => notices other (List.mem_cons_of_mem _ member)
      have notice := notices event List.mem_cons_self
      cases event with
      | inject source event => contradiction
      | _ => exact kept

section Sink

variable {τ : Type} [Transport τ] {tray : Tray τ} {sender : PeerId} {now : UInt64} {message : Bytes}

/-- One message that carries no claim: a sink injects what it carries, an owner nothing. -/
theorem handle_injects (other : readClaim (seen message) = none) :
    (tray.handle sender (seen message) now).mesh.isLocalOwner = tray.mesh.isLocalOwner ∧
      sentInputs (tray.handle sender (seen message) now).mesh.trace =
        sentInputs tray.mesh.trace ++
          if tray.mesh.isLocalOwner then [] else carried message := by
  have handled : (tray.handle sender (seen message) now).mesh =
      tray.mesh.handle .silent sender (seen message) now := by
    rw [Tray.handle, other]
    rfl
  rw [handled, carried]
  have outcome := Host.handle_outcome .silent tray.mesh sender (seen message) now
  generalize tray.mesh.handle .silent sender (seen message) now = after at outcome ⊢
  cases outcome with
  | noted input claim noted =>
      obtain ⟨events, trace, notices⟩ := noted.trace
      rw [noted.frame.isLocalOwner, input, trace, sentInputs_notices _ notices]
      exact ⟨rfl, by simp [Host.hear, Host.emit, sentInputs]⟩
  | injected input claim sink =>
      rw [input, show tray.mesh.isLocalOwner = false from sink]
      exact ⟨sink, rfl⟩
  | ignored input claim owner =>
      rw [show tray.mesh.isLocalOwner = true from owner]
      exact ⟨owner, (List.append_nil _).symm⟩
  | claimed input found => exact absurd (other.symm.trans found).symm (Option.some_ne_none _)

theorem foldl_handle_injects (entries : List (Bytes × Nat)) (clock : Nat → UInt64) (tray : Tray τ)
    (others : ∀ entry ∈ entries, readClaim (seen entry.1) = none) :
    let after := entries.foldl
      (fun tray entry => tray.handle sender (seen entry.1) (clock entry.2)) tray
    sentInputs after.mesh.trace = sentInputs tray.mesh.trace ++
      if tray.mesh.isLocalOwner then [] else (entries.map Prod.fst).flatMap carried := by
  induction entries generalizing tray with
  | nil => cases tray.mesh.isLocalOwner <;> simp
  | cons entry rest ih =>
      obtain ⟨owner, sent⟩ := @handle_injects τ _ tray sender (clock entry.2) entry.1
        (others entry List.mem_cons_self)
      have later := ih (tray.handle sender (seen entry.1) (clock entry.2)) fun other member =>
        others other (List.mem_cons_of_mem _ member)
      refine later.trans ?_
      rw [owner, sent, List.append_assoc, List.map_cons, List.flatMap_cons]
      cases tray.mesh.isLocalOwner <;> rfl

theorem hears_injects (tray : Tray τ) (sender : PeerId) (clock : Nat → UInt64) {messages : List Bytes}
    (others : ∀ message ∈ messages, readClaim (seen message) = none) :
    sentInputs (tray.hears sender clock messages).mesh.trace = sentInputs tray.mesh.trace ++
      if tray.mesh.isLocalOwner then [] else messages.flatMap carried := by
  have injects := @foldl_handle_injects τ _ sender messages.zipIdx clock tray
    fun entry member => others entry.1 (List.fst_mem_of_mem_zipIdx member)
  rwa [List.zipIdx_map_fst] at injects

end Sink

section Driver

variable {τ : Type} [Transport τ] {first second third : Host Nat τ} {front back : List SendInput}

/-- Up to the pipeline's own books, all that has happened is that every peer was
sent these messages. -/
def Sends (messages : List Bytes) (before after : Host Nat τ) : Prop :=
  ∃ pipeline, after = messages.foldl Host.broadcast { before with node.pipeline := pipeline }

theorem foldl_broadcast_pipeline (messages : List Bytes) (host : Host Nat τ) (pipeline : InputPipeline) :
    messages.foldl Host.broadcast { host with node.pipeline := pipeline } =
      Host.mk { (messages.foldl Host.broadcast host).node with pipeline := pipeline }
        (messages.foldl Host.broadcast host).heap (messages.foldl Host.broadcast host).trace := by
  induction messages generalizing host with
  | nil => rfl
  | cons message rest ih => exact ih (host.broadcast message)

theorem Sends.trans {messages others : List Bytes} (left : Sends messages first second)
    (right : Sends others second third) : Sends (messages ++ others) first third := by
  obtain ⟨earlier, rfl⟩ := left
  obtain ⟨later, rfl⟩ := right
  refine ⟨later, ?_⟩
  rw [List.foldl_append, foldl_broadcast_pipeline messages first later,
    foldl_broadcast_pipeline messages first earlier]

/-- The peers are sent messages that make a sink inject these inputs. -/
structure Forwards (inputs : List SendInput) (messages : List Bytes) (before after : Host Nat τ) :
    Prop where
  sends : Sends messages before after
  claimless : ∀ message ∈ messages, readClaim (seen message) = none
  carries : messages.flatMap carried = inputs

theorem Forwards.none (host : Host Nat τ) : Forwards [] [] host host :=
  ⟨⟨host.node.pipeline, rfl⟩, fun _ member => absurd member List.not_mem_nil, rfl⟩

theorem Forwards.trans {messages others : List Bytes} (left : Forwards front messages first second)
    (right : Forwards back others second third) :
    Forwards (front ++ back) (messages ++ others) first third where
  sends := left.sends.trans right.sends
  claimless message member :=
    (List.mem_append.mp member).elim (left.claimless message) (right.claimless message)
  carries := by rw [List.flatMap_append, left.carries, right.carries]

theorem carried_make (type : MessageType) (input : type ∈ [MessageType.mouseMove, .mouseButton, .keyEvent])
    (dx dy : Int16) (code down : UInt8) (ts : UInt32) :
    carried (encodeInputEvent (InputPipeline.make type dx dy code down ts)) =
      onInject (InputPipeline.make type dx dy code down ts) := by
  rw [carried, readInput_make type input]
  rfl

def replayed (event : CapturedEvent) : List SendInput :=
  match event.kind with
  | .mouseMove => [.move (carriedMotion event.dx) (carriedMotion event.dy)]
  | .mouseButton => injectButton event.code event.down
  | .key => [.key event.code.toUInt16 event.down]

def captureMessage (event : CapturedEvent) (ts : UInt32) : Bytes :=
  match event.kind with
  | .mouseMove =>
      encodeInputEvent (InputPipeline.make .mouseMove event.dx.toInt16 event.dy.toInt16 0 0 ts)
  | .mouseButton =>
      encodeInputEvent
        (InputPipeline.make .mouseButton 0 0 event.code (if event.down then 1 else 0) ts)
  | .key =>
      encodeInputEvent
        (InputPipeline.make .keyEvent 0 0 event.code (if event.down then 1 else 0) ts)

theorem captureMessage_carries (event : CapturedEvent) (ts : UInt32) :
    readClaim (seen (captureMessage event ts)) = none ∧
      carried (captureMessage event ts) = replayed event := by
  obtain ⟨kind, dx, dy, code, down⟩ := event
  cases kind with
  | mouseMove =>
      exact ⟨readClaim_make .mouseMove (by decide) _ _ _ _ _, carried_make .mouseMove (by decide) _ _ _ _ _⟩
  | mouseButton =>
      refine ⟨readClaim_make .mouseButton (by decide) _ _ _ _ _, ?_⟩
      refine (carried_make .mouseButton (by decide) _ _ _ _ _).trans ?_
      cases down <;> rfl
  | key =>
      refine ⟨readClaim_make .keyEvent (by decide) _ _ _ _ _, ?_⟩
      refine (carried_make .keyEvent (by decide) _ _ _ _ _).trans ?_
      cases down <;> rfl

theorem captureSink_forwards {tray : Tray τ} (owned : tray.mesh.isLocalOwner = true)
    (event : CapturedEvent) :
    Forwards (replayed event) [captureMessage event tray.tick.toUInt32] tray.mesh
      (tray.captureSink event).mesh := by
  obtain ⟨claimless, carries⟩ := captureMessage_carries event tray.tick.toUInt32
  refine ⟨?_, fun message member => List.mem_singleton.mp member ▸ claimless, ?_⟩
  · obtain ⟨kind, dx, dy, code, down⟩ := event
    have owner : tray.cm.mesh.isLocalOwner = true := owned
    cases kind with
    | mouseMove =>
        refine ⟨tray.mesh.node.pipeline, ?_⟩
        simp only [Tray.captureSink, Tray.onMesh, Tray.mesh, Host.forwardMouseMove, owner, if_true]
        rfl
    | mouseButton =>
        refine ⟨⟨tray.mesh.node.pipeline.tracker.onButton code down⟩, ?_⟩
        simp only [Tray.captureSink, Tray.onMesh, Tray.mesh, Host.forwardMouseButton, owner, if_true]
        rfl
    | key =>
        refine ⟨⟨tray.mesh.node.pipeline.tracker.onKey code down⟩, ?_⟩
        simp only [Tray.captureSink, Tray.onMesh, Tray.mesh, Host.forwardKey, owner, if_true]
        rfl
  · rw [List.flatMap_singleton, carries]

/-- The hooks are in place, take everything, and what they take goes to the peers. -/
structure Captures (tray : Tray τ) : Prop where
  active : tray.capture.installed = true
  swallow : tray.capture.swallow = true
  owner : tray.mesh.isLocalOwner = true

theorem Sends.isLocalOwner {messages : List Bytes} (sends : Sends messages first second) :
    second.isLocalOwner = first.isLocalOwner := by
  obtain ⟨pipeline, rfl⟩ := sends
  rw [Host.isLocalOwner, Host.foldl_broadcast_node]
  rfl

variable {tray : Tray τ}

theorem Captures.sink (captures : Captures tray) (event : CapturedEvent) :
    Captures (tray.captureSink event) ∧ (tray.captureSink event).capture = tray.capture ∧
      (tray.captureSink event).mouse = tray.mouse ∧
      ∃ messages, Forwards (replayed event) messages tray.mesh (tray.captureSink event).mesh := by
  have forwards := captureSink_forwards captures.owner event
  have capture := Tray.captureSink_capture tray event
  have mouse : (tray.captureSink event).mouse = tray.mouse := by
    rw [Tray.captureSink_eq]
    rfl
  exact ⟨⟨capture ▸ captures.active, capture ▸ captures.swallow,
    forwards.sends.isLocalOwner.trans captures.owner⟩, capture, mouse, _, forwards⟩

theorem onKey_active (active : tray.capture.installed = true) (stroke : KeyStroke) :
    tray.onKey stroke = (tray.capture.onKey stroke).1.foldl Tray.answer
      { tray with capture := tray.capture.updateModifier stroke.vkCode stroke.down } := by
  rw [Tray.onKey, if_pos active, ← Capture.onKey_state]

theorem Captures.onKey (captures : Captures tray) (stroke : KeyStroke) :
    Captures (tray.onKey stroke) ∧
      (tray.onKey stroke).capture = (HookEvent.key stroke).remembered tray.capture ∧
      (tray.onKey stroke).mouse = tray.mouse ∧
      ∃ messages, Forwards ((HookEvent.key stroke).effect tray.capture tray.mouse) messages
        tray.mesh (tray.onKey stroke).mesh := by
  obtain ⟨installed, swallow⟩ := Capture.updateModifier_hook tray.capture stroke.vkCode stroke.down
  have hooked : Captures { tray with
      capture := tray.capture.updateModifier stroke.vkCode stroke.down } :=
    ⟨installed.trans captures.active, swallow.trans captures.swallow, captures.owner⟩
  rw [onKey_active captures.active, HookEvent.effect]
  rcases Capture.onKey_taken tray.capture stroke with ⟨escape, matched, calls, _⟩ | ⟨unmatched, calls⟩
  · rw [Capture.onKey_state] at matched
    rw [calls, if_pos (show Reclaims tray.capture stroke from ⟨escape, matched⟩)]
    cases tray.capture.onEscape <;> exact ⟨hooked, rfl, rfl, _, .none _⟩
  · rw [Capture.onKey_state] at unmatched
    rw [calls, if_neg (show ¬ Reclaims tray.capture stroke from unmatched)]
    exact hooked.sink
      { kind := .key, dx := 0, dy := 0, code := stroke.vkCode.toUInt8, down := stroke.down }

omit [Transport τ] in
theorem button?_code {message : MouseMessage} {code : UInt8} {down : Bool}
    (pressed : message.button? = some (code, down)) : code = 1 ∨ code = 2 ∨ code = 3 := by
  cases message <;> cases pressed <;> decide

/-- While the hook swallows, a mouse event leads to one call of the sink or none, and
the anchor stays. -/
theorem onMouse_swallowed (mouse : MouseHook) (stroke : MouseStroke) :
    (mouse.onMouse true stroke).2 = mouse ∧ (mouse.onMouse true stroke).1.swallowed = true ∧
      ∀ capture, ((mouse.onMouse true stroke).1.calls = [] ∧
          (HookEvent.mouse stroke).effect capture mouse = [] ∨
        ∃ event, (mouse.onMouse true stroke).1.calls = [event] ∧
          (HookEvent.mouse stroke).effect capture mouse = replayed event) := by
  by_cases move : stroke.message = .move
  · simp only [MouseHook.onMouse, MouseHook.onMove, HookEvent.effect, move, if_true]
    by_cases injected : stroke.injected = true
    · simp [injected]
    · by_cases still : stroke.x - mouse.anchorX = 0 ∧ stroke.y - mouse.anchorY = 0
      · simp [injected, still.1, still.2]
      · have moved : stroke.x - mouse.anchorX ≠ 0 ∨ stroke.y - mouse.anchorY ≠ 0 :=
          not_and_or.mp still
        simp only [injected, Bool.false_eq_true, if_false, if_pos moved, false_or, if_neg still]
        exact ⟨trivial, trivial, fun _ => .inr ⟨_, rfl, rfl⟩⟩
  · simp only [MouseHook.onMouse, HookEvent.effect, if_neg move]
    cases pressed : stroke.message.button? with
    | none => exact ⟨rfl, rfl, fun _ => .inl ⟨rfl, rfl⟩⟩
    | some button =>
        obtain ⟨code, down⟩ := button
        exact ⟨rfl, rfl, fun _ => .inr ⟨_, rfl, (if_pos (button?_code pressed)).symm⟩⟩

theorem Captures.onMouse (captures : Captures tray) (stroke : MouseStroke) :
    Captures (tray.onMouse stroke) ∧
      (tray.onMouse stroke).capture = (HookEvent.mouse stroke).remembered tray.capture ∧
      (tray.onMouse stroke).mouse = tray.mouse ∧
      ∃ messages, Forwards ((HookEvent.mouse stroke).effect tray.capture tray.mouse) messages
        tray.mesh (tray.onMouse stroke).mesh := by
  obtain ⟨mouse, _, calls⟩ := onMouse_swallowed tray.mouse stroke
  have called : tray.onMouse stroke =
      (tray.mouse.onMouse true stroke).1.calls.foldl Tray.captureSink tray := by
    rw [Tray.onMouse, if_pos captures.active, captures.swallow]
    dsimp only
    rw [mouse]
  rw [called]
  rcases calls tray.capture with ⟨idle, nothing⟩ | ⟨event, one, inputs⟩
  · rw [idle, nothing]
    exact ⟨captures, rfl, rfl, _, .none _⟩
  · rw [one, inputs]
    exact captures.sink event

theorem Captures.step (library : CLibrary) (captures : Captures tray) (call : HookCall) :
    let after := trayStep library call.turn tray
    Captures after ∧ after.capture = call.event.remembered tray.capture ∧ after.mouse = tray.mouse ∧
      ∃ messages, Forwards (call.event.effect tray.capture tray.mouse) messages tray.mesh after.mesh := by
  have current : Captures { tray with
      tick := call.tick, hooked := call.hooked, screen := call.screen } :=
    ⟨captures.active, captures.swallow, captures.owner⟩
  obtain ⟨tick, hooked, screen, event⟩ := call
  cases event with
  | key stroke => exact current.onKey stroke
  | mouse stroke => exact current.onMouse stroke

theorem Captures.run (library : CLibrary) (captures : Captures tray)
    (calls : List HookCall) :
    ∃ messages, Forwards (effects tray.mouse tray.capture (calls.map HookCall.event)) messages
      tray.mesh (exec (trayStep library) tray (calls.map HookCall.turn)).mesh := by
  induction calls generalizing tray with
  | nil => exact ⟨_, .none _⟩
  | cons call rest ih =>
      obtain ⟨next, capture, mouse, messages, forwards⟩ := captures.step library call
      obtain ⟨others, later⟩ := ih next
      rw [capture, mouse] at later
      exact ⟨_, forwards.trans later⟩

theorem uncaptured_run (library : CLibrary) (inactive : tray.capture.installed = false)
    (calls : List HookCall) :
    (exec (trayStep library) tray (calls.map HookCall.turn)).mesh = tray.mesh := by
  induction calls generalizing tray with
  | nil => rfl
  | cons call rest ih =>
      obtain ⟨tick, hooked, screen, event⟩ := call
      have idle : trayStep library (HookCall.turn ⟨tick, hooked, screen, event⟩) tray =
          { tray with tick, hooked, screen } := by
        have unhooked : ({ tray with tick, hooked, screen } : Tray τ).capture.installed ≠ true := by
          rw [show ({ tray with tick, hooked, screen } : Tray τ).capture.installed = false from inactive]
          exact Bool.false_ne_true
        cases event with
        | key stroke => exact if_neg unhooked
        | mouse stroke => exact if_neg unhooked
      rw [List.map_cons, exec_cons, idle]
      exact @ih { tray with tick, hooked, screen } inactive

end Driver

variable {τ : Type} [Transport τ] (library : CLibrary) (self : PeerId)
  (priority : List PeerId) (devices : List PairedDevice) (modifiers : UInt32) (key : UInt16)
  (turns : List (TrayTurn τ))

/-- Whatever the hooks of a driver are called with, no program on it sees any of it, its
peers are sent messages and nothing else, and every sink that handles these
injects exactly what was captured: keys but for the reclaim combination, the three
buttons, and motions from the anchor. -/
theorem driven_input_arrives (calls : List HookCall) :
    let driver := trayAfter library self priority devices modifiers key turns
    let after := trayAfter library self priority devices modifiers key
      (turns ++ calls.map HookCall.turn)
    let inputs := if driver.capture.installed then
      effects driver.mouse driver.capture (calls.map HookCall.event) else []
    (∀ event : HookEvent, event.swallowed driver = true) ∧
      ∃ messages, Sends messages driver.mesh after.mesh ∧
        ∀ {σ : Type} [Transport σ] (sink : Tray σ) (sender : PeerId) (clock : Nat → UInt64),
          sentInputs (sink.hears sender clock messages).mesh.trace =
            sentInputs sink.mesh.trace ++ if sink.mesh.isLocalOwner then [] else inputs := by
  intro driver after inputs
  have settled := (trayAfter_follows library self priority devices modifiers key turns).1
  have swallow : driver.capture.swallow = true := settled.swallow
  refine ⟨fun event => ?_, ?_⟩
  · cases event with
    | key stroke => exact Capture.onKey_swallows stroke swallow
    | mouse stroke =>
        rw [HookEvent.swallowed, swallow]
        exact (onMouse_swallowed driver.mouse stroke).2.1
  · have ran : after = exec (trayStep library) driver (calls.map HookCall.turn) :=
      exec_append _ _ _ _
    have forwarded : ∃ messages, Forwards inputs messages driver.mesh after.mesh := by
      rw [ran]
      cases active : driver.capture.installed with
      | false =>
          rw [uncaptured_run library active, show inputs = [] from if_neg (active ▸ Bool.false_ne_true)]
          exact ⟨[], .none _⟩
      | true =>
          have captures : Captures driver :=
            ⟨active, swallow, settled.owner (settled.driving active)⟩
          rw [show inputs = _ from if_pos active]
          exact captures.run library calls
    obtain ⟨messages, forwards⟩ := forwarded
    refine ⟨messages, forwards.sends, fun sink sender clock => ?_⟩
    rw [hears_injects sink sender clock forwards.claimless, forwards.carries]

end Skittermouse.Platform

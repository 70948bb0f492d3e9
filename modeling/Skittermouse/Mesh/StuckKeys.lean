import Skittermouse.Data.Strokes
import Skittermouse.Mesh.Calls

namespace Skittermouse.Mesh

open Skittermouse.Data Skittermouse.Core Skittermouse.Net Skittermouse.App

/-! # Stuck-key prevention

A sink holds down what the presses and releases it has injected leave down.
The capturing machine keeps a view of its own in the tracker, and everything
that is still on the way lies between the two.
-/

/-- The key or button an event presses or releases; a mouse move does neither. -/
def strokeOf (event : InputEvent) : Option (Stroke Release) :=
  if event.type = MessageType.mouseButton.code then
    some ⟨⟨event.code, true⟩, decide (event.down ≠ 0)⟩
  else if event.type = MessageType.keyEvent.code then
    some ⟨⟨event.code, false⟩, decide (event.down ≠ 0)⟩
  else none

def strokesOf (messages : List Bytes) : List (Stroke Release) :=
  messages.filterMap fun message => (readInput (seen message)).bind strokeOf

def injectedFrom (sender : PeerId) : List MeshEvent → List (Stroke Release)
  | [] => []
  | .inject source event :: rest =>
      if source = sender then injectedFrom sender rest ++ (strokeOf event).toList
      else injectedFrom sender rest
  | _ :: rest => injectedFrom sender rest

def heldFrom (sender : PeerId) (trace : List MeshEvent) : Set Release :=
  replay ∅ (injectedFrom sender trace)

/-- No release was ignored while its key was down for the sender. -/
def ReleasesLand : List MeshEvent → Prop
  | [] => True
  | .ignored sender event :: rest => ReleasesLand rest ∧ ∀ stroke, strokeOf event = some stroke →
      stroke.down = false → stroke.key ∉ heldFrom sender rest
  | _ :: rest => ReleasesLand rest

/-- In this step no machine that owns input is handed a release it needed. -/
def Lands (action : MeshAction) (net : Network) : Prop :=
  ∀ id host, (meshStep .releaseHeld action net).find? id = some host → ReleasesLand host.trace

def NothingInFlight (net : Network) : Prop := ∀ sender receiver, transit net sender receiver = []

/-- Whoever does not own input has had every press it got injected anywhere released. -/
def NothingStuck (net : Network) : Prop :=
  ∀ id host other sink, net.find? id = some host → net.find? other = some sink → id ≠ other →
    host.isLocalOwner = false → Settled (injectedFrom id sink.trace)

def fleet (machines : List PeerId) : Network :=
  exec (historyStep .releaseHeld) ∅ (machines.map .start)

/-! ## The tracker as a set of keys -/

def trackedBy (tracker : InputTracker) : Set Release :=
  {release | (if release.isButton then tracker.buttonsDown else tracker.keysDown).contains
    release.code = true}

theorem contains_setDown (codes : OrdMap UInt8 Unit) (code wanted : UInt8) (down : Bool) :
    (InputTracker.setDown codes code down).contains wanted = true ↔
      if wanted = code then down = true else codes.contains wanted = true := by
  cases down with
  | true =>
      rw [InputTracker.setDown, if_pos rfl, OrdMap.contains_insert]
      split <;> simp [*]
  | false =>
      rw [InputTracker.setDown, if_neg Bool.false_ne_true, OrdMap.contains_erase]
      split <;> simp [*]

theorem trackedBy_onKey (tracker : InputTracker) (code : UInt8) (down : Bool) :
    trackedBy (tracker.onKey code down) = Stroke.apply (trackedBy tracker) ⟨⟨code, false⟩, down⟩ := by
  ext ⟨wanted, isButton⟩
  cases isButton with
  | true => cases down <;> simp [trackedBy, InputTracker.onKey, Stroke.apply]
  | false =>
      simp only [trackedBy, InputTracker.onKey, Stroke.apply, Set.mem_ofPred_eq, contains_setDown,
        Bool.false_eq_true, if_false]
      cases down <;> simp <;> tauto

theorem trackedBy_onButton (tracker : InputTracker) (code : UInt8) (down : Bool) :
    trackedBy (tracker.onButton code down) =
      Stroke.apply (trackedBy tracker) ⟨⟨code, true⟩, down⟩ := by
  ext ⟨wanted, isButton⟩
  cases isButton with
  | false => cases down <;> simp [trackedBy, InputTracker.onButton, Stroke.apply]
  | true =>
      simp only [trackedBy, InputTracker.onButton, Stroke.apply, Set.mem_ofPred_eq, contains_setDown,
        if_true]
      cases down <;> simp <;> tauto

@[simp] theorem trackedBy_init : trackedBy .init = ∅ := by
  ext ⟨code, isButton⟩
  cases isButton <;> simp [trackedBy, InputTracker.init, OrdMap.contains]

theorem mem_drainReleases {tracker : InputTracker} {release : Release} :
    release ∈ tracker.drainReleases.1 ↔ release ∈ trackedBy tracker := by
  obtain ⟨code, isButton⟩ := release
  have keys : ∀ codes : OrdMap UInt8 Unit, (∃ entry ∈ codes.entries, entry.1 = code) ↔
      codes.contains code = true := fun codes => by
    rw [← OrdMap.mem_keys, List.mem_map]
  cases isButton with
  | true => simp [InputTracker.drainReleases, trackedBy, ← keys]
  | false => simp [InputTracker.drainReleases, trackedBy, ← keys]

/-! ## What the messages press and release -/

theorem strokesOf_append (first second : List Bytes) :
    strokesOf (first ++ second) = strokesOf first ++ strokesOf second := List.filterMap_append

theorem strokesOf_cons (message : Bytes) (rest : List Bytes) :
    strokesOf (message :: rest) =
      ((readInput (seen message)).bind strokeOf).toList ++ strokesOf rest := by
  unfold strokesOf
  rw [List.filterMap_cons]
  cases (readInput (seen message)).bind strokeOf <;> rfl

theorem strokesOf_cons_none {message : Bytes} (rest : List Bytes)
    (other : readInput (seen message) = none) : strokesOf (message :: rest) = strokesOf rest := by
  rw [strokesOf_cons, other]
  rfl

theorem readInput_make (type : MessageType)
    (input : type ∈ [MessageType.mouseMove, .mouseButton, .keyEvent]) (dx dy : Int16)
    (code down : UInt8) (ts : UInt32) :
    readInput (seen (encodeInputEvent (InputPipeline.make type dx dy code down ts))) =
      some (InputPipeline.make type dx dy code down ts) := by
  have fixed : isFixedType type = true := by
    simp only [List.mem_cons, List.not_mem_nil, or_false] at input
    rcases input with rfl | rfl | rfl <;> rfl
  have whole : seen (encodeInputEvent (InputPipeline.make type dx dy code down ts)) =
      encodeInputEvent (InputPipeline.make type dx dy code down ts) := by
    refine List.take_of_length_le ?_
    rw [encodeInputEvent_length]
    decide
  have decoded : decodeMessage (encodeInputEvent (InputPipeline.make type dx dy code down ts) ++ []) =
      _ := decodeMessage_encodeInputEvent rfl rfl fixed []
  rw [List.append_nil] at decoded
  rw [whole, readInput, decoded]
  exact if_pos ⟨rfl, input⟩

theorem readInput_claimMessage (claim : OwnershipClaim) :
    readInput (seen (claimMessage claim)) = none := by
  cases read : readInput (seen (claimMessage claim)) with
  | none => rfl
  | some event =>
      obtain ⟨type, input, code⟩ := readInput_type read
      rw [seen_type] at code
      have switch : (claimMessage claim)[1]? = some MessageType.switchOwner.code := rfl
      rw [switch] at code
      simp only [List.mem_cons, List.not_mem_nil, or_false] at input
      rcases input with rfl | rfl | rfl <;> simp [MessageType.code] at code

theorem strokesOf_key (code : UInt8) (down : Bool) (ts : UInt32) :
    strokesOf [encodeInputEvent (InputPipeline.make .keyEvent 0 0 code (if down then 1 else 0) ts)] =
      [⟨⟨code, false⟩, down⟩] := by
  rw [strokesOf_cons, readInput_make .keyEvent (by decide)]
  cases down <;> rfl

theorem strokesOf_button (code : UInt8) (down : Bool) (ts : UInt32) :
    strokesOf [encodeInputEvent
      (InputPipeline.make .mouseButton 0 0 code (if down then 1 else 0) ts)] =
      [⟨⟨code, true⟩, down⟩] := by
  rw [strokesOf_cons, readInput_make .mouseButton (by decide)]
  cases down <;> rfl

theorem strokesOf_move (dx dy : Int16) (ts : UInt32) :
    strokesOf [encodeInputEvent (InputPipeline.make .mouseMove dx dy 0 0 ts)] = [] := by
  rw [strokesOf_cons, readInput_make .mouseMove (by decide)]
  rfl

theorem strokesOf_releases (releases : List Release) (ts : UInt32) :
    strokesOf (releases.map fun release =>
      encodeInputEvent (InputPipeline.releaseEvent ts release)) =
      releases.map fun release => ⟨release, false⟩ := by
  induction releases with
  | nil => rfl
  | cons release rest ih =>
      obtain ⟨code, isButton⟩ := release
      have first : strokesOf [encodeInputEvent (InputPipeline.releaseEvent ts ⟨code, isButton⟩)] =
          [⟨⟨code, isButton⟩, false⟩] := by
        cases isButton with
        | true => exact strokesOf_button code false ts
        | false => exact strokesOf_key code false ts
      rw [List.map_cons, List.map_cons, ← List.singleton_append, strokesOf_append, first, ih]
      rfl

/-! ## One machine -/

variable {members : Set PeerId} {id sender : PeerId} {hook : OwnerHook}
variable {host before after : Machine} {base bound : PeerId → Set Release}

def tracked (host : Machine) : Set Release := trackedBy host.node.pipeline.tracker

def Empty (host : Machine) : Prop := host.isLocalOwner = false → tracked host = ∅

/-- What the outbox leaves down at a receiver that has `base` down is tracked,
and what the inbox leaves down here was counted on. -/
structure Follows (members : Set PeerId) (id : PeerId) (base bound : PeerId → Set Release)
    (host : Machine) : Prop where
  sent : ∀ peer ∈ members, peer ≠ id →
    replay (base peer) (strokesOf (host.outboxTo peer)) ⊆ tracked host
  held : ReleasesLand host.trace → ∀ sender,
    replay (heldFrom sender host.trace) (strokesOf (host.inboxFrom sender)) ⊆ bound sender

def Silent (before after : List MeshEvent) : Prop :=
  (∀ sender, injectedFrom sender after = injectedFrom sender before) ∧
    (ReleasesLand after → ReleasesLand before)

theorem Silent.cons {event : MeshEvent} (trace : List MeshEvent)
    (inject : ∀ sender input, event ≠ .inject sender input)
    (ignored : ∀ sender input, event ≠ .ignored sender input) : Silent trace (event :: trace) := by
  cases event with
  | inject sender input => exact absurd rfl (inject sender input)
  | ignored sender input => exact absurd rfl (ignored sender input)
  | _ => exact ⟨fun _ => rfl, fun land => land⟩

theorem Silent.refl (trace : List MeshEvent) : Silent trace trace := ⟨fun _ => rfl, fun land => land⟩

theorem Silent.trans {first second third : List MeshEvent} (left : Silent first second)
    (right : Silent second third) : Silent first third :=
  ⟨fun sender => (right.1 sender).trans (left.1 sender), fun land => left.2 (right.2 land)⟩

theorem Silent.notices {events trace : List MeshEvent}
    (notices : ∀ event ∈ events, event.isNotice = true) : Silent trace (events ++ trace) := by
  induction events with
  | nil => exact .refl trace
  | cons event rest ih =>
      refine (ih fun other member => notices other (List.mem_cons_of_mem _ member)).trans ?_
      have notice := notices event List.mem_cons_self
      exact .cons _ (by rintro sender input rfl; contradiction) (by rintro sender input rfl; contradiction)

namespace Follows

theorem congr (follows : Follows members id base bound before) (heap : after.heap = before.heap)
    (pipeline : after.node.pipeline = before.node.pipeline) (silent : Silent before.trace after.trace) :
    Follows members id base bound after := by
  refine ⟨fun peer inside different => ?_, fun land sender => ?_⟩
  · have kept := follows.sent peer inside different
    simp only [Host.outboxTo, heap, tracked, pipeline] at kept ⊢
    exact kept
  · have kept := follows.held (silent.2 land) sender
    simp only [Host.inboxFrom, heap, heldFrom, silent.1] at kept ⊢
    exact kept

theorem send {message : Bytes} (follows : Follows members id base bound host)
    (linked : Linked members id host) (pipeline : InputPipeline)
    (counted : ∀ held, held ⊆ tracked host →
      replay held (strokesOf [message]) ⊆ trackedBy pipeline.tracker) :
    Follows members id base bound
      (Host.broadcast { host with node.pipeline := pipeline } message) := by
  have piped : Linked members id { host with node.pipeline := pipeline } :=
    linked.same ⟨rfl, rfl, rfl, fun _ => rfl⟩
  refine ⟨fun peer inside different => ?_, fun land sender => ?_⟩
  · rw [piped.outboxTo_broadcast message inside different, strokesOf_append, replay_append]
    exact counted _ (follows.sent peer inside different)
  · rw [piped.inboxFrom_broadcast]
    exact follows.held land sender

theorem broadcast {message : Bytes} (follows : Follows members id base bound host)
    (linked : Linked members id host) (other : strokesOf [message] = []) :
    Follows members id base bound (host.broadcast message) :=
  follows.send linked host.node.pipeline fun held less => by
    rw [other]
    exact less

end Follows

theorem outboxTo_broadcasts (linked : Linked members id host) (messages : List Bytes)
    {peer : PeerId} (inside : peer ∈ members) (different : peer ≠ id) :
    (messages.foldl Host.broadcast host).outboxTo peer = host.outboxTo peer ++ messages := by
  induction messages generalizing host with
  | nil => exact (List.append_nil _).symm
  | cons message rest ih =>
      rw [List.foldl_cons, ih (linked.same (broadcast_sameLinks host message)),
        linked.outboxTo_broadcast message inside different, List.append_assoc]
      rfl

theorem inboxFrom_broadcasts (linked : Linked members id host) (messages : List Bytes)
    (peer : PeerId) :
    (messages.foldl Host.broadcast host).inboxFrom peer = host.inboxFrom peer := by
  induction messages generalizing host with
  | nil => rfl
  | cons message rest ih =>
      rw [List.foldl_cons, ih (linked.same (broadcast_sameLinks host message)),
        linked.inboxFrom_broadcast]

theorem Follows.releaseHeldKeys (follows : Follows members id base bound host)
    (linked : Linked members id host) (ts : UInt32) :
    Follows members id base bound (host.releaseHeldKeys ts) ∧ tracked (host.releaseHeldKeys ts) = ∅ := by
  have emptied : tracked (host.releaseHeldKeys ts) = ∅ := by
    rw [tracked, host.releaseHeldKeys_node ts]
    exact trackedBy_init
  have piped : Linked members id { host with node.pipeline := .init } :=
    linked.same ⟨rfl, rfl, rfl, fun _ => rfl⟩
  refine ⟨⟨fun peer inside different => ?_, fun land sender => ?_⟩, emptied⟩
  · have queue : (host.releaseHeldKeys ts).outboxTo peer = host.outboxTo peer ++
        (host.node.pipeline.tracker.drainReleases.1.map fun release =>
          encodeInputEvent (InputPipeline.releaseEvent ts release)) :=
      outboxTo_broadcasts piped _ inside different
    rw [emptied, queue, strokesOf_append, replay_append, strokesOf_releases, replay_releases]
    rintro release ⟨down, kept⟩
    exact absurd (mem_drainReleases.mpr (follows.sent peer inside different down)) kept
  · have queue : (host.releaseHeldKeys ts).inboxFrom sender = host.inboxFrom sender :=
      inboxFrom_broadcasts piped _ sender
    rw [host.releaseHeldKeys_trace] at land ⊢
    rw [queue]
    exact follows.held land sender

theorem Follows.onOwnerChanged (follows : Follows members id base bound host)
    (linked : Linked members id host) (owner : PeerId) :
    Follows members id base bound (host.onOwnerChanged .releaseHeld owner) ∧
      Empty (host.onOwnerChanged .releaseHeld owner) := by
  have told : Follows members id base bound (host.emit (.ownerChanged owner)) :=
    follows.congr rfl rfl (.cons _ nofun nofun)
  simp only [Host.onOwnerChanged]
  split
  · rename_i own
    exact ⟨told, fun remote => by rw [own] at remote; contradiction⟩
  · obtain ⟨kept, emptied⟩ := told.releaseHeldKeys (linked.same ⟨rfl, rfl, rfl, fun _ => rfl⟩)
      (host.emit (.ownerChanged owner)).node.now.toUInt32
    exact ⟨kept, fun _ => emptied⟩

theorem Follows.settle {claimed : Machine} (follows : Follows members id base bound claimed)
    (linked : Linked members id claimed) {owner : PeerId}
    (same : claimed.owner = owner → Empty claimed) :
    Follows members id base bound (if claimed.owner ≠ owner then
        claimed.onOwnerChanged .releaseHeld claimed.owner else claimed) ∧
      Empty (if claimed.owner ≠ owner then
        claimed.onOwnerChanged .releaseHeld claimed.owner else claimed) := by
  split
  · exact follows.onOwnerChanged linked _
  · rename_i unchanged
    exact ⟨follows, same (not_not.mp unchanged)⟩

theorem Follows.receive {message : Bytes} {rest : List Bytes}
    (follows : Follows members id base bound host)
    (waiting : host.inboxFrom sender = message :: rest)
    (heap : after.heap = (host.pop sender).heap) (pipeline : after.node.pipeline = host.node.pipeline)
    (land : ReleasesLand after.trace → ReleasesLand host.trace)
    (others : ∀ peer, peer ≠ sender → injectedFrom peer after.trace = injectedFrom peer host.trace)
    (own : ReleasesLand after.trace → replay (heldFrom sender after.trace) (strokesOf rest) ⊆
      replay (heldFrom sender host.trace) (strokesOf (message :: rest))) :
    Follows members id base bound after := by
  refine ⟨fun peer inside different => ?_, fun landed peer => ?_⟩
  · have kept := follows.sent peer inside different
    rw [← outboxTo_pop host sender peer] at kept
    simp only [Host.outboxTo, heap, tracked, pipeline] at kept ⊢
    exact kept
  · have kept := follows.held (land landed) peer
    have box : after.inboxFrom peer = (host.pop sender).inboxFrom peer := by
      simp only [Host.inboxFrom, heap]
    by_cases same : peer = sender
    · subst same
      rw [waiting] at kept
      rw [box, inboxFrom_pop_self, waiting, List.tail_cons]
      exact (own landed).trans kept
    · have popped : (host.pop sender).inboxFrom peer = host.inboxFrom peer :=
        (onWire_of_ne host _ same).1
      rw [box, popped, heldFrom, others peer same]
      exact kept

theorem Empty.congr (empty : Empty before) (ownership : after.node.ownership = before.node.ownership)
    (pipeline : after.node.pipeline = before.node.pipeline) : Empty after := by
  unfold Empty Host.isLocalOwner tracked at *
  rwa [ownership, pipeline]

theorem Empty.sameOwner (empty : Empty before)
    (self : after.node.ownership.self = before.node.ownership.self)
    (pipeline : after.node.pipeline = before.node.pipeline) (owner : after.owner = before.owner) :
    Empty after := by
  unfold Empty Host.isLocalOwner tracked OwnershipState.isLocalOwner at *
  unfold Host.owner OwnershipState.owner at owner
  rwa [owner, self, pipeline]

theorem handle_follows {message : Bytes} {rest : List Bytes} (now : UInt64)
    (follows : Follows members id base bound host) (empty : Empty host)
    (linked : Linked members id host) (waiting : host.inboxFrom sender = message :: rest) :
    Follows members id base bound ((host.pop sender).handle .releaseHeld sender (seen message) now) ∧
      Empty ((host.pop sender).handle .releaseHeld sender (seen message) now) := by
  have heard : Silent host.trace ((host.pop sender).hear sender (seen message) now).trace :=
    .cons _ nofun nofun
  have outcome := Host.handle_outcome .releaseHeld (host.pop sender) sender (seen message) now
  generalize (host.pop sender).handle .releaseHeld sender (seen message) now = after at outcome ⊢
  cases outcome with
  | noted input claim noted =>
      obtain ⟨_, _, _, _, node⟩ := noted.node
      obtain ⟨events, trace, notices⟩ := noted.trace
      have silent : Silent host.trace after.trace := by
        rw [trace]
        exact heard.trans (.notices notices)
      refine ⟨follows.receive waiting noted.heap (by rw [node]; rfl) silent.2
        (fun peer _ => silent.1 peer) fun _ => ?_, empty.congr (by rw [node]; rfl) (by rw [node]; rfl)⟩
      rw [heldFrom, silent.1, strokesOf_cons_none rest input]
      exact subset_rfl
  | injected input claim sink =>
      rename_i event
      refine ⟨follows.receive waiting rfl rfl (fun land => land) (fun peer apart => ?_) fun _ => ?_,
        empty.congr rfl rfl⟩
      · exact if_neg (Ne.symm apart)
      · have injected : injectedFrom sender ((Host.hear (host.pop sender) sender (seen message) now).emit
            (.inject sender event)).trace = injectedFrom sender host.trace ++ (strokeOf event).toList :=
          if_pos rfl
        rw [heldFrom, injected, replay_append, strokesOf_cons, input, replay_append]
        exact subset_rfl
  | ignored input claim owner =>
      rename_i event
      refine ⟨follows.receive waiting rfl rfl (fun land => land.1) (fun peer _ => rfl) fun land => ?_,
        empty.congr rfl rfl⟩
      have same : heldFrom sender ((Host.hear (host.pop sender) sender (seen message) now).emit
          (.ignored sender event)).trace = heldFrom sender host.trace := rfl
      rw [same, strokesOf_cons, input, replay_append]
      refine replay_mono _ ?_
      change heldFrom sender host.trace ⊆
        replay (heldFrom sender host.trace) (strokeOf event).toList
      cases pressed : strokeOf event with
      | none => exact subset_rfl
      | some stroke => exact Stroke.subset_apply fun up => land.2 stroke pressed up
  | claimed input found =>
      rename_i claim
      have applied : Follows members id base bound
          (((host.pop sender).hear sender (seen message) now).applyClaim claim) := by
        refine follows.receive waiting rfl rfl (fun land => land) (fun _ _ => rfl) fun _ => ?_
        rw [strokesOf_cons_none rest input]
        exact subset_rfl
      have heardLinked : Linked members id ((host.pop sender).hear sender (seen message) now) :=
        (linked.same (.pop host sender)).same ⟨rfl, rfl, rfl, fun _ => rfl⟩
      exact applied.settle (heardLinked.same (.applyClaim _ claim)) fun same =>
        empty.sameOwner OwnershipState.applyClaim_self rfl same

theorem failSafe_follows (now : UInt64) (follows : Follows members id base bound host)
    (empty : Empty host) (linked : Linked members id host) :
    Follows members id base bound (host.failSafe .releaseHeld now) ∧
      Empty (host.failSafe .releaseHeld now) := by
  unfold Host.failSafe
  split
  · have claimed : Silent host.trace (host.issueClaim host.node.self).2.trace := .cons _ nofun nofun
    have told : Silent (host.issueClaim host.node.self).2.trace
        ((host.issueClaim host.node.self).2.emit .reverted).trace := .cons _ nofun nofun
    have reverted : Follows members id base bound
        ((host.issueClaim host.node.self).2.emit .reverted) :=
      follows.congr rfl rfl (claimed.trans told)
    have issued : Linked members id (host.issueClaim host.node.self).2 :=
      linked.same (.applyClaim host _)
    exact reverted.onOwnerChanged (issued.same ⟨rfl, rfl, rfl, fun _ => rfl⟩) _
  · exact ⟨follows, empty⟩

theorem request_follows (target : PeerId) (follows : Follows members id base bound host)
    (empty : Empty host) (linked : Linked members id host) :
    Follows members id base bound (host.requestSwitchTo .releaseHeld target) ∧
      Empty (host.requestSwitchTo .releaseHeld target) := by
  unfold Host.requestSwitchTo
  split
  · exact ⟨follows.congr rfl rfl (.cons _ nofun nofun), empty.congr rfl rfl⟩
  · have issued : Follows members id base bound (host.issueClaim target).2 :=
      follows.congr rfl rfl (.cons _ nofun nofun)
    have kept : Linked members id (host.issueClaim target).2 := linked.same (.applyClaim host _)
    have quiet : strokesOf [claimMessage (host.issueClaim target).1] = [] :=
      strokesOf_cons_none [] (readInput_claimMessage _)
    exact (issued.broadcast kept quiet).settle (kept.same (broadcast_sameLinks _ _)) fun same =>
      empty.sameOwner OwnershipState.applyClaim_self rfl same

/-- Every call keeps the tracker ahead of what the sinks will hold. -/
theorem CallRules.follows (members : Set PeerId) (id : PeerId) (base bound : PeerId → Set Release) :
    CallRules members id .releaseHeld fun host =>
      Follows members id base bound host ∧ Empty host where
  noted {before after} noted holds := by
    obtain ⟨_, _, _, _, node⟩ := noted.node
    obtain ⟨events, trace, notices⟩ := noted.trace
    exact ⟨holds.1.congr noted.heap (by rw [node]) (by rw [trace]; exact .notices notices),
      holds.2.congr (by rw [node]) (by rw [node])⟩
  clocked now sent holds := ⟨holds.1.congr rfl rfl (.refl _), holds.2.congr rfl rfl⟩
  sent linked inert holds :=
    ⟨holds.1.broadcast linked (strokesOf_cons_none [] inert.2), holds.2.congr rfl rfl⟩
  moved {host} dx dy ts linked holds := by
    unfold Host.forwardMouseMove
    split
    · exact ⟨holds.1.broadcast linked (strokesOf_move dx dy ts), holds.2.congr rfl rfl⟩
    · exact holds
  clicked {host} button down ts linked holds := by
    unfold Host.forwardMouseButton
    split
    · rename_i own
      refine ⟨holds.1.send linked (host.node.pipeline.onMouseButton button down ts).2 fun held less => ?_,
        fun remote => absurd (remote.symm.trans own) Bool.false_ne_true⟩
      exact (congrArg (replay held) (strokesOf_button button down ts)).trans_subset <|
        (Stroke.apply_mono _ less).trans (trackedBy_onButton _ button down).ge
    · exact holds
  typed {host} code down ts linked holds := by
    unfold Host.forwardKey
    split
    · rename_i own
      refine ⟨holds.1.send linked (host.node.pipeline.onKey code down ts).2 fun held less => ?_,
        fun remote => absurd (remote.symm.trans own) Bool.false_ne_true⟩
      exact (congrArg (replay held) (strokesOf_key code down ts)).trans_subset <|
        (Stroke.apply_mono _ less).trans (trackedBy_onKey _ code down).ge
    · exact holds
  released ts linked holds := by
    obtain ⟨kept, emptied⟩ := holds.1.releaseHeldKeys linked ts
    exact ⟨kept, fun _ => emptied⟩
  skipped {host sender message rest} linked waiting skip holds := by
    refine ⟨holds.1.receive waiting rfl rfl (fun land => land) (fun _ _ => rfl) fun _ => ?_,
      holds.2.congr rfl rfl⟩
    rw [strokesOf_cons_none rest (by rw [skip]; rfl)]
    exact subset_rfl
  received now linked waiting holds := handle_follows now holds.1 holds.2 linked waiting
  reverted now linked holds := failSafe_follows now holds.1 holds.2 linked

/-! ## The mesh -/

variable {net : Network} {action : MeshAction}

/-- What a sink has down for a sender, after everything still on the way, is
something the sender's tracker knows about. -/
structure Matched (net : Network) : Prop where
  meshed : Meshed net
  empty : ∀ id host, net.find? id = some host → Empty host
  lands : ∀ id host, net.find? id = some host → ReleasesLand host.trace
  follows : ∀ id host other sink, net.find? id = some host → net.find? other = some sink →
    id ≠ other → replay (replay (heldFrom id sink.trace) (strokesOf (sink.inboxFrom id)))
      (strokesOf (host.outboxTo other)) ⊆ tracked host

namespace Matched

theorem replace {replaced : Machine} (matched : Matched net) (found : net.find? id = some host)
    (linked : Linked (membersOf net) id replaced) (empty : Empty replaced)
    (land : ReleasesLand replaced.trace)
    (sent : ∀ other sink, net.find? other = some sink → id ≠ other →
      replay (replay (heldFrom id sink.trace) (strokesOf (sink.inboxFrom id)))
        (strokesOf (replaced.outboxTo other)) ⊆ tracked replaced)
    (held : ∀ sender, replay (heldFrom sender replaced.trace)
        (strokesOf (replaced.inboxFrom sender)) ⊆
      replay (heldFrom sender host.trace) (strokesOf (host.inboxFrom sender))) :
    Matched (net.insert id replaced) := by
  refine ⟨matched.meshed.insert found linked, ?_, ?_, ?_⟩
  · intro other new newFound
    rw [OrdMap.find?_insert] at newFound
    split at newFound
    · cases newFound
      exact empty
    · exact matched.empty other new newFound
  · intro other new newFound
    rw [OrdMap.find?_insert] at newFound
    split at newFound
    · cases newFound
      exact land
    · exact matched.lands other new newFound
  · intro sender new receiver sink newFound sinkFound apart
    rw [OrdMap.find?_insert] at newFound sinkFound
    split at newFound
    · rename_i own
      subst own
      cases newFound
      rw [if_neg (Ne.symm apart)] at sinkFound
      exact sent receiver sink sinkFound apart
    · split at sinkFound
      · rename_i own
        subst own
        cases sinkFound
        exact (replay_mono _ (held sender)).trans
          (matched.follows sender new receiver host newFound found apart)
      · exact matched.follows sender new receiver sink newFound sinkFound apart

theorem call {machine : PeerId} {call : MeshCall} (matched : Matched net)
    (lands : Lands (.call machine call) net) :
    Matched (meshStep .releaseHeld (.call machine call) net) := by
  cases found : net.find? machine with
  | none =>
      have same : meshStep .releaseHeld (.call machine call) net = net := by
        rw [meshStep, OrdMap.modify, found]
      rwa [same]
  | some host =>
      have stepped : meshStep .releaseHeld (.call machine call) net =
          net.insert machine (host.perform .releaseHeld call) := OrdMap.modify_eq_insert _ found
      let base : PeerId → Set Release := fun peer => (net.find? peer).elim ∅ fun sink =>
        replay (heldFrom machine sink.trace) (strokesOf (sink.inboxFrom machine))
      let bound : PeerId → Set Release := fun sender =>
        replay (heldFrom sender host.trace) (strokesOf (host.inboxFrom sender))
      have linked := matched.meshed machine host found
      have start : Follows (membersOf net) machine base bound host := by
        refine ⟨fun peer inside different => ?_, fun _ sender => subset_rfl⟩
        obtain ⟨sink, sinkFound⟩ := OrdMap.contains_iff.mp inside
        simp only [base, sinkFound, Option.elim_some]
        exact matched.follows machine host peer sink found sinkFound (Ne.symm different)
      have empty := matched.empty machine host found
      obtain ⟨kept, follows, emptied⟩ := perform_rules (.follows (membersOf net) machine base bound)
        linked ⟨start, empty⟩ call fun target _ => request_follows target start empty linked
      have land : ReleasesLand (host.perform .releaseHeld call).trace :=
        lands machine _ (by rw [stepped, OrdMap.find?_insert_self])
      rw [stepped]
      refine matched.replace found kept emptied land (fun other sink sinkFound apart => ?_)
        (follows.held land)
      have sent := follows.sent other (OrdMap.contains_iff.mpr ⟨sink, sinkFound⟩) (Ne.symm apart)
      simp only [base, sinkFound, Option.elim_some] at sent
      exact sent

theorem carry {sender receiver : PeerId} (matched : Matched net) :
    Matched (carry net sender receiver) := by
  by_cases idle : ∀ host, net.find? sender = some host → host.outboxTo receiver = []
  · rwa [carry_idle idle]
  simp only [not_forall] at idle
  obtain ⟨host, found, waiting⟩ := idle
  obtain ⟨message, rest, queue⟩ := List.exists_cons_of_ne_nil waiting
  obtain ⟨apart, inside, spec⟩ := carry_spec matched.meshed found queue
  refine ⟨meshed_meshStep .releaseHeld (.carry sender receiver) matched.meshed, ?_, ?_, ?_⟩
  · intro id new newFound
    obtain ⟨old, oldFound, node, _⟩ := spec id new newFound
    exact (matched.empty id old oldFound).congr (by rw [node]) (by rw [node])
  · intro id new newFound
    obtain ⟨old, oldFound, _, trace, _⟩ := spec id new newFound
    rw [trace]
    exact matched.lands id old oldFound
  · intro id new other newSink newFound sinkFound different
    obtain ⟨old, oldFound, node, _, _, outs, _⟩ := spec id new newFound
    obtain ⟨sink, oldSinkFound, _, trace, _, _, boxes⟩ := spec other newSink sinkFound
    have kept := matched.follows id old other sink oldFound oldSinkFound different
    have sameTracked : tracked new = tracked old := by rw [tracked, tracked, node]
    rw [sameTracked, trace, outs, boxes]
    by_cases both : id = sender ∧ other = receiver
    · obtain ⟨rfl, rfl⟩ := both
      rw [found] at oldFound
      cases oldFound
      rw [if_pos ⟨rfl, rfl⟩, if_pos ⟨rfl, rfl⟩, strokesOf_append, replay_append]
      rw [queue, ← List.singleton_append, strokesOf_append, replay_append] at kept
      exact kept
    · rw [if_neg both, if_neg fun moved => both ⟨moved.2, moved.1⟩]
      exact kept

theorem step (matched : Matched net) (lands : Lands action net) :
    Matched (meshStep .releaseHeld action net) := by
  cases action with
  | call machine call => exact matched.call lands
  | carry sender receiver => exact matched.carry

end Matched

/-! ## The machines as they start -/

structure Fresh (host : Machine) : Prop where
  trace : host.trace = []
  tracked : tracked host = ∅
  links : ∀ peer, host.inboxFrom peer = [] ∧ host.outboxTo peer = []

theorem Fresh.link (fresh : Fresh host) (peer : PeerId) : Fresh (host.link peer) := by
  refine ⟨fresh.trace, fresh.tracked, fun other => ?_⟩
  obtain ⟨inbox, outbox⟩ := fresh.links other
  simp only [Host.inboxFrom, Host.outboxTo] at inbox outbox ⊢
  by_cases same : other = peer
  · simp [Host.link, same]
  · simp only [Host.link, OrdMap.find?_insert, if_neg same]
    exact ⟨inbox, outbox⟩

theorem Fresh.foldl_link {others : List PeerId} (fresh : Fresh host) :
    Fresh (others.foldl Host.link host) := by
  induction others generalizing host with
  | nil => exact fresh
  | cons peer rest ih => exact ih (fresh.link peer)

theorem fresh_start {machine : PeerId} (meshed : Meshed net)
    (fresh : ∀ id host, net.find? id = some host → Fresh host)
    (absent : machine ∉ membersOf net) :
    ∀ id host, (start .releaseHeld machine net).find? id = some host → Fresh host := by
  intro id host found
  by_cases same : id = machine
  · subst same
    rw [start_find?_self, Option.some.injEq] at found
    subst found
    exact Fresh.foldl_link ⟨rfl, trackedBy_init, fun peer => ⟨rfl, rfl⟩⟩
  · rw [start_find?_of_ne same] at found
    obtain ⟨before, beforeFound, rfl⟩ := Option.map_eq_some_iff.mp found
    have unknown : ¬before.node.peers.contains machine = true := fun known => by
      obtain ⟨pointer, registered⟩ := OrdMap.contains_iff.mp known
      exact absent (((meshed id before beforeFound).peers machine pointer).mp registered).1
    rw [Host.meet, if_neg unknown]
    exact (fresh id before beforeFound).link machine

theorem fresh_starts {machines : List PeerId} (distinct : machines.Nodup) (meshed : Meshed net)
    (fresh : ∀ id host, net.find? id = some host → Fresh host)
    (absent : ∀ machine ∈ machines, machine ∉ membersOf net) :
    ∀ id host, (exec (historyStep .releaseHeld) net (machines.map .start)).find? id = some host →
      Fresh host := by
  induction machines generalizing net with
  | nil => exact fresh
  | cons machine rest ih =>
      obtain ⟨apart, distinct⟩ := List.nodup_cons.mp distinct
      refine ih distinct (meshed_start meshed machine)
        (fresh_start meshed fresh (absent machine List.mem_cons_self)) fun other member => ?_
      change other ∉ membersOf (start .releaseHeld machine net)
      rw [membersOf_start, Set.mem_insert_iff, not_or]
      exact ⟨fun same => apart (same ▸ member), absent other (List.mem_cons_of_mem _ member)⟩

theorem Matched.fleet {machines : List PeerId} (distinct : machines.Nodup) :
    Matched (fleet machines) := by
  have meshed := meshed_history .releaseHeld (machines.map .start)
  have fresh : ∀ id host, (Mesh.fleet machines).find? id = some host → Fresh host :=
    fresh_starts distinct (fun _ _ found => by contradiction) (fun _ _ found => by contradiction)
      fun machine _ inside => by simp [membersOf, OrdMap.contains] at inside
  refine ⟨meshed, fun id host found _ => (fresh id host found).tracked, ?_, ?_⟩
  · intro id host found
    rw [(fresh id host found).trace]
    trivial
  · intro id host other sink found sinkFound _
    rw [(fresh id host found).tracked, ((fresh id host found).links other).2,
      ((fresh other sink sinkFound).links id).1, (fresh other sink sinkFound).trace]
    exact subset_rfl

/-- In a run in which no machine that owns input is handed a release it needed,
whoever does not own input has left nothing down once nothing is in flight. -/
theorem nothing_stuck {machines : List PeerId} (distinct : machines.Nodup)
    {actions : List MeshAction}
    (lands : Along (meshStep .releaseHeld) Lands (fleet machines) actions)
    (idle : NothingInFlight (exec (meshStep .releaseHeld) (fleet machines) actions)) :
    NothingStuck (exec (meshStep .releaseHeld) (fleet machines) actions) := by
  have matched := exec_invariant (fun _ _ matched lands => matched.step lands)
    (Matched.fleet distinct) lands
  intro id host other sink found sinkFound apart remote
  have kept := matched.follows id host other sink found sinkFound apart
  have queue := idle id other
  simp only [transit, found, sinkFound, List.append_eq_nil_iff] at queue
  rw [queue.1, queue.2, matched.empty id host found remote] at kept
  exact settled_of_none_held (Set.subset_empty_iff.mp kept)

def ignoresNothing (host : Machine) : Bool :=
  host.trace.all fun event => match event with
    | .ignored _ _ => false
    | _ => true

theorem releasesLand_of_ignoresNothing {trace : List MeshEvent}
    (none : (trace.all fun event => match event with
      | .ignored _ _ => false
      | _ => true) = true) : ReleasesLand trace := by
  induction trace with
  | nil => trivial
  | cons event rest ih =>
      rw [List.all_cons, Bool.and_eq_true] at none
      cases event with
      | ignored sender input => exact absurd none.1 Bool.false_ne_true
      | _ => exact ih none.2

theorem lands_of_entries
    (checked : ∀ entry ∈ (meshStep .releaseHeld action net).entries, ignoresNothing entry.2 = true) :
    Lands action net := fun id host found =>
  releasesLand_of_ignoresNothing (checked (id, host) (OrdMap.mem_entries.mpr found))

theorem nothingInFlight_of_keys
    (checked : ∀ sender ∈ net.entries.map Prod.fst, ∀ receiver ∈ net.entries.map Prod.fst,
      transit net sender receiver = []) : NothingInFlight net := by
  intro sender receiver
  by_cases present : net.contains sender = true ∧ net.contains receiver = true
  · exact checked sender (OrdMap.mem_keys.mpr present.1) receiver (OrdMap.mem_keys.mpr present.2)
  · exact transit_of_absent present

def pressAtB : List MeshAction :=
  [.call [65] (.requestSwitchTo [65]), .carry [65] [66], .call [66] (.poll 1000),
    .call [66] (.sendHeartbeats 1000), .carry [66] [65], .call [65] (.poll 1000),
    .call [65] (.forwardKey 65 true 0), .carry [65] [66], .call [66] (.poll 1000)]

def handToB : List MeshAction :=
  [.call [65] (.requestSwitchTo [66]), .carry [65] [66], .carry [65] [66], .call [66] (.poll 1000)]

/-- "B" adopts the claim first and then owns input, so it ignores the release. -/
theorem key_stuck_after_switch :
    NothingInFlight (exec (meshStep .releaseHeld) (fleet [[65], [66]]) (pressAtB ++ handToB)) ∧
      ¬NothingStuck (exec (meshStep .releaseHeld) (fleet [[65], [66]]) (pressAtB ++ handToB)) := by
  refine ⟨nothingInFlight_of_keys (by decide), fun stuck => ?_⟩
  have settled := stuck [65] _ [66] _ rfl rfl (by decide) (by decide)
  exact List.not_mem_nil (settled [] ⟨65, false⟩ [] (by decide))

def letGo : List MeshAction :=
  [.call [65] (.forwardKey 65 false 1), .carry [65] [66], .call [66] (.poll 1000)]

theorem nothing_stuck_after_letting_go :
    NothingStuck (exec (meshStep .releaseHeld) (fleet [[65], [66]])
      (pressAtB ++ letGo ++ handToB)) := by
  refine nothing_stuck (by decide) ?_ (nothingInFlight_of_keys (by decide))
  repeat' first
    | exact trivial
    | refine ⟨lands_of_entries (by decide), ?_⟩

end Skittermouse.Mesh

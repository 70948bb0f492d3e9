import Skittermouse.Data.Cooldown
import Skittermouse.Platform.NetThread
import Skittermouse.Tray.Frame

namespace Skittermouse.Platform

open Skittermouse.Data Skittermouse.Core Skittermouse.Net Skittermouse.Pairing Skittermouse.App

/-! # Dials and links across two threads

The network thread works with copies: the devices and keys of one moment, the
connected ids of another. The invariant says what each copy is a copy of, whatever
the UI thread does in between.
-/

namespace NetApp

variable {aead : Aead} {σ : Type}

/-- Devices and keys that `stateMutex` has shown at some moment. -/
abbrev History := List PairedDevice → KeyStore → Prop

abbrev Round := UInt64 → List PairedDevice → KeyStore → Prop

/-- The entry stands for a device of the round, not for this machine, with an address. -/
def Offered (round : Round) (now : UInt64) (machine : PeerId) (entry : Dialable) : Prop :=
  ∃ devices keys, round now devices keys ∧ ∃ device ∈ devices, entry = dialable keys device ∧
    device.id ≠ machine ∧ device.lastIp ≠ []

/-- Nothing has been sent over the link yet, and its key was the stored one. -/
def Genuine (known : History) (machine : PeerId) (link : SecureLink aead σ) : Prop :=
  link.peerId ≠ machine ∧ ∃ devices keys, known devices keys ∧ link.Fresh keys machine

/-- What the thread holds in each phase is a copy from the round or from the history. -/
def Copies (known : History) (round : Round) (machine : PeerId) : NetPhase aead σ → Prop
  | .top | .accepting => True
  | .dialing now toDial => ∀ entry ∈ toDial, Offered round now machine entry
  | .connecting now device psk rest =>
      (Offered round now machine device ∧ device.psk = some psk) ∧
        ∀ entry ∈ rest, Offered round now machine entry
  | .sealing now device psk _ rest =>
      (Offered round now machine device ∧ device.psk = some psk) ∧
        ∀ entry ∈ rest, Offered round now machine entry
  | .handshaking handshake keys _ _ =>
      handshake.status = .needMore ∧ handshake.self = machine ∧ ∃ devices, known devices keys
  | .handing link => Genuine known machine link

/-- The manager has come to `cm` by calls in which it was given these links. -/
def Given (machine : PeerId) (links : List (HandedLink (EncryptedTransport aead σ)))
    (cm : ConnectionTable (EncryptedTransport aead σ)) [Transport σ] : Prop :=
  Tray.Registers (fun _ => True) links (.init _ machine) cm

structure Working [Transport σ] (known : History) (round : Round) (machine : PeerId)
    (app : NetApp aead σ) : Prop where
  named : app.self = machine
  settled : app.tray.Settled False
  begun : ∀ now devices keys, round now devices keys → known devices keys
  copies : Copies known round machine app.phase
  remembers : Remembers app.lastDial (app.dials.map fun dial => (dial.id, dial.now))
  spaced : Spaced 3000 (app.dials.map fun dial => (dial.id, dial.now))
  queue : ∃ given, Given machine given app.tray.cm ∧ app.handed = given ++ app.tray.pendingLinks
  genuine : ∀ handed ∈ app.handed, ∃ link : SecureLink aead σ, Genuine known machine link ∧
    handed.peerId = link.peerId ∧ handed.transport = some link.transport

variable {known wider : History} {round next : Round} {machine : PeerId} {app : NetApp aead σ}

theorem Offered.mono {now : UInt64} {entry : Dialable} (offered : Offered round now machine entry)
    (more : ∀ now devices keys, round now devices keys → next now devices keys) :
    Offered next now machine entry := by
  obtain ⟨devices, keys, shown, rest⟩ := offered
  exact ⟨devices, keys, more _ _ _ shown, rest⟩

theorem Genuine.mono {link : SecureLink aead σ} (genuine : Genuine known machine link)
    (more : ∀ devices keys, known devices keys → wider devices keys) : Genuine wider machine link := by
  obtain ⟨other, devices, keys, shown, fresh⟩ := genuine
  exact ⟨other, devices, keys, more _ _ shown, fresh⟩

theorem Copies.mono {phase : NetPhase aead σ} (copies : Copies known round machine phase)
    (more : ∀ devices keys, known devices keys → wider devices keys)
    (goes : phase ≠ .top → ∀ now devices keys, round now devices keys → next now devices keys) :
    Copies wider next machine phase := by
  cases phase with
  | top => trivial
  | accepting => trivial
  | dialing now toDial => exact fun entry member => (copies entry member).mono (goes nofun)
  | connecting now device psk rest =>
      exact ⟨copies.1.imp_left (·.mono (goes nofun)),
        fun entry member => (copies.2 entry member).mono (goes nofun)⟩
  | sealing now device psk raw rest =>
      exact ⟨copies.1.imp_left (·.mono (goes nofun)),
        fun entry member => (copies.2 entry member).mono (goes nofun)⟩
  | handshaking handshake keys ip polls =>
      exact copies.imp_right fun ⟨own, devices, shown⟩ => ⟨own, devices, more _ _ shown⟩
  | handing link => exact Genuine.mono copies more

theorem Working.mono [Transport σ] (working : Working known round machine app)
    (more : ∀ devices keys, known devices keys → wider devices keys)
    (goes : app.phase ≠ .top → ∀ now devices keys, round now devices keys → next now devices keys)
    (begun : ∀ now devices keys, next now devices keys → wider devices keys) :
    Working wider next machine app :=
  { working with
    begun
    copies := working.copies.mono more goes
    genuine := fun handed member => by
      obtain ⟨link, genuine, same⟩ := working.genuine handed member
      exact ⟨link, genuine.mono more, same⟩ }

theorem offered_toDial {now : UInt64} (starts : round now app.tray.devices app.keys) :
    ∀ entry ∈ app.toDial, Offered round now app.self entry := by
  intro entry member
  obtain ⟨device, inside, rfl⟩ := List.mem_map.mp member
  obtain ⟨listed, worth⟩ := List.mem_filter.mp inside
  rw [Bool.not_eq_true', Bool.or_eq_false_iff, beq_eq_false_iff_ne, List.isEmpty_eq_false_iff] at worth
  exact ⟨_, _, starts, device, listed, rfl, worth.1, worth.2⟩

variable [Transport σ]

theorem Working.enter (working : Working known round machine app) {phase : NetPhase aead σ}
    (copies : Copies known round machine phase) : Working known round machine { app with phase } :=
  { working with copies }

theorem Working.hand (working : Working known round machine app) {link : SecureLink aead σ}
    (genuine : Genuine known machine link) (outbound : Bool) : Working known round machine (app.hand link outbound) :=
  { working with
    settled := working.settled.links _
    queue := by
      obtain ⟨given, manages, handed⟩ := working.queue
      refine ⟨given, manages, ?_⟩
      rw [NetApp.hand]
      dsimp only
      rw [handed, List.append_assoc]
    genuine := fun handed member => by
      rcases List.mem_append.mp member with earlier | newest
      · exact working.genuine handed earlier
      · rw [List.mem_singleton.mp newest]
        exact ⟨link, genuine, rfl, rfl⟩ }

theorem Working.dialNext (working : Working known round machine app) {now : UInt64} {device : Dialable}
    {rest : List Dialable} (offered : Offered round now machine device)
    (others : ∀ entry ∈ rest, Offered round now machine entry) :
    Working known round machine (app.dialNext now device rest) := by
  have skip : Working known round machine { app with phase := .dialing now rest } := working.enter others
  unfold NetApp.dialNext
  cases key : device.psk with
  | none => exact skip
  | some psk =>
      dsimp only
      split
      · exact skip
      · split
        · exact skip
        · rename_i due
          have distance : ∀ last, app.lastDial.find? device.id = some last → 3000 ≤ now - last :=
            fun last found => UInt64.not_lt.mp fun recent => due (by rw [found]; simpa using recent)
          exact
            { named := working.named
              settled := working.settled
              begun := working.begun
              copies := ⟨⟨offered, key⟩, others⟩
              remembers := working.remembers.insert device.id now
              spaced := working.remembers.spaced working.spaced distance
              queue := working.queue
              genuine := working.genuine }

omit [Transport σ] in
theorem Offered.genuine {now : UInt64} {entry : Dialable} {psk : Psk}
    (offered : Offered round now machine entry)
    (begun : ∀ now devices keys, round now devices keys → known devices keys)
    (key : entry.psk = some psk) {link : SecureLink aead σ}
    (fresh : link.peerId = entry.id ∧ link.Fresh (KeyStore.setPsk ⟨∅⟩ entry.id psk) machine) :
    Genuine known machine link := by
  obtain ⟨devices, keys, starts, device, _, rfl, other, _⟩ := offered
  have shown := begun now devices keys starts
  obtain ⟨named, raw, sealed, found, built⟩ := fresh
  have stored : keys.getPsk device.id = some psk := key
  have same : (KeyStore.setPsk ⟨∅⟩ device.id psk).getPsk device.id = some psk :=
    OrdMap.find?_insert_self _ _ _
  rw [named] at found
  have own : psk = sealed := Option.some.inj (same.symm.trans found)
  refine ⟨fun us => other (named.symm.trans us), devices, keys, shown, raw, psk, ?_, own ▸ built⟩
  rw [named]
  exact stored

theorem handshake_self (handshake : InboundHandshake aead σ) (keys : KeyStore) :
    (handshake.poll keys).self = handshake.self := by
  unfold InboundHandshake.poll InboundHandshake.fail
  repeat' first | rfl | split

theorem Working.pollHandshake (working : Working known round machine app)
    {handshake : InboundHandshake aead σ} {keys : KeyStore} {devices : List PairedDevice}
    (pending : handshake.status = .needMore) (own : handshake.self = machine)
    (shown : known devices keys) (inboundIp : Bytes) (polls : Nat) :
    Working known round machine (app.pollHandshake handshake keys inboundIp polls) := by
  cases polls with
  | zero => exact working.enter trivial
  | succ polls =>
      unfold NetApp.pollHandshake
      dsimp only
      have polled := @InboundHandshake.poll_fresh aead σ _ handshake keys pending
      have kept : (handshake.poll keys).self = handshake.self := handshake_self handshake keys
      split
      · rename_i waits
        exact working.enter ⟨waits, kept.trans own, devices, shown⟩
      · rename_i ok
        obtain ⟨link, taken, fresh, _, other⟩ := polled ok
        rw [taken]
        exact { working with
          copies := ⟨own ▸ other, devices, keys, shown, own ▸ fresh⟩ }
      · exact working.enter trivial
      · exact working.enter trivial

theorem Working.netStep (working : Working known round machine app)
    (shown : known app.tray.devices app.keys) (input : NetInput σ)
    (starts : app.phase = .top → round input.now app.tray.devices app.keys) :
    Working known round machine (app.netStep input) := by
  have copies := working.copies
  unfold NetApp.netStep
  cases phase : app.phase with
  | top =>
      have offered := offered_toDial (starts phase)
      rw [working.named] at offered
      exact working.enter offered
  | dialing now toDial =>
      rw [phase] at copies
      cases toDial with
      | nil => exact working.enter trivial
      | cons device rest =>
          exact working.dialNext (copies device List.mem_cons_self)
            fun entry member => copies entry (List.mem_cons_of_mem _ member)
  | connecting now device psk rest =>
      rw [phase] at copies
      cases input.raw with
      | none => exact working.enter copies.2
      | some raw => exact { working with copies := copies }
  | sealing now device psk raw rest =>
      rw [phase] at copies
      have next : Working known round machine { app with phase := .dialing now rest } :=
        working.enter copies.2
      dsimp only
      split
      · rename_i link sealed
        rw [working.named] at sealed
        exact next.hand (copies.1.1.genuine working.begun copies.1.2 (secureOutbound_fresh sealed)) true
      · exact next
  | accepting =>
      cases input.raw with
      | none => exact working.enter trivial
      | some raw => exact working.enter ⟨rfl, working.named, _, shown⟩
  | handshaking handshake keys inboundIp polls =>
      rw [phase] at copies
      obtain ⟨pending, own, devices, seen⟩ := copies
      exact @Working.pollHandshake aead σ known round machine app _ working
        { handshake with raw := handshake.raw.map input.meanwhile } keys devices pending own seen
        inboundIp polls
  | handing link =>
      rw [phase] at copies
      have rested : Working known round machine { app with phase := .top } := working.enter trivial
      exact rested.hand copies false

variable (library : CLibrary)

theorem dispatch_pendingLinks {tray : Tray (EncryptedTransport aead σ)} (settled : tray.Settled False)
    {message : TrayMessage (EncryptedTransport aead σ)} (other : ∀ link, message ≠ .handLink link) :
    (tray.dispatch library message).pendingLinks = if message.pumps then [] else tray.pendingLinks := by
  cases message <;> rw [Tray.dispatch] <;>
    simp only [TrayMessage.pumps, Bool.false_eq_true, if_false, if_true]
  case key stroke => exact (Tray.onKey_untouched tray stroke).pendingLinks
  case mouse stroke => exact (Tray.onMouse_untouched tray stroke).pendingLinks
  case device index =>
    unfold Tray.onDevice
    split
    · rfl
    · split
      · exact (Tray.stopDriving_untouched tray).pendingLinks
      · exact (Tray.controlPeer_untouched library tray _).elim fun _ kept => kept.pendingLinks
  case picked sel =>
    split
    · rfl
    · exact (Tray.controlPeer_untouched library tray sel).elim fun _ kept => kept.pendingLinks
  case escape =>
    split
    · exact (Tray.stopDriving_untouched tray).pendingLinks
    · rfl
  case pump => exact (Tray.pumpMesh_untouched settled).pendingLinks
  case timer => exact Tray.onTimer_pendingLinks library settled
  case clipboard files text => exact (Tray.onClipboard_untouched tray files text).pendingLinks
  case handLink link => exact absurd rfl (other link)
  case disturb address transport => rfl

theorem Working.uiStep (working : Working known round machine app)
    (turn : TrayTurn (EncryptedTransport aead σ)) :
    Working known round machine (app.uiStep library turn) := by
  unfold NetApp.uiStep
  split
  · exact working
  · rename_i other
    have current : Tray.Settled False
        { app.tray with tick := turn.tick, hooked := turn.hooked, screen := turn.screen } :=
      { working.settled with hooked := False.elim, installs := fun never _ => never.elim }
    obtain ⟨stepped, registers⟩ := @trayStep_follows (EncryptedTransport aead σ) _ False (fun _ => True)
      library turn app.tray working.settled ⟨False.elim, trivial⟩
    have queue : (trayStep library turn app.tray).pendingLinks =
        if turn.message.pumps then [] else app.tray.pendingLinks :=
      dispatch_pendingLinks library current other
    obtain ⟨given, manages, handed⟩ := working.queue
    exact
      { named := working.named
        settled := stepped
        begun := working.begun
        copies := working.copies
        remembers := working.remembers
        spaced := working.spaced
        queue := by
          have both := manages.trans registers
          rw [← List.map_append] at both
          refine ⟨_, both, ?_⟩
          dsimp only
          rw [queue, handed]
          split <;> simp only [List.append_nil]
        genuine := working.genuine }

theorem Working.step (working : Working known round machine app)
    (shown : known app.tray.devices app.keys) (action : NetAction aead σ)
    (starts : ∀ input, action = .net input → app.phase = .top →
      round input.now app.tray.devices app.keys) :
    Working known round machine (NetApp.step library action app) := by
  cases action with
  | net input => exact working.netStep shown input (starts input rfl)
  | ui turn => exact working.uiStep library turn
  | store keys devices =>
      exact { working with settled := { working.settled with } }

/-- With this step the thread begins a round. -/
def Opens (app : NetApp aead σ) (action : NetAction aead σ) : Round := fun now devices keys =>
  ∃ input, action = .net input ∧ input.now = now ∧ app.phase = .top ∧ app.tray.devices = devices ∧
    app.keys = keys

theorem dialNext_dials (working : Working known round machine app) (now : UInt64) {device : Dialable}
    (rest : List Dialable) :
    (app.dialNext now device rest).dials = app.dials ∨
      ∃ psk, device.psk = some psk ∧ app.tray.cm.isConnected device.id = false ∧
        (app.dialNext now device rest).dials =
          ⟨device.id, device.host, device.port, psk, now⟩ :: app.dials := by
  unfold NetApp.dialNext
  cases key : device.psk with
  | none => exact .inl rfl
  | some psk =>
      dsimp only
      split
      · exact .inl rfl
      · split
        · exact .inl rfl
        · rename_i free _
          refine .inr ⟨psk, rfl, Bool.eq_false_of_not_eq_true fun connected => free ?_, rfl⟩
          exact (working.settled.ids device.id).mpr connected

theorem pollHandshake_dials (handshake : InboundHandshake aead σ) (keys : KeyStore)
    (inboundIp : Bytes) (polls : Nat) :
    (app.pollHandshake handshake keys inboundIp polls).dials = app.dials := by
  cases polls with
  | zero => rfl
  | succ polls =>
      unfold NetApp.pollHandshake
      dsimp only
      split
      · rfl
      · split <;> rfl
      · rfl
      · rfl

/-- The only step that dials, and what it has looked at. -/
theorem step_dials (working : Working known round machine app) (action : NetAction aead σ) :
    (NetApp.step library action app).dials = app.dials ∨
      ∃ now device psk, Offered round now machine device ∧ device.psk = some psk ∧
        app.tray.cm.isConnected device.id = false ∧
        (NetApp.step library action app).dials =
          ⟨device.id, device.host, device.port, psk, now⟩ :: app.dials := by
  have copies := working.copies
  cases action with
  | store keys devices => exact .inl rfl
  | ui turn =>
      left
      rw [NetApp.step, NetApp.uiStep]
      split <;> rfl
  | net input =>
      rw [NetApp.step]
      unfold NetApp.netStep
      cases phase : app.phase with
      | top => exact .inl rfl
      | accepting => cases input.raw <;> exact .inl rfl
      | connecting now device psk rest => cases input.raw <;> exact .inl rfl
      | handing link => exact .inl rfl
      | handshaking handshake keys inboundIp polls => exact .inl (pollHandshake_dials _ _ _ _)
      | sealing now device psk raw rest =>
          left
          dsimp only
          split <;> rfl
      | dialing now toDial =>
          rw [phase] at copies
          cases toDial with
          | nil => exact .inl rfl
          | cons device rest =>
              refine (dialNext_dials working now rest).imp_right fun ⟨psk, key, free, dialed⟩ => ?_
              exact ⟨now, device, psk, copies device List.mem_cons_self, key, free, dialed⟩

end NetApp

variable {aead : Aead} {σ : Type} [Transport σ] (library : CLibrary) (self : PeerId)
  (priority : List PeerId) (devices : List PairedDevice) (keys : KeyStore) (modifiers : UInt32)
  (key : UInt16) (actions : List (NetAction aead σ))

def netAfter : NetApp aead σ :=
  exec (NetApp.step library) (.init self priority devices keys modifiers key) actions

/-- Devices and keys as they stood together at some moment of the run. -/
def shownIn (shown : List PairedDevice) (store : KeyStore) : Prop :=
  ∃ earlier, earlier <+: actions ∧
    (netAfter library self priority devices keys modifiers key earlier).tray.devices = shown ∧
    (netAfter library self priority devices keys modifiers key earlier).keys = store

/-- The round that the network thread is in began behind `earlier`, with this step. -/
def InRound (earlier : List (NetAction aead σ)) (input : NetInput σ)
    (actions : List (NetAction aead σ)) : Prop :=
  (netAfter library self priority devices keys modifiers key earlier).phase = .top ∧
    ∃ later, actions = earlier ++ .net input :: later ∧ ∀ between, between <+: later →
      (netAfter library self priority devices keys modifiers key
        (earlier ++ .net input :: between)).phase ≠ .top

def roundIn (now : UInt64) (shown : List PairedDevice) (store : KeyStore) : Prop :=
  ∃ earlier input, InRound library self priority devices keys modifiers key earlier input actions ∧
    input.now = now ∧
    (netAfter library self priority devices keys modifiers key earlier).tray.devices = shown ∧
    (netAfter library self priority devices keys modifiers key earlier).keys = store

theorem shownIn_of_roundIn {now : UInt64} {shown : List PairedDevice} {store : KeyStore}
    (begun : roundIn library self priority devices keys modifiers key actions now shown store) :
    shownIn library self priority devices keys modifiers key actions shown store := by
  obtain ⟨earlier, input, ⟨_, later, rfl, _⟩, _, seen⟩ := begun
  exact ⟨earlier, List.prefix_append _ _, seen⟩

theorem netAfter_concat (last : NetAction aead σ) :
    netAfter library self priority devices keys modifiers key (actions ++ [last]) =
      NetApp.step library last (netAfter library self priority devices keys modifiers key actions) :=
  exec_concat _ _ _ _

theorem InRound.concat {earlier : List (NetAction aead σ)} {input : NetInput σ}
    (going : InRound library self priority devices keys modifiers key earlier input actions)
    {last : NetAction aead σ}
    (below : (netAfter library self priority devices keys modifiers key (actions ++ [last])).phase ≠ .top) :
    InRound library self priority devices keys modifiers key earlier input (actions ++ [last]) := by
  obtain ⟨top, later, rfl, inside⟩ := going
  refine ⟨top, later ++ [last], by rw [List.append_assoc, List.cons_append], fun between front => ?_⟩
  rcases List.prefix_concat_iff.mp front with rfl | shorter
  · rwa [List.append_assoc, List.cons_append] at below
  · exact inside between shorter

theorem InRound.start {input : NetInput σ}
    (top : (netAfter library self priority devices keys modifiers key actions).phase = .top)
    (below : (netAfter library self priority devices keys modifiers key
      (actions ++ [.net input])).phase ≠ .top) :
    InRound library self priority devices keys modifiers key actions input (actions ++ [.net input]) := by
  refine ⟨top, [], rfl, fun between front => ?_⟩
  rw [List.prefix_nil.mp front]
  exact below

theorem netAfter_working :
    NetApp.Working (shownIn library self priority devices keys modifiers key actions)
      (roundIn library self priority devices keys modifiers key actions) self
      (netAfter library self priority devices keys modifiers key actions) := by
  induction actions using List.reverseRecOn with
  | nil =>
      have prepared : NetApp.Given self []
          (Tray.init (EncryptedTransport aead σ) self priority devices modifiers key).cm :=
        Tray.Steps.timeless (ConnectionTable.init _ self) (.call (.setPriority priority)) rfl rfl
      exact
        { named := rfl
          settled := init_settled self priority devices modifiers key
          begun := fun _ _ _ begun => shownIn_of_roundIn _ _ _ _ _ _ _ _ begun
          copies := trivial
          remembers := .init
          spaced := trivial
          queue := ⟨[], prepared, rfl⟩
          genuine := fun _ member => absurd member List.not_mem_nil }
  | append_singleton actions last ih =>
      have before : shownIn library self priority devices keys modifiers key actions
          (netAfter library self priority devices keys modifiers key actions).tray.devices
          (netAfter library self priority devices keys modifiers key actions).keys :=
        ⟨actions, List.prefix_refl _, rfl, rfl⟩
      -- a round that the step may begin counts as begun for the step
      have ready : NetApp.Working (shownIn library self priority devices keys modifiers key actions)
          (fun now shown store => roundIn library self priority devices keys modifiers key actions
              now shown store ∨
            (netAfter library self priority devices keys modifiers key actions).Opens last now shown store)
          self (netAfter library self priority devices keys modifiers key actions) :=
        ih.mono (fun _ _ shown => shown) (fun _ _ _ _ begun => .inl begun)
          fun _ _ _ begun => begun.elim (shownIn_of_roundIn _ _ _ _ _ _ _ _)
            fun ⟨_, _, _, _, listed, stored⟩ => listed ▸ stored ▸ before
      have stepped := ready.step library before last
        fun input net top => .inr ⟨input, net, rfl, top, rfl, rfl⟩
      rw [← netAfter_concat] at stepped
      refine stepped.mono ?_ ?_ fun _ _ _ begun => shownIn_of_roundIn _ _ _ _ _ _ _ _ begun
      · exact fun _ _ ⟨earlier, within, shown⟩ =>
          ⟨earlier, within.trans (List.prefix_append _ _), shown⟩
      · rintro below now shown store (⟨earlier, input, going, seen⟩ | ⟨input, rfl, same, top, seen⟩)
        · exact ⟨earlier, input, going.concat _ _ _ _ _ _ _ _ below, seen⟩
        · exact ⟨actions, input, .start _ _ _ _ _ _ _ _ top below, same, seen⟩

/-- Every link that the network thread seals is handed over once and in order: the calls
by which the manager has been used give it exactly these links in this order, but for
those that are still in the queue. And it is sealed with the key that was stored for its
peer when the thread looked. -/
theorem links_handed_over (actions : List (NetAction aead σ)) :
    let app := netAfter library self priority devices keys modifiers key actions
    (∃ managerActions given,
      app.tray.cm = exec (ConnectionTable.tableStep .releaseHeld) (.init _ self) managerActions ∧
        managerActions.filterMap Tray.addition = given.map Tray.addingCall ∧
        app.handed = given ++ app.tray.pendingLinks) ∧
      ∀ handed ∈ app.handed, handed.peerId ≠ self ∧
        ∃ earlier raw psk, earlier <+: actions ∧
          (netAfter library self priority devices keys modifiers key earlier).keys.getPsk
              handed.peerId = some psk ∧
            handed.transport = some (.create raw psk (linkRoleFor self handed.peerId)) := by
  intro app
  have working := netAfter_working library self priority devices keys modifiers key actions
  obtain ⟨given, ⟨managerActions, _, added, manages⟩, handed⟩ := working.queue
  refine ⟨⟨managerActions, given, manages, added, handed⟩, fun handed member => ?_⟩
  obtain ⟨link, ⟨other, _, _, ⟨earlier, within, _, rfl⟩, raw, psk, stored, built⟩, peer, transport⟩ :=
    working.genuine handed member
  rw [peer, transport, built]
  exact ⟨other, earlier, raw, psk, within, stored, rfl⟩

/-- A dial goes to a paired device other than this machine that the connection
manager has no link to, at the address, the port and with the key that were
stored for it together when the round began. It bears the time at which the round began,
and by these times at least three seconds lie between two dials of one device. -/
theorem dials_are_due (action : NetAction aead σ) :
    let app := netAfter library self priority devices keys modifiers key actions
    let after := netAfter library self priority devices keys modifiers key (actions ++ [action])
    Spaced 3000 (after.dials.map fun dial => (dial.id, dial.now)) ∧
      (after.dials = app.dials ∨
        ∃ dial, after.dials = dial :: app.dials ∧ app.tray.cm.isConnected dial.id = false ∧
          dial.id ≠ self ∧ dial.host ≠ [] ∧
          ∃ earlier input,
            InRound library self priority devices keys modifiers key earlier input actions ∧
            dial.now = input.now ∧
            let start := netAfter library self priority devices keys modifiers key earlier
            start.keys.getPsk dial.id = some dial.psk ∧
              ∃ device ∈ start.tray.devices, device.id = dial.id ∧ device.lastIp = dial.host ∧
                dial.port = if device.port ≠ 0 then device.port else kMeshPort) := by
  intro app after
  have working := netAfter_working library self priority devices keys modifiers key actions
  refine ⟨(netAfter_working library self priority devices keys modifiers key
    (actions ++ [action])).spaced, ?_⟩
  have step : after = NetApp.step library action app := netAfter_concat _ _ _ _ _ _ _ _ _
  rw [step]
  refine (NetApp.step_dials library working action).imp_right ?_
  intro ⟨now, entry, psk, offered, key, free, dialed⟩
  obtain ⟨_, _, ⟨earlier, input, going, same, rfl, rfl⟩, device, listed, rfl, other, address⟩ := offered
  exact ⟨_, dialed, free, other, address, earlier, input, going, same.symm, key, device, listed, rfl,
    rfl, rfl⟩

/-- A peer that is offline is not hammered: by the times at which the rounds began, and
while these do not run backwards, a stretch of time has room for one dial more than it
has windows of three seconds. -/
theorem redials_bounded (id : PeerId) (start stop : UInt64)
    (inOrder : InOrder ((netAfter library self priority devices keys modifiers key
      actions).dials.map fun dial => (dial.id, dial.now))) :
    passesWithin id start stop ((netAfter library self priority devices keys modifiers key
        actions).dials.map fun dial => (dial.id, dial.now)) * 3000 ≤
      (stop.toNat - start.toNat) + 3000 :=
  (netAfter_working library self priority devices keys modifiers key
    actions).spaced.passesWithin_le inOrder id start stop

/-- Rounds that begin at these times, and no answer to anything. -/
def unanswered (times : List UInt64) : List (NetAction tagAead Wire) :=
  times.flatMap fun now => List.replicate 6 (.net ⟨now, none, [], id⟩)

def lonely : NetApp tagAead Wire :=
  netAfter ⟨fun _ _ => 0, true⟩ [1] [] [⟨[2], [], [7], 0, [], false, []⟩]
    (KeyStore.setPsk ⟨∅⟩ [2] ⟨List.replicate 32 0, rfl⟩) 0 0 (unanswered [5000, 7000, 9000])

theorem lonely_dials :
    (lonely.dials.map fun dial => (dial.id, dial.now)) = [([2], 9000), ([2], 5000)] := by
  decide +kernel

theorem inOrder_twice : InOrder [(([2] : PeerId), (9000 : UInt64)), ([2], 5000)] := by
  refine ⟨fun pass member => ?_, fun pass member => absurd member List.not_mem_nil, trivial⟩
  rw [List.mem_singleton.mp member]
  decide

/-- A device that does not answer is dialed at five seconds and again at nine. -/
theorem redialed_after_four_seconds :
    (lonely.dials.map fun dial => (dial.id, dial.now)) = [([2], 9000), ([2], 5000)] ∧
      passesWithin [2] 5000 9000 (lonely.dials.map fun dial => (dial.id, dial.now)) * 3000 ≤
        (UInt64.toNat 9000 - UInt64.toNat 5000) + 3000 := by
  have inOrder : InOrder (lonely.dials.map fun dial => (dial.id, dial.now)) := by
    rw [lonely_dials]
    exact inOrder_twice
  refine ⟨lonely_dials, ?_⟩
  delta lonely at inOrder ⊢
  have bounded := redials_bounded ⟨fun _ _ => 0, true⟩ [1] [] [⟨[2], [], [7], 0, [], false, []⟩]
    (KeyStore.setPsk ⟨∅⟩ [2] ⟨List.replicate 32 0, rfl⟩) 0 0 (unanswered [5000, 7000, 9000]) [2] 5000
    9000
  exact bounded inOrder

end Skittermouse.Platform

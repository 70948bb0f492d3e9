import Skittermouse.Mesh.Network

namespace Skittermouse.Mesh

open Skittermouse.Data Skittermouse.Core Skittermouse.Net Skittermouse.App

/-! What a call can do to one machine of the mesh.

Every call is a sequence of a few kinds of change: notes, the clock, messages
sent, and messages taken out of an inbox and handled. `CallRules` asks for one
fact about each kind, and `perform_rules` carries it through the loops.
-/

/-- What the receive loop sees of a message that is longer than its buffer. -/
def seen (message : Bytes) : Bytes := message.take Host.kPollBufferSize

theorem decodeMessage_type {data : Bytes} {message : DecodedMessage} {consumed : Nat}
    (decoded : decodeMessage data = .ok message consumed) : data[1]? = some message.type.code := by
  unfold decodeMessage at decoded
  split at decoded
  · rename_i version rawType body
    split at decoded
    · contradiction
    · split at decoded
      · contradiction
      · rename_i type known
        have code := knownType?_eq_some known
        split at decoded
        · split at decoded
          · contradiction
          · cases decoded
            exact congrArg some code
        · split at decoded
          · contradiction
          · split at decoded
            · contradiction
            · split at decoded
              · contradiction
              · cases decoded
                exact congrArg some code
  · contradiction

theorem readClaim_type {data : Bytes} {claim : OwnershipClaim} (read : readClaim data = some claim) :
    data[1]? = some MessageType.switchOwner.code := by
  unfold readClaim at read
  split at read
  · rename_i message consumed decoded
    split at read
    · rename_i switch
      rw [decodeMessage_type decoded, switch.2]
    · contradiction
  · contradiction

theorem readInput_type {data : Bytes} {event : InputEvent} (read : readInput data = some event) :
    ∃ type ∈ [MessageType.mouseMove, .mouseButton, .keyEvent], data[1]? = some type.code := by
  unfold readInput at read
  split at read
  · rename_i message consumed decoded
    split at read
    · rename_i input
      exact ⟨message.type, input.2, decodeMessage_type decoded⟩
    · contradiction
  · contradiction

theorem seen_type (message : Bytes) : (seen message)[1]? = message[1]? := by
  simp [seen, Host.kPollBufferSize]

/-- A message that neither moves ownership nor is injected anywhere. -/
def Inert (message : Bytes) : Prop :=
  readClaim (seen message) = none ∧ readInput (seen message) = none

theorem inert_of_type (type : MessageType) {message : Bytes}
    (code : message[1]? = some type.code)
    (other : type ∉ [MessageType.switchOwner, .mouseMove, .mouseButton, .keyEvent]) :
    Inert message := by
  have seenCode : (seen message)[1]? = some type.code := (seen_type message).trans code
  refine ⟨?_, ?_⟩
  · cases read : readClaim (seen message) with
    | none => rfl
    | some claim =>
        have same := readClaim_type read
        rw [seenCode] at same
        cases type <;> simp [MessageType.code] at same other
  · cases read : readInput (seen message) with
    | none => rfl
    | some event =>
        obtain ⟨input, member, same⟩ := readInput_type read
        rw [seenCode] at same
        simp only [List.mem_cons, List.not_mem_nil, or_false] at member
        rcases member with rfl | rfl | rfl <;>
          cases type <;> simp [MessageType.code] at same other

theorem inert_heartbeat (now : UInt64) :
    Inert (encodeInputEvent (Host.heartbeatEvent now)) :=
  inert_of_type .heartbeat rfl (by decide)

theorem inert_clipboard (text : Bytes) : Inert (encodeVarMessage .clipboardUpdate text) :=
  inert_of_type .clipboardUpdate rfl (by decide)

theorem inert_announce (payload : Bytes) : Inert (encodeVarMessage .filePromiseAnnounce payload) :=
  inert_of_type .filePromiseAnnounce rfl (by decide)

variable {members : Set PeerId} {id sender : PeerId} {hook : OwnerHook}
variable {host before after : Machine}

theorem SameLinks.noted (noted : before.Noted after) : SameLinks before after := by
  obtain ⟨_, _, _, _, node⟩ := noted.node
  exact ⟨by rw [node], by rw [node], by rw [node], fun _ => by rw [noted.heap]⟩

theorem SameLinks.sends (hook : OwnerHook) (host : Machine) {call : MeshCall}
    (sends : call.onlySends = true) : SameLinks host (host.perform hook call) := by
  obtain ⟨_, _, _, _, messages, same⟩ := Host.perform_sends hook host sends
  rw [same]
  refine SameLinks.trans ?_ (foldl_broadcast_sameLinks messages _)
  exact ⟨rfl, rfl, rfl, fun _ => rfl⟩

theorem SameLinks.releaseHeldKeys (host : Machine) (ts : UInt32) :
    SameLinks host (host.releaseHeldKeys ts) :=
  .sends .silent host (rfl : MeshCall.onlySends (.releaseHeldKeys ts) = true)

theorem SameLinks.onOwnerChanged (host : Machine) (owner : PeerId) :
    SameLinks host (host.onOwnerChanged hook owner) := by
  have told : SameLinks host (host.emit (.ownerChanged owner)) := ⟨rfl, rfl, rfl, fun _ => rfl⟩
  cases hook with
  | silent => exact told
  | releaseHeld =>
      simp only [Host.onOwnerChanged]
      split
      · exact told
      · exact told.trans (.releaseHeldKeys _ _)

theorem SameLinks.applyClaim (host : Machine) (claim : OwnershipClaim) :
    SameLinks host (host.applyClaim claim) :=
  ⟨rfl, OwnershipState.applyClaim_self, rfl, fun _ => rfl⟩

theorem SameLinks.handleClaim (host : Machine) (claim : OwnershipClaim) :
    SameLinks host (host.handleClaim hook claim) := by
  unfold Host.handleClaim
  dsimp only
  split
  · exact (SameLinks.applyClaim host claim).trans (.onOwnerChanged _ _)
  · exact .applyClaim host claim

theorem SameLinks.failSafe (host : Machine) (now : UInt64) :
    SameLinks host (host.failSafe hook now) := by
  unfold Host.failSafe
  split
  · have issued : SameLinks host (host.issueClaim host.node.self).2 := .applyClaim host _
    have reverted : SameLinks (host.issueClaim host.node.self).2
        ((host.issueClaim host.node.self).2.emit .reverted) := ⟨rfl, rfl, rfl, fun _ => rfl⟩
    exact (issued.trans reverted).trans (.onOwnerChanged _ _)
  · exact .refl host

theorem SameLinks.requestSwitchTo (host : Machine) (target : PeerId) :
    SameLinks host (host.requestSwitchTo hook target) := by
  unfold Host.requestSwitchTo
  split
  · exact ⟨rfl, rfl, rfl, fun _ => rfl⟩
  · have issued : SameLinks host (host.issueClaim target).2 := .applyClaim host _
    dsimp only
    split
    · exact (issued.trans (broadcast_sameLinks _ _)).trans (.onOwnerChanged _ _)
    · exact issued.trans (broadcast_sameLinks _ _)

theorem SameLinks.handle (host : Machine) (data : Bytes) (now : UInt64) :
    SameLinks host (host.handle hook sender data now) := by
  have heard : SameLinks host (host.hear sender data now) := ⟨rfl, rfl, rfl, fun _ => rfl⟩
  have outcome := Host.handle_outcome hook host sender data now
  generalize host.handle hook sender data now = after at outcome ⊢
  cases outcome with
  | noted input claim noted => exact heard.trans (.noted noted)
  | injected input claim sink => exact heard.trans ⟨rfl, rfl, rfl, fun _ => rfl⟩
  | ignored input claim owner => exact heard.trans ⟨rfl, rfl, rfl, fun _ => rfl⟩
  | claimed input found => exact heard.trans (.handleClaim _ _)

structure CallRules (members : Set PeerId) (id : PeerId) (hook : OwnerHook)
    (P : Machine → Prop) : Prop where
  noted : ∀ {before after : Machine}, before.Noted after → P before → P after
  clocked : ∀ {host : Machine} now sent, P host →
    P { host with node.now := now, node.lastHeartbeatSent := sent }
  sent : ∀ {host : Machine} {message}, Linked members id host → Inert message → P host →
    P (host.broadcast message)
  moved : ∀ {host : Machine} dx dy ts, Linked members id host → P host →
    P (host.forwardMouseMove dx dy ts)
  clicked : ∀ {host : Machine} button down ts, Linked members id host → P host →
    P (host.forwardMouseButton button down ts)
  typed : ∀ {host : Machine} code down ts, Linked members id host → P host →
    P (host.forwardKey code down ts)
  released : ∀ {host : Machine} ts, Linked members id host → P host →
    P (host.releaseHeldKeys ts)
  skipped : ∀ {host : Machine} {sender message rest}, Linked members id host →
    host.inboxFrom sender = message :: rest → seen message = [] → P host → P (host.pop sender)
  received : ∀ {host : Machine} {sender message rest} now, Linked members id host →
    host.inboxFrom sender = message :: rest → P host →
    P ((host.pop sender).handle hook sender (seen message) now)
  reverted : ∀ {host : Machine} now, Linked members id host → P host → P (host.failSafe hook now)

variable {P : Machine → Prop}

/-- A round of the receive loop ends with the inbox as it was, skips an empty
message, or handles the next one. -/
theorem drain_rules (rules : CallRules members id hook P) (linked : Linked members id host)
    (start : P host) (now : UInt64) (fuel : Nat) :
    Linked members id (host.drain hook sender sender now fuel) ∧
      P (host.drain hook sender sender now fuel) := by
  have wired : ∀ (host : Machine) wire, Linked members id host →
      host.heap.find? sender = some wire → wire.connected = true := by
    intro host wire linked found
    by_cases inside : sender ∈ members ∧ sender ≠ id
    · obtain ⟨other, otherFound, connected⟩ := linked.wires sender inside.1 inside.2
      rw [found] at otherFound
      cases otherFound
      exact connected
    · rw [not_and_or, not_not] at inside
      rw [linked.absent sender inside] at found
      contradiction
  have popped : ∀ (host : Machine) wire message rest, host.heap.find? sender = some wire →
      wire.inbox = message :: rest →
      { host with heap := host.heap.insert sender { wire with inbox := rest } } =
        host.pop sender := by
    intro host wire message rest found inbox
    rw [Host.pop, Host.onWire, OrdMap.modify_eq_insert _ found, inbox, List.tail_cons]
  have inbox : ∀ (host : Machine) wire, host.heap.find? sender = some wire →
      host.inboxFrom sender = wire.inbox := by
    intro host wire found
    rw [Host.inboxFrom, found]
  have motive := @Host.drain_preserves PeerId Wire _ _ hook sender sender now
    (fun host => Linked members id host ∧ P host)
  refine motive ?_ ?_ fuel ⟨linked, start⟩
  · rintro host wire found nothing ⟨linked, holds⟩
    have connected := wired host wire linked found
    cases box : wire.inbox with
    | nil =>
        rw [Wire.recv_nil _ connected box, OrdMap.insert_find? found]
        exact ⟨linked, holds⟩
    | cons message rest =>
        rw [Wire.recv_cons _ connected box] at nothing ⊢
        rw [popped host wire message rest found box]
        refine ⟨linked.same (.pop host sender), rules.skipped linked ((inbox host wire found).trans box)
          ?_ holds⟩
        rcases nothing with failed | empty
        · contradiction
        · exact Option.some.inj empty
  · rintro host wire data found received nonempty ⟨linked, holds⟩
    have connected := wired host wire linked found
    cases box : wire.inbox with
    | nil =>
        rw [Wire.recv_nil _ connected box] at received
        exact absurd (Option.some.inj received).symm nonempty
    | cons message rest =>
        rw [Wire.recv_cons _ connected box] at received ⊢
        rw [popped host wire message rest found box, ← Option.some.inj received]
        exact ⟨(linked.same (.pop host sender)).same (.handle _ _ _),
          rules.received now linked ((inbox host wire found).trans box) holds⟩

theorem drains_rules (rules : CallRules members id hook P) (linked : Linked members id host)
    (start : P host) (now : UInt64) {entries : List (PeerId × Option PeerId)}
    (named : ∀ entry ∈ entries, entry.2 = some entry.1) :
    Linked members id (entries.foldl (Host.drainPeer hook now) host) ∧
      P (entries.foldl (Host.drainPeer hook now) host) := by
  induction entries generalizing host with
  | nil => exact ⟨linked, start⟩
  | cons entry rest ih =>
      obtain ⟨peer, pointer⟩ := entry
      have same : pointer = some peer := named _ List.mem_cons_self
      subst same
      obtain ⟨kept, holds⟩ := drain_rules rules linked start now (host.backlog peer + 1)
      exact ih kept holds fun entry member => named entry (List.mem_cons_of_mem _ member)

theorem refresh_rules (rules : CallRules members id hook P) (linked : Linked members id host)
    (start : P host) (now : UInt64) :
    Linked members id (host.refreshOnlineAndFailSafe hook now) ∧
      P (host.refreshOnlineAndFailSafe hook now) := by
  obtain ⟨noted, notes, same⟩ := Host.refreshOnlineAndFailSafe_eq hook host now
  rw [same]
  have notedLinked := linked.same (.noted notes)
  exact ⟨notedLinked.same (.failSafe _ _), rules.reverted now notedLinked (rules.noted notes start)⟩

theorem poll_rules (rules : CallRules members id hook P) (linked : Linked members id host)
    (start : P host) (now : UInt64) :
    Linked members id (host.poll hook now) ∧ P (host.poll hook now) := by
  have timed : Linked members id { host with node.now := now } :=
    linked.same ⟨rfl, rfl, rfl, fun _ => rfl⟩
  obtain ⟨drained, holds⟩ := drains_rules rules timed
    (rules.clocked now host.node.lastHeartbeatSent start) now fun _ => linked.mem_entries
  exact refresh_rules rules drained holds now

/-- Every call keeps the links and whatever obeys the rules. A switch request
is left to the caller, since it is what most of the properties are about. -/
theorem perform_rules (rules : CallRules members id hook P) (linked : Linked members id host)
    (start : P host) (call : MeshCall)
    (request : ∀ target, call = .requestSwitchTo target → P (host.requestSwitchTo hook target)) :
    Linked members id (host.perform hook call) ∧ P (host.perform hook call) := by
  cases call with
  | setPriority priority =>
      have noted : host.Noted (host.setPriority priority) :=
        ⟨⟨_, _, _, _, rfl⟩, rfl, [], rfl, fun _ member => absurd member List.not_mem_nil⟩
      exact ⟨linked.same (.noted noted), rules.noted noted start⟩
  | requestSwitchTo target => exact ⟨linked.same (.requestSwitchTo host target), request target rfl⟩
  | forwardMouseMove dx dy ts =>
      exact ⟨linked.same (.sends hook host rfl), rules.moved dx dy ts linked start⟩
  | forwardMouseButton button down ts =>
      exact ⟨linked.same (.sends hook host rfl), rules.clicked button down ts linked start⟩
  | forwardKey code down ts =>
      exact ⟨linked.same (.sends hook host rfl), rules.typed code down ts linked start⟩
  | releaseHeldKeys ts =>
      exact ⟨linked.same (.sends hook host rfl), rules.released ts linked start⟩
  | clipboardChange text =>
      have noted : host.Noted { host with
          node.clipboard := (host.node.clipboard.shouldBroadcastLocalChange text).2 } :=
        ⟨⟨_, _, _, _, rfl⟩, rfl, [], rfl, fun _ member => absurd member List.not_mem_nil⟩
      have noticed := linked.same (.noted noted)
      have holds := rules.noted noted start
      simp only [Host.perform, Host.onLocalClipboardChange]
      split
      · exact ⟨noticed.same (broadcast_sameLinks _ _),
          rules.sent noticed (inert_clipboard text) holds⟩
      · exact ⟨noticed, holds⟩
  | announceFilePromise files =>
      simp only [Host.perform, Host.announceFilePromise]
      split
      · exact ⟨linked, start⟩
      · exact ⟨linked.same (broadcast_sameLinks _ _), rules.sent linked (inert_announce _) start⟩
  | sendHeartbeats now =>
      have timed : Linked members id { host with node.now := now } :=
        linked.same ⟨rfl, rfl, rfl, fun _ => rfl⟩
      have holds := rules.clocked now host.node.lastHeartbeatSent start
      simp only [Host.perform, Host.sendHeartbeats]
      split
      · exact ⟨timed, holds⟩
      · have sent := timed.same (broadcast_sameLinks _ (encodeInputEvent (Host.heartbeatEvent now)))
        exact ⟨sent.same ⟨rfl, rfl, rfl, fun _ => rfl⟩,
          rules.clocked now now (rules.sent timed (inert_heartbeat now) holds)⟩
  | poll now => exact poll_rules rules linked start now

theorem CallRules.links (members : Set PeerId) (id : PeerId) (hook : OwnerHook) :
    CallRules members id hook fun _ => True := by
  constructor <;> intros <;> trivial

variable {net : Network}

theorem meshed_meshStep (hook : OwnerHook) (action : MeshAction) (meshed : Meshed net) :
    Meshed (meshStep hook action net) := by
  cases action with
  | call machine call =>
      simp only [meshStep]
      cases found : net.find? machine with
      | none =>
          have same : net.modify machine (fun host => host.perform hook call) = net := by
            rw [OrdMap.modify, found]
          rwa [same]
      | some host =>
          rw [OrdMap.modify_eq_insert _ found]
          exact meshed.insert found (perform_rules (.links _ _ _) (meshed machine host found) trivial
            call fun _ _ => trivial).1
  | carry sender receiver =>
      intro id new newFound
      rw [membersOf_meshStep]
      by_cases idle : ∀ host, net.find? sender = some host → host.outboxTo receiver = []
      · rw [meshStep, carry_idle idle] at newFound
        exact meshed id new newFound
      · simp only [not_forall] at idle
        obtain ⟨host, found, waiting⟩ := idle
        obtain ⟨message, rest, queue⟩ := List.exists_cons_of_ne_nil waiting
        obtain ⟨old, oldFound, _, _, same, _⟩ := (carry_spec meshed found queue).2.2 id new newFound
        exact (meshed id old oldFound).same same

theorem meet_linked (linked : Linked members id host) {newcomer : PeerId} (apart : newcomer ≠ id) :
    Linked (insert newcomer members) id (host.meet hook newcomer) := by
  unfold Host.meet
  split
  · have forgotten := linked.forget newcomer
    have refreshed := (refresh_rules (.links _ _ hook) forgotten trivial host.node.now).1
    refine (refreshed.link apart).congr fun other _ => ?_
    by_cases same : other = newcomer <;> simp [same]
  · exact linked.link apart

theorem start_find?_of_ne {machine : PeerId} (apart : id ≠ machine) :
    (start hook machine net).find? id = (net.find? id).map (Host.meet hook machine) := by
  simp only [start, OrdMap.find?_insert_of_ne _ _ apart]
  cases found : net.find? id with
  | none =>
      have absent : id ∉ (net.erase machine).entries.map Prod.fst := fun inside => by
        rw [OrdMap.mem_keys, OrdMap.contains_erase] at inside
        obtain ⟨host, present⟩ := OrdMap.contains_iff.mp inside.2
        rw [found] at present
        contradiction
      rw [OrdMap.find?_foldl_modify_of_notMem _ _ absent, found]
      rfl
  | some host =>
      have member : id ∈ (net.erase machine).entries.map Prod.fst := by
        rw [OrdMap.mem_keys, OrdMap.contains_erase]
        exact ⟨apart, OrdMap.contains_iff.mpr ⟨host, found⟩⟩
      rw [OrdMap.find?_foldl_modify_of_mem _ _ (net.erase machine).keys_nodup member, found]

theorem start_find?_self (hook : OwnerHook) (machine : PeerId) (net : Network) :
    (start hook machine net).find? machine =
      some (((net.erase machine).entries.map Prod.fst).foldl Host.link
        (.init PeerId Wire machine)) := by
  rw [start, OrdMap.find?_insert_self]

theorem membersOf_start (hook : OwnerHook) (machine : PeerId) (net : Network) :
    membersOf (start hook machine net) = insert machine (membersOf net) := by
  ext peer
  simp only [membersOf, Set.mem_insert_iff, Set.mem_ofPred_eq, OrdMap.contains]
  by_cases same : peer = machine
  · subst same
    simp [start_find?_self]
  · simp [start_find?_of_ne same, same]

theorem meshed_start (meshed : Meshed net) (machine : PeerId) :
    Meshed (start hook machine net) := by
  intro id host found
  rw [membersOf_start]
  by_cases same : id = machine
  · subst same
    rw [start_find?_self, Option.some.injEq] at found
    subst found
    have apart : id ∉ (net.erase id).entries.map Prod.fst := by
      simp [OrdMap.mem_keys, OrdMap.contains_erase]
    refine ((Linked.init id).foldl_link apart).congr fun peer different => ?_
    simp only [Set.mem_insert_iff, different, false_or, Set.empty_union, Set.mem_ofPred_eq,
      OrdMap.mem_keys, OrdMap.contains_erase]
    exact (and_iff_right different).symm
  · rw [start_find?_of_ne same] at found
    obtain ⟨before, beforeFound, rfl⟩ := Option.map_eq_some_iff.mp found
    exact meet_linked (meshed id before beforeFound) (Ne.symm same)

/-- Whatever happened, every two machines of the mesh have a link. -/
theorem meshed_history (hook : OwnerHook) (history : List HistoryAction) :
    Meshed (exec (historyStep hook) ∅ history) := by
  refine exec_preserves ?_ ?_ history
  · intro action net meshed
    cases action with
    | act action => exact meshed_meshStep hook action meshed
    | start machine => exact meshed_start meshed machine
  · intro id host found
    contradiction

end Skittermouse.Mesh

import Skittermouse.Data.Histories
import Skittermouse.Mesh.FailSafe

namespace Skittermouse.Mesh

open Skittermouse.Data Skittermouse.Core Skittermouse.Net Skittermouse.App

/-! # Presence notifications

The calls that tell the user who is online, over any run of one node. A node's
own trace does not say when a peer was removed, so a watch keeps a log of both.
-/

inductive Remark where
  | event (event : MeshEvent)
  | removed (id : PeerId)
deriving DecidableEq

structure Watch (π τ : Type) [LinearOrder π] where
  host : Host π τ
  log : List Remark

def Remark.call? (id : PeerId) : Remark → Option Bool
  | .event (.peerOnline other) => if other = id then some true else none
  | .event (.peerOffline other) => if other = id then some false else none
  | _ => none

def calls (id : PeerId) (log : List Remark) : List Bool := log.filterMap (Remark.call? id)

def Remark.event? : Remark → Option MeshEvent
  | .event happened => some happened
  | .removed _ => none

def NodeOp.removal {π τ : Type} [LinearOrder π] : NodeOp π τ → List Remark
  | .removePeer id => [.removed id]
  | _ => []

def Watch.init (π τ : Type) [LinearOrder π] (self : PeerId) : Watch π τ := ⟨.init π τ self, []⟩

def watchStep {π τ : Type} [LinearOrder π] [Transport τ] (op : NodeOp π τ) (watch : Watch π τ) :
    Watch π τ :=
  let after := nodeStep op watch.host
  let news := after.trace.take (after.trace.length - watch.host.trace.length)
  ⟨after, news.map .event ++ (op.removal ++ watch.log)⟩

/-- The peer is registered and was heard within the timeout, after it was last
removed. -/
def Watch.Present {π τ : Type} [LinearOrder π] (watch : Watch π τ) (id : PeerId) (now : UInt64) : Prop :=
  watch.host.node.peers.contains id = true ∧
    ∃ seen data, .event (.handled id seen data) ∈ sinceLast (.removed id) watch.log ∧
      seen ≤ now ∧ now - seen < watch.host.node.heartbeatTimeoutMs

/-! ## What the log says about a node -/

structure Told {π : Type} (node : MeshNode π) (log : List Remark) : Prop where
  /-- The last known liveness is what was called last. -/
  online : ∀ id, (node.peerOnline.find? id).getD false = (calls id log).head?.getD false
  alternates : ∀ id, Alternates (calls id log)
  registered : ∀ id, node.peerOnline.contains id = true → node.peers.contains id = true
  warned : ∀ id, .event (.versionMismatch id) ∈ sinceLast (.removed id) log →
    node.versionWarned.contains id = true
  once : ∀ id, OncePerStretch (.removed id) (.event (.versionMismatch id)) log
  heard : ∀ id seen, node.heartbeat.last.find? id = some seen → seen ≤ node.now ∧
    ∃ data, .event (.handled id seen data) ∈ sinceLast (.removed id) log
  latest : ∀ id seen data, .event (.handled id seen data) ∈ sinceLast (.removed id) log →
    ∃ last, node.heartbeat.last.find? id = some last ∧ seen ≤ last

def tellsPresence : MeshEvent → Bool
  | .peerOnline _ | .peerOffline _ | .versionMismatch _ | .handled _ _ _ => true
  | _ => false

variable {π : Type} {node : MeshNode π} {log : List Remark} {id other : PeerId} {event : MeshEvent}

@[simp] theorem calls_nil (id : PeerId) : calls id [] = [] := rfl

@[simp] theorem calls_removed (id other : PeerId) (log : List Remark) :
    calls id (.removed other :: log) = calls id log := rfl

@[simp] theorem calls_online (id other : PeerId) (log : List Remark) :
    calls id (.event (.peerOnline other) :: log) =
      if other = id then true :: calls id log else calls id log := by
  by_cases own : other = id <;> simp [calls, Remark.call?, own]

@[simp] theorem calls_offline (id other : PeerId) (log : List Remark) :
    calls id (.event (.peerOffline other) :: log) =
      if other = id then false :: calls id log else calls id log := by
  by_cases own : other = id <;> simp [calls, Remark.call?, own]

theorem calls_other (quiet : tellsPresence event = false) (id : PeerId) (log : List Remark) :
    calls id (.event event :: log) = calls id log := by
  cases event <;> first | contradiction | rfl

@[simp] theorem sinceLast_event (id : PeerId) (event : MeshEvent) (log : List Remark) :
    sinceLast (.removed id) (.event event :: log) = .event event :: sinceLast (.removed id) log :=
  sinceLast_cons_of_ne (by simp) log

theorem sinceLast_removed_ne (apart : other ≠ id) (log : List Remark) :
    sinceLast (.removed id) (.removed other :: log) = .removed other :: sinceLast (.removed id) log :=
  sinceLast_cons_of_ne (by simpa using apart) log

theorem Told.init (π : Type) (self : PeerId) : Told (.init π self) [] where
  online _ := rfl
  alternates _ := .nil
  registered _ found := by contradiction
  warned _ found := by simp at found
  once _ := .nil
  heard _ _ found := by cases found
  latest _ _ _ found := by simp at found

theorem Told.quiet (told : Told node log) (quiet : tellsPresence event = false) :
    Told node (.event event :: log) where
  online id := by rw [calls_other quiet, told.online]
  alternates id := by
    rw [calls_other quiet]
    exact told.alternates id
  registered := told.registered
  warned id found := told.warned id (by cases event <;> simp_all [tellsPresence])
  once id := (told.once id).cons fun same => by cases event <;> simp_all [tellsPresence]
  heard id seen found := by
    obtain ⟨earlier, data, inside⟩ := told.heard id seen found
    exact ⟨earlier, data, by simp [inside]⟩
  latest id seen data found := told.latest id seen data (by cases event <;> simp_all [tellsPresence])

theorem Told.quiets (told : Told node log) {events : List MeshEvent}
    (quiet : ∀ event ∈ events, tellsPresence event = false) :
    Told node (events.map .event ++ log) := by
  induction events with
  | nil => exact told
  | cons event events ih =>
      have earlier := ih fun other member => quiet other (List.mem_cons_of_mem _ member)
      exact earlier.quiet (quiet event List.mem_cons_self)

theorem Told.note {alive : Bool} (told : Told node log) (registered : node.peers.contains id = true)
    (flips : alive ≠ (node.peerOnline.find? id).getD false) :
    Told { node with peerOnline := node.peerOnline.insert id alive }
      (.event (if alive then .peerOnline id else .peerOffline id) :: log) := by
  have called : ∀ other, calls other (.event (if alive then .peerOnline id else .peerOffline id) :: log) =
      if id = other then alive :: calls other log else calls other log := by
    intro other
    cases alive <;> simp
  refine ⟨fun other => ?_, fun other => ?_, fun other found => ?_, fun other found => ?_,
    fun other => ?_, fun other seen found => ?_, fun other seen data found => ?_⟩
  · by_cases own : id = other
    · subst own
      simp [called]
    · simp [called, own, OrdMap.find?_insert_of_ne _ _ (Ne.symm own), told.online]
  · rw [called]
    split
    · rename_i own
      subst own
      exact (told.alternates id).cons (told.online id ▸ flips)
    · exact told.alternates other
  · rcases (OrdMap.contains_insert _ _ _ _).mp found with rfl | found
    · exact registered
    · exact told.registered other found
  · exact told.warned other (by cases alive <;> simpa using found)
  · exact (told.once other).cons fun same => by cases alive <;> simp at same
  · obtain ⟨earlier, data, inside⟩ := told.heard other seen found
    exact ⟨earlier, data, by simp [inside]⟩
  · exact told.latest other seen data (by cases alive <;> simpa using found)

theorem Told.hear (told : Told node log) (id : PeerId) (data : Bytes) :
    Told { node with heartbeat := node.heartbeat.onHeartbeat id node.now }
      (.event (.handled id node.now data) :: log) where
  online := told.online
  alternates := told.alternates
  registered := told.registered
  warned other found := told.warned other (by simpa using found)
  once other := (told.once other).cons fun same => by simp at same
  heard other seen found := by
    simp only [Heartbeat.onHeartbeat, OrdMap.find?_insert] at found
    split at found
    · rename_i own
      cases found
      exact ⟨UInt64.le_refl _, data, by simp [own]⟩
    · obtain ⟨earlier, old, inside⟩ := told.heard other seen found
      exact ⟨earlier, old, by simp [inside]⟩
  latest other seen old found := by
    simp only [Heartbeat.onHeartbeat, OrdMap.find?_insert]
    by_cases own : other = id
    · refine ⟨node.now, if_pos own, ?_⟩
      simp only [sinceLast_event, List.mem_cons] at found
      rcases found with same | found
      · cases same
        exact UInt64.le_refl _
      · obtain ⟨last, known, newer⟩ := told.latest other seen old found
        exact UInt64.le_trans newer (told.heard other last known).1
    · rw [if_neg own]
      exact told.latest other seen old (by simpa [own] using found)

theorem Told.warn (told : Told node log) (unwarned : node.versionWarned.contains id = false) :
    Told { node with versionWarned := node.versionWarned.insert id () }
      (.event (.versionMismatch id) :: log) where
  online := told.online
  alternates := told.alternates
  registered := told.registered
  warned other found := by
    rw [OrdMap.contains_insert]
    simp only [sinceLast_event, List.mem_cons] at found
    rcases found with same | found
    · cases same
      exact .inl rfl
    · exact .inr (told.warned other found)
  once other := (told.once other).cons fun same inside => by
    cases same
    simp [told.warned id inside] at unwarned
  heard other seen found := by
    obtain ⟨earlier, data, inside⟩ := told.heard other seen found
    exact ⟨earlier, data, by simp [inside]⟩
  latest other seen data found := told.latest other seen data (by simpa using found)

theorem Told.setNow {now : UInt64} (told : Told node log) (onTime : node.now ≤ now) :
    Told { node with now } log where
  online := told.online
  alternates := told.alternates
  registered := told.registered
  warned := told.warned
  once := told.once
  heard other seen found := by
    obtain ⟨earlier, data, inside⟩ := told.heard other seen found
    exact ⟨UInt64.le_trans earlier onTime, data, inside⟩
  latest := told.latest

def farewell (node : MeshNode π) (id : PeerId) : List MeshEvent :=
  if node.peerOnline.find? id = some true then [.peerOffline id] else []

theorem mem_farewell {event : MeshEvent} (member : event ∈ farewell node id) :
    event = .peerOffline id := by
  unfold farewell at member
  split at member <;> simp_all

theorem Told.calls_farewell (told : Told node log) (id other : PeerId) :
    calls other ((farewell node id).map .event ++ .removed id :: log) =
      if other = id ∧ (calls id log).head?.getD false = true then false :: calls other log
      else calls other log := by
  have online := told.online id
  by_cases known : node.peerOnline.find? id = some true
  · rw [known, Option.getD_some] at online
    rw [farewell, if_pos known, ← online]
    by_cases own : id = other
    · simp [own]
    · simp [own, Ne.symm own]
  · have offline : (node.peerOnline.find? id).getD false = false := by
      cases last : node.peerOnline.find? id with
      | none => rfl
      | some alive => simpa [last] using known
    rw [farewell, if_neg known, ← online, offline]
    simp

theorem Told.forget (told : Told node log) (id : PeerId) :
    Told { node with
        peers := node.peers.erase id
        heartbeat := node.heartbeat.forget id
        peerOnline := node.peerOnline.erase id
        versionWarned := node.versionWarned.erase id }
      ((farewell node id).map .event ++ .removed id :: log) := by
  -- Only the peer that is forgotten starts afresh.
  have since : ∀ other entry, (∀ gone, entry ≠ .removed gone) → entry ≠ .event (.peerOffline id) →
      entry ∈ sinceLast (.removed other) ((farewell node id).map .event ++ .removed id :: log) →
      other ≠ id ∧ entry ∈ sinceLast (.removed other) log := by
    intro other entry remark apart found
    rw [sinceLast_append (by simp), List.mem_append] at found
    rcases found with new | old
    · obtain ⟨event, member, rfl⟩ := List.mem_map.mp new
      exact absurd (congrArg Remark.event (mem_farewell member)) apart
    · by_cases own : other = id
      · simp [own] at old
      · rw [sinceLast_removed_ne (Ne.symm own), List.mem_cons] at old
        exact ⟨own, old.resolve_left (remark id)⟩
  refine ⟨fun other => ?_, fun other => ?_, fun other found => ?_, fun other found => ?_,
    fun other => ?_, fun other seen found => ?_, fun other seen data found => ?_⟩
  · rw [told.calls_farewell, OrdMap.find?_erase]
    by_cases own : other = id
    · subst own
      cases last : (calls other log).head?.getD false <;> simp_all
    · simp [own, told.online]
  · rw [told.calls_farewell]
    split
    · rename_i online
      obtain ⟨rfl, online⟩ := online
      exact (told.alternates other).cons (by simp [online])
    · exact told.alternates other
  · rw [OrdMap.contains_erase] at found ⊢
    exact ⟨found.1, told.registered other found.2⟩
  · obtain ⟨apart, found⟩ := since other _ (by simp) (by simp) found
    rw [OrdMap.contains_erase]
    exact ⟨apart, told.warned other found⟩
  · have marked : OncePerStretch (.removed other) (.event (.versionMismatch other))
        (.removed id :: log) := (told.once other).cons fun same => by contradiction
    unfold farewell
    split
    · exact marked.cons fun same => by simp at same
    · exact marked
  · simp only [Heartbeat.forget, OrdMap.find?_erase] at found
    split at found
    · contradiction
    · rename_i apart
      obtain ⟨earlier, data, inside⟩ := told.heard other seen found
      refine ⟨earlier, data, ?_⟩
      rw [sinceLast_append (by simp), sinceLast_removed_ne (Ne.symm apart)]
      exact List.mem_append_right _ (List.mem_cons_of_mem _ inside)
  · obtain ⟨apart, found⟩ := since other _ (by simp) (by simp) found
    simp only [Heartbeat.forget, OrdMap.find?_erase_of_ne _ apart]
    exact told.latest other seen data found

theorem heard_iff (told : Told node log) {now timeout : UInt64} (current : node.now = now) :
    node.heartbeat.isAlive id now timeout = true ↔ ∃ seen data,
      .event (.handled id seen data) ∈ sinceLast (.removed id) log ∧ seen ≤ now ∧
        now - seen < timeout := by
  rw [Heartbeat.isAlive_iff]
  constructor
  · rintro ⟨seen, found, recent⟩
    obtain ⟨earlier, data, inside⟩ := told.heard id seen found
    exact ⟨seen, data, inside, current ▸ earlier, recent⟩
  · rintro ⟨seen, data, inside, earlier, recent⟩
    obtain ⟨last, found, newer⟩ := told.latest id seen data inside
    have past : last ≤ now := current ▸ (told.heard id last found).1
    refine ⟨last, found, ?_⟩
    rw [UInt64.lt_iff_toNat_lt, UInt64.toNat_sub_of_le _ _ past]
    rw [UInt64.lt_iff_toNat_lt, UInt64.toNat_sub_of_le _ _ earlier] at recent
    rw [UInt64.le_iff_toNat_le] at newer
    omega

/-! ## Operations that tell nothing -/

section Hosts

variable {τ : Type} [LinearOrder π] {host before middle after : Host π τ}

/-- What an operation keeps that tells nothing about who is there. -/
structure Untold (before after : Host π τ) : Prop where
  node : ∃ ownership election clipboard pipeline lastHeartbeatSent, after.node =
    { before.node with ownership, election, clipboard, pipeline, lastHeartbeatSent }
  trace : ∃ events, after.trace = events ++ before.trace ∧
    ∀ event ∈ events, tellsPresence event = false

theorem Untold.same (trace : after.trace = before.trace)
    (node : ∃ ownership election clipboard pipeline lastHeartbeatSent, after.node =
      { before.node with ownership, election, clipboard, pipeline, lastHeartbeatSent }) :
    Untold before after := ⟨node, [], trace, by simp⟩

theorem Untold.refl (host : Host π τ) : Untold host host := .same rfl ⟨_, _, _, _, _, rfl⟩

theorem Untold.trans (left : Untold before middle) (right : Untold middle after) :
    Untold before after := by
  obtain ⟨_, _, _, _, _, leftNode⟩ := left.node
  obtain ⟨_, _, _, _, _, rightNode⟩ := right.node
  obtain ⟨first, leftTrace, leftQuiet⟩ := left.trace
  obtain ⟨second, rightTrace, rightQuiet⟩ := right.trace
  refine ⟨⟨_, _, _, _, _, rightNode.trans (by rw [leftNode])⟩, second ++ first,
    by rw [rightTrace, leftTrace, List.append_assoc], fun event member => ?_⟩
  rcases List.mem_append.mp member with new | old
  · exact rightQuiet event new
  · exact leftQuiet event old

theorem Untold.emit (quiet : tellsPresence event = false) (host : Host π τ) :
    Untold host (host.emit event) := ⟨⟨_, _, _, _, _, rfl⟩, [event], rfl, by simpa using quiet⟩

theorem Untold.applyClaim (host : Host π τ) (claim : OwnershipClaim) :
    Untold host (host.applyClaim claim) := ⟨⟨_, _, _, _, _, rfl⟩, [_], rfl, by simp [tellsPresence]⟩

theorem Untold.issueClaim (host : Host π τ) (target : PeerId) :
    Untold host (host.issueClaim target).2 := ⟨⟨_, _, _, _, _, rfl⟩, [_], rfl, by simp [tellsPresence]⟩

section Sending

variable [Transport τ]

theorem Untold.broadcast (host : Host π τ) (message : Bytes) : Untold host (host.broadcast message) :=
  .same rfl ⟨_, _, _, _, _, rfl⟩

theorem Untold.releaseHeldKeys (host : Host π τ) (ts : UInt32) : Untold host (host.releaseHeldKeys ts) :=
  .same (host.releaseHeldKeys_trace ts) ⟨_, _, _, _, _, host.releaseHeldKeys_node ts⟩

theorem Untold.onOwnerChanged (hook : OwnerHook) (host : Host π τ) (owner : PeerId) :
    Untold host (host.onOwnerChanged hook owner) := by
  have told : Untold host (host.emit (.ownerChanged owner)) := .emit rfl host
  cases hook with
  | silent => exact told
  | releaseHeld =>
      simp only [Host.onOwnerChanged]
      split
      · exact told
      · exact told.trans (.releaseHeldKeys _ _)

theorem Untold.requestSwitchTo (hook : OwnerHook) (host : Host π τ) (target : PeerId) :
    Untold host (host.requestSwitchTo hook target) := by
  simp only [Host.requestSwitchTo]
  split
  · exact .emit rfl host
  · have issued := (Untold.issueClaim host target).trans
      (.broadcast _ (claimMessage (host.issueClaim target).1))
    split
    · exact issued.trans (.onOwnerChanged hook _ _)
    · exact issued

theorem Untold.sends (hook : OwnerHook) (host : Host π τ) {call : MeshCall}
    (sends : call.onlySends = true) :
    Untold { host with node.now := call.clock host.node.now } (host.perform hook call) := by
  obtain ⟨_, _, _, _, messages, same⟩ := Host.perform_sends hook host sends
  rw [same]
  exact .same (Host.foldl_broadcast_trace messages _)
    ⟨_, _, _, _, _, Host.foldl_broadcast_node messages _⟩

theorem Untold.failSafe (hook : OwnerHook) (host : Host π τ) (now : UInt64) :
    Untold host (host.failSafe hook now) := by
  simp only [Host.failSafe]
  split
  · have issued := (Untold.issueClaim host host.node.self).trans
      (.emit (rfl : tellsPresence .reverted = false) _)
    exact issued.trans (.onOwnerChanged hook _ _)
  · exact .refl host

theorem Untold.handleClaim (hook : OwnerHook) (host : Host π τ) (claim : OwnershipClaim) :
    Untold host (host.handleClaim hook claim) := by
  simp only [Host.handleClaim]
  split
  · exact (Untold.applyClaim host claim).trans (.onOwnerChanged hook _ _)
  · exact .applyClaim host claim

theorem Untold.handleMessage (hook : OwnerHook) (host : Host π τ) (sender : PeerId)
    (message : DecodedMessage) : Untold host (host.handleMessage hook sender message) := by
  simp only [Host.handleMessage]
  split
  · split
    all_goals first
      | exact .refl host
      | split <;> exact .emit rfl host
  · split
    · split
      · exact .handleClaim hook host _
      · exact .refl host
    · exact ⟨⟨_, _, _, _, _, rfl⟩, [_], rfl, by simp [tellsPresence]⟩
    · split
      · exact .emit rfl host
      · exact .refl host
    · exact .refl host

end Sending

/-! ## One operation -/

variable {hook : OwnerHook} {base : List MeshEvent} {peers : OrdMap PeerId (Option π)} {now : UInt64}

/-- An operation under way: what it has told so far is on top of the log. -/
structure Telling (base : List MeshEvent) (log : List Remark) (peers : OrdMap PeerId (Option π))
    (now : UInt64) (host : Host π τ) : Prop where
  told : ∃ events, host.trace = events ++ base ∧ Told host.node (events.map .event ++ log)
  peers : host.node.peers = peers
  now : host.node.now = now

theorem Told.telling (told : Told host.node log) :
    Telling host.trace log host.node.peers host.node.now host := ⟨⟨[], rfl, told⟩, rfl, rfl⟩

theorem Telling.untold (telling : Telling base log peers now before) (untold : Untold before after) :
    Telling base log peers now after := by
  obtain ⟨events, trace, told⟩ := telling.told
  obtain ⟨_, _, _, _, _, node⟩ := untold.node
  obtain ⟨more, grown, quiet⟩ := untold.trace
  have later := told.quiets quiet
  refine ⟨⟨more ++ events, by rw [grown, trace, List.append_assoc], ?_⟩, ?_, ?_⟩
  · rw [List.map_append, List.append_assoc, node]
    exact ⟨later.online, later.alternates, later.registered, later.warned, later.once, later.heard,
      later.latest⟩
  · rw [node]
    exact telling.peers
  · rw [node]
    exact telling.now

theorem Telling.emit (telling : Telling base log peers now host) {node : MeshNode π}
    (tells : ∀ {log}, Told host.node log → Told node (.event event :: log))
    (samePeers : node.peers = host.node.peers) (sameNow : node.now = host.node.now) :
    Telling base log peers now ({ host with node }.emit event) := by
  obtain ⟨events, trace, told⟩ := telling.told
  exact ⟨⟨event :: events, congrArg (event :: ·) trace, tells told⟩, samePeers.trans telling.peers,
    sameNow.trans telling.now⟩

theorem Telling.hear (telling : Telling base log peers now host) (sender : PeerId) (data : Bytes) :
    Telling base log peers now (host.hear sender data now) := by
  obtain ⟨told, peers, rfl⟩ := telling
  exact Telling.emit ⟨told, peers, rfl⟩ (fun told => told.hear sender data) rfl rfl

theorem Telling.heap (telling : Telling base log peers now host) (heap : OrdMap π τ) :
    Telling base log peers now { host with heap } := ⟨telling.told, telling.peers, telling.now⟩

theorem Telling.noteLiveness (telling : Telling base log peers now host)
    (registered : peers.contains id = true) :
    Telling base log peers now (host.noteLiveness now id) := by
  simp only [Host.noteLiveness]
  split
  · exact telling
  · rename_i flips
    exact telling.emit (fun told => told.note (telling.peers ▸ registered) flips) rfl rfl

theorem Telling.notes (telling : Telling base log peers now host) {ids : List PeerId}
    (registered : ∀ id ∈ ids, peers.contains id = true) :
    Telling base log peers now (ids.foldl (Host.noteLiveness now) host) := by
  induction ids generalizing host with
  | nil => exact telling
  | cons id ids ih =>
      refine ih (telling.noteLiveness (registered id List.mem_cons_self)) fun other member => ?_
      exact registered other (List.mem_cons_of_mem _ member)

theorem noteLiveness_node (now : UInt64) (host : Host π τ) (id : PeerId) :
    ∃ peerOnline, (host.noteLiveness now id).node = { host.node with peerOnline } := by
  simp only [Host.noteLiveness]
  split <;> exact ⟨_, rfl⟩

theorem notes_node (now : UInt64) (ids : List PeerId) (host : Host π τ) :
    ∃ peerOnline, (ids.foldl (Host.noteLiveness now) host).node = { host.node with peerOnline } := by
  induction ids generalizing host with
  | nil => exact ⟨_, rfl⟩
  | cons id ids ih =>
      obtain ⟨_, first⟩ := noteLiveness_node now host id
      obtain ⟨last, rest⟩ := ih (host.noteLiveness now id)
      exact ⟨last, by rw [List.foldl_cons, rest, first]⟩

theorem noteLiveness_known (now : UInt64) (host : Host π τ) (id other : PeerId) :
    ((host.noteLiveness now id).node.peerOnline.find? other).getD false =
      if other = id then host.node.heartbeat.isAlive id now host.node.heartbeatTimeoutMs
      else (host.node.peerOnline.find? other).getD false := by
  simp only [Host.noteLiveness]
  split
  · rename_i same
    split
    · rename_i own
      rw [own, same]
    · rfl
  · simp only [Host.emit, OrdMap.find?_insert]
    split <;> rfl

theorem notes_known (now : UInt64) (ids : List PeerId) (host : Host π τ) (id : PeerId) :
    ((ids.foldl (Host.noteLiveness now) host).node.peerOnline.find? id).getD false =
      if id ∈ ids then host.node.heartbeat.isAlive id now host.node.heartbeatTimeoutMs
      else (host.node.peerOnline.find? id).getD false := by
  induction ids generalizing host with
  | nil => simp
  | cons first ids ih =>
      obtain ⟨_, node⟩ := noteLiveness_node now host first
      rw [List.foldl_cons, ih, noteLiveness_known, node]
      by_cases own : id = first <;> simp [own]

theorem forgetPeer_trace (host : Host π τ) (id : PeerId) :
    (host.forgetPeer id).trace = farewell host.node id ++ host.trace := by
  simp only [Host.forgetPeer, farewell]
  split <;> rfl

theorem Told.forgetPeer (told : Told host.node log) (id : PeerId) :
    Telling host.trace (.removed id :: log) (host.node.peers.erase id) host.node.now
      (host.forgetPeer id) := by
  have node := host.forgetPeer_node id
  exact ⟨⟨_, forgetPeer_trace host id, node ▸ told.forget id⟩, by rw [node], by rw [node]⟩

theorem Told.addPeer (told : Told host.node log) (id : PeerId) (transport : Option π) :
    Told (host.addPeer id transport).node log where
  online := told.online
  alternates := told.alternates
  registered other found :=
    (OrdMap.contains_insert _ _ _ _).mpr (.inr (told.registered other found))
  warned := told.warned
  once := told.once
  heard := told.heard
  latest := told.latest

section Running

variable [Transport τ]

theorem Telling.handle (telling : Telling base log peers now host) (sender : PeerId) (data : Bytes) :
    Telling base log peers now (host.handle hook sender data now) := by
  have heard := telling.hear sender data
  simp only [Host.handle]
  split
  · split
    · exact heard
    · rename_i unwarned
      exact heard.emit (fun told => told.warn (by simpa using unwarned)) rfl rfl
  · exact heard.untold (.handleMessage hook _ sender _)
  · exact heard

theorem Telling.drains (telling : Telling base log peers now host)
    (entries : List (PeerId × Option π)) :
    Telling base log peers now (entries.foldl (Host.drainPeer hook now) host) :=
  Host.drains_preserve entries (fun _ heap before => before.heap heap)
    (fun _ sender data _ before => before.handle sender data) telling

theorem Telling.refresh (hook : OwnerHook) (telling : Telling base log peers now host) :
    Telling base log peers now (host.refreshOnlineAndFailSafe hook now) ∧
      ∀ id, ((host.refreshOnlineAndFailSafe hook now).node.peerOnline.find? id).getD false = true ↔
        peers.contains id = true ∧ (host.refreshOnlineAndFailSafe hook now).node.heartbeat.isAlive id
          now (host.refreshOnlineAndFailSafe hook now).node.heartbeatTimeoutMs = true := by
  have registered : ∀ id ∈ host.node.peers.entries.map Prod.fst, peers.contains id = true :=
    fun id member => telling.peers ▸ OrdMap.mem_keys.mp member
  obtain ⟨_, node⟩ := notes_node now (host.node.peers.entries.map Prod.fst) host
  have known := notes_known now (host.node.peers.entries.map Prod.fst) host
  have noted := telling.notes registered
  simp only [Host.refreshOnlineAndFailSafe]
  generalize (host.node.peers.entries.map Prod.fst).foldl (Host.noteLiveness now) host = after at *
  generalize host.node.self :: (host.node.peers.entries.map Prod.fst).filter _ = online
  have elected : Untold after { after with
      node.election := after.node.election.setOnline online } := .same rfl ⟨_, _, _, _, _, rfl⟩
  have failSafe := Untold.failSafe hook { after with
      node.election := after.node.election.setOnline online } now
  refine ⟨(noted.untold elected).untold failSafe, fun id => ?_⟩
  obtain ⟨_, _, _, _, _, same⟩ := failSafe.node
  rw [same]
  simp only [known]
  by_cases member : id ∈ host.node.peers.entries.map Prod.fst
  · simp [member, registered id member, node]
  · have absent : host.node.peers.contains id = false := by
      simpa using fun found => member (OrdMap.mem_keys.mpr found)
    obtain ⟨_, _, told⟩ := telling.told
    have offline : host.node.peerOnline.find? id = none := by
      cases last : host.node.peerOnline.find? id with
      | none => rfl
      | some alive =>
          have inside := told.registered id (OrdMap.contains_iff.mpr ⟨alive, last⟩)
          rw [absent] at inside
          contradiction
    simp [member, offline, ← telling.peers, absent]

theorem Told.polled (hook : OwnerHook) (told : Told host.node log) (onTime : host.node.now ≤ now) :
    Telling host.trace log host.node.peers now (host.node.peers.entries.foldl
      (Host.drainPeer hook now) { host with node.now := now }) := by
  have timed : Told ({ host with node.now := now } : Host π τ).node log := told.setNow onTime
  exact Telling.drains ⟨⟨[], rfl, timed⟩, rfl, rfl⟩ host.node.peers.entries

variable {watch : Watch π τ}

theorem nodeStep_telling (op : NodeOp π τ) (told : Told host.node log) (onTime : OnTime op host) :
    ∃ peers now, Telling host.trace (op.removal ++ log) peers now (nodeStep op host) := by
  cases op with
  | call call =>
      by_cases sends : call.onlySends = true
      · have timed : Telling host.trace log host.node.peers (call.clock host.node.now)
            { host with node.now := call.clock host.node.now } :=
          ⟨⟨[], rfl, told.setNow onTime.clock⟩, rfl, rfl⟩
        exact ⟨_, _, timed.untold (.sends .silent host sends)⟩
      · cases call with
        | requestSwitchTo target =>
            exact ⟨_, _, told.telling.untold (.requestSwitchTo .silent host target)⟩
        | poll now => exact ⟨_, _, ((told.polled .silent (onTime now rfl)).refresh .silent).1⟩
        | _ => exact absurd rfl sends
  | addPeer id transport => exact ⟨_, _, ⟨[], rfl, told.addPeer id transport⟩, rfl, rfl⟩
  | removePeer id => exact ⟨_, _, ((told.forgetPeer id).refresh .silent).1⟩
  | setTimeouts timeout interval =>
      exact ⟨_, _, ⟨[], rfl, told.online, told.alternates, told.registered, told.warned, told.once,
        told.heard, told.latest⟩, rfl, rfl⟩
  | network heap => exact ⟨_, _, told.telling.heap heap⟩

theorem watchStep_told (op : NodeOp π τ) (told : Told watch.host.node watch.log) (onTime : OnTime op watch.host) :
    Told (watchStep op watch).host.node (watchStep op watch).log := by
  obtain ⟨peers, now, telling⟩ := nodeStep_telling op told onTime
  obtain ⟨events, trace, later⟩ := telling.told
  simpa [watchStep, trace] using later

theorem run_told {ops : List (NodeOp π τ)} (self : PeerId)
    (onTime : Along watchStep (fun op watch => OnTime op watch.host) (.init π τ self) ops) :
    Told (exec watchStep (.init π τ self) ops).host.node (exec watchStep (.init π τ self) ops).log :=
  @exec_invariant _ _ watchStep _ (fun watch => Told watch.host.node watch.log)
    (fun _ _ told onTime => watchStep_told _ told onTime) _ _ (.init π self) onTime

theorem run_events (self : PeerId) (ops : List (NodeOp π τ)) :
    (exec watchStep (.init π τ self) ops).log.filterMap Remark.event? =
      (exec watchStep (.init π τ self) ops).host.trace := by
  refine @exec_preserves _ _ watchStep (fun watch : Watch π τ =>
    watch.log.filterMap Remark.event? = watch.host.trace) (fun op watch logged => ?_) _ rfl ops
  obtain ⟨news, trace⟩ := nodeStep_suffix op watch.host
  have events : ∀ told : List MeshEvent, (told.map Remark.event).filterMap Remark.event? = told :=
    fun told => by simp [List.filterMap_map, Function.comp_def, Remark.event?]
  have removal : op.removal.filterMap Remark.event? = [] := by
    cases op <;> rfl
  simp [watchStep, ← trace, events, removal, logged]

theorem poll_presence (told : Told watch.host.node watch.log) (onTime : watch.host.node.now ≤ now)
    (id : PeerId) :
    (calls id (watchStep (.call (.poll now)) watch).log).head? = some true ↔
      (watchStep (.call (.poll now)) watch).Present id now := by
  have after := watchStep_told (.call (.poll now)) told fun _ same => by
    cases same
    exact onTime
  obtain ⟨telling, known⟩ := (told.polled .silent onTime).refresh .silent
  have last : (calls id (watchStep (.call (.poll now)) watch).log).head? = some true ↔
      (calls id (watchStep (.call (.poll now)) watch).log).head?.getD false = true := by
    cases (calls id (watchStep (.call (.poll now)) watch).log).head? <;> simp
  have peers : (watchStep (.call (.poll now)) watch).host.node.peers = watch.host.node.peers :=
    telling.peers
  rw [last, ← after.online id, Watch.Present, peers, ← heard_iff after telling.now]
  exact known id

theorem removePeer_presence (told : Told watch.host.node watch.log) (id : PeerId) :
    (calls id (watchStep (.removePeer id) watch).log).head? ≠ some true := by
  have after := watchStep_told (.removePeer id) told nofun
  obtain ⟨telling, known⟩ := (told.forgetPeer id).refresh .silent
  intro online
  have last := after.online id
  rw [online] at last
  have inside := ((known id).mp last).1
  rw [OrdMap.contains_erase] at inside
  exact inside.1 rfl

/-- Over any run whose times do not go backwards: the calls for a peer alternate
and start with online; after a poll the last one was online exactly if the peer
is there, and after its removal it was not; and a version mismatch is told at
most once between two removals. -/
theorem presence_told_once {ops : List (NodeOp π τ)} (self : PeerId)
    (onTime : Along watchStep (fun op watch => OnTime op watch.host) (.init π τ self) ops) :
    (∀ id, Alternates (calls id (exec watchStep (.init π τ self) ops).log)) ∧
    (∀ earlier now id, ops = earlier ++ [.call (.poll now)] →
      ((calls id (exec watchStep (.init π τ self) ops).log).head? = some true ↔
        (exec watchStep (.init π τ self) ops).Present id now)) ∧
    (∀ earlier id, ops = earlier ++ [.removePeer id] →
      (calls id (exec watchStep (.init π τ self) ops).log).head? ≠ some true) ∧
    ∀ id, OncePerStretch (.removed id) (.event (.versionMismatch id))
      (exec watchStep (.init π τ self) ops).log := by
  have told := run_told self onTime
  refine ⟨told.alternates, ?_, ?_, told.once⟩
  · rintro earlier now id rfl
    obtain ⟨before, timed⟩ := along_concat.mp onTime
    rw [exec_concat]
    exact poll_presence (run_told self before) (timed now rfl) id
  · rintro earlier id rfl
    obtain ⟨before, _⟩ := along_concat.mp onTime
    rw [exec_concat]
    exact removePeer_presence (run_told self before) id

end Running

end Hosts

def comingsAndGoings : List (NodeOp Nat Wire) :=
  [.addPeer [66] (some 0), .network (OrdMap.insert ∅ 0 ⟨0, true, [[99, 1]], []⟩),
    .call (.poll 1000), .addPeer [66] (some 1), .call (.poll 4000),
    .network (OrdMap.insert ∅ 1 ⟨0, true, [[99, 1]], []⟩), .call (.poll 5000), .removePeer [66]]

theorem presence_of_comings_and_goings :
    calls [66] (exec watchStep (.init Nat Wire [65]) comingsAndGoings).log =
        [false, true, false, true] ∧
      Alternates (calls [66] (exec watchStep (.init Nat Wire [65]) comingsAndGoings).log) := by
  refine ⟨by decide, (presence_told_once [65] ?_).1 [66]⟩
  refine ⟨nofun, nofun, ?_, nofun, ?_, nofun, ?_, nofun, trivial⟩ <;>
    (rintro now ⟨⟩; decide)

/-- A peer is heard, removed and registered again, within its timeout. -/
def registeredAgain : List (NodeOp Nat Wire) :=
  [.addPeer [66] (some 0), .network (OrdMap.insert ∅ 0 ⟨0, true, [[99, 1]], []⟩),
    .call (.poll 1000), .removePeer [66], .addPeer [66] (some 1), .call (.poll 1500)]

/-- It is registered and was heard half a second ago, and yet it was told offline: its
removal has made the node forget when. -/
theorem registered_again_offline :
    Along watchStep (fun op watch => OnTime op watch.host) (.init Nat Wire [65]) registeredAgain ∧
      (exec watchStep (.init Nat Wire [65]) registeredAgain).host.node.peers.contains [66] = true ∧
      .event (.handled [66] 1000 [99, 1]) ∈
        (exec watchStep (.init Nat Wire [65]) registeredAgain).log ∧
      1500 - 1000 < (exec watchStep (.init Nat Wire [65]) registeredAgain).host.node.heartbeatTimeoutMs ∧
      (calls [66] (exec watchStep (.init Nat Wire [65]) registeredAgain).log).head? = some false := by
  refine ⟨⟨nofun, nofun, ?_, nofun, nofun, ?_, trivial⟩, by decide, by decide, by decide, by decide⟩ <;>
    (rintro now ⟨⟩; decide)

end Skittermouse.Mesh

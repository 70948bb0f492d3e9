import Mathlib.Data.Set.Basic
import Skittermouse.Core.Config
import Skittermouse.Mesh.Books
import Skittermouse.Mesh.FailSafe
import Skittermouse.Stored.PairedDevices

namespace Skittermouse.Mesh

open Skittermouse.Data Skittermouse.Core Skittermouse.Net Skittermouse.App

/-! # The election as the tray wires it

A node starts with itself on the priority list, `setPriority` replaces that list
by the configured one, which holds the other machines, and every link appends
its peer, whether or not the user has removed it.
-/

def pairedWith (devices : List PairedDevice) : Config := devices.foldl Config.addDevice .init

/-- A node as `runTrayApp` sets it up, before its first link. -/
def wired (π τ : Type) [LinearOrder π] (self : PeerId) (config : Config) : Host π τ :=
  (Host.init π τ self).setPriority config.priority

/-- The priority list is set before the loop, never in it. -/
def KeepsPriority {π τ : Type} [LinearOrder π] (op : NodeOp π τ) : Prop :=
  ∀ priority, op ≠ .call (.setPriority priority)

section Hosts

variable {π τ : Type} [LinearOrder π]

/-- The steps of the tray's loop on a machine that links to these others. -/
structure TrayStep (others : Set PeerId) (op : NodeOp π τ) (host : Host π τ) : Prop where
  onTime : OnTime op host
  links : ∀ id transport, op = .addPeer id transport → id ∈ others
  priority : KeepsPriority op
  timeouts : ∀ timeout interval, op ≠ .setTimeouts timeout interval

/-- A link to a machine that the user removed from the election. -/
def Revives (config : Config) (id : PeerId) (op : NodeOp π τ) : Prop :=
  id ∈ config.ineligible ∧ ∃ transport, op = .addPeer id transport

/-- The steps of the tray's loop that bring no removed machine back. -/
def Leaves (config : Config) (id : PeerId) (op : NodeOp π τ) (_ : Host π τ) : Prop :=
  KeepsPriority op ∧ ¬Revives config id op

variable {host before after : Host π τ} {own id : PeerId} {others : Set PeerId}

/-- Every peer is on the list, and nobody but the others. -/
structure Listed (own : PeerId) (others : Set PeerId) (host : Host π τ) : Prop where
  self : host.node.self = own
  listed : ∀ id ∈ host.node.election.priority, id ∈ others
  linked : ∀ id, host.node.peers.contains id = true → id ∈ host.node.election.priority
  heard : ∀ id seen, host.node.heartbeat.last.find? id = some seen →
    host.node.peers.contains id = true ∧ seen ≤ host.node.now

/-- Besides, whoever is alive is online to the election. -/
structure Electing (own : PeerId) (others : Set PeerId) (host : Host π τ) : Prop
    extends Listed own others host where
  online : ∀ id, host.node.heartbeat.isAlive id host.node.now host.node.heartbeatTimeoutMs = true →
    id ∈ host.node.election.online

theorem mem_addToPriority {election : ServerElection} {newcomer : PeerId} :
    id ∈ (election.addToPriority newcomer).priority ↔ id ∈ election.priority ∨ id = newcomer := by
  unfold ServerElection.addToPriority
  split
  · rename_i present
    constructor
    · exact .inl
    · rintro (listed | rfl)
      · exact listed
      · exact present
  · simp

theorem addToPriority_online (election : ServerElection) (newcomer : PeerId) :
    (election.addToPriority newcomer).online = election.online := by
  unfold ServerElection.addToPriority
  split <;> rfl

theorem mem_pairedWith {devices : List PairedDevice} (listed : id ∈ (pairedWith devices).priority) :
    id ∈ devices.map PairedDevice.id := by
  obtain ⟨_, kept, eligible⟩ := Stored.pairedAfter_run [] devices
  have there : id ∈ (Stored.pairedAfter [] devices).devices.map PairedDevice.id :=
    (eligible.mem_priority.mp listed).1
  rwa [kept, map_key_puts, List.mem_eraseDups] at there

theorem isAlive_earlier {heartbeat : Heartbeat} {now later timeout : UInt64}
    (heard : ∀ seen, heartbeat.last.find? id = some seen → seen ≤ now) (earlier : now ≤ later)
    (alive : heartbeat.isAlive id later timeout = true) : heartbeat.isAlive id now timeout = true := by
  obtain ⟨seen, found, recent⟩ := Heartbeat.isAlive_iff.mp alive
  have past := heard seen found
  refine Heartbeat.isAlive_iff.mpr ⟨seen, found, ?_⟩
  rw [UInt64.lt_iff_toNat_lt, UInt64.toNat_sub_of_le _ _ (past.trans earlier)] at recent
  rw [UInt64.lt_iff_toNat_lt, UInt64.toNat_sub_of_le _ _ past]
  rw [UInt64.le_iff_toNat_le] at earlier
  omega

namespace Listed

theorem congr (listed : Listed own others before) (self : after.node.self = before.node.self)
    (peers : after.node.peers = before.node.peers)
    (election : after.node.election = before.node.election)
    (heartbeat : after.node.heartbeat = before.node.heartbeat)
    (now : after.node.now = before.node.now) : Listed own others after where
  self := self.trans listed.self
  listed := by rw [election]; exact listed.listed
  linked := by rw [election, peers]; exact listed.linked
  heard := by rw [heartbeat, peers, now]; exact listed.heard

theorem kept (listed : Listed own others before) (kept : before.Kept after) :
    Listed own others after :=
  listed.congr kept.self kept.peers kept.election kept.heartbeat kept.now

theorem hear (listed : Listed own others host) {sender : PeerId}
    (registered : host.node.peers.contains sender = true) (data : Bytes) :
    Listed own others (host.hear sender data host.node.now) where
  self := listed.self
  listed := listed.listed
  linked := listed.linked
  heard id seen found := by
    simp only [Host.hear, Host.emit, Heartbeat.onHeartbeat, OrdMap.find?_insert] at found
    split at found
    · rename_i same
      cases found
      exact ⟨by rw [same]; exact registered, UInt64.le_refl _⟩
    · exact listed.heard id seen found

theorem setNow (listed : Listed own others host) {now : UInt64} (onTime : host.node.now ≤ now) :
    Listed own others { host with node.now := now } where
  self := listed.self
  listed := listed.listed
  linked := listed.linked
  heard id seen found :=
    ⟨(listed.heard id seen found).1, (listed.heard id seen found).2.trans onTime⟩

theorem forget (listed : Listed own others host) (id : PeerId) :
    Listed own others { host with
      node.peers := host.node.peers.erase id
      node.heartbeat := host.node.heartbeat.forget id } where
  self := listed.self
  listed := listed.listed
  linked other registered :=
    listed.linked other ((OrdMap.contains_erase _ _ _).mp registered).2
  heard other seen found := by
    simp only [Heartbeat.forget, OrdMap.find?_erase] at found
    split at found
    · contradiction
    · rename_i apart
      obtain ⟨registered, earlier⟩ := listed.heard other seen found
      exact ⟨(OrdMap.contains_erase _ _ _).mpr ⟨apart, registered⟩, earlier⟩

section Sending

variable [Transport τ]

theorem refresh (listed : Listed own others host) (hook : OwnerHook) :
    Electing own others (host.refreshOnlineAndFailSafe hook host.node.now) := by
  have kept := Host.refresh_kept hook host host.node.now
  have elected : Listed own others
      { host with node.election := host.node.election.setOnline (host.onlineAt host.node.now) } :=
    ⟨listed.self, listed.listed, listed.linked, listed.heard⟩
  refine ⟨elected.kept kept, fun id alive => ?_⟩
  rw [kept.heartbeat, kept.now, kept.timeout] at alive
  rw [kept.election]
  obtain ⟨seen, found, _⟩ := Heartbeat.isAlive_iff.mp alive
  refine List.mem_cons_of_mem _ (List.mem_filter.mpr ⟨?_, alive⟩)
  exact OrdMap.mem_keys.mpr (listed.heard id seen found).1

theorem poll (listed : Listed own others host) (hook : OwnerHook) {now : UInt64}
    (onTime : host.node.now ≤ now) : Electing own others (host.poll hook now) := by
  have drained := @Host.drains_keep π τ _ _ (fun current => Listed own others current ∧
      current.node.peers = host.node.peers ∧ current.node.now = now) now hook
    host.node.peers.entries
    (fun _ _ kept ⟨listed, peers, current⟩ =>
      ⟨listed.kept kept, kept.peers.trans peers, kept.now.trans current⟩)
    (fun _ _ ⟨listed, peers, current⟩ =>
      ⟨listed.congr rfl rfl rfl rfl rfl, peers, current⟩)
    (fun current sender data member ⟨listed, peers, same⟩ => by
      subst same
      have registered : current.node.peers.contains sender = true := by
        rw [peers]
        exact OrdMap.mem_keys.mp member
      exact ⟨listed.hear registered data, peers, rfl⟩)
    { host with node.now := now } ⟨listed.setNow onTime, rfl, rfl⟩
  obtain ⟨listed, _, current⟩ := drained
  have refreshed := listed.refresh hook
  rw [current] at refreshed
  exact refreshed

end Sending

end Listed

namespace Electing

theorem congr (electing : Electing own others before) (self : after.node.self = before.node.self)
    (peers : after.node.peers = before.node.peers)
    (election : after.node.election = before.node.election)
    (heartbeat : after.node.heartbeat = before.node.heartbeat)
    (timeout : after.node.heartbeatTimeoutMs = before.node.heartbeatTimeoutMs)
    (now : after.node.now = before.node.now) : Electing own others after where
  toListed := electing.toListed.congr self peers election heartbeat now
  online := by
    rw [heartbeat, now, timeout, election]
    exact electing.online

theorem kept (electing : Electing own others before) (kept : before.Kept after) :
    Electing own others after :=
  electing.congr kept.self kept.peers kept.election kept.heartbeat kept.timeout kept.now

theorem setNow (electing : Electing own others host) {now : UInt64} (onTime : host.node.now ≤ now) :
    Electing own others { host with node.now := now } where
  toListed := electing.toListed.setNow onTime
  online id alive := electing.online id
    (isAlive_earlier (fun seen found => (electing.heard id seen found).2) onTime alive)

theorem addPeer (electing : Electing own others host) (other : id ∈ others) (transport : Option π) :
    Electing own others (host.addPeer id transport) where
  self := electing.self
  listed newcomer listed := by
    rcases mem_addToPriority.mp listed with old | rfl
    · exact electing.listed newcomer old
    · exact other
  linked peer registered := by
    rcases (OrdMap.contains_insert _ _ _ _).mp registered with rfl | old
    · exact mem_addToPriority.mpr (.inr rfl)
    · exact mem_addToPriority.mpr (.inl (electing.linked peer old))
  heard peer seen found :=
    ⟨(OrdMap.contains_insert _ _ _ _).mpr (.inr (electing.heard peer seen found).1),
      (electing.heard peer seen found).2⟩
  online peer alive := by
    change peer ∈ (host.node.election.addToPriority id).online
    rw [addToPriority_online]
    exact electing.online peer alive

theorem primary (electing : Electing own others host) {other : PeerId} (apart : other ≠ own)
    (alive : host.isPeerOnline other = true) : ∃ server ∈ others, host.primary = some server := by
  rw [Host.isPeerOnline, electing.self, if_neg apart] at alive
  obtain ⟨seen, found, _⟩ := Heartbeat.isAlive_iff.mp alive
  have listed := electing.linked other (electing.heard other seen found).1
  cases elected : host.primary with
  | none =>
      have nobody := List.find?_eq_none.mp elected other listed
      exact absurd (decide_eq_true (electing.online other alive)) nobody
  | some server =>
      exact ⟨server, electing.listed server (List.mem_of_find?_eq_some elected), rfl⟩

end Electing

theorem wired_electing {config : Config} (paired : ∀ id ∈ config.priority, id ∈ others) :
    Electing own others (wired π τ own config) where
  self := rfl
  listed := paired
  linked id registered := by contradiction
  heard _ _ found := by cases found
  online id alive := by
    obtain ⟨_, found, _⟩ := Heartbeat.isAlive_iff.mp alive
    cases found

section Running

variable [Transport τ]

theorem electing_step {op : NodeOp π τ} (electing : Electing own others host)
    (step : TrayStep others op host) : Electing own others (nodeStep op host) := by
  cases op with
  | call call =>
      rcases Host.perform_kept .silent host call with ⟨priority, rfl⟩ | ⟨text, rfl⟩ | ⟨now, rfl⟩ | kept
      · exact absurd rfl (step.priority priority)
      · have guarded : Electing own others { host with
            node.clipboard := (host.node.clipboard.shouldBroadcastLocalChange text).2 } :=
          electing.congr rfl rfl rfl rfl rfl rfl
        exact guarded.kept (host.clipboardChange_kept text)
      · exact electing.toListed.poll .silent (step.onTime now rfl)
      · exact (electing.setNow step.onTime.clock).kept kept
  | addPeer id transport => exact electing.addPeer (step.links id transport rfl) transport
  | removePeer id =>
      have refreshed := ((electing.toListed.forget id).kept (host.forgetPeer_kept id)).refresh .silent
      rw [(host.forgetPeer_kept id).now] at refreshed
      exact refreshed
  | setTimeouts timeout interval => exact absurd rfl (step.timeouts timeout interval)
  | network heap => exact electing.congr rfl rfl rfl rfl rfl rfl

/-- No machines that can see each other ever agree: each of them elects another,
never itself. -/
theorem no_common_primary {machines : Set PeerId} (several : machines.Nontrivial)
    {devices : PeerId → List PairedDevice} {ops : PeerId → List (NodeOp π τ)}
    (paired : ∀ id ∈ machines, ∀ other,
      other ∈ (devices id).map PairedDevice.id ↔ other ∈ machines ∧ other ≠ id)
    (loops : ∀ id ∈ machines, Along nodeStep (TrayStep {other | other ∈ machines ∧ other ≠ id})
      (wired π τ id (pairedWith (devices id))) (ops id))
    (online : ∀ id ∈ machines, ∀ other ∈ machines,
      (exec nodeStep (wired π τ id (pairedWith (devices id))) (ops id)).isPeerOnline other = true) :
    ¬∃ server, ∀ id ∈ machines,
      (exec nodeStep (wired π τ id (pairedWith (devices id))) (ops id)).primary = server := by
  have another : ∀ id ∈ machines, ∃ server, (server ∈ machines ∧ server ≠ id) ∧
      (exec nodeStep (wired π τ id (pairedWith (devices id))) (ops id)).primary = some server := by
    intro id inside
    have start : Electing id {other | other ∈ machines ∧ other ≠ id}
        (wired π τ id (pairedWith (devices id))) :=
      wired_electing fun other listed => (paired id inside other).mp (mem_pairedWith listed)
    have electing := exec_invariant (fun _ _ electing step => electing_step electing step) start
      (loops id inside)
    obtain ⟨other, member, apart⟩ := several.exists_ne id
    exact electing.primary apart (online id inside other member)
  rintro ⟨common, agreed⟩
  obtain ⟨first, inside, _⟩ := several
  -- The machine that is elected is one of them, and it elects yet another.
  obtain ⟨server, ⟨member, _⟩, elected⟩ := another first inside
  obtain ⟨next, ⟨_, apart⟩, again⟩ := another server member
  rw [agreed first inside] at elected
  rw [agreed server member, elected] at again
  exact apart (Option.some.inj again).symm

def deviceNamed (id : PeerId) : PairedDevice :=
  { id
    name := []
    lastIp := []
    port := 0
    os := []
    wolCapable := false
    mac := [] }

def linkUp (peer : PeerId) : List (NodeOp Nat Wire) :=
  [.addPeer peer (some 0), .network (OrdMap.insert ∅ 0 ⟨0, true, [[99, 1]], []⟩), .call (.poll 1000)]

def twins (id : PeerId) : PeerId := if id = [65] then [66] else [65]

def twinHost (id : PeerId) : Host Nat Wire :=
  exec nodeStep (wired Nat Wire id (pairedWith [deviceNamed (twins id)])) (linkUp (twins id))

theorem twins_linked {id : PeerId} (inside : id ∈ ({[65], [66]} : Set PeerId)) (other : PeerId) :
    other = twins id ↔ other ∈ ({[65], [66]} : Set PeerId) ∧ other ≠ id := by
  rcases inside with rfl | rfl
  · constructor
    · rintro rfl
      exact ⟨.inr rfl, by decide⟩
    · rintro ⟨rfl | rfl, apart⟩
      · exact absurd rfl apart
      · rfl
  · constructor
    · rintro rfl
      exact ⟨.inl rfl, by decide⟩
    · rintro ⟨rfl | rfl, apart⟩
      · rfl
      · exact absurd rfl apart

theorem twins_loop {id : PeerId} (inside : id ∈ ({[65], [66]} : Set PeerId)) :
    Along nodeStep (TrayStep {other | other ∈ ({[65], [66]} : Set PeerId) ∧ other ≠ id})
      (wired Nat Wire id (pairedWith [deviceNamed (twins id)])) (linkUp (twins id)) := by
  refine ⟨⟨nofun, ?_, nofun, nofun⟩, ⟨nofun, nofun, nofun, nofun⟩, ⟨?_, nofun, nofun, nofun⟩, trivial⟩
  · rintro newcomer transport ⟨⟩
    exact (twins_linked inside _).mp rfl
  · rintro now ⟨⟩
    rcases inside with rfl | rfl <;> decide

theorem twins_have_no_common_primary :
    ¬∃ server, ∀ id ∈ ({[65], [66]} : Set PeerId), (twinHost id).primary = server := by
  refine @no_common_primary Nat Wire _ _ {[65], [66]} ⟨[65], .inl rfl, [66], .inr rfl, by decide⟩
    (fun id => [deviceNamed (twins id)]) (fun id => linkUp (twins id)) ?_
    (fun id inside => twins_loop inside) ?_
  · intro id inside other
    rw [← twins_linked inside, List.map_singleton, List.mem_singleton]
    rfl
  · rintro id (rfl | rfl) other (rfl | rfl) <;> decide

theorem twins_elect_each_other :
    (twinHost [65]).isPeerOnline [66] = true ∧ (twinHost [66]).isPeerOnline [65] = true ∧
      (twinHost [65]).primary = some [66] ∧ (twinHost [66]).primary = some [65] := by decide

end Running

/-- A machine that is no peer here and is not on the list on its own account. -/
structure Excluded (id : PeerId) (host : Host π τ) : Prop where
  absent : host.node.peers.contains id = false
  offline : id ∈ host.node.election.online → id = host.node.self
  unlisted : id = host.node.self → id ∉ host.node.election.priority

namespace Excluded

theorem primary (excluded : Excluded id host) : host.primary ≠ some id := by
  intro elected
  simp only [Host.primary, ServerElection.currentServer] at elected
  have online := List.find?_some elected
  rw [decide_eq_true_eq] at online
  exact excluded.unlisted (excluded.offline online) (List.mem_of_find?_eq_some elected)

theorem congr (excluded : Excluded id before) (self : after.node.self = before.node.self)
    (peers : after.node.peers = before.node.peers)
    (election : after.node.election = before.node.election) : Excluded id after where
  absent := by rw [peers]; exact excluded.absent
  offline := by rw [election, self]; exact excluded.offline
  unlisted := by rw [election, self]; exact excluded.unlisted

theorem kept (excluded : Excluded id before) (kept : before.Kept after) : Excluded id after :=
  excluded.congr kept.self kept.peers kept.election

theorem addPeer (excluded : Excluded id host) {newcomer : PeerId} (apart : newcomer ≠ id)
    (transport : Option π) : Excluded id (host.addPeer newcomer transport) where
  absent := by
    rw [← Bool.not_eq_true]
    intro registered
    rcases (OrdMap.contains_insert _ _ _ _).mp registered with rfl | old
    · exact apart rfl
    · rw [excluded.absent] at old
      contradiction
  offline online := excluded.offline (addToPriority_online host.node.election newcomer ▸ online)
  unlisted self listed := by
    rcases mem_addToPriority.mp listed with old | rfl
    · exact excluded.unlisted self old
    · exact apart rfl

section Sending

variable [Transport τ]

theorem refresh (excluded : Excluded id host) (hook : OwnerHook) (now : UInt64) :
    Excluded id (host.refreshOnlineAndFailSafe hook now) := by
  have elected : Excluded id
      { host with node.election := host.node.election.setOnline (host.onlineAt now) } := by
    refine ⟨excluded.absent, fun online => ?_, excluded.unlisted⟩
    rcases List.mem_cons.mp online with self | peer
    · exact self
    · have registered := OrdMap.mem_keys.mp (List.mem_filter.mp peer).1
      rw [excluded.absent] at registered
      contradiction
  exact elected.kept (Host.refresh_kept hook host now)

theorem poll (excluded : Excluded id host) (hook : OwnerHook) (now : UInt64) :
    Excluded id (host.poll hook now) := by
  have drained := @Host.drains_keep π τ _ _ (Excluded id) now hook host.node.peers.entries
    (fun _ _ kept excluded => excluded.kept kept)
    (fun _ _ excluded => excluded.congr rfl rfl rfl)
    (fun _ _ _ _ excluded => excluded.congr rfl rfl rfl)
    { host with node.now := now } (excluded.congr rfl rfl rfl)
  exact drained.refresh hook now

theorem removePeer (excluded : Excluded id host) (hook : OwnerHook) (gone : PeerId) :
    Excluded id (host.removePeer hook gone) := by
  have erased : Excluded id { host with
      node.peers := host.node.peers.erase gone
      node.heartbeat := host.node.heartbeat.forget gone } := by
    refine ⟨?_, excluded.offline, excluded.unlisted⟩
    rw [← Bool.not_eq_true]
    intro registered
    have old := ((OrdMap.contains_erase _ _ _).mp registered).2
    rw [excluded.absent] at old
    contradiction
  exact (erased.kept (host.forgetPeer_kept gone)).refresh hook _

end Sending

end Excluded

section Running

variable [Transport τ]

theorem excluded_step {config : Config} {op : NodeOp π τ} (removed : id ∈ config.ineligible)
    (excluded : Excluded id host) (step : Leaves config id op host) :
    Excluded id (nodeStep op host) := by
  cases op with
  | call call =>
      rcases Host.perform_kept .silent host call with ⟨priority, rfl⟩ | ⟨text, rfl⟩ | ⟨now, rfl⟩ | kept
      · exact absurd rfl (step.1 priority)
      · have guarded : Excluded id { host with
            node.clipboard := (host.node.clipboard.shouldBroadcastLocalChange text).2 } :=
          excluded.congr rfl rfl rfl
        exact guarded.kept (host.clipboardChange_kept text)
      · exact excluded.poll .silent now
      · have timed : Excluded id { host with node.now := call.clock host.node.now } :=
          excluded.congr rfl rfl rfl
        exact timed.kept kept
  | addPeer newcomer transport =>
      refine excluded.addPeer (fun same => ?_) transport
      exact step.2 ⟨removed, transport, by rw [same]⟩
  | removePeer gone => exact excluded.removePeer .silent gone
  | setTimeouts timeout interval => exact excluded.congr rfl rfl rfl
  | network heap => exact excluded.congr rfl rfl rfl

/-- While no link to a removed machine comes up, it is not elected. -/
theorem removed_never_elected {config : Config} {self : PeerId} {ops : List (NodeOp π τ)}
    (removed : id ∈ config.ineligible)
    (loop : Along nodeStep (Leaves config id) (wired π τ self config) ops)
    (unlisted : id = self → id ∉ config.priority) :
    (exec nodeStep (wired π τ self config) ops).primary ≠ some id := by
  have start : Excluded id (wired π τ self config) := ⟨rfl, nofun, unlisted⟩
  have excluded := exec_invariant (fun _ _ excluded step => excluded_step removed excluded step) start loop
  exact excluded.primary

def withoutTwin : Config := ({ Config.init with ineligible := [[66]] }).addDevice (deviceNamed [66])

theorem removed_stays_out :
    (exec nodeStep (wired Nat Wire [65] withoutTwin) (linkUp [67])).primary ≠ some [66] := by
  have loop : Along nodeStep (Leaves withoutTwin [66]) (wired Nat Wire [65] withoutTwin)
      (linkUp [67]) := by
    refine ⟨⟨nofun, ?_⟩, ⟨nofun, ?_⟩, ⟨nofun, ?_⟩, trivial⟩ <;> rintro ⟨_, _, ⟨⟩⟩
  exact removed_never_elected (by decide) loop nofun

/-- Its link puts it back on the list. -/
theorem removed_machine_elected :
    [66] ∈ withoutTwin.ineligible ∧ withoutTwin.priority = [] ∧
      (exec nodeStep (wired Nat Wire [65] withoutTwin) (linkUp [66])).primary = some [66] := by decide

end Running

end Hosts

end Skittermouse.Mesh

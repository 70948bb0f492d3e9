import Skittermouse.Data.Exec
import Skittermouse.Platform.DiscoveryThread

namespace Skittermouse.Platform

open Skittermouse.Data Skittermouse.Core Skittermouse.Net

/-! # What the picker shows

The table against the beacons that have come in, and the picker's rows against the
table. The list is made anew all the time, and a selection stays with its machine.
-/

def DiscoveryPhase.beacon : DiscoveryPhase → Option Beacon
  | .top => none
  | .heard beacon | .noted beacon | .changed beacon | .answering beacon => some beacon

namespace DiscoveryApp

variable {inetPton : Bytes → Option UInt32} {app : DiscoveryApp} {machine : PeerId}

inductive ThreadMove (inetPton : Bytes → Option UInt32) (app : DiscoveryApp) : DiscoveryApp → Prop where
  | listens (lastBroadcast : UInt64) : ThreadMove inetPton app { app with lastBroadcast }
  | hears (lastBroadcast : UInt64) (beacon : Beacon) (other : beacon.machineId ≠ app.self) :
      ThreadMove inetPton app { app with lastBroadcast, phase := .heard beacon }
  | notes (beacon : Beacon) (now : UInt64) (place : app.phase = .heard beacon) :
      ThreadMove inetPton app
        { app with
          discovered := app.discovered.onBeacon beacon now
          heard := (beacon.machineId, ⟨beacon, now⟩) :: app.heard
          phase := .noted beacon }
  | passes (beacon : Beacon) (place : app.phase = .noted beacon) :
      ThreadMove inetPton app { app with phase := .answering beacon }
  | moves (beacon : Beacon) (phase : DiscoveryPhase) (place : app.phase = .noted beacon)
      (same : phase.beacon = some beacon) :
      ThreadMove inetPton app
        { app with
          config.devices := app.config.devices.map (moved beacon)
          addresses := (beacon.machineId, beacon.ip) :: app.addresses
          phase }
  | remembers (beacon : Beacon) (place : app.phase = .changed beacon) :
      ThreadMove inetPton app
        { app with peerIp := app.peerIp.insert beacon.machineId beacon.ip, phase := .answering beacon }
  | answers (beacon : Beacon) (t : UInt64) (sent : List Reply)
      (due : (app.lastReply.find? beacon.machineId).getD 0 = 0 ∨
        t - (app.lastReply.find? beacon.machineId).getD 0 ≥ 700)
      (reply : sent = app.sent ∨ ∃ datagram,
        sendBeaconTo inetPton (selfBeacon app.self) beacon.ip kDiscoveryPort = some datagram ∧
        sent = ⟨beacon.machineId, t, datagram⟩ :: app.sent) :
      ThreadMove inetPton app
        { app with
          lastReply := app.lastReply.insert beacon.machineId t
          replies := (beacon.machineId, t) :: app.replies
          sent
          phase := .top }
  | rests (beacon : Beacon) :
      ThreadMove inetPton app
        { app with
          lastReply := app.lastReply.insert beacon.machineId
            ((app.lastReply.find? beacon.machineId).getD 0)
          phase := .top }

theorem listen_move (app : DiscoveryApp) (input : DiscoveryInput) :
    ThreadMove inetPton app (app.listen input) := by
  unfold listen
  generalize current : (if input.now - app.lastBroadcast ≥ 400 then
    { app with lastBroadcast := input.now } else app) = heard
  obtain ⟨lastBroadcast, rfl⟩ : ∃ lastBroadcast, heard = { app with lastBroadcast } := by
    rw [← current]
    split <;> exact ⟨_, rfl⟩
  dsimp only
  split
  · exact .listens lastBroadcast
  · split
    · exact .listens lastBroadcast
    · split
      · exact .listens lastBroadcast
      · split
        · exact .hears lastBroadcast _ ‹_›
        · exact .listens lastBroadcast

theorem threadStep_move (app : DiscoveryApp) (input : DiscoveryInput) :
    ThreadMove inetPton app (app.threadStep inetPton input) := by
  unfold threadStep
  split
  · exact listen_move app input
  · exact .notes _ _ ‹_›
  · rename_i beacon place
    unfold reconnect
    split
    · exact .passes beacon place
    · exact .moves beacon _ place (by split <;> rfl)
  · exact .remembers _ ‹_›
  · rename_i beacon place
    unfold answer
    dsimp only
    split
    · rename_i due
      refine .answers beacon _ _ due.2 ?_
      split
      · exact .inl rfl
      · rename_i datagram sent
        exact .inr ⟨datagram, sent, rfl⟩
    · exact .rests beacon

theorem ThreadMove.picker {after : DiscoveryApp} (move : ThreadMove inetPton app after) :
    after.picker = app.picker := by
  cases move <;> rfl

/-- The table holds the latest of what has been heard, and we never hear ourselves. -/
structure Noted (machine : PeerId) (app : DiscoveryApp) : Prop where
  named : app.self = machine
  latest : ∀ id, app.discovered.entries.find? id = OrdMap.lookup id app.heard
  own : ∀ id entry, app.discovered.entries.find? id = some entry →
    entry.beacon.machineId = id ∧ id ≠ machine
  other : ∀ beacon ∈ app.phase.beacon, beacon.machineId ≠ machine

theorem Noted.thread (noted : Noted machine app) {after : DiscoveryApp}
    (move : ThreadMove inetPton app after) : Noted machine after := by
  cases move with
  | listens => exact { noted with }
  | hears lastBroadcast beacon other =>
      exact { noted with other := fun heard same => Option.mem_some.mp same ▸ noted.named ▸ other }
  | notes beacon now place =>
      have other : beacon.machineId ≠ machine := noted.other beacon (place ▸ rfl)
      exact
        { named := noted.named
          latest := fun id => by
            rw [DiscoveryTable.onBeacon, OrdMap.find?_insert, OrdMap.lookup, noted.latest id]
          own := fun id entry found => by
            rw [DiscoveryTable.onBeacon, OrdMap.find?_insert] at found
            split at found
            · rename_i same
              cases found
              exact ⟨same.symm, same ▸ other⟩
            · exact noted.own id entry found
          other := fun heard same => Option.mem_some.mp same ▸ other }
  | passes beacon place | remembers beacon place =>
      exact { noted with other := fun heard same =>
        Option.mem_some.mp same ▸ noted.other beacon (place ▸ rfl) }
  | moves beacon phase place same =>
      refine { noted with other := fun heard member => ?_ }
      rw [show phase.beacon = some beacon from same] at member
      exact Option.mem_some.mp member ▸ noted.other beacon (place ▸ rfl)
  | answers | rests => exact { noted with other := fun _ none_ => absurd none_ (Option.not_mem_none _) }

inductive Move (inetPton : Bytes → Option UInt32) (app : DiscoveryApp) : DiscoveryApp → Prop where
  | thread {after : DiscoveryApp} (move : ThreadMove inetPton app after) : Move inetPton app after
  | clears : Move inetPton app { app with discovered := .init, heard := [] }
  | shows (picker : Option DiscoveryPicker) (picked : Option Beacon) :
      Move inetPton app { app with picker, picked }
  | pairs (device : PairedDevice) :
      Move inetPton app
        { app with
          config := app.config.addDevice device
          addresses := (device.id, device.lastIp) :: app.addresses
          pairings := (device.id, device) :: app.pairings }

theorem refreshDiscoveryList_picker (app : DiscoveryApp) (now : UInt64) :
    ∃ picker, app.refreshDiscoveryList now = { app with picker } := by
  unfold refreshDiscoveryList
  split
  · exact ⟨app.picker, rfl⟩
  · exact ⟨_, rfl⟩

theorem step_move (app : DiscoveryApp) (action : DiscoveryAction) :
    Move inetPton app (DiscoveryApp.step inetPton action app) := by
  cases action with
  | thread input => exact .thread (threadStep_move app input)
  | clear => exact .clears
  | openPicker now =>
      obtain ⟨picker, same⟩ := refreshDiscoveryList_picker
        { app with picker := some ⟨[], none, none⟩, picked := none } now
      rw [DiscoveryApp.step, same]
      exact .shows picker none
  | refresh now =>
      obtain ⟨picker, same⟩ := refreshDiscoveryList_picker app now
      rw [DiscoveryApp.step, same]
      exact .shows picker app.picked
  | click row =>
      rw [DiscoveryApp.step]
      split
      · exact .shows app.picker app.picked
      · split
        · exact .shows app.picker app.picked
        · exact .shows _ app.picked
  | pick =>
      rw [DiscoveryApp.step]
      split
      · exact .shows app.picker app.picked
      · split
        · exact .shows app.picker app.picked
        · exact .shows none _
  | cancel => exact .shows none app.picked
  | paired device => exact .pairs device

theorem Noted.step (noted : Noted machine app) {after : DiscoveryApp} (move : Move inetPton app after) :
    Noted machine after := by
  cases move with
  | thread move => exact noted.thread move
  | clears =>
      exact { noted with
        latest := fun _ => rfl
        own := fun _ _ found => absurd found.symm (Option.some_ne_none _) }
  | shows | pairs => exact { noted with }

theorem Noted.mem_shown (noted : Noted machine app) {now : UInt64} {beacon : Beacon} :
    beacon ∈ app.shown now ↔ ∃ t, OrdMap.lookup beacon.machineId app.heard = some ⟨beacon, t⟩ ∧
      now - t < 6000 ∧ beacon.machineId ≠ machine ∧
      ∀ device ∈ app.config.devices, device.id ≠ beacon.machineId := by
  simp only [shown, DiscoveryTable.live, List.mem_filter, List.mem_map, Bool.not_eq_true',
    List.any_eq_false, beq_iff_eq, decide_eq_true_eq]
  constructor
  · rintro ⟨⟨⟨key, entry⟩, ⟨member, fresh⟩, rfl⟩, unpaired⟩
    have found := OrdMap.mem_entries.mp member
    obtain ⟨rfl, other⟩ := noted.own key entry found
    exact ⟨entry.lastSeen, (noted.latest _).symm.trans found, fresh, other, unpaired⟩
  · rintro ⟨t, found, fresh, _, unpaired⟩
    have member := OrdMap.mem_entries.mpr ((noted.latest beacon.machineId).trans found)
    exact ⟨⟨(beacon.machineId, ⟨beacon, t⟩), ⟨member, fresh⟩, rfl⟩, unpaired⟩

theorem Noted.shown_sorted (noted : Noted machine app) (now : UInt64) :
    ((app.shown now).map Beacon.machineId).Pairwise (· < ·) := by
  have ids : ∀ entry ∈ app.discovered.entries.entries, entry.2.beacon.machineId = entry.1 :=
    fun entry member => (noted.own entry.1 entry.2 (OrdMap.mem_entries.mp member)).1
  rw [List.pairwise_map]
  refine List.Pairwise.filter _ ?_
  rw [DiscoveryTable.live, List.pairwise_map]
  refine List.Pairwise.filter _ ?_
  exact app.discovered.entries.sorted.imp_of_mem fun left right below => by
    rw [ids _ left, ids _ right]
    exact below

theorem rowOf_some {items : List Beacon} {id : Bytes} {row : Nat} (found : rowOf items id = some row) :
    ∃ beacon, items[row]? = some beacon ∧ beacon.machineId = id := by
  unfold rowOf at found
  have hit := List.find?_some found
  obtain ⟨beacon, held, same⟩ := (Option.any_eq_true _ _).mp hit
  exact ⟨beacon, held, beq_iff_eq.mp same⟩

theorem rowOf_listed {items : List Beacon} {id : Bytes}
    (listed : (items.any fun beacon => beacon.machineId == id) = true) :
    ∃ row, rowOf items id = some row := by
  obtain ⟨beacon, member, same⟩ := List.any_eq_true.mp listed
  obtain ⟨row, bound, rfl⟩ := List.mem_iff_getElem.mp member
  refine Option.isSome_iff_exists.mp (List.find?_isSome.mpr ⟨row, ?_, ?_⟩)
  · rw [List.mem_reverse, List.mem_range]
    exact bound
  · rw [List.getElem?_eq_getElem bound]
    exact same

/-- The machine that was clicked is the one in the selected row. -/
def Selects (picker : DiscoveryPicker) : Prop :=
  ∀ id, picker.clicked = some id →
    ∃ row beacon, picker.selected = some row ∧ picker.items[row]? = some beacon ∧ beacon.machineId = id

theorem refresh_selects (selects : ∀ picker, app.picker = some picker → Selects picker) (now : UInt64) :
    ∀ picker, (app.refreshDiscoveryList now).picker = some picker → Selects picker := by
  intro after refreshed id clicked
  unfold refreshDiscoveryList at refreshed
  split at refreshed
  · rename_i none_
    rw [none_] at refreshed
    contradiction
  · rename_i picker open_
    cases refreshed
    dsimp only at clicked ⊢
    obtain ⟨before, listed⟩ := Option.filter_eq_some_iff.mp clicked
    obtain ⟨row, beacon, selected, held, rfl⟩ := selects picker open_ id before
    obtain ⟨next, found⟩ := rowOf_listed listed
    obtain ⟨latest, there, same⟩ := rowOf_some found
    refine ⟨next, latest, ?_, there, same⟩
    have selId : ((picker.selected.bind fun row => picker.items[row]?.map (·.machineId)).getD []) =
        beacon.machineId := by
      rw [selected, Option.bind_some, held]
      rfl
    rw [selId, found]

theorem step_selects (selects : ∀ picker, app.picker = some picker → Selects picker)
    (action : DiscoveryAction) :
    ∀ picker, (DiscoveryApp.step inetPton action app).picker = some picker → Selects picker := by
  cases action with
  | thread input =>
      intro picker open_
      exact selects picker ((threadStep_move app input).picker.symm.trans open_)
  | clear | paired => exact selects
  | openPicker now =>
      refine refresh_selects (fun picker opened id clicked => ?_) now
      cases opened
      contradiction
  | refresh now => exact refresh_selects selects now
  | click row =>
      rw [DiscoveryApp.step]
      split
      · exact selects
      · split
        · exact selects
        · rename_i picker open_ beacon held
          intro after same id clicked
          cases same
          cases clicked
          exact ⟨row, beacon, rfl, held, rfl⟩
  | pick =>
      rw [DiscoveryApp.step]
      split
      · exact selects
      · split
        · exact selects
        · intro _ closed
          contradiction
  | cancel =>
      intro _ closed
      contradiction

end DiscoveryApp

variable (inetPton : Bytes → Option UInt32) (self : PeerId) (config : Config)
  (actions : List DiscoveryAction)

def discoveryAfter : DiscoveryApp := exec (DiscoveryApp.step inetPton) (.init self config) actions

theorem discoveryAfter_concat (last : DiscoveryAction) :
    discoveryAfter inetPton self config (actions ++ [last]) =
      DiscoveryApp.step inetPton last (discoveryAfter inetPton self config actions) :=
  exec_concat _ _ _ _

theorem discoveryAfter_noted :
    DiscoveryApp.Noted self (discoveryAfter inetPton self config actions) := by
  induction actions using List.reverseRecOn with
  | nil =>
      exact
        { named := rfl
          latest := fun _ => rfl
          own := fun _ _ found => absurd found.symm (Option.some_ne_none _)
          other := fun _ none_ => absurd none_ (Option.not_mem_none _) }
  | append_singleton actions last ih =>
      rw [discoveryAfter_concat]
      exact ih.step (DiscoveryApp.step_move _ last)

theorem discoveryAfter_selects : ∀ picker,
    (discoveryAfter inetPton self config actions).picker = some picker → DiscoveryApp.Selects picker := by
  induction actions using List.reverseRecOn with
  | nil =>
      intro _ closed
      contradiction
  | append_singleton actions last ih =>
      rw [discoveryAfter_concat]
      exact DiscoveryApp.step_selects ih last

/-- A refresh lists, one row each and in the order of their ids, exactly the machines other
than this one that are not paired and whose latest beacon since the table was last cleared
is younger than six seconds, each as in this beacon. "Add device" clears the table, so a
machine is listed from its first beacon after that. -/
theorem picker_lists_fresh_machines (actions : List DiscoveryAction) (now : UInt64) :
    let app := discoveryAfter inetPton self config actions
    let refreshed := discoveryAfter inetPton self config (actions ++ [.refresh now])
    refreshed.picker.map DiscoveryPicker.items = app.picker.map (fun _ => app.shown now) ∧
      ((app.shown now).map Beacon.machineId).Pairwise (· < ·) ∧
      ∀ beacon, beacon ∈ app.shown now ↔
        ∃ t, OrdMap.lookup beacon.machineId app.heard = some ⟨beacon, t⟩ ∧ now - t < 6000 ∧
          beacon.machineId ≠ self ∧ ∀ device ∈ app.config.devices, device.id ≠ beacon.machineId := by
  intro app refreshed
  have noted := discoveryAfter_noted inetPton self config actions
  refine ⟨?_, noted.shown_sorted now, fun _ => noted.mem_shown⟩
  have step : refreshed = app.refreshDiscoveryList now :=
    discoveryAfter_concat inetPton self config actions (.refresh now)
  rw [step, DiscoveryApp.refreshDiscoveryList]
  split
  · rename_i closed
    rw [closed]
    rfl
  · rename_i open_
    rw [open_]
    rfl

/-- However often the list is made anew between a click and "Pair", and wherever the
clicked machine's row moves: as long as it has stayed in the list, it is the machine
that is dialed. -/
theorem pick_is_the_clicked_machine (actions : List DiscoveryAction) :
    let app := discoveryAfter inetPton self config actions
    let chosen := discoveryAfter inetPton self config (actions ++ [.pick])
    ∀ picker, app.picker = some picker → ∀ id, picker.clicked = some id →
      ∃ beacon ∈ picker.items, beacon.machineId = id ∧ chosen.picked = some beacon ∧
        chosen.picker = none := by
  intro app chosen picker open_ id clicked
  obtain ⟨row, beacon, selected, held, same⟩ :=
    discoveryAfter_selects inetPton self config actions picker open_ id clicked
  have step : chosen = { app with picker := none, picked := some beacon } := by
    refine (discoveryAfter_concat inetPton self config actions .pick).trans ?_
    rw [DiscoveryApp.step]
    rw [show (discoveryAfter inetPton self config actions).picker = some picker from open_]
    dsimp only
    rw [selected, Option.bind_some, held]
  rw [step]
  exact ⟨beacon, List.mem_of_getElem? held, same, rfl, rfl⟩

def fromMachine (id source : Bytes) : DiscoveryAction :=
  .thread ⟨9000, true, some (encodeBeacon ⟨id, id, [], kMeshPort, 0, 0⟩, source)⟩

def clicking : List DiscoveryAction :=
  [fromMachine [2] [7], .thread ⟨9000, true, none⟩, .thread ⟨9000, true, none⟩,
    .thread ⟨9000, true, none⟩, .thread ⟨9000, true, none⟩, fromMachine [3] [8],
    .thread ⟨9000, true, none⟩, .openPicker 9500, .click 1, .refresh 10000]

theorem clicked_then_picked : ∃ beacon, beacon.machineId = [3] ∧
    (discoveryAfter (fun _ => none) [1] .init (clicking ++ [.pick])).picked = some beacon := by
  have rows : (discoveryAfter (fun _ => none) [1] .init clicking).picker =
      some ⟨[⟨[2], [2], [7], kMeshPort, 0, 0⟩, ⟨[3], [3], [8], kMeshPort, 0, 0⟩], some 1, some [3]⟩ := by
    decide +kernel
  obtain ⟨beacon, _, same, picked, _⟩ :=
    pick_is_the_clicked_machine (fun _ => none) [1] .init clicking _ rows [3] rfl
  exact ⟨beacon, same, picked⟩

end Skittermouse.Platform

import Skittermouse.Data.Cooldown
import Skittermouse.Stored.PairedDevices
import Skittermouse.Threads.Discovery

namespace Skittermouse.Platform

open Skittermouse.Data Skittermouse.Core Skittermouse.Net

/-! # What a beacon changes

A beacon from a paired device moves its address and nothing else, and whoever sends
beacons gets few answers, all of them inside the local network.
-/

/-- The addresses of the private networks, of the local link and of the machine itself. -/
def LanAddress (address : UInt32) : Prop :=
  address.toNat / 2 ^ 24 = 10 ∨ address.toNat / 2 ^ 20 = 172 * 16 + 1 ∨
    address.toNat / 2 ^ 16 = 192 * 256 + 168 ∨ address.toNat / 2 ^ 16 = 169 * 256 + 254 ∨
    address.toNat / 2 ^ 24 = 127

theorem octet_toNat (address : UInt32) (shift : UInt32) (small : shift.toNat < 32) :
    (address >>> shift).toUInt8.toNat = address.toNat / 2 ^ shift.toNat % 256 := by
  rw [UInt32.toNat_toUInt8, UInt32.toNat_shiftRight, Nat.mod_eq_of_lt small, Nat.shiftRight_eq_div_pow]

theorem isPrivateAddr_iff (address : UInt32) : isPrivateAddr address = true ↔ LanAddress address := by
  have bound := address.toNat_lt
  have first := octet_toNat address 24 (by decide)
  have second := octet_toNat address 16 (by decide)
  rw [show UInt32.toNat 24 = 24 from rfl] at first
  rw [show UInt32.toNat 16 = 16 from rfl] at second
  simp only [isPrivateAddr, LanAddress, Bool.or_eq_true, Bool.and_eq_true, beq_iff_eq,
    decide_eq_true_eq, ← UInt8.toNat_inj, ge_iff_le, UInt8.le_iff_toNat_le, first, second]
  simp only [UInt8.reduceToNat]
  omega

theorem moved_id (beacon : Beacon) (device : PairedDevice) : (moved beacon device).id = device.id := by
  unfold moved
  split <;> rfl

theorem find?_moved (beacon : Beacon) (devices : List PairedDevice) (id : PeerId) :
    (devices.map (moved beacon)).find? (fun device => device.id == id) =
      (devices.find? fun device => device.id == id).map (moved beacon) := by
  rw [List.find?_map]
  refine congrArg (Option.map _) (congrArg (List.find? · devices) (funext fun device => ?_))
  rw [Function.comp_apply, moved_id]

theorem moved_own {beacon : Beacon} {device : PairedDevice} (own : device.id = beacon.machineId) :
    moved beacon device = { device with lastIp := beacon.ip } := by
  unfold moved
  by_cases same : device.lastIp = beacon.ip
  · rw [← same]
    simp
  · simp [stale, own, same]

theorem moved_other {beacon : Beacon} {device : PairedDevice} (other : device.id ≠ beacon.machineId) :
    moved beacon device = device := by
  simp [moved, stale, other]

namespace DiscoveryApp

variable {inetPton : Bytes → Option UInt32} {app : DiscoveryApp} {machine : PeerId} {config : Config}

/-- A device at this address, if there is one. -/
def movedTo (address : Option Bytes) (device : PairedDevice) : PairedDevice :=
  { device with lastIp := address.getD device.lastIp }

/-- Each device is as its pairing left it, at the address that came last. -/
def Follows (config : Config) (app : DiscoveryApp) : Prop :=
  ∀ id, app.config.findDevice id =
    ((OrdMap.lookup id app.pairings).or (config.findDevice id)).map
      (movedTo (OrdMap.lookup id app.addresses))

theorem Follows.moves (follows : Follows config app) (beacon : Beacon) (phase : DiscoveryPhase) :
    Follows config { app with
      config.devices := app.config.devices.map (moved beacon)
      addresses := (beacon.machineId, beacon.ip) :: app.addresses
      phase } := by
  intro id
  have before := follows id
  rw [Config.findDevice] at before ⊢
  rw [find?_moved, before, Option.map_map, OrdMap.lookup]
  dsimp only
  cases held : (OrdMap.lookup id app.pairings).or (config.findDevice id) with
  | none => rfl
  | some device =>
      rw [held] at before
      have hit := List.find?_some before
      have found : device.id = id := beq_iff_eq.mp hit
      rw [Option.map_some, Option.map_some, Function.comp_apply]
      split
      · rename_i own
        rw [moved_own (by exact found.trans own)]
        rfl
      · rename_i other
        rw [moved_other (by exact fun same => other (found.symm.trans same))]

theorem Follows.paired (follows : Follows config app) (device : PairedDevice) :
    Follows config { app with
      config := app.config.addDevice device
      addresses := (device.id, device.lastIp) :: app.addresses
      pairings := (device.id, device) :: app.pairings } := by
  intro id
  rw [Config.findDevice, Stored.addDevice_devices, find?_put, OrdMap.lookup, OrdMap.lookup]
  by_cases same : id = device.id
  · simp [same, movedTo]
  · rw [if_neg (by simpa using Ne.symm same), if_neg same, if_neg same]
    exact follows id

theorem Follows.thread (follows : Follows config app) {after : DiscoveryApp}
    (move : ThreadMove inetPton app after) : Follows config after := by
  cases move with
  | moves beacon phase => exact follows.moves beacon phase
  | _ => exact follows

/-- The answers that went out, as the throttle sees them. -/
def answered (app : DiscoveryApp) : List (PeerId × UInt64) :=
  app.sent.map fun reply => (reply.id, reply.now)

structure Answers (machine : PeerId) (app : DiscoveryApp) : Prop where
  named : app.self = machine
  remembers : ∀ id, (app.lastReply.find? id).getD 0 = (lastPass id app.replies).getD 0
  spaced : (∀ pass ∈ app.replies, pass.2 ≠ 0) → Spaced 700 app.replies
  within : app.answered.Sublist app.replies
  local_ : ∀ reply ∈ app.sent, isPrivateAddr reply.datagram.address = true ∧
    reply.datagram.packet = encodeBeacon (selfBeacon machine) ∧ reply.datagram.port = kDiscoveryPort

theorem sendBeaconTo_some {beacon : Beacon} {ip : Bytes} {port : UInt16} {datagram : Datagram}
    (sent : sendBeaconTo inetPton beacon ip port = some datagram) :
    isPrivateAddr datagram.address = true ∧ datagram.packet = encodeBeacon beacon ∧
      datagram.port = port := by
  unfold sendBeaconTo at sent
  split at sent
  · contradiction
  · split at sent
    · rename_i near
      cases sent
      exact ⟨near, rfl, rfl⟩
    · contradiction

theorem Answers.thread (answers : Answers machine app) {after : DiscoveryApp}
    (move : ThreadMove inetPton app after) : Answers machine after := by
  cases move with
  | answers beacon t sent due reply =>
      have remembers : ∀ id, ((app.lastReply.insert beacon.machineId t).find? id).getD 0 =
          (lastPass id ((beacon.machineId, t) :: app.replies)).getD 0 := fun id => by
        rw [OrdMap.find?_insert, lastPass]
        by_cases same : id = beacon.machineId
        · rw [if_pos same, if_pos same.symm]
        · rw [if_neg same, if_neg fun own => same own.symm]
          exact answers.remembers id
      have spaced : (∀ pass ∈ (beacon.machineId, t) :: app.replies, pass.2 ≠ 0) →
          Spaced 700 ((beacon.machineId, t) :: app.replies) := fun running => by
        refine ⟨fun last found => ?_,
          answers.spaced fun pass member => running pass (List.mem_cons_of_mem _ member)⟩
        rw [answers.remembers, found, Option.getD_some] at due
        exact due.resolve_left (running _ (List.mem_cons_of_mem _ (lastPass_mem found)))
      rcases reply with rfl | ⟨datagram, went, rfl⟩
      · exact { answers with remembers, spaced, within := answers.within.cons _ }
      · refine { answers with remembers, spaced, within := answers.within.cons_cons _, local_ := ?_ }
        intro reply member
        rcases List.mem_cons.mp member with rfl | earlier
        · exact answers.named ▸ sendBeaconTo_some went
        · exact answers.local_ reply earlier
  | rests beacon =>
      refine { answers with remembers := fun id => ?_ }
      rw [OrdMap.find?_insert]
      split
      · rename_i same
        rw [same, Option.getD_some, answers.remembers]
      · exact answers.remembers id
  | _ => exact { answers with }

theorem Follows.step (follows : Follows config app) {after : DiscoveryApp}
    (move : Move inetPton app after) : Follows config after := by
  cases move with
  | thread move => exact follows.thread move
  | pairs device => exact follows.paired device
  | clears | shows => exact follows

theorem Answers.step (answers : Answers machine app) {after : DiscoveryApp}
    (move : Move inetPton app after) : Answers machine after := by
  cases move with
  | thread move => exact answers.thread move
  | clears | shows | pairs => exact { answers with }

end DiscoveryApp

variable (inetPton : Bytes → Option UInt32) (self : PeerId) (config : Config)
  (actions : List DiscoveryAction)

theorem discoveryAfter_answers :
    DiscoveryApp.Answers self (discoveryAfter inetPton self config actions) := by
  induction actions using List.reverseRecOn with
  | nil =>
      exact
        { named := rfl
          remembers := fun _ => rfl
          spaced := fun _ => trivial
          within := List.Sublist.slnil
          local_ := fun _ member => absurd member List.not_mem_nil }
  | append_singleton actions last ih =>
      rw [discoveryAfter_concat]
      exact ih.step (DiscoveryApp.step_move _ last)

/-- Whatever beacons arrive, and from whomever: a device of the configuration is as it was
stored or paired last, but for its address, which is that of the latest beacon in its
name if one has come since. -/
theorem addresses_follow_beacons (id : PeerId) :
    let app := discoveryAfter inetPton self config actions
    app.config.findDevice id =
      ((OrdMap.lookup id app.pairings).or (config.findDevice id)).map fun device =>
        { device with lastIp := (OrdMap.lookup id app.addresses).getD device.lastIp } := by
  intro app
  have follows : DiscoveryApp.Follows config app := by
    show DiscoveryApp.Follows config (discoveryAfter inetPton self config actions)
    induction actions using List.reverseRecOn with
    | nil =>
        intro id
        exact Option.map_id'.symm
    | append_singleton actions last ih =>
        rw [discoveryAfter_concat]
        exact DiscoveryApp.Follows.step ih (DiscoveryApp.step_move _ last)
  exact follows id

/-- Our beacon is sent back to private addresses only. However fast beacons come in the
name of a machine, the answers to it have room for one more than a stretch of time has
windows of 700 ms, by a clock that does not run backwards; the source takes an answer at
zero for none. -/
theorem answers_bounded (id : PeerId) (start stop : UInt64) :
    let app := discoveryAfter inetPton self config actions
    (∀ reply ∈ app.sent, LanAddress reply.datagram.address ∧
      reply.datagram.packet = encodeBeacon (DiscoveryApp.selfBeacon self) ∧
      reply.datagram.port = kDiscoveryPort) ∧
    (InOrder app.replies → (∀ pass ∈ app.replies, pass.2 ≠ 0) →
      passesWithin id start stop app.answered * 700 ≤ (stop.toNat - start.toNat) + 700) := by
  intro app
  have answers := discoveryAfter_answers inetPton self config actions
  refine ⟨fun reply member => (answers.local_ reply member).imp_left (isPrivateAddr_iff _).mp,
    fun inOrder running => ?_⟩
  have fewer : passesWithin id start stop (discoveryAfter inetPton self config actions).answered ≤
      passesWithin id start stop (discoveryAfter inetPton self config actions).replies :=
    answers.within.countP_le
  have bound := (answers.spaced running).passesWithin_le inOrder id start stop
  rw [show UInt64.toNat 700 = 700 from rfl] at bound
  exact Nat.le_trans (Nat.mul_le_mul_right 700 fewer) bound

def flooding : List DiscoveryAction :=
  [9000, 9300].flatMap fun now =>
    .thread ⟨now, true, some (encodeBeacon ⟨[2], [2], [], kMeshPort, 0, 0⟩, [7])⟩ ::
      List.replicate 3 (.thread ⟨now, true, none⟩)

def onTheLan (_ : Bytes) : Option UInt32 := some 0x0A000007

theorem flooding_replies :
    (discoveryAfter onTheLan [1] .init flooding).replies = [([2], 9000)] := by
  decide +kernel

theorem one_answer_to_two_beacons :
    (discoveryAfter onTheLan [1] .init flooding).answered = [([2], 9000)] ∧
      passesWithin [2] 9000 9300 (discoveryAfter onTheLan [1] .init flooding).answered * 700 ≤
        (UInt64.toNat 9300 - UInt64.toNat 9000) + 700 := by
  have inOrder : InOrder (discoveryAfter onTheLan [1] .init flooding).replies := by
    rw [flooding_replies]
    exact ⟨fun _ member => absurd member List.not_mem_nil, trivial⟩
  have running : ∀ pass ∈ (discoveryAfter onTheLan [1] .init flooding).replies, pass.2 ≠ 0 := by
    rw [flooding_replies]
    decide
  have bounded := answers_bounded onTheLan [1] .init flooding [2] 9000 9300
  exact ⟨by decide +kernel, bounded.2 inOrder running⟩

end Skittermouse.Platform

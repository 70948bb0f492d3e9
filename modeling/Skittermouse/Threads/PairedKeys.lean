import Skittermouse.Stored.PairedDevices
import Skittermouse.Threads.Pairing
import Skittermouse.Threads.Reconnect

namespace Skittermouse.Platform

open Skittermouse.Data Skittermouse.Core Skittermouse.Net Skittermouse.Pairing

/-! # What pairing leaves behind

A key and a device are stored together, under the lock, and only for an exchange that
has ended well and whose code the user has confirmed. The discovery thread then moves
the device's address, and nothing else of it.
-/

variable {τ : Type} [Transport τ]

def AcceptPhase.run : AcceptPhase τ → Option (PairingRun τ)
  | .running run => some run
  | _ => none

def InitPhase.run : InitPhase τ → Option (Bytes × PairingRun τ)
  | .running host run => some (host, run)
  | _ => none

def withoutAddress (device : PairedDevice) : PairedDevice := { device with lastIp := [] }

theorem withoutAddress_moved (beacon : Beacon) (device : PairedDevice) :
    withoutAddress (moved beacon device) = withoutAddress device := by
  unfold moved
  split <;> rfl

namespace PairApp

variable {crypto : Crypto} {app : PairApp τ} {turn : PairTurn τ}

/-- An exchange of this machine that has ended well. -/
structure Ready (crypto : Crypto) (machine : PeerId) (exchange : PairingExchange τ) : Prop where
  status : exchange.status = .ok
  named : exchange.self = machine
  other : exchange.peerId ≠ machine
  key : exchange.handshake.derivePsk crypto machine exchange.peerId = some exchange.psk

/-- The exchange that is under way, wherever it stands; `said` holds of those whose code the
user has confirmed. -/
def Underway (crypto : Crypto) (machine : PeerId) (said : PairingExchange τ → Prop) :
    PairingRun τ → Prop
  | .connected _ => True
  | .exchanging exchange _ => exchange.status = .needMore ∧ exchange.self = machine
  | .confirming exchange => Ready crypto machine exchange
  | .confirmed exchange => Ready crypto machine exchange ∧ said exchange

variable {machine : PeerId} {exchange : PairingExchange τ} {said : PairingExchange τ → Prop}

theorem start_keeps (generated : Option EcdhKeyPair) (random : Bytes) :
    (exchange.start crypto generated random).2.status = exchange.status ∧
      (exchange.start crypto generated random).2.self = exchange.self := by
  unfold PairingExchange.start
  split
  · exact ⟨rfl, rfl⟩
  · cases generated with
    | none => exact ⟨rfl, rfl⟩
    | some pair =>
        simp only [EcdhHandshake.begin, PairingExchange.sendCommit]
        split
        · exact ⟨rfl, rfl⟩
        · split <;> exact ⟨rfl, rfl⟩

theorem takeCommit_keeps (going : exchange.status = .needMore) (data : Bytes) :
    (exchange.takeCommit data).status ≠ .ok ∧ (exchange.takeCommit data).self = exchange.self := by
  unfold PairingExchange.takeCommit
  split
  · exact ⟨PairingStatus.noConfusion, rfl⟩
  · dsimp only
    split
    · exact ⟨fun ok => PairingStatus.noConfusion (going.symm.trans ok), rfl⟩
    · exact ⟨PairingStatus.noConfusion, rfl⟩

omit [Transport τ] in
theorem takeReveal_ready (data : Bytes) :
    (exchange.takeReveal crypto data).self = exchange.self ∧
      ((exchange.takeReveal crypto data).status = .error ∨
        Ready crypto exchange.self (exchange.takeReveal crypto data)) := by
  unfold PairingExchange.takeReveal
  split
  · exact ⟨rfl, .inl rfl⟩
  · dsimp only
    split
    · exact ⟨rfl, .inl rfl⟩
    · rename_i other
      split
      · exact ⟨rfl, .inl rfl⟩
      · split
        · exact ⟨rfl, .inl rfl⟩
        · split
          · exact ⟨rfl, .inl rfl⟩
          · rename_i derived
            exact ⟨rfl, .inr ⟨rfl, rfl, other, derived⟩⟩

theorem poll_underway (going : exchange.status = .needMore) (named : exchange.self = machine) :
    (exchange.poll crypto).2.self = machine ∧
      (exchange.poll crypto).2.status = (exchange.poll crypto).1 ∧
      ((exchange.poll crypto).1 = .ok → Ready crypto machine (exchange.poll crypto).2) := by
  unfold PairingExchange.poll
  rw [if_neg (not_not.mpr going)]
  dsimp only
  generalize (Transport.recv exchange.transport PairingExchange.kBufferLen).1 = received
  generalize current : { exchange with
    transport := (Transport.recv exchange.transport PairingExchange.kBufferLen).2 } = polled
  have going : polled.status = .needMore := current ▸ going
  have named : polled.self = machine := current ▸ named
  clear current
  cases received with
  | none => exact ⟨named, rfl, PairingStatus.noConfusion⟩
  | some data =>
      cases data with
      | nil => exact ⟨named, rfl, fun ok => PairingStatus.noConfusion (going.symm.trans ok)⟩
      | cons first rest =>
          dsimp only
          split
          · obtain ⟨begun, same⟩ := takeCommit_keeps going (first :: rest)
            exact ⟨same.trans named, rfl, fun ok => absurd ok begun⟩
          · obtain ⟨same, ends⟩ := @takeReveal_ready _ crypto polled (first :: rest)
            refine ⟨same.trans named, rfl, fun ok => ?_⟩
            rw [named] at ends
            exact ends.resolve_left fun failed => PairingStatus.noConfusion (failed.symm.trans ok)

theorem runPairingSession_underway {run next : PairingRun τ}
    (underway : Underway crypto machine said run)
    (agrees : ∀ exchange, run = .confirming exchange → turn.agrees = true → said exchange)
    (goes : runPairingSession crypto machine turn run = some next) :
    Underway crypto machine said next := by
  cases run with
  | connected transport =>
      obtain ⟨status, named⟩ :=
        @start_keeps _ _ crypto (.create transport machine) turn.generated turn.random
      rw [runPairingSession] at goes
      split at goes
      · rename_i started
        cases goes
        rw [started] at status named
        exact ⟨status, named⟩
      · contradiction
  | exchanging exchange deadline =>
      obtain ⟨going, named⟩ := underway
      obtain ⟨same, status, ready⟩ := @poll_underway _ _ crypto machine
        { exchange with transport := turn.meanwhile exchange.transport } going named
      rw [runPairingSession] at goes
      split at goes
      · split at goes
        · rename_i polled
          cases goes
          rw [polled] at same status
          exact ⟨status, same⟩
        · rename_i polled
          cases goes
          rw [polled] at ready
          exact ready rfl
        · contradiction
      · contradiction
  | confirming exchange =>
      rw [runPairingSession] at goes
      split at goes
      · rename_i yes
        cases goes
        exact ⟨underway, agrees exchange rfl yes⟩
      · contradiction
  | confirmed exchange => contradiction

omit [Transport τ] in
theorem Underway.imp {more : PairingExchange τ → Prop} (later : ∀ exchange, said exchange → more exchange)
    {run : PairingRun τ} (underway : Underway crypto machine said run) :
    Underway crypto machine more run := by
  cases run with
  | confirmed exchange => exact underway.imp_right (later exchange)
  | _ => exact underway

/-- The key store and the devices are what the confirmed exchanges made of them. An exchange
is `agreed` on with the address that was dialed for it. -/
structure Recorded (crypto : Crypto) (machine : PeerId) (keys : KeyStore) (config : Config)
    (agreed : PairingExchange τ → Bytes → Prop) (app : PairApp τ) : Prop where
  named : app.self = machine
  keys : ∀ id, app.keys.getPsk id =
    ((app.confirmed.find? fun entry => entry.1.peerId == id).map fun entry => entry.1.psk).or
      (keys.getPsk id)
  devices : ∀ id, (app.config.findDevice id).map withoutAddress =
    (((app.confirmed.find? fun entry => entry.1.peerId == id).map fun entry =>
      pairedDevice entry.1.peerId entry.2).or (config.findDevice id)).map withoutAddress
  ready : ∀ entry ∈ app.confirmed, Ready crypto machine entry.1 ∧ agreed entry.1 entry.2
  accepting : ∀ run ∈ app.pairAcceptThread.run, Underway crypto machine (agreed · []) run
  dialing : ∀ call ∈ app.pairThread.run, Underway crypto machine (agreed · call.1) call.2

variable {keys : KeyStore} {config : Config} {agreed : PairingExchange τ → Bytes → Prop}

omit [Transport τ] in
theorem Recorded.imp (recorded : Recorded crypto machine keys config agreed app)
    {more : PairingExchange τ → Bytes → Prop}
    (later : ∀ exchange host, agreed exchange host → more exchange host) :
    Recorded crypto machine keys config more app :=
  { recorded with
    ready := fun entry member => (recorded.ready entry member).imp_right (later _ _)
    accepting := fun run runs => (recorded.accepting run runs).imp fun exchange => later exchange []
    dialing := fun call runs => (recorded.dialing call runs).imp fun exchange => later exchange call.1 }

omit [Transport τ] in
theorem Recorded.store (recorded : Recorded crypto machine keys config agreed app) {host : Bytes}
    (ready : Ready crypto machine exchange ∧ agreed exchange host) :
    Recorded crypto machine keys config agreed (app.store exchange host) where
  named := recorded.named
  keys id := by
    rw [PairApp.store, KeyStore.getPsk, KeyStore.setPsk, OrdMap.find?_insert, List.find?_cons]
    by_cases same : exchange.peerId = id
    · simp [same]
    · rw [if_neg (Ne.symm same), beq_false_of_ne same]
      exact recorded.keys id
  devices id := by
    rw [PairApp.store, Config.findDevice, Stored.addDevice_devices, find?_put, List.find?_cons]
    by_cases same : exchange.peerId = id
    · simp [same, pairedDevice]
    · rw [if_neg (by simpa [pairedDevice] using same), beq_false_of_ne same]
      exact recorded.devices id
  ready entry member := (List.mem_cons.mp member).elim (fun same => same ▸ ready) (recorded.ready entry)
  accepting := recorded.accepting
  dialing := recorded.dialing

omit [Transport τ] in
theorem Recorded.uiStep (recorded : Recorded crypto machine keys config agreed app) {after : PairApp τ}
    (move : app.UiMove after) : Recorded crypto machine keys config agreed after := by
  cases move with
  | launches => exact { recorded with accepting := fun _ runs => absurd runs (Option.not_mem_none _) }
  | dials => exact { recorded with dialing := fun _ runs => absurd runs (Option.not_mem_none _) }
  | _ => exact { recorded with }

theorem Recorded.acceptStep (recorded : Recorded crypto machine keys config agreed app)
    (agrees : ∀ exchange, app.pairAcceptThread = .running (.confirming exchange) →
      turn.agrees = true → agreed exchange [])
    {after : PairApp τ} (move : AcceptMove crypto app turn after) :
    Recorded crypto machine keys config agreed after := by
  cases move with
  | rests => exact recorded
  | looks phase _ idle =>
      refine { recorded with accepting := fun run runs => ?_ }
      cases phase <;> contradiction
  | engages transport =>
      exact { recorded with accepting := fun run runs => Option.mem_some.mp runs ▸ trivial }
  | stores exchange runs =>
      have ready : Ready crypto machine exchange ∧ agreed exchange [] :=
        recorded.accepting (.confirmed exchange) (runs ▸ rfl)
      exact { recorded.store ready with
        accepting := fun _ runs => absurd runs (Option.not_mem_none _) }
  | exchanges run next runs goes =>
      rw [recorded.named] at goes
      have underway := runPairingSession_underway (recorded.accepting _ (runs ▸ rfl))
        (fun exchange shown => agrees exchange (shown ▸ runs)) goes
      exact { recorded with accepting := fun run same => Option.mem_some.mp same ▸ underway }
  | returns | ends =>
      exact { recorded with accepting := fun _ runs => absurd runs (Option.not_mem_none _) }

theorem Recorded.initStep (recorded : Recorded crypto machine keys config agreed app)
    (agrees : ∀ exchange host, app.pairThread = .running host (.confirming exchange) →
      turn.agrees = true → agreed exchange host)
    {after : PairApp τ} (move : InitMove crypto app turn after) :
    Recorded crypto machine keys config agreed after := by
  cases move with
  | rests => exact recorded
  | dials phase _ dials =>
      refine { recorded with dialing := fun run runs => ?_ }
      cases phase <;> contradiction
  | connects host transport =>
      exact { recorded with dialing := fun run runs => Option.mem_some.mp runs ▸ trivial }
  | stores host exchange runs =>
      have ready : Ready crypto machine exchange ∧ agreed exchange host :=
        recorded.dialing (host, .confirmed exchange) (runs ▸ rfl)
      exact { recorded.store ready with
        dialing := fun _ runs => absurd runs (Option.not_mem_none _) }
  | exchanges host run next runs goes =>
      rw [recorded.named] at goes
      have underway := runPairingSession_underway (recorded.dialing (host, run) (runs ▸ rfl))
        (fun exchange shown => agrees exchange host (shown ▸ runs)) goes
      exact { recorded with dialing := fun run same => Option.mem_some.mp same ▸ underway }
  | yields | engages | returns | ends =>
      exact { recorded with dialing := fun _ runs => absurd runs (Option.not_mem_none _) }

omit [Transport τ] in
theorem Recorded.reconnect (recorded : Recorded crypto machine keys config agreed app)
    (beacon : Beacon) : Recorded crypto machine keys config agreed (app.reconnect beacon) := by
  unfold PairApp.reconnect
  split
  · exact recorded
  · refine { recorded with devices := fun id => ?_ }
    rw [← recorded.devices id, Config.findDevice, Config.findDevice, find?_moved, Option.map_map]
    exact congrArg (Option.map · _) (funext (withoutAddress_moved beacon))

end PairApp

variable (crypto : Crypto) (self : PeerId) (keys : KeyStore) (config : Config)
  (actions : List (PairAction τ))

/-- While the code of the exchange was shown, the user has said that the other machine
shows the same. The address is the one dialed, or empty where the other machine dialed us. -/
def CodeConfirmed (exchange : PairingExchange τ) (host : Bytes) : Prop :=
  ∃ earlier turn, turn.agrees = true ∧
    ((earlier ++ [.accept turn] <+: actions ∧ host = [] ∧
        (pairAfter crypto self keys config earlier).pairAcceptThread = .running (.confirming exchange)) ∨
      (earlier ++ [.init turn] <+: actions ∧
        (pairAfter crypto self keys config earlier).pairThread = .running host (.confirming exchange)))

variable {crypto self keys config actions} in
theorem CodeConfirmed.concat {exchange : PairingExchange τ} {host : Bytes}
    (confirmed : CodeConfirmed crypto self keys config actions exchange host) (last : PairAction τ) :
    CodeConfirmed crypto self keys config (actions ++ [last]) exchange host := by
  obtain ⟨earlier, turn, agrees, place⟩ := confirmed
  refine ⟨earlier, turn, agrees, place.imp ?_ ?_⟩
  all_goals exact And.imp_left fun before => before.trans (List.prefix_append _ _)

theorem pairAfter_recorded :
    PairApp.Recorded crypto self keys config (CodeConfirmed crypto self keys config actions)
      (pairAfter crypto self keys config actions) := by
  induction actions using List.reverseRecOn with
  | nil =>
      exact
        { named := rfl
          keys := fun _ => rfl
          devices := fun _ => rfl
          ready := fun _ member => absurd member List.not_mem_nil
          accepting := fun _ runs => absurd runs (Option.not_mem_none _)
          dialing := fun _ runs => absurd runs (Option.not_mem_none _) }
  | append_singleton actions last ih =>
      have before := ih.imp fun _ _ confirmed => confirmed.concat last
      rw [pairAfter_concat]
      cases last with
      | ui event => exact before.uiStep (PairApp.uiStep_move _ event)
      | accept turn =>
          exact before.acceptStep
            (fun _ shown agrees => ⟨actions, turn, agrees, .inl ⟨List.prefix_rfl, rfl, shown⟩⟩)
            (PairApp.acceptStep_move crypto _ turn)
      | init turn =>
          exact before.initStep
            (fun _ _ shown agrees => ⟨actions, turn, agrees, .inr ⟨List.prefix_rfl, shown⟩⟩)
            (PairApp.initStep_move crypto _ turn)
      | refresh beacon => exact before.reconnect beacon

/-- Key store and devices hold what they held before, and over it what the latest
exchange with each machine has agreed on, the devices up to their address, which beacons
move: all of these exchanges have ended well, with another machine, and the user has
confirmed the code that was shown for them. -/
theorem pairings_are_confirmed (actions : List (PairAction τ)) :
    let app := pairAfter crypto self keys config actions
    (∀ entry ∈ app.confirmed, CodeConfirmed crypto self keys config actions entry.1 entry.2 ∧
      entry.1.status = .ok ∧ entry.1.peerId ≠ self ∧
      entry.1.handshake.derivePsk crypto self entry.1.peerId = some entry.1.psk) ∧
    ∀ id,
      let latest := app.confirmed.find? fun entry => entry.1.peerId == id
      app.keys.getPsk id = (latest.map fun entry => entry.1.psk).or (keys.getPsk id) ∧
        (app.config.findDevice id).map withoutAddress =
          ((latest.map fun entry => pairedDevice entry.1.peerId entry.2).or
            (config.findDevice id)).map withoutAddress := by
  intro app
  have recorded := pairAfter_recorded crypto self keys config actions
  refine ⟨fun entry member => ?_, fun id => ⟨recorded.keys id, recorded.devices id⟩⟩
  obtain ⟨ready, confirmed⟩ := recorded.ready entry member
  exact ⟨confirmed, ready.status, ready.other, ready.key⟩

end Skittermouse.Platform

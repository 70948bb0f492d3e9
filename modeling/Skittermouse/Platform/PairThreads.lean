import Mathlib.Data.List.DropRight
import Skittermouse.Core.Config
import Skittermouse.Pairing.KeyStore
import Skittermouse.Pairing.PairingExchange
import Skittermouse.Platform.DiscoveryThread

namespace Skittermouse.Platform

open Skittermouse.Data Skittermouse.Core Skittermouse.Net Skittermouse.Pairing

/-! # The pairing threads

"Add device" starts a session. One thread waits until the other machine connects,
and when the user picks a machine another one dials it; whichever is first
runs the exchange. They share two atomic flags with the UI thread. One step of a
thread goes from one access to something shared, or from one blocking call, to the
next.
-/

inductive PairingRun (τ : Type) where
  | connected (transport : τ)
  | exchanging (exchange : PairingExchange τ) (deadline : UInt64)
  | confirming (exchange : PairingExchange τ)
  | confirmed (exchange : PairingExchange τ)

/-- What the system and the user answer in one step of a thread. -/
structure PairTurn (τ : Type) where
  now : UInt64
  raw : Option τ
  /-- What has become of the transport meanwhile. -/
  meanwhile : τ → τ
  generated : Option EcdhKeyPair
  random : Bytes
  agrees : Bool

inductive AcceptPhase (τ : Type) where
  | finished
  /-- About to load `pairingActive`, and then `pairEngaged`. -/
  | top
  | looking
  | waiting
  | running (run : PairingRun τ)
  | ending

inductive InitPhase (τ : Type) where
  | finished
  | starting (host : Bytes)
  | trying (host : Bytes) (deadline : UInt64)
  | connecting (host : Bytes) (deadline : UInt64)
  | running (host : Bytes) (run : PairingRun τ)
  | ending

/-- Where the handler of "Add device" stands in the UI thread. -/
inductive AddDevice where
  | messages
  | joinAccept
  | joinInit
  | clearing
  | activating
  | launching
  | opening
  /-- The picker has returned this address, or none. -/
  | picked (ip : Bytes)
  | ending
deriving DecidableEq

inductive UiEvent where
  | addDevice
  | closed (ip : Bytes)
  | noWindow
  | proceed
deriving DecidableEq

structure PairApp (τ : Type) where
  self : PeerId
  pairingActive : Bool
  pairEngaged : Bool
  keys : KeyStore
  config : Config
  ui : AddDevice
  /-- The pickers that are open; the handler of each is at rest below the next. -/
  pickers : Nat
  pairAcceptThread : AcceptPhase τ
  pairThread : InitPhase τ
  /-- The exchanges begun since `pairEngaged` was cleared. -/
  begun : Nat
  /-- The exchanges that the user has confirmed with the addresses dialed, newest first. -/
  confirmed : List (PairingExchange τ × Bytes)

inductive PairAction (τ : Type) where
  | ui (event : UiEvent)
  | accept (turn : PairTurn τ)
  | init (turn : PairTurn τ)
  /-- `discoveryProc` has come to the reconnect refresh for this beacon. -/
  | refresh (beacon : Beacon)

/-- Blanks and line ends go from the end, blanks from the front. -/
def trimHost (host : Bytes) : Bytes :=
  (host.rdropWhile fun byte => byte == 32 || byte == 13 || byte == 10).dropWhile fun byte => byte == 32

/-- The device of an exchange; the address is known where we dialed. -/
def pairedDevice (id : PeerId) (initiatedHost : Bytes) : PairedDevice :=
  { id, name := id, lastIp := initiatedHost, port := kMeshPort
    os := textOf "windows"
    wolCapable := false, mac := [] }

namespace PairApp

variable {τ : Type}

def init (self : PeerId) (keys : KeyStore) (config : Config) : PairApp τ :=
  { self, pairingActive := false, pairEngaged := false, keys, config, ui := .messages, pickers := 0
    pairAcceptThread := .finished, pairThread := .finished, begun := 0, confirmed := [] }

/-- The user has confirmed: under the lock, the key and the device. -/
def store (app : PairApp τ) (exchange : PairingExchange τ) (initiatedHost : Bytes) : PairApp τ :=
  { app with
    keys := app.keys.setPsk exchange.peerId exchange.psk
    config := app.config.addDevice (pairedDevice exchange.peerId initiatedHost)
    confirmed := (exchange, initiatedHost) :: app.confirmed }

def uiStep (app : PairApp τ) (event : UiEvent) : PairApp τ :=
  match app.ui with
  | .messages => match event with
    | .addDevice => if app.pairingActive then app else { app with ui := .joinAccept }
    | .closed ip => match app.pickers with
      | 0 => app
      | pickers + 1 => { app with pickers, ui := .picked ip }
    | _ => app
  | .joinAccept => match app.pairAcceptThread with
    | .finished => { app with ui := .joinInit }
    | _ => app
  | .joinInit => match app.pairThread with
    | .finished => { app with ui := .clearing }
    | _ => app
  | .clearing => { app with pairEngaged := false, begun := 0, ui := .activating }
  | .activating => { app with pairingActive := true, ui := .launching }
  | .launching => { app with pairAcceptThread := .top, ui := .opening }
  | .opening =>
      if event = .noWindow then { app with ui := .picked [] }
      else { app with pickers := app.pickers + 1, ui := .messages }
  | .picked ip =>
      if ip.isEmpty then
        -- Cancelled: the session ends here unless a caller has been accepted.
        if app.pairEngaged then { app with ui := .messages } else { app with ui := .ending }
      else match app.pairThread with
        | .finished => { app with pairThread := .starting ip, ui := .messages }
        | _ => app
  | .ending => { app with pairingActive := false, ui := .messages }

variable [Transport τ]

/-- One step of `runPairingSession`, or nothing where it returns. -/
def runPairingSession (crypto : Crypto) (self : PeerId) (turn : PairTurn τ) :
    PairingRun τ → Option (PairingRun τ)
  | .connected transport =>
      match (PairingExchange.create transport self).start crypto turn.generated turn.random with
      | (true, exchange) => some (.exchanging exchange (turn.now + 30000))
      | (false, _) => none
  | .exchanging exchange deadline =>
      let exchange := { exchange with transport := turn.meanwhile exchange.transport }
      if turn.now < deadline then
        match exchange.poll crypto with
        | (.needMore, exchange) => some (.exchanging exchange deadline)
        | (.ok, exchange) => some (.confirming exchange)
        | (.error, _) => none
      else none
  | .confirming exchange => if turn.agrees then some (.confirmed exchange) else none
  | .confirmed _ => none

def acceptStep (crypto : Crypto) (app : PairApp τ) (turn : PairTurn τ) : PairApp τ :=
  match app.pairAcceptThread with
  | .finished => app
  | .top =>
      if app.pairingActive then { app with pairAcceptThread := .looking }
      else { app with pairAcceptThread := .finished }
  | .looking =>
      if app.pairEngaged then { app with pairAcceptThread := .finished }
      else { app with pairAcceptThread := .waiting }
  | .waiting => match turn.raw with
    | none => { app with pairAcceptThread := .top }
    | some transport =>
        if app.pairEngaged then { app with pairAcceptThread := .finished } -- we already initiated
        else
          { app with
            pairEngaged := true
            begun := app.begun + 1
            pairAcceptThread := .running (.connected transport) }
  | .running (.confirmed exchange) => { app.store exchange [] with pairAcceptThread := .ending }
  | .running run => match runPairingSession crypto app.self turn run with
    | some run => { app with pairAcceptThread := .running run }
    | none => { app with pairAcceptThread := .ending }
  | .ending => { app with pairingActive := false, pairAcceptThread := .finished }

def initStep (crypto : Crypto) (app : PairApp τ) (turn : PairTurn τ) : PairApp τ :=
  match app.pairThread with
  | .finished => app
  | .starting host =>
      if app.pairEngaged then { app with pairThread := .finished } -- an inbound pairing already won
      else
        { app with
          pairEngaged := true
          pairThread := .trying (trimHost host) (turn.now + 15000) }
  | .trying host deadline =>
      if turn.now < deadline ∧ app.pairingActive = true then
        { app with pairThread := .connecting host deadline }
      else { app with pairThread := .ending }
  | .connecting host deadline => match turn.raw with
    | none => { app with pairThread := .trying host deadline }
    | some transport =>
        { app with begun := app.begun + 1, pairThread := .running host (.connected transport) }
  | .running host (.confirmed exchange) => { app.store exchange host with pairThread := .ending }
  | .running host run => match runPairingSession crypto app.self turn run with
    | some run => { app with pairThread := .running host run }
    | none => { app with pairThread := .ending }
  | .ending => { app with pairingActive := false, pairThread := .finished }

/-- The devices are shared with the discovery thread, which moves their addresses. -/
def reconnect (app : PairApp τ) (beacon : Beacon) : PairApp τ :=
  if beacon.ip.isEmpty then app
  else { app with config.devices := app.config.devices.map (moved beacon) }

def step (crypto : Crypto) : PairAction τ → PairApp τ → PairApp τ
  | .ui event, app => app.uiStep event
  | .accept turn, app => app.acceptStep crypto turn
  | .init turn, app => app.initStep crypto turn
  | .refresh beacon, app => app.reconnect beacon

end PairApp

end Skittermouse.Platform

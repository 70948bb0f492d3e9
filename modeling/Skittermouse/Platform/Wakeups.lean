import Skittermouse.Core.Config
import Skittermouse.Data.Exec
import Skittermouse.Net.FilePromiseAnnounce
import Skittermouse.Pairing.KeyStore
import Skittermouse.Platform.FilePull

namespace Skittermouse.Platform

open Skittermouse.Data Skittermouse.Core Skittermouse.Net Skittermouse.Pairing

/-! # What one thread asks another to do

The ticker asks the UI thread to pump, and the UI thread asks the OLE thread to put
file promises on the clipboard. Each step below is what a thread does before another
may come in between.
-/

inductive TickerPhase where
  | waiting
  /-- It has set `pumpScheduled`. -/
  | posting
deriving DecidableEq

inductive PumpPhase where
  | messages
  | taken
  /-- `pumpScheduled` is false again. -/
  | cleared
deriving DecidableEq

structure PumpApp where
  pumpScheduled : Bool
  ticker : TickerPhase
  posted : Nat
  ui : PumpPhase
  /-- The ticks so far, and how many of them came before the latest pump began. -/
  ticks : Nat
  pumped : Nat
  refused : Bool
deriving DecidableEq

inductive PumpAction where
  | tick
  | post (works : Bool)
  | take
  | clear
  | pump
  | timer
deriving DecidableEq

namespace PumpApp

def init : PumpApp :=
  { pumpScheduled := false, ticker := .waiting, posted := 0, ui := .messages, ticks := 0, pumped := 0
    refused := false }

def step : PumpAction → PumpApp → PumpApp
  | .tick, app => match app.ticker with
    | .posting => app
    | .waiting =>
        let ticked := { app with ticks := app.ticks + 1 }
        if app.pumpScheduled then ticked
        else { ticked with pumpScheduled := true, ticker := .posting }
  | .post works, app => match app.ticker with
    | .waiting => app
    | .posting =>
        if works then { app with ticker := .waiting, posted := app.posted + 1 }
        else { app with ticker := .waiting, refused := true }
  | .take, app =>
      if app.ui = .messages ∧ app.posted ≠ 0 then { app with posted := app.posted - 1, ui := .taken }
      else app
  | .clear, app => if app.ui = .taken then { app with pumpScheduled := false, ui := .cleared } else app
  | .pump, app => if app.ui = .cleared then { app with ui := .messages, pumped := app.ticks } else app
  | .timer, app => if app.ui = .messages then { app with pumped := app.ticks } else app

end PumpApp

/-- What the source of a promise needs to pull its bytes. -/
structure PromiseRequest (τ : Type) where
  files : List FilePromiseItem
  sourceId : PeerId
  psk : Option Psk
  session : FilePullSession τ

inductive AnnouncePhase where
  | messages
  | pushed
deriving DecidableEq

/-- The OLE thread. -/
inductive OlePhase (τ : Type) where
  | waiting
  /-- The event has ended its wait, and is reset. -/
  | woken
  | putting (batch : List (PromiseRequest τ))

structure PromiseApp (τ : Type) where
  peerIp : OrdMap PeerId Bytes
  devices : List PairedDevice
  keys : KeyStore
  promiseQueue : List (PromiseRequest τ)
  promiseEvent : Bool
  ui : AnnouncePhase
  thread : OlePhase τ
  /-- The requests made, and those given to `putFilePromiseOnClipboard`, oldest first. -/
  announced : List (PromiseRequest τ)
  offered : List (PromiseRequest τ)

inductive PromiseAction where
  | announce (sender : PeerId) (files : List FilePromiseItem)
  | setEvent
  | wake
  | swap
  | put
  /-- Other threads have changed what is known about the peers. -/
  | store (peerIp : OrdMap PeerId Bytes) (devices : List PairedDevice) (keys : KeyStore)

namespace PromiseApp

variable {τ : Type}

def init (τ : Type) (devices : List PairedDevice) (keys : KeyStore) : PromiseApp τ :=
  { peerIp := ∅, devices, keys, promiseQueue := [], promiseEvent := false, ui := .messages
    thread := .waiting, announced := [], offered := [] }

/-- Where the peer was last connected, or else where it is stored to be. -/
def sourceIp (app : PromiseApp τ) (sender : PeerId) : Bytes :=
  match (app.peerIp.find? sender).getD [] with
  | [] => app.devices.foldl (fun ip device => if device.id = sender then device.lastIp else ip) []
  | ip => ip

def request (app : PromiseApp τ) (sender : PeerId) (files : List FilePromiseItem) : PromiseRequest τ :=
  { files, sourceId := sender, psk := app.keys.getPsk sender
    session := .init τ (app.sourceIp sender) (app.keys.getPsk sender).isSome }

def onRemoteFilePromiseUi (app : PromiseApp τ) (sender : PeerId) (files : List FilePromiseItem) :
    PromiseApp τ :=
  if files.isEmpty then app
  else
    let request := app.request sender files
    { app with
      promiseQueue := app.promiseQueue ++ [request]
      ui := .pushed
      announced := app.announced ++ [request] }

def step : PromiseAction → PromiseApp τ → PromiseApp τ
  | .announce sender files, app => match app.ui with
    | .pushed => app
    | .messages => app.onRemoteFilePromiseUi sender files
  | .setEvent, app => match app.ui with
    | .messages => app
    | .pushed => { app with promiseEvent := true, ui := .messages }
  | .wake, app => match app.thread with
    | .waiting => if app.promiseEvent then { app with promiseEvent := false, thread := .woken } else app
    | .woken | .putting _ => app
  | .swap, app => match app.thread with
    | .woken => { app with thread := .putting app.promiseQueue, promiseQueue := [] }
    | .waiting | .putting _ => app
  | .put, app => match app.thread with
    | .putting [] => { app with thread := .waiting }
    | .putting (request :: batch) =>
        { app with thread := .putting batch, offered := app.offered ++ [request] }
    | .waiting | .woken => app
  | .store peerIp devices keys, app => { app with peerIp, devices, keys }

end PromiseApp

end Skittermouse.Platform

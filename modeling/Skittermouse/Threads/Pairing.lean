import Skittermouse.Data.Exec
import Skittermouse.Platform.PairThreads

namespace Skittermouse.Platform

open Skittermouse.Data Skittermouse.Core Skittermouse.Net Skittermouse.Pairing

/-! # One exchange for each session

`pairEngaged` lets one of the two threads of a session have the exchange, and
whichever has it ends the session. A session therefore never runs two exchanges, which
would derive two keys, and never stays open when nobody works for it any more.
-/

variable {τ : Type} [Transport τ]

/-- The thread has won `pairEngaged` and has not ended the session yet. -/
def AcceptPhase.engages : AcceptPhase τ → Bool
  | .running _ | .ending => true
  | _ => false

def AcceptPhase.looks : AcceptPhase τ → Bool
  | .top | .looking | .waiting => true
  | _ => false

def AcceptPhase.exchanges : AcceptPhase τ → Bool
  | .running _ => true
  | _ => false

def InitPhase.engages : InitPhase τ → Bool
  | .trying _ _ | .connecting _ _ | .running _ _ | .ending => true
  | _ => false

def InitPhase.exchanges : InitPhase τ → Bool
  | .running _ _ => true
  | _ => false

def InitPhase.dials : InitPhase τ → Bool
  | .trying _ _ | .connecting _ _ => true
  | _ => false

/-- The thread has been started for a pick and has not looked at `pairEngaged` yet. -/
def InitPhase.starts : InitPhase τ → Bool
  | .starting _ => true
  | _ => false

/-- A handler that has opened the session and may still end it, or have a machine dialed. -/
def AddDevice.decides : AddDevice → Bool
  | .launching | .opening | .picked _ | .ending => true
  | _ => false

omit [Transport τ] in
theorem AcceptPhase.engages_of_looks {phase : AcceptPhase τ} (looks : phase.looks = true) :
    phase.engages = false := by
  cases phase <;> first | rfl | contradiction

omit [Transport τ] in
theorem AcceptPhase.going {phase : AcceptPhase τ} (runs : phase.looks = true ∨ phase.engages = true) :
    phase ≠ .finished := by
  rintro rfl
  exact runs.elim Bool.false_ne_true Bool.false_ne_true

omit [Transport τ] in
theorem InitPhase.going {phase : InitPhase τ} (runs : phase.starts = true ∨ phase.engages = true) :
    phase ≠ .finished := by
  rintro rfl
  exact runs.elim Bool.false_ne_true Bool.false_ne_true

omit [Transport τ] in
theorem InitPhase.engages_of_dials {phase : InitPhase τ} (dials : phase.dials = true) :
    phase.engages = true := by
  cases phase <;> first | rfl | contradiction

namespace PairApp

variable {crypto : Crypto} {app : PairApp τ} {turn : PairTurn τ}

/-- Somebody may still end the session, or have a machine dialed. -/
def Pending (app : PairApp τ) : Prop :=
  0 < app.pickers ∨ app.ui.decides = true ∨ app.pairThread.starts = true

/-- How far a session is. -/
inductive Stage (app : PairApp τ) : Prop where
  | offered (free : app.pairEngaged = false) (accepting : app.pairAcceptThread.engages = false)
      (dialing : app.pairThread.engages = false) (none : app.begun = 0)
      (pending : app.pairingActive = true → app.Pending)
  | accepted (engaged : app.pairEngaged = true) (accepting : app.pairAcceptThread.engages = true)
      (dialing : app.pairThread.engages = false) (one : app.begun = 1)
  | dialed (engaged : app.pairEngaged = true) (accepting : app.pairAcceptThread.engages = false)
      (dialing : app.pairThread.engages = true) (most : app.begun ≤ 1)
      (unbegun : app.pairThread.dials = true → app.begun = 0)
  | closed (engaged : app.pairEngaged = true) (accepting : app.pairAcceptThread.engages = false)
      (dialing : app.pairThread.engages = false) (most : app.begun ≤ 1)
      (ended : app.pairingActive = false)

/-- What the handler of "Add device" knows where it stands. -/
def Known (app : PairApp τ) : Prop :=
  match app.ui with
  | .joinAccept => app.pairingActive = false
  | .joinInit => app.pairingActive = false ∧ app.pairAcceptThread = .finished
  | .clearing =>
      app.pairingActive = false ∧ app.pairAcceptThread = .finished ∧ app.pairThread = .finished
  | .activating =>
      app.pairEngaged = false ∧ app.pairAcceptThread = .finished ∧ app.pairThread = .finished ∧
        app.pairingActive = false
  | .launching =>
      app.pairEngaged = false ∧ app.pairAcceptThread = .finished ∧ app.pairThread = .finished
  | _ => True

inductive UiMove (app : PairApp τ) : PairApp τ → Prop where
  | rests : UiMove app app
  | begins (place : app.ui = .messages) (idle : app.pairingActive = false) :
      UiMove app { app with ui := .joinAccept }
  | closes (place : app.ui = .messages) (pickers : Nat) (ip : Bytes) :
      UiMove app { app with pickers, ui := .picked ip }
  | joinsAccept (place : app.ui = .joinAccept) (finished : app.pairAcceptThread = .finished) :
      UiMove app { app with ui := .joinInit }
  | joinsInit (place : app.ui = .joinInit) (finished : app.pairThread = .finished) :
      UiMove app { app with ui := .clearing }
  | clears (place : app.ui = .clearing) :
      UiMove app { app with pairEngaged := false, begun := 0, ui := .activating }
  | activates (place : app.ui = .activating) :
      UiMove app { app with pairingActive := true, ui := .launching }
  | launches (place : app.ui = .launching) :
      UiMove app { app with pairAcceptThread := .top, ui := .opening }
  | noWindow (place : app.ui = .opening) : UiMove app { app with ui := .picked [] }
  | opens (place : app.ui = .opening) :
      UiMove app { app with pickers := app.pickers + 1, ui := .messages }
  | leaves (ip : Bytes) (place : app.ui = .picked ip) (engaged : app.pairEngaged = true) :
      UiMove app { app with ui := .messages }
  | cancels (ip : Bytes) (place : app.ui = .picked ip) : UiMove app { app with ui := .ending }
  | dials (ip : Bytes) (place : app.ui = .picked ip) (finished : app.pairThread = .finished) :
      UiMove app { app with pairThread := .starting ip, ui := .messages }
  | ends (place : app.ui = .ending) : UiMove app { app with pairingActive := false, ui := .messages }

omit [Transport τ] in
theorem uiStep_move (app : PairApp τ) (event : UiEvent) : UiMove app (app.uiStep event) := by
  unfold PairApp.uiStep
  split
  · rename_i place
    split
    · split
      · exact .rests
      · exact .begins place (Bool.eq_false_of_not_eq_true ‹_›)
    · split
      · exact .rests
      · exact .closes place _ _
    · exact .rests
  · split
    · exact .joinsAccept ‹_› ‹_›
    · exact .rests
  · split
    · exact .joinsInit ‹_› ‹_›
    · exact .rests
  · exact .clears ‹_›
  · exact .activates ‹_›
  · exact .launches ‹_›
  · split
    · exact .noWindow ‹_›
    · exact .opens ‹_›
  · rename_i ip place
    split
    · split
      · exact .leaves ip place ‹_›
      · exact .cancels ip place
    · split
      · exact .dials ip place ‹_›
      · exact .rests
  · exact .ends ‹_›

omit [Transport τ] in
theorem UiMove.startsAccept {after : PairApp τ} (move : app.UiMove after)
    (started : after.pairAcceptThread ≠ app.pairAcceptThread) : app.ui = .launching := by
  cases move with
  | launches place => exact place
  | _ => exact absurd rfl started

omit [Transport τ] in
theorem UiMove.startsDial {after : PairApp τ} (move : app.UiMove after)
    (started : after.pairThread ≠ app.pairThread) : app.pairThread = .finished := by
  cases move with
  | dials ip place finished => exact finished
  | _ => exact absurd rfl started

inductive AcceptMove (crypto : Crypto) (app : PairApp τ) (turn : PairTurn τ) : PairApp τ → Prop where
  | rests : AcceptMove crypto app turn app
  | looks (phase : AcceptPhase τ) (before : app.pairAcceptThread.looks = true)
      (after : phase.engages = false) :
      AcceptMove crypto app turn { app with pairAcceptThread := phase }
  | engages (transport : τ) (free : app.pairEngaged = false) (waits : app.pairAcceptThread = .waiting) :
      AcceptMove crypto app turn
        { app with
          pairEngaged := true
          begun := app.begun + 1
          pairAcceptThread := .running (.connected transport) }
  | stores (exchange : PairingExchange τ)
      (runs : app.pairAcceptThread = .running (.confirmed exchange)) :
      AcceptMove crypto app turn { app.store exchange [] with pairAcceptThread := .ending }
  | exchanges (run next : PairingRun τ) (runs : app.pairAcceptThread = .running run)
      (goes : runPairingSession crypto app.self turn run = some next) :
      AcceptMove crypto app turn { app with pairAcceptThread := .running next }
  | returns (run : PairingRun τ) (runs : app.pairAcceptThread = .running run) :
      AcceptMove crypto app turn { app with pairAcceptThread := .ending }
  | ends (runs : app.pairAcceptThread = .ending) :
      AcceptMove crypto app turn { app with pairingActive := false, pairAcceptThread := .finished }

theorem acceptStep_move (crypto : Crypto) (app : PairApp τ) (turn : PairTurn τ) :
    AcceptMove crypto app turn (app.acceptStep crypto turn) := by
  unfold PairApp.acceptStep
  cases place : app.pairAcceptThread with
  | finished => exact .rests
  | top => dsimp only; split <;> exact .looks _ (place ▸ rfl) rfl
  | looking => dsimp only; split <;> exact .looks _ (place ▸ rfl) rfl
  | waiting =>
      cases turn.raw with
      | none => exact .looks _ (place ▸ rfl) rfl
      | some transport =>
          dsimp only
          split
          · exact .looks _ (place ▸ rfl) rfl
          · exact .engages transport (Bool.eq_false_of_not_eq_true ‹_›) place
  | running run =>
      cases run with
      | confirmed exchange => exact .stores exchange place
      | _ =>
          dsimp only
          split
          · exact .exchanges _ _ place ‹_›
          · exact .returns _ place
  | ending => exact .ends place

inductive InitMove (crypto : Crypto) (app : PairApp τ) (turn : PairTurn τ) : PairApp τ → Prop where
  | rests : InitMove crypto app turn app
  | yields (engaged : app.pairEngaged = true) (host : Bytes) (starts : app.pairThread = .starting host) :
      InitMove crypto app turn { app with pairThread := .finished }
  | engages (host : Bytes) (deadline : UInt64) (free : app.pairEngaged = false)
      (starts : app.pairThread = .starting host) :
      InitMove crypto app turn
        { app with pairEngaged := true, pairThread := .trying (trimHost host) deadline }
  | dials (phase : InitPhase τ) (before : app.pairThread.dials = true) (after : phase.dials = true) :
      InitMove crypto app turn { app with pairThread := phase }
  | connects (host : Bytes) (transport : τ) (before : app.pairThread.dials = true) :
      InitMove crypto app turn
        { app with begun := app.begun + 1, pairThread := .running host (.connected transport) }
  | stores (host : Bytes) (exchange : PairingExchange τ)
      (runs : app.pairThread = .running host (.confirmed exchange)) :
      InitMove crypto app turn { app.store exchange host with pairThread := .ending }
  | exchanges (host : Bytes) (run next : PairingRun τ)
      (runs : app.pairThread = .running host run)
      (goes : runPairingSession crypto app.self turn run = some next) :
      InitMove crypto app turn { app with pairThread := .running host next }
  | returns (before : app.pairThread.engages = true) :
      InitMove crypto app turn { app with pairThread := .ending }
  | ends (runs : app.pairThread = .ending) :
      InitMove crypto app turn { app with pairingActive := false, pairThread := .finished }

theorem initStep_move (crypto : Crypto) (app : PairApp τ) (turn : PairTurn τ) :
    InitMove crypto app turn (app.initStep crypto turn) := by
  unfold PairApp.initStep
  cases place : app.pairThread with
  | finished => exact .rests
  | starting host =>
      dsimp only
      split
      · exact .yields ‹_› host place
      · exact .engages host _ (Bool.eq_false_of_not_eq_true ‹_›) place
  | trying host deadline =>
      dsimp only
      split
      · exact .dials _ (place ▸ rfl) rfl
      · exact .returns (place ▸ rfl)
  | connecting host deadline =>
      cases turn.raw with
      | none => exact .dials _ (place ▸ rfl) rfl
      | some transport => exact .connects host transport (place ▸ rfl)
  | running host run =>
      cases run with
      | confirmed exchange => exact .stores host exchange place
      | _ =>
          dsimp only
          split
          · exact .exchanges host _ _ place ‹_›
          · exact .returns (place ▸ rfl)
  | ending => exact .ends place

omit [Transport τ] in
theorem init_stage (self : PeerId) (keys : KeyStore) (config : Config) :
    Stage (init self keys config : PairApp τ) :=
  .offered rfl rfl rfl rfl fun active => absurd active Bool.false_ne_true

omit [Transport τ] in
theorem Stage.keep {after : PairApp τ} (stage : app.Stage)
    (engaged : after.pairEngaged = app.pairEngaged) (begun : after.begun = app.begun)
    (accepting : after.pairAcceptThread.engages = app.pairAcceptThread.engages)
    (dialing : after.pairThread.engages = app.pairThread.engages)
    (unbegun : after.pairThread.dials = true → app.pairThread.dials = true)
    (active : after.pairingActive = true → app.pairingActive = true)
    (pending : after.pairingActive = true → app.Pending → after.Pending) : after.Stage := by
  cases stage with
  | offered free accepts dials none waits =>
      exact .offered (engaged.trans free) (accepting.trans accepts) (dialing.trans dials)
        (begun.trans none) fun still => pending still (waits (active still))
  | accepted holds accepts dials one =>
      exact .accepted (engaged.trans holds) (accepting.trans accepts) (dialing.trans dials)
        (begun.trans one)
  | dialed holds accepts dials most none =>
      exact .dialed (engaged.trans holds) (accepting.trans accepts) (dialing.trans dials)
        (begun.trans_le most) fun still => begun.trans (none (unbegun still))
  | closed holds accepts dials most ended =>
      exact .closed (engaged.trans holds) (accepting.trans accepts) (dialing.trans dials)
        (begun.trans_le most)
        (Bool.eq_false_of_not_eq_true fun still => absurd (active still) (ended ▸ Bool.false_ne_true))

omit [Transport τ] in
theorem Stage.unbegun (stage : app.Stage) (free : app.pairEngaged = false) : app.begun = 0 := by
  cases stage with
  | offered _ _ _ none => exact none
  | accepted held | dialed held | closed held => exact absurd held (free ▸ Bool.false_ne_true)

omit [Transport τ] in
theorem Stage.begun_le (stage : app.Stage) : app.begun ≤ 1 := by
  cases stage with
  | offered _ _ _ none => exact none.trans_le (Nat.zero_le 1)
  | accepted _ _ _ one => exact one.le
  | dialed _ _ _ most | closed _ _ _ most => exact most

omit [Transport τ] in
theorem Stage.idle (stage : app.Stage) (free : app.pairEngaged = false) :
    app.pairAcceptThread.engages = false ∧ app.pairThread.engages = false := by
  cases stage with
  | offered _ accepting dialing => exact ⟨accepting, dialing⟩
  | accepted held | dialed held | closed held => exact absurd held (free ▸ Bool.false_ne_true)

omit [Transport τ] in
theorem Stage.of_accept (stage : app.Stage) (engages : app.pairAcceptThread.engages = true) :
    app.pairEngaged = true ∧ app.pairThread.engages = false ∧ app.begun = 1 := by
  cases stage with
  | accepted held _ dialing one => exact ⟨held, dialing, one⟩
  | offered _ accepting | dialed _ accepting | closed _ accepting =>
      exact absurd engages (accepting ▸ Bool.false_ne_true)

omit [Transport τ] in
theorem Stage.of_dial (stage : app.Stage) (engages : app.pairThread.engages = true) :
    app.pairEngaged = true ∧ app.pairAcceptThread.engages = false ∧ app.begun ≤ 1 ∧
      (app.pairThread.dials = true → app.begun = 0) := by
  cases stage with
  | dialed held accepting _ most none => exact ⟨held, accepting, most, none⟩
  | offered _ _ dialing | accepted _ _ dialing | closed _ _ dialing =>
      exact absurd engages (dialing ▸ Bool.false_ne_true)

omit [Transport τ] in
theorem Stage.apart (stage : app.Stage) :
    (app.pairAcceptThread.exchanges && app.pairThread.exchanges) = false := by
  cases accept : app.pairAcceptThread with
  | running run =>
      have idle := (stage.of_accept (accept ▸ rfl)).2.1
      cases dial : app.pairThread with
      | running host run =>
          rw [dial] at idle
          contradiction
      | _ => rfl
  | _ => rfl

omit [Transport τ] in
theorem Stage.uiStep (stage : app.Stage) (known : app.Known) {after : PairApp τ}
    (move : app.UiMove after) : after.Stage := by
  have held : app.Known := known
  rw [Known] at known
  cases move with
  | rests => exact stage
  | begins place idle =>
      exact stage.keep rfl rfl rfl rfl id id fun still => absurd still (idle ▸ Bool.false_ne_true)
  | closes place pickers ip => exact stage.keep rfl rfl rfl rfl id id fun _ _ => .inr (.inl rfl)
  | joinsAccept place finished =>
      rw [place] at known
      exact stage.keep rfl rfl rfl rfl id id fun still => absurd still (known ▸ Bool.false_ne_true)
  | joinsInit place finished =>
      rw [place] at known
      exact stage.keep rfl rfl rfl rfl id id fun still => absurd still (known.1 ▸ Bool.false_ne_true)
  | clears place =>
      rw [place] at known
      obtain ⟨idle, accept, dial⟩ := known
      exact .offered rfl (accept ▸ rfl) (dial ▸ rfl) rfl fun still =>
        absurd still (idle ▸ Bool.false_ne_true)
  | activates place =>
      rw [place] at known
      obtain ⟨free, accept, dial, _⟩ := known
      exact .offered free (accept ▸ rfl) (dial ▸ rfl) (stage.unbegun free) fun _ => .inr (.inl rfl)
  | launches place =>
      rw [place] at known
      exact stage.keep rfl rfl (known.2.1 ▸ rfl) rfl id id fun _ _ => .inr (.inl rfl)
  | noWindow place => exact stage.keep rfl rfl rfl rfl id id fun _ _ => .inr (.inl rfl)
  | opens place => exact stage.keep rfl rfl rfl rfl id id fun _ _ => .inl (Nat.succ_pos _)
  | leaves ip place engaged =>
      cases stage with
      | offered free => exact absurd engaged (free ▸ Bool.false_ne_true)
      | accepted holds accepts dials one => exact .accepted holds accepts dials one
      | dialed holds accepts dials most none => exact .dialed holds accepts dials most none
      | closed holds accepts dials most ended => exact .closed holds accepts dials most ended
  | cancels ip place => exact stage.keep rfl rfl rfl rfl id id fun _ _ => .inr (.inl rfl)
  | dials ip place finished =>
      exact stage.keep rfl rfl rfl (finished ▸ rfl) (fun starts => absurd starts Bool.false_ne_true) id
        fun _ _ => .inr (.inr rfl)
  | ends place =>
      exact stage.keep rfl rfl rfl rfl id (fun still => absurd still Bool.false_ne_true)
        fun still => absurd still Bool.false_ne_true

theorem Stage.acceptStep (stage : app.Stage) {after : PairApp τ}
    (move : AcceptMove crypto app turn after) : after.Stage := by
  cases move with
  | rests => exact stage
  | looks phase before engages =>
      exact stage.keep rfl rfl (engages.trans (AcceptPhase.engages_of_looks before).symm) rfl id id fun _ => id
  | engages transport free waits =>
      exact .accepted rfl rfl (stage.idle free).2 (congrArg (· + 1) (stage.unbegun free))
  | stores exchange runs =>
      exact stage.keep rfl rfl (runs ▸ rfl) rfl id id fun _ => id
  | exchanges run next runs goes =>
      exact stage.keep rfl rfl (runs ▸ rfl) rfl id id fun _ => id
  | returns run runs => exact stage.keep rfl rfl (runs ▸ rfl) rfl id id fun _ => id
  | ends runs =>
      obtain ⟨held, dialing, one⟩ := stage.of_accept (runs ▸ rfl)
      exact .closed held rfl dialing one.le rfl

theorem Stage.initStep (stage : app.Stage) {after : PairApp τ}
    (move : InitMove crypto app turn after) : after.Stage := by
  cases move with
  | rests => exact stage
  | yields engaged host starts =>
      -- The pick is dropped, but then the session is the other thread's.
      cases stage with
      | offered free => exact absurd engaged (free ▸ Bool.false_ne_true)
      | accepted held accepts dials one => exact .accepted held accepts rfl one
      | dialed _ _ dialing => exact absurd dialing (starts ▸ Bool.false_ne_true)
      | closed held accepts dials most ended => exact .closed held accepts rfl most ended
  | engages host deadline free starts =>
      exact .dialed rfl (stage.idle free).1 rfl ((stage.unbegun free).trans_le (Nat.zero_le 1))
        fun _ => stage.unbegun free
  | dials phase before again =>
      obtain ⟨held, accepting, most, none⟩ := stage.of_dial (InitPhase.engages_of_dials before)
      exact .dialed held accepting (InitPhase.engages_of_dials again) most fun _ => none before
  | connects host transport before =>
      obtain ⟨held, accepting, _, none⟩ := stage.of_dial (InitPhase.engages_of_dials before)
      exact .dialed held accepting rfl (congrArg (· + 1) (none before)).le
        fun dials => absurd dials Bool.false_ne_true
  | stores host exchange runs =>
      obtain ⟨held, accepting, most, _⟩ := stage.of_dial (runs ▸ rfl)
      exact .dialed held accepting rfl most fun dials => absurd dials Bool.false_ne_true
  | exchanges host run next runs goes =>
      obtain ⟨held, accepting, most, _⟩ := stage.of_dial (runs ▸ rfl)
      exact .dialed held accepting rfl most fun dials => absurd dials Bool.false_ne_true
  | returns before =>
      obtain ⟨held, accepting, most, _⟩ := stage.of_dial before
      exact .dialed held accepting rfl most fun dials => absurd dials Bool.false_ne_true
  | ends runs =>
      obtain ⟨held, accepting, most, _⟩ := stage.of_dial (runs ▸ rfl)
      exact .closed held accepting rfl most rfl

omit [Transport τ] in
theorem Known.uiStep (known : app.Known) {after : PairApp τ} (move : app.UiMove after) :
    after.Known := by
  have held : app.Known := known
  rw [Known] at known
  cases move with
  | rests => exact held
  | begins place idle => exact idle
  | joinsAccept place finished => exact ⟨by rw [place] at known; exact known, finished⟩
  | joinsInit place finished =>
      rw [place] at known
      exact ⟨known.1, known.2, finished⟩
  | clears place =>
      rw [place] at known
      exact ⟨rfl, known.2.1, known.2.2, known.1⟩
  | activates place =>
      rw [place] at known
      exact ⟨known.1, known.2.1, known.2.2.1⟩
  | closes | launches | noWindow | opens | leaves | cancels | dials | ends => trivial

omit [Transport τ] in
theorem Known.keep {after : PairApp τ} (known : app.Known) (ui : after.ui = app.ui)
    (active : after.pairingActive = true → app.pairingActive = true)
    (runs : app.pairAcceptThread = .finished → after.pairAcceptThread = .finished)
    (dials : app.pairThread = .finished → after.pairThread = .finished)
    (engaged : app.pairAcceptThread = .finished → app.pairThread = .finished →
      after.pairEngaged = app.pairEngaged) : after.Known := by
  have still : app.pairingActive = false → after.pairingActive = false := fun idle =>
    Bool.eq_false_of_not_eq_true fun on => absurd (active on) (idle ▸ Bool.false_ne_true)
  unfold Known at known ⊢
  rw [ui]
  split at known
  · exact still known
  · exact ⟨still known.1, runs known.2⟩
  · exact ⟨still known.1, runs known.2.1, dials known.2.2⟩
  · obtain ⟨free, accept, dial, idle⟩ := known
    exact ⟨(engaged accept dial).trans free, runs accept, dials dial, still idle⟩
  · obtain ⟨free, accept, dial⟩ := known
    exact ⟨(engaged accept dial).trans free, runs accept, dials dial⟩
  · trivial

theorem Known.acceptStep (known : app.Known) {after : PairApp τ}
    (move : AcceptMove crypto app turn after) : after.Known := by
  cases move with
  | rests => exact known
  | looks phase before =>
      exact known.keep rfl id (fun rests => absurd rests (AcceptPhase.going (.inl before))) id fun _ _ => rfl
  | engages transport free waits =>
      have going : app.pairAcceptThread ≠ .finished := AcceptPhase.going (.inl (waits ▸ rfl))
      exact known.keep rfl id (fun rests => absurd rests going) id fun rests => absurd rests going
  | stores _ runs | exchanges _ _ runs _ | returns _ runs =>
      have going : app.pairAcceptThread ≠ .finished := AcceptPhase.going (.inr (runs ▸ rfl))
      exact known.keep rfl id (fun rests => absurd rests going) id fun _ _ => rfl
  | ends runs =>
      exact known.keep rfl (fun on => absurd on Bool.false_ne_true) (fun _ => rfl) id fun _ _ => rfl

theorem Known.initStep (known : app.Known) {after : PairApp τ}
    (move : InitMove crypto app turn after) : after.Known := by
  cases move with
  | rests => exact known
  | yields engaged host starts => exact known.keep rfl id id (fun _ => rfl) fun _ _ => rfl
  | engages host deadline free starts =>
      have going : app.pairThread ≠ .finished := InitPhase.going (.inl (starts ▸ rfl))
      exact known.keep rfl id id (fun rests => absurd rests going) fun _ rests => absurd rests going
  | dials _ before _ | connects _ _ before =>
      have going : app.pairThread ≠ .finished := InitPhase.going (.inr (InitPhase.engages_of_dials before))
      exact known.keep rfl id id (fun rests => absurd rests going) fun _ _ => rfl
  | stores _ _ runs | exchanges _ _ _ runs _ =>
      have going : app.pairThread ≠ .finished := InitPhase.going (.inr (runs ▸ rfl))
      exact known.keep rfl id id (fun rests => absurd rests going) fun _ _ => rfl
  | returns before =>
      have going : app.pairThread ≠ .finished := InitPhase.going (.inr before)
      exact known.keep rfl id id (fun rests => absurd rests going) fun _ _ => rfl
  | ends runs =>
      exact known.keep rfl (fun on => absurd on Bool.false_ne_true) id (fun _ => rfl) fun _ _ => rfl

omit [Transport τ] in
theorem reconnect_config (app : PairApp τ) (beacon : Beacon) :
    ∃ config, app.reconnect beacon = { app with config } := by
  unfold PairApp.reconnect
  split <;> exact ⟨_, rfl⟩

end PairApp

variable (crypto : Crypto) (self : PeerId) (keys : KeyStore) (config : Config)
  (actions : List (PairAction τ))

def pairAfter : PairApp τ := exec (PairApp.step crypto) (.init self keys config) actions

theorem pairAfter_concat (last : PairAction τ) :
    pairAfter crypto self keys config (actions ++ [last]) =
      PairApp.step crypto last (pairAfter crypto self keys config actions) :=
  exec_concat _ _ _ _

theorem pairAfter_stage :
    (pairAfter crypto self keys config actions).Stage ∧
      (pairAfter crypto self keys config actions).Known := by
  induction actions using List.reverseRecOn with
  | nil => exact ⟨PairApp.init_stage self keys config, trivial⟩
  | append_singleton actions last ih =>
      obtain ⟨stage, known⟩ := ih
      rw [pairAfter_concat]
      cases last with
      | ui event =>
          have move := PairApp.uiStep_move (pairAfter crypto self keys config actions) event
          exact ⟨stage.uiStep known move, known.uiStep move⟩
      | accept turn =>
          have move := PairApp.acceptStep_move crypto (pairAfter crypto self keys config actions) turn
          exact ⟨stage.acceptStep move, known.acceptStep move⟩
      | init turn =>
          have move := PairApp.initStep_move crypto (pairAfter crypto self keys config actions) turn
          exact ⟨stage.initStep move, known.initStep move⟩
      | refresh beacon =>
          obtain ⟨config, same⟩ :=
            PairApp.reconnect_config (pairAfter crypto self keys config actions) beacon
          rw [PairApp.step, same]
          exact ⟨stage.keep rfl rfl rfl rfl id id fun _ => id, known.keep rfl id id id fun _ _ => rfl⟩

/-- However the threads interleave, a session begins one exchange at most, and each of
its two threads is only started where the one before it has finished. -/
theorem one_exchange_each_session (actions : List (PairAction τ)) :
    let app := pairAfter crypto self keys config actions
    app.begun ≤ 1 ∧ (app.pairAcceptThread.exchanges && app.pairThread.exchanges) = false ∧
      (app.ui = .launching → app.pairAcceptThread = .finished ∧ app.pairThread = .finished) ∧
      ∀ event,
        ((app.uiStep event).pairAcceptThread ≠ app.pairAcceptThread →
          app.pairAcceptThread = .finished ∧ app.pairThread = .finished) ∧
        ((app.uiStep event).pairThread ≠ app.pairThread → app.pairThread = .finished) := by
  intro app
  obtain ⟨stage, known⟩ := pairAfter_stage crypto self keys config actions
  have launches : app.ui = .launching → app.pairAcceptThread = .finished ∧ app.pairThread = .finished := by
    intro place
    rw [PairApp.Known, show (pairAfter crypto self keys config actions).ui = .launching from place] at known
    exact known.2
  refine ⟨stage.begun_le, stage.apart, launches, fun event => ?_⟩
  have move := PairApp.uiStep_move app event
  exact ⟨fun started => launches (move.startsAccept started), move.startsDial⟩

/-- A session does not stay open when nobody works for it any more: once no picker
is open, the handler has returned and both threads have finished, pairing is no
longer in progress. -/
theorem pairing_comes_to_rest (actions : List (PairAction τ)) :
    let app := pairAfter crypto self keys config actions
    app.pairingActive = false ∨ 0 < app.pickers ∨ app.ui ≠ .messages ∨
      app.pairAcceptThread ≠ .finished ∨ app.pairThread ≠ .finished := by
  intro app
  obtain ⟨stage, _⟩ := pairAfter_stage crypto self keys config actions
  by_contra stuck
  obtain ⟨active, picker, place, accept, dial⟩ := by simpa only [not_or, not_not] using stuck
  cases stage with
  | offered _ _ _ _ pending =>
      have waits := pending (Bool.eq_true_of_not_eq_false active)
      rw [PairApp.Pending, show (pairAfter crypto self keys config actions).ui = .messages from place,
        show (pairAfter crypto self keys config actions).pairThread = .finished from dial] at waits
      exact waits.elim picker fun other => other.elim Bool.false_ne_true Bool.false_ne_true
  | accepted _ engages => exact AcceptPhase.going (.inr engages) accept
  | dialed _ _ engages => exact InitPhase.going (.inr engages) dial
  | closed _ _ _ _ ended => exact active ended

end Skittermouse.Platform

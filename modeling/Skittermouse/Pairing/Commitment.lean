import Skittermouse.Data.Exec
import Skittermouse.Pairing.PairingExchange

/-! # One pairing exchange, and whoever is on the wire

The first message of the peer fixes what its second may reveal, and our own
reveal is the answer to the first.
-/

namespace Skittermouse.Pairing

open Skittermouse.Data Skittermouse.Core Skittermouse.Net PairingExchange

/-- An exchange and the messages that it has taken from the wire. -/
structure Session where
  exchange : PairingExchange Wire
  received : List Bytes
deriving DecidableEq

inductive SessionAction where
  | arrive (message : Bytes)
  | cut
  | poll

def takes (exchange : PairingExchange Wire) : List Bytes :=
  if exchange.status ≠ .needMore then []
  else match (Transport.recv exchange.transport kBufferLen).1 with
  | none | some [] => []
  | some data => [data]

def sessionStep (crypto : Crypto) : SessionAction → Session → Session
  | .arrive message, session =>
      { session with
        exchange.transport.inbox := session.exchange.transport.inbox ++ [message] }
  | .cut, session => { session with exchange.transport.connected := false }
  | .poll, session =>
      { exchange := (session.exchange.poll crypto).2
        received := session.received ++ takes session.exchange }

def hashedInputs (received : List Bytes) : List Bytes :=
  received.filterMap fun message => (revealFields message).map fun (id, point, nonce) =>
    commitInput point nonce id

def Unpolled (exchange : PairingExchange Wire) : Prop :=
  exchange.phase = .awaitCommit ∧ exchange.status = .needMore

def ownReveal (exchange : PairingExchange Wire) : Bytes :=
  revealMessage exchange.self exchange.handshake.publicPoint exchange.nonce

variable {crypto : Crypto} {begun exchange after : PairingExchange Wire} {session : Session}
variable {message data : Bytes}

def ownCommit (crypto : Crypto) (exchange : PairingExchange Wire) : Bytes :=
  (crypto.sha256 (commitInput exchange.handshake.publicPoint exchange.nonce exchange.self)).val

theorem start_cases {generated : Option EcdhKeyPair} {random : Bytes} {result : Bool}
    (started : exchange.start crypto generated random = (result, after)) :
    (exchange.started = true ∧ result = true ∧ after = exchange) ∨
    (exchange.started = false ∧ result = false ∧
      ∃ handshake nonce, after = { exchange with handshake, nonce }) ∨
    (exchange.started = false ∧ result = true ∧ ∃ pair fresh, generated = some pair ∧
      fresh = { exchange with handshake := { exchange.handshake with pair }, nonce := random } ∧
      exchange.self ≠ [] ∧ exchange.self.length ≤ 255 ∧ random.length = kPairingNonceLen ∧
      after = { fresh with
        transport := { exchange.transport with
          outbox := exchange.transport.outbox ++ [ownCommit crypto fresh] }
        started := true }) := by
  obtain ⟨transport, self, handshake, peerId, code, psk, begun, status, phase, nonce, peerCommit⟩ :=
    exchange
  cases begun with
  | true =>
      rw [PairingExchange.start, if_pos rfl] at started
      cases started
      exact .inl ⟨rfl, rfl, rfl⟩
  | false =>
      right
      simp only [PairingExchange.start, Bool.false_eq_true, if_false] at started
      cases generated with
      | none =>
          cases started
          exact .inl ⟨rfl, rfl, _, _, rfl⟩
      | some pair =>
          simp only [EcdhHandshake.begin, sendCommit] at started
          split at started
          · cases started
            exact .inl ⟨rfl, rfl, _, _, rfl⟩
          · rename_i inBounds
            unfold PairingExchange.outOfBounds at inBounds
            simp only [Bool.or_eq_true, bne_iff_ne, beq_iff_eq, decide_eq_true_eq, not_or] at inBounds
            split at started
            · cases started
              exact .inl ⟨rfl, rfl, _, _, rfl⟩
            · rename_i size
              by_cases up : transport.connected = true
              · rw [Wire.send_eq _ up] at started
                cases started
                exact .inr ⟨rfl, rfl, pair, _, rfl, rfl,
                  fun empty => inBounds.1.2 (congrArg List.length empty), not_lt.mp inBounds.2, not_not.mp size, rfl⟩
              · simp only [Transport.send, Wire.send, if_neg up] at started
                cases started
                exact .inl ⟨rfl, rfl, _, _, rfl⟩

theorem start_unpolled {generated : Option EcdhKeyPair} {random : Bytes} {result : Bool}
    (unpolled : Unpolled exchange)
    (started : exchange.start crypto generated random = (result, after)) : Unpolled after := by
  rcases start_cases started with ⟨_, _, rfl⟩ | ⟨_, _, _, _, rfl⟩ |
    ⟨_, _, _, _, _, rfl, _, _, _, rfl⟩ <;> exact unpolled

/-- The reveal that was accepted, against what the exchange began with. -/
def Accepted (crypto : Crypto) (begun : PairingExchange Wire) (message : Bytes)
    (after : PairingExchange Wire) : Prop :=
  ∃ id point nonce shared, revealFields message = some (id, point, nonce) ∧
    (crypto.sha256 (commitInput point nonce id)).val = after.peerCommit ∧ after.peerId = id ∧
    crypto.ecdhComputeShared begun.handshake.pair point = some shared ∧
    after.code = EcdhHandshake.verificationCode crypto ⟨begun.handshake.pair, shared⟩ begun.nonce nonce ∧
    EcdhHandshake.derivePsk crypto ⟨begun.handshake.pair, shared⟩ begun.self id = some after.psk

theorem takeReveal_cases (crypto : Crypto) (exchange : PairingExchange Wire) (data : Bytes) :
    (exchange.takeReveal crypto data).transport = exchange.transport ∧
      (exchange.takeReveal crypto data).phase = exchange.phase ∧
      (exchange.takeReveal crypto data).peerCommit = exchange.peerCommit ∧
      (exchange.takeReveal crypto data).self = exchange.self ∧
      (exchange.takeReveal crypto data).nonce = exchange.nonce ∧
      (exchange.takeReveal crypto data).handshake.pair = exchange.handshake.pair ∧
      ((exchange.takeReveal crypto data).status = .error ∨
        (exchange.takeReveal crypto data).status = .ok ∧
          Accepted crypto exchange data (exchange.takeReveal crypto data)) := by
  unfold takeReveal
  split
  · exact ⟨rfl, rfl, rfl, rfl, rfl, rfl, .inl rfl⟩
  · rename_i peerId peerPub peerNonce fields
    dsimp only
    split
    · exact ⟨rfl, rfl, rfl, rfl, rfl, rfl, .inl rfl⟩
    · split
      · exact ⟨rfl, rfl, rfl, rfl, rfl, rfl, .inl rfl⟩
      · rename_i committed
        unfold EcdhHandshake.computeShared
        cases computed : crypto.ecdhComputeShared exchange.handshake.pair peerPub with
        | none => exact ⟨rfl, rfl, rfl, rfl, rfl, rfl, .inl rfl⟩
        | some shared =>
          dsimp only
          split
          · exact ⟨rfl, rfl, rfl, rfl, rfl, rfl, .inl rfl⟩
          · rename_i psk derived
            exact ⟨rfl, rfl, rfl, rfl, rfl, rfl, .inr ⟨rfl, peerId, peerPub, peerNonce, shared, fields,
              not_not.mp committed, rfl, computed, rfl, derived⟩⟩

theorem takeCommit_cases (exchange : PairingExchange Wire) (data : Bytes) :
    ((exchange.takeCommit data).status = .error ∧
      (exchange.takeCommit data).phase = exchange.phase ∧
      (exchange.takeCommit data).transport = exchange.transport ∧
      (exchange.takeCommit data).self = exchange.self ∧
      (exchange.takeCommit data).nonce = exchange.nonce ∧
      (exchange.takeCommit data).handshake = exchange.handshake) ∨
    (data.length = kCommitLen ∧ exchange.transport.connected = true ∧
      exchange.takeCommit data = { exchange with
        peerCommit := data
        transport := { exchange.transport with
          outbox := exchange.transport.outbox ++ [ownReveal exchange] }
        phase := .awaitReveal }) := by
  unfold takeCommit
  split
  · exact .inl ⟨rfl, rfl, rfl, rfl, rfl, rfl⟩
  · rename_i size
    by_cases up : exchange.transport.connected = true
    · refine .inr ⟨not_not.mp size, up, ?_⟩
      simp only [Wire.send_eq _ up, if_true]
      rfl
    · left
      simp only [Transport.send, Wire.send, if_neg up]
      exact ⟨rfl, rfl, rfl, rfl, rfl, rfl⟩

/-- Before a commitment nothing has been sent since the exchange began, and after
it exactly the reveal. -/
structure OnCourse (crypto : Crypto) (begun : PairingExchange Wire) (session : Session) : Prop where
  self : session.exchange.self = begun.self
  nonce : session.exchange.nonce = begun.nonce
  pair : session.exchange.handshake.pair = begun.handshake.pair
  waiting : session.exchange.phase = .awaitCommit →
    session.exchange.transport.outbox = begun.transport.outbox ∧ session.exchange.status ≠ .ok ∧
      (session.exchange.status = .needMore → session.received = [])
  answered : session.exchange.phase = .awaitReveal →
    session.exchange.transport.outbox = begun.transport.outbox ++ [ownReveal begun] ∧
      ∃ rest, session.received = session.exchange.peerCommit :: rest ∧
        session.exchange.peerCommit.length = kCommitLen ∧
        (session.exchange.status = .needMore → rest = []) ∧
        (session.exchange.status = .ok → ∃ message, rest = [message] ∧
          Accepted crypto begun message session.exchange)

theorem onCourse_start (unpolled : Unpolled begun) : OnCourse crypto begun ⟨begun, []⟩ := by
  refine ⟨rfl, rfl, rfl, fun _ => ⟨rfl, ?_, fun _ => rfl⟩, fun later => ?_⟩
  · rw [unpolled.2]
    exact nofun
  · rw [unpolled.1] at later
    contradiction

theorem OnCourse.transport {transport : Wire} (course : OnCourse crypto begun session)
    (outbox : transport.outbox = session.exchange.transport.outbox) :
    OnCourse crypto begun { session with exchange.transport := transport } :=
  ⟨course.self, course.nonce, course.pair,
    fun phase => ⟨outbox.trans (course.waiting phase).1, (course.waiting phase).2⟩,
    fun phase => ⟨outbox.trans (course.answered phase).1, (course.answered phase).2⟩⟩

theorem recv_outbox (wire : Wire) (cap : Nat) : (Transport.recv wire cap).2.outbox = wire.outbox := by
  simp only [Transport.recv, Wire.recv]
  split
  · split <;> rfl
  · rfl

theorem OnCourse.failed (course : OnCourse crypto begun session) (more : List Bytes)
    (error : after.status = .error) (phase : after.phase = session.exchange.phase)
    (self : after.self = session.exchange.self) (nonce : after.nonce = session.exchange.nonce)
    (pair : after.handshake.pair = session.exchange.handshake.pair)
    (outbox : after.transport.outbox = session.exchange.transport.outbox)
    (commit : after.phase = .awaitReveal → after.peerCommit = session.exchange.peerCommit) :
    OnCourse crypto begun ⟨after, session.received ++ more⟩ := by
  refine ⟨self.trans course.self, nonce.trans course.nonce, pair.trans course.pair,
    fun waits => ⟨?_, ?_, fun going => ?_⟩, fun answered => ⟨?_, ?_⟩⟩
  · exact outbox.trans (course.waiting (phase.symm.trans waits)).1
  · rw [error]
    exact nofun
  · rw [error] at going
    contradiction
  · exact outbox.trans (course.answered (phase.symm.trans answered)).1
  · obtain ⟨_, rest, received, size, _, _⟩ := course.answered (phase.symm.trans answered)
    refine ⟨rest ++ more, ?_, (commit answered).symm ▸ size, ?_, ?_⟩
    · rw [received, commit answered, List.cons_append]
    · rw [error]
      exact nofun
    · rw [error]
      exact nofun

theorem OnCourse.takeCommit (course : OnCourse crypto begun session)
    (phase : session.exchange.phase = .awaitCommit) (going : session.exchange.status = .needMore)
    (data : Bytes) :
    OnCourse crypto begun ⟨session.exchange.takeCommit data, session.received ++ [data]⟩ := by
  rcases takeCommit_cases session.exchange data with
    ⟨error, samePhase, transport, self, nonce, handshake⟩ | ⟨size, _, answers⟩
  · refine course.failed [data] error samePhase self nonce (by rw [handshake]) (by rw [transport])
      fun answered => ?_
    rw [samePhase, phase] at answered
    contradiction
  · obtain ⟨outbox, _, nothing⟩ := course.waiting phase
    have reveal : ownReveal session.exchange = ownReveal begun := by
      simp only [ownReveal, EcdhHandshake.publicPoint, course.self, course.nonce, course.pair]
    rw [answers, nothing going, List.nil_append]
    refine ⟨course.self, course.nonce, course.pair, nofun, fun _ => ⟨?_, [], rfl, size, fun _ => rfl, ?_⟩⟩
    · rw [outbox, reveal]
    · intro done
      have same : session.exchange.status = .ok := done
      rw [going] at same
      contradiction

theorem OnCourse.takeReveal (course : OnCourse crypto begun session)
    (phase : session.exchange.phase = .awaitReveal) (going : session.exchange.status = .needMore)
    (data : Bytes) :
    OnCourse crypto begun ⟨session.exchange.takeReveal crypto data, session.received ++ [data]⟩ := by
  obtain ⟨transport, samePhase, commit, self, nonce, pair, error | ⟨done, accepted⟩⟩ :=
    takeReveal_cases crypto session.exchange data
  · exact course.failed [data] error samePhase self nonce pair (by rw [transport]) fun _ => commit
  · obtain ⟨outbox, rest, received, size, nothing, _⟩ := course.answered phase
    refine ⟨self.trans course.self, nonce.trans course.nonce, pair.trans course.pair,
      fun waits => ?_, fun _ => ⟨?_, [data], ?_, commit.symm ▸ size, ?_, fun _ => ⟨data, rfl, ?_⟩⟩⟩
    · rw [samePhase, phase] at waits
      contradiction
    · exact (congrArg Wire.outbox transport).trans outbox
    · rw [received, nothing going, commit]
      rfl
    · rw [done]
      exact nofun
    · rwa [Accepted, course.self, course.nonce, course.pair] at accepted

theorem OnCourse.poll (course : OnCourse crypto begun session) :
    OnCourse crypto begun (sessionStep crypto .poll session) := by
  obtain ⟨exchange, received⟩ := session
  by_cases settled : exchange.status ≠ .needMore
  · simp only [sessionStep, PairingExchange.poll, takes, if_pos settled, List.append_nil]
    exact course
  · have going : exchange.status = .needMore := not_not.mp settled
    have outbox := recv_outbox exchange.transport kBufferLen
    simp only [sessionStep, PairingExchange.poll, takes, if_neg settled]
    generalize Transport.recv exchange.transport kBufferLen = result at outbox ⊢
    obtain ⟨got, transport⟩ := result
    have moved : OnCourse crypto begun ⟨{ exchange with transport }, received⟩ := course.transport outbox
    have still : ({ exchange with transport } : PairingExchange Wire).status = .needMore := going
    have same : ({ exchange with transport } : PairingExchange Wire).phase = exchange.phase := rfl
    generalize { exchange with transport } = here at moved still same ⊢
    cases got with
    | none => exact moved.failed [] rfl rfl rfl rfl rfl rfl fun _ => rfl
    | some data =>
        cases data with
        | nil =>
            rw [List.append_nil]
            exact moved
        | cons byte rest =>
            cases phase : exchange.phase with
            | awaitCommit => exact moved.takeCommit (same.trans phase) still (byte :: rest)
            | awaitReveal => exact moved.takeReveal (same.trans phase) still (byte :: rest)

theorem OnCourse.step (course : OnCourse crypto begun session) (action : SessionAction) :
    OnCourse crypto begun (sessionStep crypto action session) := by
  cases action with
  | arrive message => exact course.transport rfl
  | cut => exact course.transport rfl
  | poll => exact course.poll

theorem onCourse_run (unpolled : Unpolled begun) (actions : List SessionAction) :
    OnCourse crypto begun (exec (sessionStep crypto) ⟨begun, []⟩ actions) :=
  exec_preserves (fun action _ course => course.step action) (onCourse_start unpolled) actions

theorem OnCourse.accepted (course : OnCourse crypto begun session)
    (done : session.exchange.status = .ok) :
    ∃ message, session.received = [session.exchange.peerCommit, message] ∧
      Accepted crypto begun message session.exchange := by
  cases phase : session.exchange.phase with
  | awaitCommit => exact absurd done (course.waiting phase).2.1
  | awaitReveal =>
      obtain ⟨_, rest, received, _, _, ok⟩ := course.answered phase
      obtain ⟨message, rfl, accepted⟩ := ok done
      exact ⟨message, received, accepted⟩

theorem commitInput_inj {point nonce point' nonce' : Bytes} {id id' : PeerId}
    (points : point.length = point'.length) (nonces : nonce.length = nonce'.length)
    (same : commitInput point nonce id = commitInput point' nonce' id') :
    point = point' ∧ nonce = nonce' ∧ id = id' := by
  obtain ⟨fronts, ids⟩ := List.append_inj same
    (by rw [List.length_append, List.length_append, points, nonces])
  obtain ⟨samePoint, sameNonce⟩ := List.append_inj fronts points
  exact ⟨samePoint, sameNonce, ids⟩

theorem Accepted.unique {other : PairingExchange Wire} {message' : Bytes}
    (accepted : Accepted crypto begun message after) (also : Accepted crypto begun message' other)
    (commit : after.peerCommit = other.peerCommit)
    (injective : ∀ left ∈ hashedInputs [message], ∀ right ∈ hashedInputs [message'],
      crypto.sha256 left = crypto.sha256 right → left = right) :
    message = message' ∧ ∃ id point nonce, revealFields message = some (id, point, nonce) ∧
      after.peerId = id ∧ other.peerId = id ∧ after.code = other.code ∧ after.psk = other.psk := by
  obtain ⟨id, point, nonce, shared, fields, hash, peer, secret, code, psk⟩ := accepted
  obtain ⟨id', point', nonce', shared', fields', hash', peer', secret', code', psk'⟩ := also
  obtain ⟨whole, pointSize, nonceSize, _⟩ := revealFields_eq_some fields
  obtain ⟨whole', pointSize', nonceSize', _⟩ := revealFields_eq_some fields'
  have hashed : ∀ {data : Bytes} {id point nonce}, revealFields data = some (id, point, nonce) →
      commitInput point nonce id ∈ hashedInputs [data] := fun {data id point nonce} found => by
    rw [hashedInputs, List.filterMap_cons, found]
    exact List.mem_cons_self
  have inputs := injective _ (hashed fields) _ (hashed fields')
    (Subtype.ext (hash.trans (commit.trans hash'.symm)))
  obtain ⟨rfl, rfl, rfl⟩ := commitInput_inj (pointSize.trans pointSize'.symm)
    (nonceSize.trans nonceSize'.symm) inputs
  obtain rfl := Option.some.inj (secret.symm.trans secret')
  exact ⟨whole.trans whole'.symm, id, point, nonce, fields, peer, peer', code.trans code'.symm,
    Option.some.inj (psk.symm.trans psk')⟩

/-- Our reveal goes out only in answer to a commitment, and that commitment
leaves one way for the exchange to succeed. -/
theorem commitment_binds (crypto : Crypto) {before begun : PairingExchange Wire}
    {generated : Option EcdhKeyPair} {random : Bytes} (unpolled : Unpolled before)
    (started : before.start crypto generated random = (true, begun)) :
    (∀ actions session, session = exec (sessionStep crypto) ⟨begun, []⟩ actions →
      session.exchange.transport.outbox = begun.transport.outbox ∨
      ∃ commit rest, session.received = commit :: rest ∧ commit.length = kCommitLen ∧
        session.exchange.transport.outbox = begun.transport.outbox ++ [ownReveal begun]) ∧
    (∀ actions others session other, session = exec (sessionStep crypto) ⟨begun, []⟩ actions →
      other = exec (sessionStep crypto) ⟨begun, []⟩ others →
      session.received.head? = other.received.head? →
      session.exchange.status = .ok → other.exchange.status = .ok →
      (∀ left ∈ hashedInputs session.received, ∀ right ∈ hashedInputs other.received,
        crypto.sha256 left = crypto.sha256 right → left = right) →
      ∃ commit reveal id point nonce, session.received = [commit, reveal] ∧
        other.received = [commit, reveal] ∧ revealFields reveal = some (id, point, nonce) ∧
        session.exchange.peerId = id ∧ other.exchange.peerId = id ∧
        session.exchange.code = other.exchange.code ∧ session.exchange.psk = other.exchange.psk) := by
  have fresh : Unpolled begun := start_unpolled unpolled started
  constructor
  · rintro actions session rfl
    have course : OnCourse crypto begun (exec (sessionStep crypto) ⟨begun, []⟩ actions) :=
      onCourse_run fresh actions
    generalize exec (sessionStep crypto) ⟨begun, []⟩ actions = session at course ⊢
    cases phase : session.exchange.phase with
    | awaitCommit => exact .inl (course.waiting phase).1
    | awaitReveal =>
        obtain ⟨outbox, rest, received, size, _, _⟩ := course.answered phase
        exact .inr ⟨_, rest, received, size, outbox⟩
  · rintro actions others session other rfl rfl heads done alsoDone injective
    obtain ⟨message, received, accepted⟩ := (onCourse_run fresh actions).accepted done
    obtain ⟨message', received', accepted'⟩ := (onCourse_run fresh others).accepted alsoDone
    rw [received, received'] at heads injective
    have commit := Option.some.inj heads
    have later : ∀ first last, ∀ input ∈ hashedInputs [last], input ∈ hashedInputs [first, last] :=
      fun first last input member => by
        rw [hashedInputs, List.filterMap_cons]
        split
        · exact member
        · exact List.mem_cons_of_mem _ member
    obtain ⟨rfl, id, point, nonce, fields, peer, peer', same⟩ := accepted.unique accepted' commit
      fun left member right member' => injective left (later _ _ left member) right (later _ _ right member')
    exact ⟨_, message, id, point, nonce, received, commit ▸ received', fields, peer, peer', same⟩

def pairOf (byte : UInt8) : EcdhKeyPair := ⟨List.replicate 64 byte, [byte]⟩

def startedA : PairingExchange Wire :=
  (PairingExchange.start plainCrypto (.create ⟨0, true, [], []⟩ [65]) (some (pairOf 1))
    (List.replicate 32 3)).2

def commitB : Bytes :=
  (plainCrypto.sha256 (commitInput (pairOf 2).publicPoint (List.replicate 32 4) [66])).val

def revealB : Bytes := revealMessage [66] (pairOf 2).publicPoint (List.replicate 32 4)

def oneByOne : List SessionAction := [.arrive commitB, .poll, .arrive revealB, .poll]

def bothAtOnce : List SessionAction := [.poll, .arrive commitB, .arrive revealB, .poll, .poll]

theorem same_peer_at_any_pace :
    ∃ commit reveal id point nonce,
      (exec (sessionStep plainCrypto) ⟨startedA, []⟩ oneByOne).received = [commit, reveal] ∧
        (exec (sessionStep plainCrypto) ⟨startedA, []⟩ bothAtOnce).received = [commit, reveal] ∧
        revealFields reveal = some (id, point, nonce) := by
  have unpolled : Unpolled (.create ⟨0, true, [], []⟩ [65]) := ⟨rfl, rfl⟩
  have started : PairingExchange.start plainCrypto (.create (⟨0, true, [], []⟩ : Wire) [65])
      (some (pairOf 1)) (List.replicate 32 3) = (true, startedA) := by decide
  obtain ⟨commit, reveal, id, point, nonce, received, received', fields, _⟩ :=
    (commitment_binds plainCrypto unpolled started).2 oneByOne bothAtOnce _ _ rfl rfl (by decide)
      (by decide) (by decide) (by decide)
  exact ⟨commit, reveal, id, point, nonce, received, received', fields⟩

end Skittermouse.Pairing

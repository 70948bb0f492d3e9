import Mathlib.Logic.Function.Basic
import Skittermouse.Pairing.Commitment
import Skittermouse.Pairing.KeyStore

/-! # Two honest exchanges

Both send a commitment when they start and a reveal when the other's commitment
has come, with no turn between them. Where an exchange has got to says which
messages it has taken and which it has sent.
-/

namespace Skittermouse.Pairing

open Skittermouse.Data Skittermouse.Core Skittermouse.Net PairingExchange

structure Meeting where
  exchanges : Party → PairingExchange Wire
  consumed : Party → Nat

inductive MeetingAction where
  /-- Key generation and `randomBytes` return these. -/
  | start (party : Party) (generated : Option EcdhKeyPair) (random : Bytes)
  | carry (party : Party)
  | poll (party : Party)

def Meeting.init (ids : Party → PeerId) : Meeting :=
  { exchanges := fun party => .create ⟨0, true, [], []⟩ (ids party), consumed := fun _ => 0 }

def meetingStep (crypto : Crypto) : MeetingAction → Meeting → Meeting
  | .start party generated random, meeting =>
      { meeting with
        exchanges := Function.update meeting.exchanges party
          ((meeting.exchanges party).start crypto generated random).2 }
  | .carry party, meeting =>
      let mine := meeting.exchanges party
      let theirs := meeting.exchanges party.other
      match theirs.transport.outbox with
      | [] => meeting
      | message :: outbox =>
          { meeting with
            exchanges := Function.update
              (Function.update meeting.exchanges party.other
                { theirs with transport := { theirs.transport with outbox } })
              party
              { mine with transport.inbox := mine.transport.inbox ++ [message] } }
  | .poll party, meeting =>
      let mine := meeting.exchanges party
      let after := (mine.poll crypto).2
      { exchanges := Function.update meeting.exchanges party after
        consumed := Function.update meeting.consumed party
          (meeting.consumed party + (mine.transport.inbox.length - after.transport.inbox.length)) }

/-- Key pairs are generated properly, and nobody polls before a start has succeeded. -/
def Honest (generates : EcdhKeyPair → Prop) : MeetingAction → Meeting → Prop
  | .start _ generated _, _ => ∀ pair, generated = some pair → generates pair
  | .carry _, _ => True
  | .poll party, meeting => (meeting.exchanges party).started = true

variable {crypto : Crypto} {mine theirs after : PairingExchange Wire} {consumed : Nat}

def sentBy (crypto : Crypto) (exchange : PairingExchange Wire) : List Bytes :=
  if exchange.started then
    match exchange.phase with
    | .awaitCommit => [ownCommit crypto exchange]
    | .awaitReveal => [ownCommit crypto exchange, ownReveal exchange]
  else []

def takenBy (exchange : PairingExchange Wire) : Nat :=
  match exchange.status, exchange.phase with
  | .ok, _ => 2
  | _, .awaitReveal => 1
  | _, .awaitCommit => 0

/-- What a party that is through has agreed on with the other. -/
def Agreed (crypto : Crypto) (mine theirs : PairingExchange Wire) : Prop :=
  mine.peerId = theirs.self ∧ ∃ shared : Bytes, shared.length = kSharedLen ∧
    crypto.ecdhComputeShared mine.handshake.pair theirs.handshake.pair.publicPoint = some shared ∧
    mine.code = verificationCode crypto shared mine.nonce theirs.nonce ∧
    hkdfSha256 crypto kMaxRequest shared (EcdhHandshake.pskSalt mine.self theirs.self)
      EcdhHandshake.pskInfo 32 = some mine.psk.val

structure InStep (crypto : Crypto) (generates : EcdhKeyPair → Prop)
    (mine theirs : PairingExchange Wire) (consumed : Nat) : Prop where
  up : mine.transport.connected = true
  fresh : mine.started = false → mine.phase = .awaitCommit ∧ mine.status = .needMore
  begun : mine.started = true → generates mine.handshake.pair ∧
    mine.nonce.length = kPairingNonceLen ∧ mine.self ≠ [] ∧ mine.self.length ≤ 255
  queue : mine.transport.inbox ++ theirs.transport.outbox = (sentBy crypto theirs).drop consumed
  taken : consumed = takenBy mine
  within : consumed ≤ (sentBy crypto theirs).length
  fine : mine.status ≠ .error
  committed : mine.phase = .awaitReveal → mine.peerCommit = ownCommit crypto theirs
  settled : mine.status = .ok → mine.phase = .awaitReveal ∧ Agreed crypto mine theirs

variable {generates : EcdhKeyPair → Prop}

theorem poll_settled (settled : mine.status ≠ .needMore) : (mine.poll crypto).2 = mine := by
  rw [PairingExchange.poll, if_pos settled]

theorem poll_idle (going : mine.status = .needMore) (up : mine.transport.connected = true)
    (empty : mine.transport.inbox = []) : (mine.poll crypto).2 = mine := by
  rw [PairingExchange.poll, if_neg (not_not.mpr going), Wire.recv_nil kBufferLen up empty]

theorem poll_commit {message : Bytes} {rest : List Bytes} (going : mine.status = .needMore)
    (up : mine.transport.connected = true) (phase : mine.phase = .awaitCommit)
    (waiting : mine.transport.inbox = message :: rest) (size : message.length = kCommitLen) :
    (mine.poll crypto).2 = { mine with
      peerCommit := message
      transport := { mine.transport with
        inbox := rest, outbox := mine.transport.outbox ++ [ownReveal mine] }
      phase := .awaitReveal } := by
  have received := Wire.recv_cons kBufferLen up waiting
  rw [List.take_of_length_le (by rw [size]; decide)] at received
  obtain ⟨byte, tail, rfl⟩ : ∃ byte tail, message = byte :: tail := by
    cases message with
    | nil => contradiction
    | cons byte tail => exact ⟨byte, tail, rfl⟩
  rw [PairingExchange.poll, if_neg (not_not.mpr going), received]
  simp only [phase, takeCommit, size, ne_eq, not_true_eq_false, if_false, Transport.send, Wire.send,
    up, if_true]
  rfl

theorem poll_reveal {rest : List Bytes} {shared : Bytes} (going : mine.status = .needMore)
    (up : mine.transport.connected = true) (phase : mine.phase = .awaitReveal)
    (waiting : mine.transport.inbox = ownReveal theirs :: rest)
    (point : theirs.handshake.publicPoint.length = kPubLen)
    (nonce : theirs.nonce.length = kPairingNonceLen) (some_ : theirs.self ≠ [])
    (short : theirs.self.length ≤ 255) (distinct : theirs.self ≠ mine.self)
    (committed : mine.peerCommit = ownCommit crypto theirs)
    (computed : crypto.ecdhComputeShared mine.handshake.pair theirs.handshake.publicPoint = some shared)
    (size : shared.length = kSharedLen) :
    ∃ psk : Psk, hkdfSha256 crypto kMaxRequest shared (EcdhHandshake.pskSalt mine.self theirs.self)
        EcdhHandshake.pskInfo 32 = some psk.val ∧
      (mine.poll crypto).2 = { mine with
        transport := { mine.transport with inbox := rest }
        peerId := theirs.self
        handshake := { mine.handshake with shared }
        code := verificationCode crypto shared mine.nonce theirs.nonce
        psk
        status := .ok } := by
  have whole : (ownReveal theirs).length ≤ kBufferLen := by
    rw [ownReveal, revealMessage_length point nonce]
    unfold kPubLen kEcPointLen kPairingNonceLen kBufferLen
    omega
  have received := Wire.recv_cons kBufferLen up waiting
  rw [List.take_of_length_le whole] at received
  have fields := revealFields_message some_ short point nonce
  have hash : (crypto.sha256 (commitInput theirs.handshake.publicPoint theirs.nonce theirs.self)).val =
      mine.peerCommit := committed.symm
  obtain ⟨psk, derived, key⟩ := @EcdhHandshake.derivePsk_shared crypto ⟨mine.handshake.pair, shared⟩
    mine.self theirs.self size
  have code : EcdhHandshake.verificationCode crypto ⟨mine.handshake.pair, shared⟩ mine.nonce
      theirs.nonce = verificationCode crypto shared mine.nonce theirs.nonce := by
    have has : (⟨mine.handshake.pair, shared⟩ : EcdhHandshake).hasShared = true := beq_iff_eq.mpr size
    rw [EcdhHandshake.verificationCode, if_pos has]
  refine ⟨psk, key, ?_⟩
  rw [PairingExchange.poll, if_neg (not_not.mpr going), received]
  obtain ⟨byte, tail, shape⟩ : ∃ byte tail, ownReveal theirs = byte :: tail := ⟨_, _, rfl⟩
  rw [ownReveal] at shape
  rw [shape] at fields
  simp only [ownReveal, shape, phase, takeReveal, fields, if_neg distinct, hash, ne_eq,
    not_true_eq_false, if_false, EcdhHandshake.computeShared, computed, code, derived]

theorem sentBy_head {message : Bytes} {more : List Bytes}
    (sent : sentBy crypto theirs = message :: more) :
    theirs.started = true ∧ message = ownCommit crypto theirs := by
  unfold sentBy at sent
  split at sent
  · rename_i started
    refine ⟨started, ?_⟩
    split at sent <;> cases sent <;> rfl
  · contradiction

theorem sentBy_second {message : Bytes} {more : List Bytes}
    (sent : (sentBy crypto theirs).drop 1 = message :: more) :
    theirs.started = true ∧ theirs.phase = .awaitReveal ∧ message = ownReveal theirs ∧ more = [] := by
  unfold sentBy at sent
  split at sent
  · rename_i started
    refine ⟨started, ?_⟩
    split at sent
    · contradiction
    · rename_i phase
      cases sent
      exact ⟨phase, rfl, rfl⟩
  · contradiction

def SameAnnouncement (exchange other : PairingExchange Wire) : Prop :=
  other.self = exchange.self ∧ other.nonce = exchange.nonce ∧
    other.handshake.pair = exchange.handshake.pair

theorem SameAnnouncement.commit (same : SameAnnouncement theirs after) :
    ownCommit crypto after = ownCommit crypto theirs := by
  simp only [ownCommit, EcdhHandshake.publicPoint, same.1, same.2.1, same.2.2]

theorem SameAnnouncement.reveal (same : SameAnnouncement theirs after) :
    ownReveal after = ownReveal theirs := by
  simp only [ownReveal, EcdhHandshake.publicPoint, same.1, same.2.1, same.2.2]

theorem SameAnnouncement.sentBy (same : SameAnnouncement theirs after)
    (started : after.started = theirs.started) (phase : after.phase = theirs.phase) :
    sentBy crypto after = sentBy crypto theirs := by
  simp only [Pairing.sentBy, started, phase, same.commit, same.reveal]

theorem InStep.others (step : InStep crypto generates mine theirs consumed)
    (same : SameAnnouncement theirs after) {more : List Bytes}
    (outbox : after.transport.outbox = theirs.transport.outbox ++ more)
    (sent : sentBy crypto after = sentBy crypto theirs ++ more) :
    InStep crypto generates mine after consumed := by
  refine ⟨step.up, step.fresh, step.begun, ?_, step.taken, ?_, step.fine, fun phase => ?_,
    fun done => ?_⟩
  · rw [outbox, ← List.append_assoc, step.queue, sent, List.drop_append_of_le_length step.within]
  · rw [sent, List.length_append]
    exact Nat.le_add_right_of_le step.within
  · rw [same.commit]
    exact step.committed phase
  · rw [Agreed, same.1, same.2.1, same.2.2]
    exact step.settled done

/-- The other party had sent nothing, so nothing rests on what it announces. -/
theorem InStep.others_fresh (step : InStep crypto generates mine theirs consumed)
    (silent : theirs.started = false) {more : List Bytes}
    (outbox : after.transport.outbox = theirs.transport.outbox ++ more)
    (sent : sentBy crypto after = more) : InStep crypto generates mine after consumed := by
  have nothing : sentBy crypto theirs = [] := by
    rw [sentBy, silent]
    rfl
  have within := step.within
  rw [nothing] at within
  have none : consumed = 0 := Nat.le_zero.mp within
  have taken := step.taken
  rw [none] at taken
  have early : mine.phase = .awaitCommit ∧ mine.status ≠ .ok := by
    unfold takenBy at taken
    split at taken
    · contradiction
    · contradiction
    · rename_i phase notDone
      exact ⟨phase, notDone⟩
  refine ⟨step.up, step.fresh, step.begun, ?_, step.taken, ?_, step.fine, fun phase => ?_,
    fun done => absurd done early.2⟩
  · rw [outbox, ← List.append_assoc, step.queue, nothing, List.drop_nil, List.nil_append, none, sent]
    rfl
  · rw [none]
    exact Nat.zero_le _
  · rw [early.1] at phase
    contradiction

structure Meets (crypto : Crypto) (generates : EcdhKeyPair → Prop) (ids : Party → PeerId)
    (meeting : Meeting) : Prop where
  self : ∀ party, (meeting.exchanges party).self = ids party
  inStep : ∀ party, InStep crypto generates (meeting.exchanges party)
    (meeting.exchanges party.other) (meeting.consumed party)

variable {ids : Party → PeerId} {meeting : Meeting} {party : Party}

theorem meets_init (crypto : Crypto) (generates : EcdhKeyPair → Prop) (ids : Party → PeerId) :
    Meets crypto generates ids (.init ids) :=
  ⟨fun _ => rfl, fun _ => ⟨rfl, fun _ => ⟨rfl, rfl⟩, nofun, rfl, rfl, Nat.zero_le _, nofun, nofun, nofun⟩⟩

theorem Meets.update (meets : Meets crypto generates ids meeting) {count : Nat}
    (self : after.self = (meeting.exchanges party).self)
    (own : InStep crypto generates after (meeting.exchanges party.other) count)
    (others : InStep crypto generates (meeting.exchanges party.other) after
      (meeting.consumed party.other)) :
    Meets crypto generates ids
      { exchanges := Function.update meeting.exchanges party after
        consumed := Function.update meeting.consumed party count } := by
  refine ⟨fun acting => ?_, fun acting => ?_⟩
  · by_cases same : acting = party
    · subst same
      simp only [Function.update_self, self]
      exact meets.self acting
    · simp only [Function.update_of_ne same]
      exact meets.self acting
  · rcases acting.eq_or_other party with rfl | rfl
    · simp only [Function.update_self, Function.update_of_ne acting.other_ne]
      exact own
    · simp only [Function.update_self, Function.update_of_ne acting.other_ne.symm]
      rw [Party.other_other] at others
      exact others

theorem Meets.start (meets : Meets crypto generates ids meeting)
    {generated : Option EcdhKeyPair} {random : Bytes}
    (honest : ∀ pair, generated = some pair → generates pair) :
    Meets crypto generates ids (meetingStep crypto (.start party generated random) meeting) := by
  have own := meets.inStep party
  have others := meets.inStep party.other
  rw [Party.other_other] at others
  have still : Function.update meeting.consumed party (meeting.consumed party) = meeting.consumed :=
    Function.update_eq_self ..
  simp only [meetingStep]
  rw [← still]
  generalize began : (meeting.exchanges party).start crypto generated random = result
  obtain ⟨result, after⟩ := result
  rcases start_cases began with ⟨_, _, rfl⟩ | ⟨idle, _, handshake, nonce, rfl⟩ |
    ⟨idle, _, pair, fresh, made, rfl, some_, short, size, rfl⟩
  · exact meets.update rfl own others
  · have silent : sentBy crypto { meeting.exchanges party with handshake, nonce } = [] := by
      simp only [sentBy, idle, Bool.false_eq_true, if_false]
    refine meets.update rfl ?_ (others.others_fresh idle (List.append_nil _).symm silent)
    refine ⟨own.up, own.fresh, fun started => ?_, own.queue, own.taken, own.within, own.fine,
      own.committed, fun done => ?_⟩
    · have same : (meeting.exchanges party).started = true := started
      rw [idle] at same
      contradiction
    · have same : (meeting.exchanges party).status = .ok := done
      rw [(own.fresh idle).2] at same
      contradiction
  · obtain ⟨phase, status⟩ := own.fresh idle
    refine meets.update rfl ?_ (others.others_fresh idle rfl ?_)
    · refine ⟨own.up, nofun, fun _ => ⟨honest pair made, size, some_, short⟩, own.queue, own.taken,
        own.within, own.fine, own.committed, fun done => ?_⟩
      have same : (meeting.exchanges party).status = .ok := done
      rw [status] at same
      contradiction
    · simp only [sentBy, if_true, phase]
      rfl

theorem InStep.transports (step : InStep crypto generates mine theirs consumed) {here there : Wire}
    (up : here.connected = mine.transport.connected)
    (queue : here.inbox ++ there.outbox = mine.transport.inbox ++ theirs.transport.outbox) :
    InStep crypto generates { mine with transport := here } { theirs with transport := there }
      consumed :=
  ⟨up.trans step.up, step.fresh, step.begun, queue.trans step.queue, step.taken, step.within,
    step.fine, step.committed, step.settled⟩

theorem Meets.carry (meets : Meets crypto generates ids meeting) :
    Meets crypto generates ids (meetingStep crypto (.carry party) meeting) := by
  have own := meets.inStep party
  have others := meets.inStep party.other
  rw [Party.other_other] at others
  simp only [meetingStep]
  split
  · exact meets
  · rename_i message outbox waiting
    refine ⟨fun acting => ?_, fun acting => ?_⟩
    · rcases acting.eq_or_other party with rfl | rfl
      · simp only [Function.update_self]
        exact meets.self acting
      · simp only [Function.update_of_ne acting.other_ne.symm, Party.other_other, Function.update_self]
        exact meets.self acting
    · rcases acting.eq_or_other party with rfl | rfl
      · simp only [Function.update_self, Function.update_of_ne acting.other_ne]
        refine own.transports rfl ?_
        rw [waiting, List.append_assoc, List.singleton_append]
      · simp only [Function.update_of_ne acting.other_ne.symm, Party.other_other,
          Function.update_self] at others ⊢
        exact others.transports rfl rfl

variable {returned : Nat}

theorem InStep.poll_commit (step : InStep crypto generates mine theirs consumed)
    (back : InStep crypto generates theirs mine returned) (started : mine.started = true)
    (going : mine.status = .needMore) (phase : mine.phase = .awaitCommit) {message : Bytes}
    {rest : List Bytes} (waiting : mine.transport.inbox = message :: rest) :
    InStep crypto generates (mine.poll crypto).2 theirs (consumed + 1) ∧
      InStep crypto generates theirs (mine.poll crypto).2 returned ∧
      (mine.poll crypto).2.transport.inbox = rest ∧ (mine.poll crypto).2.self = mine.self := by
  have none : consumed = 0 := by
    rw [step.taken, takenBy, going, phase]
  have queue := step.queue
  rw [none, List.drop_zero, waiting] at queue
  obtain ⟨theirsStarted, commit⟩ := sentBy_head queue.symm
  have size : message.length = kCommitLen := by
    rw [commit]
    exact (crypto.sha256 _).property
  have sent : sentBy crypto { mine with
      peerCommit := message
      transport := { mine.transport with
        inbox := rest, outbox := mine.transport.outbox ++ [ownReveal mine] }
      phase := .awaitReveal } = sentBy crypto mine ++ [ownReveal mine] := by
    simp only [sentBy, started, if_true, phase]
    rfl
  rw [Pairing.poll_commit going step.up phase waiting size]
  refine ⟨⟨step.up, fun idle => ?_, step.begun, ?_, ?_, ?_, step.fine, fun _ => commit,
    fun done => ?_⟩, back.others ⟨rfl, rfl, rfl⟩ rfl sent, rfl, rfl⟩
  · have same : mine.started = false := idle
    rw [started] at same
    contradiction
  · rw [none, ← queue]
    rfl
  · rw [none, takenBy]
    simp only [going]
  · rw [none, ← queue]
    exact Nat.succ_le_succ (Nat.zero_le _)
  · have same : mine.status = .ok := done
    rw [going] at same
    contradiction

theorem InStep.poll_reveal (curve : crypto.OnCurve generates)
    (step : InStep crypto generates mine theirs consumed)
    (back : InStep crypto generates theirs mine returned) (started : mine.started = true)
    (distinct : theirs.self ≠ mine.self) (going : mine.status = .needMore)
    (phase : mine.phase = .awaitReveal) {message : Bytes} {rest : List Bytes}
    (waiting : mine.transport.inbox = message :: rest) :
    InStep crypto generates (mine.poll crypto).2 theirs (consumed + 1) ∧
      InStep crypto generates theirs (mine.poll crypto).2 returned ∧
      (mine.poll crypto).2.transport.inbox = rest ∧ (mine.poll crypto).2.self = mine.self := by
  have one : consumed = 1 := by
    rw [step.taken, takenBy, going, phase]
  have queue := step.queue
  rw [one, waiting] at queue
  obtain ⟨theirsStarted, theirsPhase, rfl, behind⟩ := sentBy_second queue.symm
  have total : (sentBy crypto theirs).length = 2 := by
    simp only [sentBy, theirsStarted, if_true, theirsPhase, List.length_cons, List.length_nil]
  obtain ⟨minePair, _⟩ := step.begun started
  obtain ⟨theirPair, nonce, some_, short⟩ := back.begun theirsStarted
  obtain ⟨shared, size, secret, _⟩ := curve.shared _ _ minePair theirPair
  obtain ⟨psk, derived, polled⟩ := Pairing.poll_reveal going step.up phase waiting
    (curve.point _ theirPair) nonce some_ short distinct (step.committed phase) secret size
  have sent : ∀ after : PairingExchange Wire, SameAnnouncement mine after →
      after.started = mine.started → after.phase = mine.phase →
      sentBy crypto after = sentBy crypto mine ++ [] := fun after same begun course => by
    rw [same.sentBy begun course, List.append_nil]
  rw [polled]
  refine ⟨⟨step.up, fun idle => ?_, step.begun, ?_, ?_, ?_, nofun, step.committed,
    fun _ => ⟨phase, rfl, shared, size, secret, rfl, derived⟩⟩,
    back.others ⟨rfl, rfl, rfl⟩ (List.append_nil _).symm (sent _ ⟨rfl, rfl, rfl⟩ rfl rfl), rfl, rfl⟩
  · have same : mine.started = false := idle
    rw [started] at same
    contradiction
  · rw [one, List.drop_eq_nil_of_le (by rw [total])]
    exact behind
  · rw [one, takenBy]
  · rw [one, total]

theorem Meets.poll (curve : crypto.OnCurve generates) (distinct : ids .left ≠ ids .right)
    (meets : Meets crypto generates ids meeting) (started : (meeting.exchanges party).started = true) :
    Meets crypto generates ids (meetingStep crypto (.poll party) meeting) := by
  have own := meets.inStep party
  have others := meets.inStep party.other
  rw [Party.other_other] at others
  have apart : (meeting.exchanges party.other).self ≠ (meeting.exchanges party).self := by
    rw [meets.self, meets.self]
    cases party with
    | left => exact distinct.symm
    | right => exact distinct
  simp only [meetingStep]
  have unchanged : ((meeting.exchanges party).poll crypto).2 = meeting.exchanges party →
      Meets crypto generates ids
        { exchanges := Function.update meeting.exchanges party
            ((meeting.exchanges party).poll crypto).2
          consumed := Function.update meeting.consumed party (meeting.consumed party +
            ((meeting.exchanges party).transport.inbox.length -
              ((meeting.exchanges party).poll crypto).2.transport.inbox.length)) } := fun same => by
    rw [same, Nat.sub_self, Nat.add_zero]
    exact meets.update rfl own others
  by_cases going : (meeting.exchanges party).status = .needMore
  · cases waiting : (meeting.exchanges party).transport.inbox with
    | nil =>
        rw [← waiting]
        exact unchanged (poll_idle going own.up waiting)
    | cons message rest =>
        have taken : ∀ after : PairingExchange Wire, after.transport.inbox = rest →
            (message :: rest).length - after.transport.inbox.length = 1 := fun after same => by
          rw [same, List.length_cons, Nat.add_sub_cancel_left]
        cases phase : (meeting.exchanges party).phase with
        | awaitCommit =>
            obtain ⟨mine, theirs, inbox, self⟩ := own.poll_commit others started going phase waiting
            rw [taken _ inbox]
            exact meets.update self mine theirs
        | awaitReveal =>
            obtain ⟨mine, theirs, inbox, self⟩ :=
              own.poll_reveal curve others started apart going phase waiting
            rw [taken _ inbox]
            exact meets.update self mine theirs
  · exact unchanged (poll_settled going)

theorem Meets.step (curve : crypto.OnCurve generates) (distinct : ids .left ≠ ids .right)
    (meets : Meets crypto generates ids meeting) (action : MeetingAction)
    (honest : Honest generates action meeting) :
    Meets crypto generates ids (meetingStep crypto action meeting) := by
  cases action with
  | start party generated random => exact meets.start honest
  | carry party => exact meets.carry
  | poll party => exact meets.poll curve distinct honest

theorem InStep.ok_of_two (step : InStep crypto generates mine theirs 2) : mine.status = .ok := by
  have taken := step.taken
  unfold takenBy at taken
  split at taken
  · assumption
  · contradiction
  · contradiction

theorem Agreed.same (curve : crypto.OnCurve generates) (agreed : Agreed crypto mine theirs)
    (also : Agreed crypto theirs mine) (minePair : generates mine.handshake.pair)
    (theirPair : generates theirs.handshake.pair) :
    mine.code = theirs.code ∧ mine.psk = theirs.psk := by
  obtain ⟨_, shared, _, secret, code, psk⟩ := agreed
  obtain ⟨_, shared', _, secret', code', psk'⟩ := also
  obtain ⟨common, _, here, there⟩ := curve.shared _ _ minePair theirPair
  obtain rfl := Option.some.inj (secret.symm.trans here)
  obtain rfl := Option.some.inj (secret'.symm.trans there)
  refine ⟨?_, Subtype.ext ?_⟩
  · rw [code, code', verificationCode_swap]
  · rw [EcdhHandshake.pskSalt_swap, psk] at psk'
    exact Option.some.inj psk'

/-- Whatever the order of the polls, nobody fails, and when both have taken both
messages of the other they have paired. -/
theorem honest_pairing_agrees (curve : crypto.OnCurve generates)
    (distinct : ids .left ≠ ids .right) {actions : List MeetingAction}
    (honest : Along (meetingStep crypto) (Honest generates) (.init ids) actions) :
    ∀ meeting, meeting = exec (meetingStep crypto) (.init ids) actions →
      (∀ party, (meeting.exchanges party).status ≠ .error) ∧
      (meeting.consumed .left = 2 → meeting.consumed .right = 2 →
        (∀ party, (meeting.exchanges party).status = .ok ∧
          (meeting.exchanges party).peerId = ids party.other ∧
          (meeting.exchanges party).code.length = 6) ∧
        (meeting.exchanges .left).code = (meeting.exchanges .right).code ∧
        (meeting.exchanges .left).psk = (meeting.exchanges .right).psk) := by
  rintro meeting rfl
  have meets : Meets crypto generates ids (exec (meetingStep crypto) (.init ids) actions) :=
    exec_invariant (fun action _ meets honest => meets.step curve distinct action honest)
      (meets_init crypto generates ids) honest
  generalize exec (meetingStep crypto) (.init ids) actions = meeting at meets ⊢
  refine ⟨fun party => (meets.inStep party).fine, fun left right => ?_⟩
  have both : ∀ party, meeting.consumed party = 2 := by
    intro party
    cases party with
    | left => exact left
    | right => exact right
  have done : ∀ party, (meeting.exchanges party).status = .ok := fun party =>
    (both party ▸ meets.inStep party : InStep crypto generates _ _ 2).ok_of_two
  have agreed := fun party => ((meets.inStep party).settled (done party)).2
  have begun : ∀ party, generates (meeting.exchanges party).handshake.pair := by
    intro party
    cases started : (meeting.exchanges party).started with
    | true => exact ((meets.inStep party).begun started).1
    | false =>
        have going := ((meets.inStep party).fresh started).2
        rw [done party] at going
        contradiction
  refine ⟨fun party => ⟨done party, ?_, ?_⟩, (agreed .left).same curve (agreed .right) (begun .left)
    (begun .right)⟩
  · rw [(agreed party).1, meets.self]
  · obtain ⟨_, shared, _, _, code, _⟩ := agreed party
    rw [code, verificationCode_length]

def meetingIds : Party → PeerId
  | .left => [65]
  | .right => [66]

def shortMeeting : List MeetingAction :=
  [.start .left (some (pairOf 1)) (List.replicate 32 3), .poll .left,
    .start .right (some (pairOf 2)) (List.replicate 32 4), .carry .left, .poll .left, .carry .right,
    .carry .right, .poll .right, .carry .left, .poll .left, .poll .right]

def hasPoint (pair : EcdhKeyPair) : Prop := pair.publicPoint.length = kEcPointLen

theorem honest_start {party : Party} {pair : EcdhKeyPair} {random : Bytes} {meeting : Meeting}
    (point : hasPoint pair) : Honest hasPoint (.start party (some pair) random) meeting := by
  intro other same
  cases same
  exact point

theorem short_meeting_pairs :
    ((exec (meetingStep plainCrypto) (.init meetingIds) shortMeeting).exchanges .left).code =
        ((exec (meetingStep plainCrypto) (.init meetingIds) shortMeeting).exchanges .right).code ∧
      ((exec (meetingStep plainCrypto) (.init meetingIds) shortMeeting).exchanges .left).psk =
        ((exec (meetingStep plainCrypto) (.init meetingIds) shortMeeting).exchanges .right).psk := by
  have honest : Along (meetingStep plainCrypto) (Honest hasPoint) (.init meetingIds) shortMeeting :=
    ⟨honest_start rfl, rfl, honest_start rfl, trivial, rfl, trivial, trivial, rfl, trivial, rfl, rfl,
      trivial⟩
  exact ((honest_pairing_agrees plainCrypto_onCurve (by decide) honest _ rfl).2 (by decide)
    (by decide)).2

end Skittermouse.Pairing

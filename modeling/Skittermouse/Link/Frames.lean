import Skittermouse.Mesh.Transports
import Skittermouse.Net.EncryptedTransport

/-! # Sealed frames on a wire

The frames that one end seals, in the order of its counter, are opened by the
other end in that order, as long as each fits the buffer it is received into.
-/

namespace Skittermouse.Link

open Skittermouse.Data Skittermouse.Net

def Seals (aead : Aead) : Prop :=
  ∀ key nonce plaintext, plaintext ≠ [] →
    ∃ ciphertext tag, aead.encrypt key nonce plaintext = some (ciphertext, tag)

/-- The frames that carry these messages, sealed in turn from this counter on. -/
inductive Frames (aead : Aead) (key : Psk) (role : UInt8) : Nat → List Bytes → List Bytes → Prop where
  | nil (ctr : Nat) : Frames aead key role ctr [] []
  | cons {ctr : Nat} {message ciphertext tag : Bytes} {messages frames : List Bytes}
      (room : ctr < 2 ^ 64)
      (encrypted : aead.encrypt key (makeNonce role (UInt64.ofNat ctr)) message =
        some (ciphertext, tag))
      (rest : Frames aead key role (ctr + 1) messages frames) :
      Frames aead key role ctr (message :: messages)
        ((makeNonce role (UInt64.ofNat ctr) ++ tag ++ ciphertext) :: frames)

variable {aead : Aead} {key : Psk} {role : UInt8} {ctr cap : Nat}
variable {message ciphertext tag : Bytes} {messages frames : List Bytes}

theorem Frames.concat (sealed : Frames aead key role ctr messages frames)
    (room : ctr + messages.length < 2 ^ 64)
    (encrypted : aead.encrypt key (makeNonce role (UInt64.ofNat (ctr + messages.length))) message =
      some (ciphertext, tag)) :
    Frames aead key role ctr (messages ++ [message])
      (frames ++ [makeNonce role (UInt64.ofNat (ctr + messages.length)) ++ tag ++ ciphertext]) := by
  induction sealed with
  | nil ctr => exact .cons room encrypted (.nil _)
  | @cons ctr first _ _ later _ below sealedFirst rest ih =>
      have shift : ctr + (first :: later).length = ctr + 1 + later.length := by
        rw [List.length_cons]
        omega
      rw [shift] at room encrypted ⊢
      exact .cons below sealedFirst (ih room encrypted)

theorem frame_length (encrypted : aead.encrypt key (makeNonce role (UInt64.ofNat ctr)) message =
    some (ciphertext, tag)) :
    (makeNonce role (UInt64.ofNat ctr) ++ tag ++ ciphertext).length = kOverhead + message.length := by
  obtain ⟨size, tagSize⟩ := aead.encrypt_sizes encrypted
  simp only [List.length_append, makeNonce_length, tagSize, size, kOverhead, kTagLen]

theorem Frames.length (sealed : Frames aead key role ctr messages frames) :
    frames.length = messages.length := by
  induction sealed with
  | nil => rfl
  | cons _ _ _ ih => rw [List.length_cons, List.length_cons, ih]

theorem Frames.get {index : Nat} {frame : Bytes} (sealed : Frames aead key role ctr messages frames)
    (found : frames[index]? = some frame) :
    ∃ message ciphertext tag, messages[index]? = some message ∧ ctr + index < 2 ^ 64 ∧
      aead.encrypt key (makeNonce role (UInt64.ofNat (ctr + index))) message =
        some (ciphertext, tag) ∧
      frame = makeNonce role (UInt64.ofNat (ctr + index)) ++ tag ++ ciphertext := by
  induction sealed generalizing index with
  | nil => contradiction
  | @cons ctr first _ _ later _ room encrypted rest ih =>
      cases index with
      | zero =>
          cases found
          exact ⟨first, _, _, rfl, room, encrypted, rfl⟩
      | succ index =>
          have shift : ctr + (index + 1) = ctr + 1 + index := by omega
          rw [shift]
          exact ih found

variable {link : EncryptedTransport aead Wire} {inbox : List Bytes}

/-- An end that expects this counter next, or one below it. -/
def Expects (link : EncryptedTransport aead Wire) (ctr : Nat) : Prop :=
  link.haveRecv = true → link.lastRecvCtr.toNat < ctr

theorem openFrame_sealed (expects : Expects link ctr) (room : ctr < 2 ^ 64)
    (encrypted : aead.encrypt link.key (makeNonce link.recvRole (UInt64.ofNat ctr)) message =
      some (ciphertext, tag))
    (fits : message.length ≤ cap) :
    link.openFrame (makeNonce link.recvRole (UInt64.ofNat ctr) ++ tag ++ ciphertext) cap =
      some (message, UInt64.ofNat ctr) := by
  obtain ⟨size, tagSize⟩ := aead.encrypt_sizes encrypted
  have whole := frame_length encrypted
  generalize built : makeNonce link.recvRole (UInt64.ofNat ctr) = nonce at *
  have width : nonce.length = kNonceLen := by rw [← built, makeNonce_length]
  have first : nonce.head? = some link.recvRole := by rw [← built]; rfl
  have counter : readCounter nonce = UInt64.ofNat ctr := by rw [← built, readCounter_makeNonce]
  obtain ⟨nonceField, tagField, body⟩ := @EncryptedTransport.frame_fields nonce tag ciphertext width
    tagSize
  have later : (link.haveRecv && decide (UInt64.ofNat ctr ≤ link.lastRecvCtr)) = false := by
    rw [Bool.and_eq_false_iff, decide_eq_false_iff_not, ← Bool.not_eq_true]
    by_cases received : link.haveRecv = true
    · right
      rw [UInt64.le_iff_toNat_le, UInt64.toNat_ofNat_of_lt' room, not_le]
      exact expects received
    · exact .inl received
  have long : ¬(nonce ++ tag ++ ciphertext).length < kOverhead := by omega
  simp only [EncryptedTransport.openFrame, if_neg long, nonceField, first, ne_eq, not_true_eq_false,
    if_false, counter, later, Bool.false_eq_true, tagField, body, size, not_lt.mpr fits,
    aead.decrypt_encrypt encrypted]

/-- The oldest waiting frame is opened, and the end then expects the next counter. -/
theorem recv_frame (up : link.inner.connected = true)
    (waiting : link.inner.inbox =
      (makeNonce link.recvRole (UInt64.ofNat ctr) ++ tag ++ ciphertext) :: inbox)
    (expects : Expects link ctr) (room : ctr < 2 ^ 64)
    (encrypted : aead.encrypt link.key (makeNonce link.recvRole (UInt64.ofNat ctr)) message =
      some (ciphertext, tag))
    (fits : message.length ≤ cap) :
    ∃ scratch, Transport.recv link cap = (some message,
      { link with
        inner := { link.inner with inbox }
        scratch
        haveRecv := true
        lastRecvCtr := UInt64.ofNat ctr }) := by
  have whole := frame_length encrypted
  have received := Wire.recv_cons (max link.scratch (cap + kOverhead)) up waiting
  rw [List.take_of_length_le (by omega)] at received
  refine ⟨max link.scratch (cap + kOverhead), ?_⟩
  have opened := @openFrame_sealed aead ctr cap message ciphertext tag
    { link with inner := { link.inner with inbox }, scratch := max link.scratch (cap + kOverhead) }
    expects room encrypted fits
  have shape : ∃ byte rest, makeNonce link.recvRole (UInt64.ofNat ctr) ++ tag ++ ciphertext =
      byte :: rest := ⟨_, _, rfl⟩
  obtain ⟨byte, rest, shape⟩ := shape
  simp only at opened
  rw [shape] at received opened
  simp only [Transport.recv, EncryptedTransport.recv] at received ⊢
  simp only [received, opened]

theorem recv_idle (cap : Nat) (up : link.inner.connected = true) (empty : link.inner.inbox = []) :
    ∃ scratch, Transport.recv link cap = (some [], { link with scratch }) := by
  have received := Wire.recv_nil (max link.scratch (cap + kOverhead)) up empty
  refine ⟨max link.scratch (cap + kOverhead), ?_⟩
  simp only [Transport.recv, EncryptedTransport.recv] at received ⊢
  simp only [received]

theorem send_inbox (link : EncryptedTransport aead Wire) (message : Bytes) :
    (Transport.send link message).2.inner.inbox = link.inner.inbox := by
  simp only [Transport.send, EncryptedTransport.send]
  split
  · rfl
  · rename_i sealedFrame
    obtain ⟨_, _, _, _, _, _, rfl⟩ := EncryptedTransport.sealFrame_eq_some sealedFrame
    simp only [Wire.send]
    split <;> rfl

theorem recv_inbox_suffix (link : EncryptedTransport aead Wire) (cap : Nat) :
    (Transport.recv link cap).2.inner.inbox <:+ link.inner.inbox := by
  have inner : (Transport.recv link cap).2.inner = _ := EncryptedTransport.recv_inner link cap
  rw [inner]
  simp only [Transport.recv, Wire.recv]
  split
  · split
    · exact List.suffix_rfl
    · rename_i queue
      rw [queue]
      exact List.suffix_cons _ _
  · exact List.suffix_rfl

theorem recv_inbox_le (link : EncryptedTransport aead Wire) (cap : Nat) :
    (Transport.recv link cap).2.inner.inbox.length ≤ link.inner.inbox.length :=
  (recv_inbox_suffix link cap).length_le

theorem send_of_sealed {frame : Bytes} (up : link.inner.connected = true)
    (sealed : link.sealFrame message = some (frame, { link with sendCtr := link.sendCtr + 1 })) :
    (Transport.send link message).2 =
      { link with
        inner := { link.inner with outbox := link.inner.outbox ++ [frame] }
        sendCtr := link.sendCtr + 1 } := by
  have sent := Wire.send_eq frame up
  simp only [Transport.send, EncryptedTransport.send, sealed] at sent ⊢
  rw [sent]

theorem send_cases (message : Bytes) (up : link.inner.connected = true) :
    (Transport.send link message).2 = link ∨
      link.sendCtr ≠ UInt64.ofNat (2 ^ 64 - 1) ∧ ∃ ciphertext tag,
        aead.encrypt link.key (makeNonce link.sendRole link.sendCtr) message =
          some (ciphertext, tag) ∧
        (Transport.send link message).2 =
          { link with
            inner := { link.inner with outbox := link.inner.outbox ++
              [makeNonce link.sendRole link.sendCtr ++ tag ++ ciphertext] }
            sendCtr := link.sendCtr + 1 } := by
  cases sealed : link.sealFrame message with
  | none =>
      left
      simp only [Transport.send, EncryptedTransport.send, sealed]
  | some result =>
      obtain ⟨frame, after⟩ := result
      obtain ⟨_, room, ciphertext, tag, encrypted, rfl, rfl⟩ :=
        EncryptedTransport.sealFrame_eq_some sealed
      exact .inr ⟨room, ciphertext, tag, encrypted, send_of_sealed up sealed⟩

theorem send_sealed (seals : Seals aead) (nonempty : message ≠ [])
    (room : link.sendCtr ≠ UInt64.ofNat (2 ^ 64 - 1)) (up : link.inner.connected = true) :
    ∃ ciphertext tag, aead.encrypt link.key (makeNonce link.sendRole link.sendCtr) message =
        some (ciphertext, tag) ∧
      (Transport.send link message).2 =
        { link with
          inner := { link.inner with outbox := link.inner.outbox ++
            [makeNonce link.sendRole link.sendCtr ++ tag ++ ciphertext] }
          sendCtr := link.sendCtr + 1 } := by
  obtain ⟨ciphertext, tag, encrypted⟩ :=
    seals link.key (makeNonce link.sendRole link.sendCtr) message nonempty
  have sealed : link.sealFrame message = some (makeNonce link.sendRole link.sendCtr ++ tag ++ ciphertext,
      { link with sendCtr := link.sendCtr + 1 }) := by
    simp only [EncryptedTransport.sealFrame, if_neg nonempty, encrypted, if_neg room]
  exact ⟨ciphertext, tag, encrypted, send_of_sealed up sealed⟩

end Skittermouse.Link

import Skittermouse.Data.Exec
import Skittermouse.Files.Streaming

/-! # A whole transfer

Everything is sent on a link that loses nothing. Messages arrive one by one,
and the receiver looks at what has arrived whenever it likes.
-/

namespace Skittermouse.Files

open Skittermouse.Data Skittermouse.Core Skittermouse.Net

variable {sender after next : FileSender} {chunkSize : Nat} {index : UInt32} {wire : Wire}

theorem encodeFileChunk_ne_nil (chunk : FileChunk) : encodeFileChunk chunk ≠ [] := by
  intro empty
  have size := encodeFileChunk_length chunk
  rw [empty, List.length_nil] at size
  omega

theorem nextChunk_none (sound : Sound sender) (sized : chunkSize ≠ 0)
    (there : index.toNat < sender.files.length)
    (got : sender.nextChunk index chunkSize = ([], after)) : sender.complete index.toNat = true := by
  obtain ⟨cursor, place⟩ := sound.place (List.getElem?_eq_getElem there)
  have found := List.getElem?_eq_getElem there
  generalize sender.files[index.toNat] = file at found
  obtain ⟨name, data⟩ := file
  simp only [FileSender.nextChunk, found, place] at got
  simp only [FileSender.complete, found, place, decide_eq_true_eq]
  split at got
  · rename_i stopped
    exact stopped.resolve_left sized
  · exact absurd (Prod.mk.inj got).1 (encodeFileChunk_ne_nil _)

theorem sendFile_sends (up : wire.connected = true) (sound : Sound sender) (sized : chunkSize ≠ 0)
    (there : index.toNat < sender.files.length) (fuel : Nat)
    (enough : ∀ name data cursor, sender.files[index.toNat]? = some (name, data) →
      sender.cursors[index.toNat]? = some cursor → data.length - cursor < fuel) :
    ∃ messages after, FileChannel.sendFile chunkSize index fuel wire sender =
        (true, { wire with outbox := wire.outbox ++ messages }, after) ∧
      Streams chunkSize sender messages after ∧ after.complete index.toNat = true := by
  induction fuel generalizing wire sender with
  | zero =>
      obtain ⟨cursor, place⟩ := sound.place (List.getElem?_eq_getElem there)
      exact absurd (enough _ _ _ (List.getElem?_eq_getElem there) place) (Nat.not_lt_zero _)
  | succ fuel ih =>
      by_cases complete : sender.complete index.toNat = true
      · refine ⟨[], sender, ?_, .done sender, complete⟩
        rw [FileChannel.sendFile, if_pos complete, List.append_nil]
      · cases got : sender.nextChunk index chunkSize with
        | mk chunk next =>
            by_cases nothing : chunk = []
            · rw [nothing] at got
              exact absurd (nextChunk_none sound sized there got) complete
            · obtain ⟨name, data, cursor, found, place, before, _, _, rfl⟩ := nextChunk_some got nothing
              have sent := Wire.send_eq (encodeVarMessage .fileChunk chunk) up
              have advanced : ∀ name data cursor,
                  sender.files[index.toNat]? = some (name, data) →
                  (sender.cursors.set index.toNat cursor)[index.toNat]? = some cursor := by
                intro _ _ cursor _
                exact List.getElem?_set_self (List.getElem?_eq_some_iff.mp place).1
              have fewer : ∀ otherName other passed,
                  sender.files[index.toNat]? = some (otherName, other) →
                  (sender.cursors.set index.toNat
                    (cursor + ((data.drop cursor).take chunkSize).length))[index.toNat]? =
                      some passed → other.length - passed < fuel := by
                intro otherName other passed foundOther at_
                rw [found] at foundOther
                cases foundOther
                rw [advanced _ _ _ found] at at_
                cases at_
                have rounds := enough _ _ _ found place
                rw [List.length_take, List.length_drop]
                omega
              obtain ⟨messages, after, sends, streams, done⟩ := @ih _
                ({ wire with outbox := wire.outbox ++ [encodeVarMessage .fileChunk chunk] } : Wire)
                up (sound.nextChunk got nothing) there fewer
              refine ⟨encodeVarMessage .fileChunk chunk :: messages, after, ?_,
                .chunk got nothing streams, done⟩
              rw [FileChannel.sendFile, if_neg complete, got]
              simp only [nothing, if_false, sent, if_true, sends, List.append_assoc,
                List.singleton_append]

theorem chunkRounds_enough (sender : FileSender) (index : UInt32) (name data : Bytes) (cursor : Nat)
    (found : sender.files[index.toNat]? = some (name, data)) :
    data.length - cursor < FileChannel.chunkRounds sender index := by
  simp only [FileChannel.chunkRounds, found]
  omega

theorem sendFiles_sends (up : wire.connected = true) (sound : Sound sender) (sized : chunkSize ≠ 0)
    (indices : List UInt32) (there : ∀ index ∈ indices, index.toNat < sender.files.length) :
    ∃ messages after, FileChannel.sendFiles chunkSize indices wire sender =
        (true, { wire with outbox := wire.outbox ++ messages }, after) ∧
      Streams chunkSize sender messages after ∧
      ∀ index ∈ indices, after.complete index.toNat = true := by
  induction indices generalizing wire sender with
  | nil =>
      refine ⟨[], sender, ?_, .done sender, nofun⟩
      rw [FileChannel.sendFiles, List.append_nil]
  | cons index indices ih =>
      obtain ⟨messages, next, sends, streams, done⟩ := sendFile_sends up sound sized
        (there index List.mem_cons_self) _ fun name data cursor found _ =>
          chunkRounds_enough sender index name data cursor found
      obtain ⟨others, after, sendsOthers, later, all⟩ := @ih next
        ({ wire with outbox := wire.outbox ++ messages } : Wire) up (streams.sound sound)
        fun index member => streams.files ▸ there index (List.mem_cons_of_mem _ member)
      refine ⟨messages ++ others, after, ?_, streams.trans later, fun other member => ?_⟩
      · simp only [FileChannel.sendFiles, sends, if_true, sendsOthers, List.append_assoc]
      · rcases List.mem_cons.mp member with rfl | member
        · exact later.complete done
        · exact all other member

theorem mem_fileIndices (sound : Sound sender) :
    ∀ index, index ∈ FileChannel.fileIndices sender ↔ index.toNat < sender.files.length := by
  intro index
  have count : (UInt32.ofNat sender.fileCount).toNat = sender.files.length :=
    UInt32.toNat_ofNat_of_lt' sound.few
  simp only [FileChannel.fileIndices, count, List.mem_map, List.mem_range]
  constructor
  · rintro ⟨place, below, rfl⟩
    rwa [UInt32.toNat_ofNat_of_lt' (below.trans sound.few)]
  · exact fun below => ⟨index.toNat, below, UInt32.ofNat_toNat⟩

theorem send_outbox (wire : Wire) (message : Bytes) :
    wire.outbox <+: (Transport.send wire message).2.outbox := by
  simp only [Transport.send, Wire.send]
  split
  · exact List.prefix_append _ _
  · exact List.prefix_rfl

theorem sendFile_outbox (chunkSize : Nat) (index : UInt32) (fuel : Nat) (wire : Wire)
    (sender : FileSender) :
    wire.outbox <+: (FileChannel.sendFile chunkSize index fuel wire sender).2.1.outbox := by
  induction fuel generalizing wire sender with
  | zero => exact List.prefix_rfl
  | succ fuel ih =>
      rw [FileChannel.sendFile]
      split
      · exact List.prefix_rfl
      · dsimp only
        split
        · exact List.prefix_rfl
        · split
          · exact (send_outbox _ _).trans (ih _ _)
          · exact send_outbox _ _

theorem sendFiles_outbox (chunkSize : Nat) (indices : List UInt32) (wire : Wire)
    (sender : FileSender) :
    wire.outbox <+: (FileChannel.sendFiles chunkSize indices wire sender).2.1.outbox := by
  induction indices generalizing wire sender with
  | nil => exact List.prefix_rfl
  | cons index indices ih =>
      have first := sendFile_outbox chunkSize index (FileChannel.chunkRounds sender index) wire sender
      simp only [FileChannel.sendFiles]
      split
      · exact first.trans (ih _ _)
      · exact first

theorem promise_sent (up : wire.connected = true) (sender : FileSender) (chunkSize : Nat) :
    encodeVarMessage .filePromiseMeta sender.promiseMeta ∈
      (FileChannel.sendAll wire sender chunkSize).2.1.outbox := by
  have sent := Wire.send_eq (encodeVarMessage .filePromiseMeta sender.promiseMeta) up
  simp only [FileChannel.sendAll, sent, Bool.true_eq_false, if_false]
  generalize (if chunkSize = 0 then FileChannel.kDefaultChunk else chunkSize) = size
  have later := sendFiles_outbox size (FileChannel.fileIndices sender)
    ({ wire with outbox := wire.outbox ++ [encodeVarMessage .filePromiseMeta sender.promiseMeta] } : Wire)
    sender
  have there := later.subset (List.mem_append_right _ List.mem_cons_self)
  split <;> exact there

/-- On a link that is up everything is sent: the promise, then chunks up to the
end of every file. -/
theorem sendAll_sends (up : wire.connected = true) (fresh : Fresh sender) (chunkSize : Nat) :
    ∃ messages after, FileChannel.sendAll wire sender chunkSize =
        (true,
          { wire with
            outbox := wire.outbox ++
              encodeVarMessage .filePromiseMeta sender.promiseMeta :: messages },
          after) ∧
      Streams (if chunkSize = 0 then FileChannel.kDefaultChunk else chunkSize) sender messages after ∧
      ∀ file < sender.files.length, after.complete file = true := by
  have sized : (if chunkSize = 0 then FileChannel.kDefaultChunk else chunkSize) ≠ 0 := by
    split
    · decide
    · assumption
  have sent := Wire.send_eq (encodeVarMessage .filePromiseMeta sender.promiseMeta) up
  have sound := fresh.sound
  simp only [FileChannel.sendAll, sent, Bool.true_eq_false, if_false]
  generalize (if chunkSize = 0 then FileChannel.kDefaultChunk else chunkSize) = size at sized ⊢
  obtain ⟨messages, after, sends, streams, complete⟩ := @sendFiles_sends sender size
    ({ wire with outbox := wire.outbox ++ [encodeVarMessage .filePromiseMeta sender.promiseMeta] } : Wire)
    up sound sized (FileChannel.fileIndices sender) fun index => (mem_fileIndices sound index).mp
  have all : ((FileChannel.fileIndices sender).all fun index => after.complete index.toNat) = true :=
    List.all_eq_true.mpr complete
  refine ⟨messages, after, ?_, streams, fun file below => ?_⟩
  · simp only [sends, Bool.true_eq_false, if_false, all, List.append_assoc, List.singleton_append]
  · have word : (UInt32.ofNat file).toNat = file := UInt32.toNat_ofNat_of_lt' (below.trans fresh.few)
    have done := complete (UInt32.ofNat file) ((mem_fileIndices sound _).mpr (word.symm ▸ below))
    rwa [word] at done

def shortened (message : Bytes) : Bytes := message.take FileChannel.kMaxFileMessage

theorem receiveFor_shortens (up : wire.connected = true)
    (nonempty : ∀ message ∈ wire.inbox, message ≠ []) {fuel : Nat} (enough : wire.inbox.length < fuel)
    (receiver : FileReceiver) :
    FileChannel.receiveFor fuel wire receiver = ({ wire with inbox := [] },
      (wire.inbox.map shortened).foldl FileChannel.acceptMessage receiver) := by
  induction fuel generalizing wire receiver with
  | zero => exact absurd enough (Nat.not_lt_zero _)
  | succ fuel ih =>
      obtain ⟨id, connected, inbox, outbox⟩ := wire
      cases inbox with
      | nil => rw [FileChannel.receiveFor, Wire.recv_nil _ up rfl]; rfl
      | cons message inbox =>
          have received := Wire.recv_cons FileChannel.kMaxFileMessage up rfl
          have rest := @ih ⟨id, connected, inbox, outbox⟩ up
            (fun other member => nonempty other (List.mem_cons_of_mem _ member))
            (Nat.lt_of_succ_lt_succ enough) (FileChannel.acceptMessage receiver (shortened message))
          rw [FileChannel.receiveFor, received]
          cases message with
          | nil => exact absurd rfl (nonempty [] List.mem_cons_self)
          | cons byte message => exact rest

theorem map_shortened {messages : List Bytes}
    (fit : ∀ message ∈ messages, message.length ≤ FileChannel.kMaxFileMessage) :
    messages.map shortened = messages := by
  have same : ∀ message ∈ messages, shortened message = id message := fun message member =>
    List.take_of_length_le (fit message member)
  rw [List.map_congr_left same, List.map_id]

theorem receiveFor_drains (up : wire.connected = true)
    (fit : ∀ message ∈ wire.inbox, message ≠ [] ∧ message.length ≤ FileChannel.kMaxFileMessage)
    {fuel : Nat} (enough : wire.inbox.length < fuel) (receiver : FileReceiver) :
    FileChannel.receiveFor fuel wire receiver =
      ({ wire with inbox := [] }, wire.inbox.foldl FileChannel.acceptMessage receiver) := by
  rw [receiveFor_shortens up (fun message member => (fit message member).1) enough,
    map_shortened fun message member => (fit message member).2]

/-- A transfer under way: what has been sent and is still on its way, and the
receiving end. -/
structure Transfer where
  outgoing : List Bytes
  wire : Wire
  receiver : FileReceiver

inductive TransferAction where
  | carry
  | receive

def transferStep : TransferAction → Transfer → Transfer
  | .carry, transfer => match transfer.outgoing with
    | [] => transfer
    | message :: outgoing =>
        { transfer with outgoing, wire.inbox := transfer.wire.inbox ++ [message] }
  | .receive, transfer =>
      let (_, wire, receiver) := FileChannel.receiveAvailable transfer.wire transfer.receiver
      { transfer with wire, receiver }

/-- The receiver has taken the front of the messages, and the rest is on its way. -/
def Underway (messages : List Bytes) (transfer : Transfer) : Prop :=
  transfer.wire.connected = true ∧ ∃ taken,
    taken ++ transfer.wire.inbox ++ transfer.outgoing = messages ∧
      transfer.receiver = taken.foldl FileChannel.acceptMessage .init

variable {transfer : Transfer} {messages : List Bytes}

theorem Underway.receive (underway : Underway messages transfer)
    (fit : ∀ message ∈ messages, message ≠ [] ∧ message.length ≤ FileChannel.kMaxFileMessage) :
    FileChannel.receiveAvailable transfer.wire transfer.receiver =
      ((transfer.wire.inbox.foldl FileChannel.acceptMessage transfer.receiver).allComplete,
        { transfer.wire with inbox := [] },
        transfer.wire.inbox.foldl FileChannel.acceptMessage transfer.receiver) := by
  obtain ⟨up, taken, whole, _⟩ := underway
  have arrived : ∀ message ∈ transfer.wire.inbox, message ∈ messages := fun message member =>
    whole ▸ List.mem_append_left _ (List.mem_append_right _ member)
  have drained : FileChannel.receiveFor (Transport.backlog transfer.wire + 1) transfer.wire
      transfer.receiver = _ :=
    receiveFor_drains up (fun message member => fit message (arrived message member))
      (Nat.lt_succ_self _) transfer.receiver
  rw [FileChannel.receiveAvailable, drained]

theorem Underway.step (underway : Underway messages transfer)
    (fit : ∀ message ∈ messages, message ≠ [] ∧ message.length ≤ FileChannel.kMaxFileMessage)
    (action : TransferAction) : Underway messages (transferStep action transfer) := by
  obtain ⟨up, taken, whole, held⟩ := id underway
  cases action with
  | carry =>
      simp only [transferStep]
      split
      · exact underway
      · rename_i message outgoing queue
        refine ⟨up, taken, ?_, held⟩
        rw [← whole, queue]
        simp only [List.append_assoc, List.singleton_append]
  | receive =>
      simp only [transferStep, underway.receive fit]
      refine ⟨up, taken ++ transfer.wire.inbox, ?_, ?_⟩
      · rw [← whole, List.append_nil]
      · rw [List.foldl_append, held]

/-- What has arrived of a file is its front, and a file that is complete is all there. -/
structure Shows (files : List (Bytes × Bytes)) (receiver : FileReceiver) : Prop where
  front : ∀ (index : Nat) (name data : Bytes), files[index]? = some (name, data) →
    (receiver.receivedOf index).toNat ≤ data.length ∧
      (receiver.data index).take (receiver.receivedOf index).toNat =
        data.take (receiver.receivedOf index).toNat
  whole : ∀ index, receiver.complete index = true → ∃ name data, files[index]? = some (name, data) ∧
    (receiver.receivedOf index).toNat = data.length ∧ receiver.data index = data

theorem shows_init (files : List (Bytes × Bytes)) : Shows files .init := by
  refine ⟨fun index name data _ => ?_, nofun⟩
  have nothing : (FileReceiver.init.receivedOf index).toNat = 0 := rfl
  rw [nothing]
  exact ⟨Nat.zero_le _, rfl⟩

variable {receiver : FileReceiver}

theorem Follows.data {file cursor : Nat} {name data : Bytes} (follows : Follows sender receiver)
    (found : sender.files[file]? = some (name, data)) (place : sender.cursors[file]? = some cursor) :
    receiver.data file = filled data cursor := by
  rw [FileReceiver.data, List.getD_eq_getElem?_getD, follows.buffer found place, Option.getD_some]

theorem Follows.shows (follows : Follows sender receiver) (sound : Sound sender) :
    Shows sender.files receiver := by
  refine ⟨fun index name data found => ?_, fun index complete => ?_⟩
  · obtain ⟨cursor, place⟩ := sound.place found
    have within : cursor ≤ data.length := sound.within _ _ _ found place
    have taken : (data.take cursor).length = cursor := by
      rw [List.length_take]
      omega
    rw [follows.receivedOf sound found place, follows.data found place, filled,
      List.take_left' taken]
    exact ⟨within, rfl⟩
  · cases found : sender.files[index]? with
    | none =>
        have outside : receiver.entries[index]? = none := by
          rw [follows.entries, List.getElem?_map, found, Option.map_none]
        rw [FileReceiver.complete, outside] at complete
        contradiction
    | some file =>
        obtain ⟨name, data⟩ := file
        obtain ⟨cursor, place⟩ := sound.place found
        rw [follows.complete sound found place, decide_eq_true_eq] at complete
        refine ⟨name, data, rfl, ?_, ?_⟩
        · rw [follows.receivedOf sound found place, complete]
        · rw [follows.data found place, complete, filled, List.take_length, Nat.sub_self,
            List.replicate_zero, List.append_nil]

theorem Follows.finished (follows : Follows sender receiver) (sound : Sound sender)
    (some_ : sender.files ≠ []) (done : ∀ file < sender.files.length, sender.complete file = true) :
    receiver.allComplete = true ∧ receiver.entries = sender.files.map entryOf ∧
      receiver.buffers = sender.files.map Prod.snd := by
  have passed : ∀ (index : Nat) (name data : Bytes), sender.files[index]? = some (name, data) →
      sender.cursors[index]? = some data.length := by
    intro index name data found
    obtain ⟨cursor, place⟩ := sound.place found
    have within : cursor ≤ data.length := sound.within _ _ _ found place
    have complete := done index (List.getElem?_eq_some_iff.mp found).1
    rw [FileSender.complete, found, place] at complete
    rw [place, Nat.le_antisymm within (of_decide_eq_true complete)]
  refine ⟨?_, follows.entries, ?_⟩
  · rw [FileReceiver.allComplete, Bool.and_eq_true, List.all_eq_true]
    refine ⟨fun index member => ?_, ?_⟩
    · rw [List.mem_range, FileReceiver.fileCount, follows.entries, List.length_map] at member
      have found := List.getElem?_eq_getElem member
      rw [follows.complete sound found (passed _ _ _ found), decide_eq_true rfl]
    · rw [follows.entries, Bool.not_eq_true', List.isEmpty_eq_false_iff, ne_eq, List.map_eq_nil_iff]
      exact some_
  · rw [follows.buffers]
    apply List.ext_getElem?
    intro index
    rw [List.getElem?_zipWith, List.getElem?_map]
    cases found : sender.files[index]? with
    | none => rfl
    | some file =>
        obtain ⟨name, data⟩ := file
        rw [passed _ _ _ found]
        simp only [filled, List.take_length, Nat.sub_self, List.replicate_zero, List.append_nil,
          Option.map_some]

def senderOf (files : List (Bytes × Bytes)) : FileSender :=
  files.foldl (fun sender (name, data) => sender.addFile name data) .init

theorem foldl_addFile (files : List (Bytes × Bytes)) (sender : FileSender) :
    files.foldl (fun sender (name, data) => sender.addFile name data) sender =
      ⟨sender.files ++ files, sender.cursors ++ List.replicate files.length 0⟩ := by
  induction files generalizing sender with
  | nil => simp only [List.foldl_nil, List.append_nil, List.length_nil, List.replicate_zero]
  | cons file files ih =>
      rw [List.foldl_cons, ih]
      simp only [FileSender.addFile, List.append_assoc, List.singleton_append, List.length_cons,
        List.replicate_succ]

theorem senderOf_eq (files : List (Bytes × Bytes)) :
    senderOf files = ⟨files, List.replicate files.length 0⟩ := by
  rw [senderOf, foldl_addFile]
  rfl

theorem fresh_senderOf {files : List (Bytes × Bytes)}
    (short : ∀ file ∈ files, file.1.length ≤ 0xFFFF) (small : ∀ file ∈ files, file.2.length < 2 ^ 64)
    (fits : (encodeVarMessage .filePromiseMeta (senderOf files).promiseMeta).length ≤
      FileChannel.kMaxFileMessage) : Fresh (senderOf files) := by
  have many := (senderOf files).length_le_promiseMeta
  rw [encodeVarMessage_length, FileChannel.kMaxFileMessage] at fits
  have few : (senderOf files).files.length < 2 ^ 32 := by omega
  rw [senderOf_eq] at few ⊢
  exact ⟨rfl, few, small, short⟩

theorem encodeVarMessage_ne_nil (type : MessageType) (payload : Bytes) :
    encodeVarMessage type payload ≠ [] := by
  intro empty
  have size := encodeVarMessage_length type payload
  rw [empty, List.length_nil, kVarHeaderSize] at size
  omega

theorem Streams.nonempty {chunkSize : Nat} (streams : Streams chunkSize sender messages after) :
    ∀ message ∈ messages, message ≠ [] := by
  induction streams with
  | done => exact nofun
  | chunk got nonempty later ih =>
      intro message member
      rcases List.mem_cons.mp member with rfl | member
      · exact encodeVarMessage_ne_nil _ _
      · exact ih message member

/-- What a receiver has that takes the messages of a transfer: nothing yet, or
what the sender's cursors have passed at some point. -/
def Holding (files : List (Bytes × Bytes)) (receiver : FileReceiver) : Prop :=
  receiver = .init ∨
    ∃ sender, Sound sender ∧ sender.files = files ∧ Follows sender receiver

theorem Holding.shows {files : List (Bytes × Bytes)} (holding : Holding files receiver) :
    Shows files receiver := by
  rcases holding with rfl | ⟨sender, sound, rfl, follows⟩
  · exact shows_init files
  · exact follows.shows sound

theorem Holding.there {files : List (Bytes × Bytes)} (holding : Holding files receiver) {index : Nat}
    (below : index < receiver.fileCount) : ∃ name data, files[index]? = some (name, data) := by
  rcases holding with rfl | ⟨sender, sound, rfl, follows⟩
  · contradiction
  · rw [FileReceiver.fileCount, follows.entries, List.length_map] at below
    exact ⟨_, _, List.getElem?_eq_getElem below⟩

theorem holding_taken {chunkSize : Nat} (fresh : Fresh sender)
    (streams : Streams chunkSize sender messages after)
    (fit : ∀ message ∈ encodeVarMessage .filePromiseMeta sender.promiseMeta :: messages,
      message.length ≤ FileChannel.kMaxFileMessage)
    {taken : List Bytes}
    (front : taken <+: encodeVarMessage .filePromiseMeta sender.promiseMeta :: messages) :
    Holding sender.files (taken.foldl FileChannel.acceptMessage .init) := by
  cases taken with
  | nil => exact .inl rfl
  | cons first taken =>
      obtain ⟨rfl, rest, rfl⟩ := List.cons_prefix_cons.mp front
      obtain ⟨next, streams⟩ := streams.front
      have promised := fresh.follows .init (fit _ List.mem_cons_self)
      have follows := streams.follows fresh.sound promised fun message member =>
        fit message (List.mem_cons_of_mem _ (List.mem_append_left _ member))
      rw [List.foldl_cons]
      exact .inr ⟨next, streams.sound fresh.sound, streams.files, follows⟩

theorem Streams.chunks {chunkSize : Nat} (streams : Streams chunkSize sender messages after) :
    ∀ message ∈ messages, ∃ chunk, message = encodeVarMessage .fileChunk chunk ∧
      chunk.length ≤ 12 + chunkSize := by
  induction streams with
  | done => simp
  | chunk got nonempty later ih =>
      intro message member
      rcases List.mem_cons.mp member with rfl | member
      · obtain ⟨name, data, cursor, _, _, _, _, rfl, _⟩ := nextChunk_some got nonempty
        refine ⟨_, rfl, ?_⟩
        simp only [encodeFileChunk_length, List.length_take]
        omega
      · exact ih message member

theorem acceptMessage_cut (fresh : Fresh sender) (receiver : FileReceiver)
    (exceeds : FileChannel.kMaxFileMessage <
      (encodeVarMessage .filePromiseMeta sender.promiseMeta).length) :
    FileChannel.acceptMessage receiver
      (shortened (encodeVarMessage .filePromiseMeta sender.promiseMeta)) = receiver := by
  simp only [FileChannel.acceptMessage, shortened]
  split
  · rename_i message consumed decoded
    obtain ⟨varying, type, ⟨rest, whole⟩, within⟩ := decodeMessage_take (by decide) rfl decoded
    rw [encodeVarMessage_length] at exceeds
    simp only [varying, type, Bool.false_eq_true, if_false, FileReceiver.acceptMeta]
    split
    · rfl
    · rename_i entries decoded
      have few : (sender.files.map entryOf).length < 2 ^ 32 := by simpa using fresh.few
      have short : ∀ entry ∈ sender.files.map entryOf, entry.name.length ≤ 0xFFFF := by
        intro entry member
        obtain ⟨file, there, rfl⟩ := List.mem_map.mp member
        exact fresh.short file there
      have nothing : rest = [] := Wire.decodeFilePromiseMeta_front few short whole.symm decoded
      rw [nothing, List.append_nil] at whole
      rw [whole] at within
      omega
  · rfl

theorem acceptMessage_unpromised {chunk : Bytes} (bound : chunk.length ≤ kMaxVarPayload) :
    FileChannel.acceptMessage .init (encodeVarMessage .fileChunk chunk) = .init := by
  rw [acceptMessage_chunk _ bound, FileReceiver.acceptChunk]
  split
  · rfl
  · simp [FileReceiver.init]

theorem holding_arrived {chunkSize : Nat} (fresh : Fresh sender)
    (streams : Streams chunkSize sender messages after)
    (room : kVarHeaderSize + (12 + chunkSize) ≤ FileChannel.kMaxFileMessage) {taken : List Bytes}
    (front : taken <+: encodeVarMessage .filePromiseMeta sender.promiseMeta :: messages) :
    Holding sender.files ((taken.map shortened).foldl FileChannel.acceptMessage .init) := by
  have small : ∀ message ∈ messages, message.length ≤ FileChannel.kMaxFileMessage := by
    intro message member
    obtain ⟨chunk, rfl, bound⟩ := streams.chunks message member
    rw [encodeVarMessage_length]
    omega
  by_cases fits : (encodeVarMessage .filePromiseMeta sender.promiseMeta).length ≤
      FileChannel.kMaxFileMessage
  · have fit : ∀ message ∈ encodeVarMessage .filePromiseMeta sender.promiseMeta :: messages,
        message.length ≤ FileChannel.kMaxFileMessage := by
      intro message member
      rcases List.mem_cons.mp member with rfl | member
      · exact fits
      · exact small message member
    rw [map_shortened fun message member => fit message (front.subset member)]
    exact holding_taken fresh streams fit front
  · refine .inl ?_
    cases taken with
    | nil => rfl
    | cons first taken =>
        obtain ⟨rfl, behind⟩ := List.cons_prefix_cons.mp front
        rw [List.map_cons, List.foldl_cons, acceptMessage_cut fresh _ (not_le.mp fits),
          map_shortened fun message member => small message (behind.subset member)]
        have chunks := fun message member => streams.chunks message (behind.subset member)
        clear front behind
        induction taken with
        | nil => rfl
        | cons message taken ih =>
            obtain ⟨chunk, rfl, bound⟩ := chunks message List.mem_cons_self
            have within : chunk.length ≤ kMaxVarPayload := by
              simp only [FileChannel.kMaxFileMessage, kMaxVarPayload] at room ⊢
              omega
            rw [List.foldl_cons, acceptMessage_unpromised within]
            exact ih fun other member => chunks other (List.mem_cons_of_mem _ member)

/-- What arrives of the files is their front at any time, and all of them in
the end. -/
theorem files_round_trip {files : List (Bytes × Bytes)} (some_ : files ≠ [])
    (short : ∀ file ∈ files, file.1.length ≤ 0xFFFF) (small : ∀ file ∈ files, file.2.length < 2 ^ 64)
    {out into : Wire} (outUp : out.connected = true) (outEmpty : out.outbox = [])
    (intoUp : into.connected = true) (intoEmpty : into.inbox = []) (chunkSize : Nat)
    (fit : ∀ message ∈ (FileChannel.sendAll out (senderOf files) chunkSize).2.1.outbox,
      message.length ≤ FileChannel.kMaxFileMessage)
    (actions : List TransferAction) :
    (FileChannel.sendAll out (senderOf files) chunkSize).1 = true ∧
      ∀ transfer, transfer = exec transferStep
          ⟨(FileChannel.sendAll out (senderOf files) chunkSize).2.1.outbox, into, .init⟩ actions →
        Shows files transfer.receiver ∧
        (transfer.outgoing = [] → ∃ wire receiver,
          FileChannel.receiveAvailable transfer.wire transfer.receiver = (true, wire, receiver) ∧
            receiver.entries = files.map entryOf ∧ receiver.buffers = files.map Prod.snd) := by
  have fresh := fresh_senderOf short small (fit _ (promise_sent outUp (senderOf files) chunkSize))
  obtain ⟨messages, after, sends, streams, complete⟩ := sendAll_sends outUp fresh chunkSize
  rw [sends, outEmpty, List.nil_append] at fit
  rw [sends, outEmpty, List.nil_append]
  have same : (senderOf files).files = files := by rw [senderOf_eq]
  generalize allSent : encodeVarMessage .filePromiseMeta (senderOf files).promiseMeta :: messages =
    sent at fit
  have fitting : ∀ message ∈ sent, message ≠ [] ∧ message.length ≤ FileChannel.kMaxFileMessage :=
    fun message member => ⟨by
      rw [← allSent] at member
      rcases List.mem_cons.mp member with rfl | member
      · exact encodeVarMessage_ne_nil _ _
      · exact streams.nonempty message member, fit message member⟩
  refine ⟨rfl, ?_⟩
  rintro transfer rfl
  have underway : Underway sent (exec transferStep ⟨sent, into, .init⟩ actions) :=
    exec_preserves (fun action _ underway => underway.step fitting action)
      ⟨intoUp, [], by rw [intoEmpty]; rfl, rfl⟩ actions
  generalize exec transferStep ⟨sent, into, .init⟩ actions = transfer at underway ⊢
  obtain ⟨up, taken, whole, held⟩ := id underway
  refine ⟨?_, fun arrived => ?_⟩
  · rw [held, ← same]
    refine (holding_taken fresh streams (allSent.symm ▸ fit) ?_).shows
    rw [allSent, ← whole, List.append_assoc]
    exact List.prefix_append _ _
  · have follows := streams.follows fresh.sound (fresh.follows .init (fit _ (allSent ▸ List.mem_cons_self)))
      fun message member => fit message (allSent ▸ List.mem_cons_of_mem _ member)
    rw [← List.foldl_cons, allSent, ← whole, arrived, List.append_nil, List.foldl_append, ← held] at follows
    have there : after.files = files := streams.files.trans same
    have finished := follows.finished (streams.sound fresh.sound) (there.symm ▸ some_)
      (streams.files ▸ complete)
    rw [there] at finished
    exact ⟨_, _, (underway.receive fitting).trans (by rw [finished.1]), finished.2⟩

def twoFiles : List (Bytes × Bytes) := [([97], [1, 2, 3]), ([98], [])]

def idleWire : Wire := ⟨0, true, [], []⟩

def twoFilesOnTheWay : Transfer :=
  exec transferStep ⟨(FileChannel.sendAll idleWire (senderOf twoFiles) 2).2.1.outbox, idleWire, .init⟩
    [.carry, .receive, .carry, .carry]

theorem two_files_arrive :
    ∃ wire receiver, FileChannel.receiveAvailable twoFilesOnTheWay.wire twoFilesOnTheWay.receiver =
      (true, wire, receiver) ∧ receiver.buffers = [[1, 2, 3], []] := by
  have trip := files_round_trip (by decide : twoFiles ≠ []) (by decide) (by decide)
    (rfl : idleWire.connected = true) rfl (rfl : idleWire.connected = true) rfl 2 (by decide)
    [.carry, .receive, .carry, .carry]
  obtain ⟨wire, receiver, result, _, contents⟩ := (trip.2 twoFilesOnTheWay rfl).2 (by decide)
  exact ⟨wire, receiver, result, contents⟩

end Skittermouse.Files

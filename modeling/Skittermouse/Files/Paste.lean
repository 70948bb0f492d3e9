import Skittermouse.App.MeshNode
import Skittermouse.Files.RoundTrip
import Skittermouse.Platform.FilePull

/-! # Copies, announcements and pastes in any order

One source and the promises that its announcements have become. Each promise
has a session, a connection of its own, and the source's server behind it. The
server turns of different connections may interleave, which is more than the
one server thread does.
-/

namespace Skittermouse.Files

open Skittermouse.Data Skittermouse.Core Skittermouse.Net Skittermouse.Platform

structure Promise where
  files : List FilePromiseItem
  session : FilePullSession Wire
  /-- What the announcement was about. No operation reads this. -/
  announced : List FilePath
  serving : Serving
  outgoing : List Bytes

/-- A call of `read` that has returned; `none` is -1. -/
structure ReadResult where
  announced : List FilePath
  call : ReadCall
  bytes : Option Bytes
deriving DecidableEq

structure Pasting where
  copiedPaths : List FilePath
  unreadable : List FilePath
  /-- On the way over the mesh, with the paths that each is about. -/
  announcements : List (Bytes × List FilePath)
  promises : List Promise
  returned : List ReadResult

inductive PasteAction where
  | copy (dropped : DroppedFiles)
  | becomeUnreadable (path : FilePath)
  | announce (place : Nat) (sourceIp : Bytes) (hasKey : Bool)
  /-- A call of `read` begins; `reached` says whether a dial would get through. -/
  | openRead (place : Nat) (call : ReadCall) (reached : Bool)
  | readTurn (place : Nat) (call : ReadCall)
  | timeOut (place : Nat) (call : ReadCall)
  | drainRound (place : Nat)
  | serve (place : Nat)
  | carry (place : Nat)
  | disconnect (place : Nat)

def Pasting.init : Pasting := ⟨[], [], [], [], []⟩

def announcement (items : List FilePromiseItem) : Bytes :=
  encodeVarMessage .filePromiseAnnounce (encodeFilePromiseAnnounce items)

def readAnnouncement (data : Bytes) : Option (List FilePromiseItem) :=
  match decodeMessage (data.take App.Host.kPollBufferSize) with
  | .ok message _ =>
      if message.isFixed = false ∧ message.type = .filePromiseAnnounce then
        decodeFilePromiseAnnounce message.payload
      else none
  | _ => none

/-- `onRemoteFilePromiseUi`; an announcement of no files is none. -/
def promiseOf (data : Bytes) (announced : List FilePath) (sourceIp : Bytes) (hasKey : Bool) :
    Option Promise :=
  match readAnnouncement data with
  | none | some [] => none
  | some files =>
      some ⟨files, .init Wire sourceIp hasKey, announced, .accepting, []⟩

namespace Promise

def openRead (promise : Promise) (reached : Bool) : Promise :=
  { promise with session := (promise.session.openRead (if reached then some freshLink else none)).2 }

def serve (disk : Disk) (unreadable copiedPaths : List FilePath) (promise : Promise) : Promise :=
  if promise.session.transport.isSome then
    let (serving, messages) := promise.serving.turn disk unreadable copiedPaths
    { promise with serving, outgoing := promise.outgoing ++ messages }
  else promise

def carry (promise : Promise) : Promise :=
  match promise.session.transport, promise.outgoing with
  | some wire, message :: outgoing =>
      { promise with
        session.transport := some { wire with inbox := wire.inbox ++ [message] }
        outgoing }
  | _, _ => promise

def disconnect (promise : Promise) : Promise :=
  { promise with session.transport := promise.session.transport.map Wire.close }

end Promise

namespace Pasting

def change (state : Pasting) (place : Nat) (change : Promise → Promise) : Pasting :=
  { state with promises := state.promises.modify place change }

def return_ (state : Pasting) (announced : List FilePath) (call : ReadCall) (bytes : Option Bytes) :
    Pasting :=
  { state with returned := ⟨announced, call, bytes⟩ :: state.returned }

end Pasting

def pasteStep (disk : Disk) : PasteAction → Pasting → Pasting
  | .copy dropped, state =>
      match disk.clipboardUpdate state.unreadable dropped with
      | (_, []) => state
      | (items, paths) =>
          { state with
            copiedPaths := paths
            announcements := state.announcements ++ [(announcement items, paths)] }
  | .becomeUnreadable path, state => { state with unreadable := path :: state.unreadable }
  | .announce place sourceIp hasKey, state => match state.announcements[place]? with
    | none => state
    | some (data, announced) =>
        { state with
          announcements := state.announcements.eraseIdx place
          promises := state.promises ++ (promiseOf data announced sourceIp hasKey).toList }
  | .openRead place call reached, state => match state.promises[place]? with
    | none => state
    | some promise =>
        let state := state.change place fun promise => promise.openRead reached
        if (promise.session.openRead (if reached then some freshLink else none)).1 then state
        else state.return_ promise.announced call none
  | .readTurn place call, state => match state.promises[place]? with
    | none => state
    | some promise => match promise.session.readTurn call with
      | none => state
      | some bytes => state.return_ promise.announced call bytes
  | .timeOut place call, state => match state.promises[place]? with
    | none => state
    | some promise =>
        (state.change place fun promise => { promise with session := promise.session.timeOut }).return_
          promise.announced call none
  | .drainRound place, state =>
      state.change place fun promise => { promise with session := promise.session.drainRound }
  | .serve place, state =>
      state.change place (Promise.serve disk state.unreadable state.copiedPaths)
  | .carry place, state => state.change place Promise.carry
  | .disconnect place, state => state.change place Promise.disconnect

/-- A read fails, or it returns bytes of the file at its index in the
announcement, and none only where that file ends or none were asked for. -/
def Faithful (disk : Disk) (result : ReadResult) : Prop :=
  ∀ bytes, result.bytes = some bytes →
    ∃ path, result.announced[result.call.index.toNat]? = some path ∧
      bytes <+: (disk.content path).drop result.call.offset.toNat ∧
      bytes.length ≤ result.call.cap.toNat ∧
      (bytes = [] → result.call.cap = 0 ∨
        (disk.content path).length ≤ result.call.offset.toNat)

def PasteAction.served? : PasteAction → Option Nat
  | .serve place => some place
  | _ => none

/-- When the server reads a file, the announcement has one of the same contents
at the position that the transfer has come to. -/
def InPlace (disk : Disk) (action : PasteAction) (state : Pasting) : Prop :=
  ∀ place ∈ action.served?, ∀ promise ∈ state.promises[place]?, ∀ path ∈ promise.serving.next?,
    (disk.readWholeFile state.unreadable path).isSome = true →
      promise.announced[promise.serving.loaded]?.map disk.content = some (disk.content path)

instance (disk : Disk) (action : PasteAction) (state : Pasting) :
    Decidable (InPlace disk action state) :=
  inferInstanceAs (Decidable (∀ place ∈ action.served?, ∀ promise ∈ state.promises[place]?,
    ∀ path ∈ promise.serving.next?, _ → _))

/-! ## What a read returns -/

variable {disk : Disk} {files : List (Bytes × Bytes)} {announced : List FilePath}

def Matches (disk : Disk) (announced : List FilePath) (files : List (Bytes × Bytes)) : Prop :=
  ∀ (index : Nat) (name data : Bytes), files[index]? = some (name, data) →
    ∃ path, announced[index]? = some path ∧ disk.content path = data

theorem readTurn_faithful {session : FilePullSession Wire} {call : ReadCall} {bytes : Option Bytes}
    (holding : Holding files session.receiver) (matching : Matches disk announced files)
    (returned : session.readTurn call = some bytes) : Faithful disk ⟨announced, call, bytes⟩ := by
  rintro bytes rfl
  simp only [FilePullSession.readTurn] at returned
  split at returned
  · simp at returned
  · split at returned
    · rename_i arrived
      split at returned
      · simp only [Option.some.injEq] at returned
        simp only [FilePullSession.haveOf] at arrived returned
        split at arrived
        · rename_i inside
          rw [if_pos inside] at returned
          obtain ⟨name, data, found⟩ := holding.there inside
          obtain ⟨path, there, same⟩ := matching _ _ _ found
          obtain ⟨within, front⟩ := holding.shows.front _ _ _ found
          have before : call.offset.toNat < (session.receiver.receivedOf call.index.toNat).toNat :=
            UInt64.lt_iff_toNat_lt.mp arrived
          rw [UInt64.toNat_sub_of_le _ _ (UInt64.le_of_lt arrived)] at returned
          generalize (session.receiver.receivedOf call.index.toNat).toNat = have_ at *
          have cut : ((session.receiver.data call.index.toNat).drop call.offset.toNat).take
              (min (have_ - call.offset.toNat) call.cap.toNat) =
              (data.drop call.offset.toNat).take (min (have_ - call.offset.toNat) call.cap.toNat) := by
            rw [min_comm, ← List.take_take, ← List.take_take, ← List.drop_take, ← List.drop_take, front]
          rw [cut] at returned
          refine ⟨path, there, ?_, ?_, fun empty => .inl ?_⟩
          · rw [← returned, same]
            exact List.take_prefix _ _
          · rw [← returned, List.length_take]
            exact (min_le_left _ _).trans (min_le_right _ _)
          · have nothing := congrArg List.length (returned.trans empty)
            simp only [List.length_take, List.length_drop, List.length_nil] at nothing
            have zero : call.cap.toNat = 0 := by omega
            exact UInt32.toNat_inj.mp zero
        · simp at arrived
      · simp at returned
    · rename_i arrived
      split at returned
      · rename_i done
        obtain ⟨name, data, found, size, _⟩ := holding.shows.whole _ done.2
        obtain ⟨path, there, same⟩ := matching _ _ _ found
        simp only [Option.some.injEq] at returned
        simp only [FilePullSession.haveOf, if_pos done.1, UInt64.not_lt, UInt64.le_iff_toNat_le,
          size] at arrived
        subst returned
        exact ⟨path, there, List.nil_prefix, Nat.zero_le _, fun _ => .inr (by rw [same]; exact arrived)⟩
      · contradiction

/-! ## One promise -/

def Promise.inbox (promise : Promise) : List Bytes :=
  (promise.session.transport.map Wire.inbox).getD []

def sentFor (files : List (Bytes × Bytes)) : List Bytes :=
  (FileChannel.sendAll freshLink (senderOf files) kServeChunk).2.1.outbox

theorem senderOf_concat (files : List (Bytes × Bytes)) (name data : Bytes) :
    senderOf (files ++ [(name, data)]) = (senderOf files).addFile name data := by
  simp [senderOf, List.foldl_append]

theorem senderOf_fileCount (files : List (Bytes × Bytes)) :
    (senderOf files).fileCount = files.length := by
  simp [senderOf_eq, FileSender.fileCount]

/-- The destination has taken the front of what the source sends of `files`. -/
structure Linked (disk : Disk) (promise : Promise) (files : List (Bytes × Bytes))
    (taken : List Bytes) : Prop where
  matching : Matches disk promise.announced files
  fresh : Fresh (senderOf files)
  undialed : promise.session.dialed = false → promise.session.transport = none
  accepting : promise.serving = .accepting → files = []
  loading : ∀ paths sender, promise.serving = .loading paths sender →
    sender = senderOf files ∧ files.length + paths.length < 2 ^ 32
  unsent : promise.serving ≠ .served →
    taken = [] ∧ promise.inbox = [] ∧ promise.outgoing = []
  sent : taken ++ promise.inbox ++ promise.outgoing <+: sentFor files
  held : promise.session.receiver = (taken.map shortened).foldl FileChannel.acceptMessage .init

variable {promise : Promise} {taken : List Bytes}

theorem sentFor_eq (fresh : Fresh (senderOf files)) :
    ∃ messages after, sentFor files =
        encodeVarMessage .filePromiseMeta (senderOf files).promiseMeta :: messages ∧
      Streams kServeChunk (senderOf files) messages after := by
  obtain ⟨messages, after, sends, streams, _⟩ :=
    sendAll_sends (rfl : freshLink.connected = true) fresh kServeChunk
  refine ⟨messages, after, ?_, by simpa [kServeChunk] using streams⟩
  rw [sentFor, sends]
  rfl

theorem Linked.nonempty (linked : Linked disk promise files taken) :
    ∀ message ∈ promise.inbox, message ≠ [] := by
  obtain ⟨messages, after, same, streams⟩ := sentFor_eq linked.fresh
  intro message member
  have inside : message ∈ sentFor files := linked.sent.subset (by simp [member])
  rw [same] at inside
  rcases List.mem_cons.mp inside with rfl | inside
  · exact encodeVarMessage_ne_nil _ _
  · exact streams.nonempty message inside

theorem Linked.holding (linked : Linked disk promise files taken) :
    Holding files promise.session.receiver := by
  obtain ⟨messages, after, same, streams⟩ := sentFor_eq linked.fresh
  have front : taken <+: sentFor files :=
    (List.append_assoc taken _ _ ▸ List.prefix_append _ _ : taken <+: _).trans linked.sent
  rw [same] at front
  have holding := holding_arrived linked.fresh streams (by decide) front
  rw [senderOf_eq] at holding
  exact linked.held ▸ holding

theorem Linked.session (linked : Linked disk promise files taken) {session : FilePullSession Wire}
    (receiver : session.receiver = promise.session.receiver)
    (inbox : (session.transport.map Wire.inbox).getD [] = promise.inbox)
    (undialed : session.dialed = false → session.transport = none) :
    Linked disk { promise with session } files taken where
  matching := linked.matching
  fresh := linked.fresh
  undialed := undialed
  accepting := linked.accepting
  loading := linked.loading
  unsent early := by
    rw [Promise.inbox, inbox]
    exact linked.unsent early
  sent := by
    rw [Promise.inbox, inbox]
    exact linked.sent
  held := receiver.trans linked.held

theorem Linked.openRead (linked : Linked disk promise files taken) (reached : Bool) :
    Linked disk (promise.openRead reached) files taken := by
  have undialed := linked.undialed
  rw [Promise.openRead, FilePullSession.openRead]
  split
  · exact linked
  · simp only [FilePullSession.ensureConnected]
    split
    · exact linked
    · rename_i first
      have unreached : promise.session.transport = none := undialed (by simpa using first)
      split
      · exact linked.session rfl rfl nofun
      · split
        · exact linked.session rfl rfl nofun
        · rename_i link found
          refine linked.session rfl ?_ nofun
          cases reached with
          | false => contradiction
          | true =>
              cases found
              simp [Promise.inbox, unreached, freshLink]

theorem Linked.timeOut (linked : Linked disk promise files taken) :
    Linked disk { promise with session := promise.session.timeOut } files taken :=
  linked.session rfl rfl linked.undialed

theorem Linked.disconnect (linked : Linked disk promise files taken) :
    Linked disk promise.disconnect files taken := by
  refine linked.session rfl ?_ fun first => ?_
  · rw [Promise.inbox]
    cases promise.session.transport <;> rfl
  · simp only [linked.undialed first, Option.map_none]

theorem Linked.carry (linked : Linked disk promise files taken) :
    Linked disk promise.carry files taken := by
  rw [Promise.carry]
  split
  · rename_i wire message outgoing up waiting
    have inbox : promise.inbox = wire.inbox := by simp [Promise.inbox, up]
    have served : promise.serving = .served := by
      by_contra early
      have nothing := (linked.unsent early).2.2
      rw [waiting] at nothing
      contradiction
    refine ⟨linked.matching, linked.fresh, fun first => ?_, linked.accepting, linked.loading,
      fun early => absurd served early, ?_, linked.held⟩
    · have undialed := linked.undialed first
      rw [up] at undialed
      contradiction
    · have sent := linked.sent
      rw [inbox, waiting] at sent
      simpa [Promise.inbox] using sent
  · exact linked

theorem receiveAvailable_wire {wire : Wire} (nonempty : ∀ message ∈ wire.inbox, message ≠ [])
    (receiver : FileReceiver) :
    ∃ arrived remaining, arrived ++ remaining = wire.inbox ∧
      (FileChannel.receiveAvailable wire receiver).2 =
        ({ wire with inbox := remaining },
          (arrived.map shortened).foldl FileChannel.acceptMessage receiver) := by
  by_cases up : wire.connected = true
  · have drained := receiveFor_shortens up nonempty
      (Nat.lt_succ_self (Transport.backlog wire)) receiver
    exact ⟨wire.inbox, [], List.append_nil _, by rw [FileChannel.receiveAvailable, drained]⟩
  · have failed : Transport.recv wire FileChannel.kMaxFileMessage = (none, wire) := by
      simp [Transport.recv, Wire.recv, up]
    exact ⟨[], wire.inbox, rfl, by simp [FileChannel.receiveAvailable, FileChannel.receiveFor, failed]⟩

theorem drainRound_takes {session : FilePullSession Wire}
    (nonempty : ∀ message ∈ (session.transport.map Wire.inbox).getD [], message ≠ []) :
    session.drainRound.dialed = session.dialed ∧
      session.drainRound.transport.isSome = session.transport.isSome ∧
      ∃ arrived, arrived ++ (session.drainRound.transport.map Wire.inbox).getD [] =
          (session.transport.map Wire.inbox).getD [] ∧
        session.drainRound.receiver =
          (arrived.map shortened).foldl FileChannel.acceptMessage session.receiver := by
  simp only [FilePullSession.drainRound]
  split
  · rename_i wire _ up
    rw [up] at nonempty ⊢
    obtain ⟨arrived, remaining, whole, received⟩ := receiveAvailable_wire nonempty session.receiver
    split
    · rename_i after receiver done
      rw [done] at received
      cases received
      refine ⟨rfl, rfl, arrived, ?_, rfl⟩
      rw [Option.map_some, Option.getD_some, Option.map_some, Option.getD_some, ← whole]
      split <;> rfl
    · rename_i after receiver going
      rw [going] at received
      cases received
      split <;> exact ⟨rfl, rfl, arrived, whole, rfl⟩
  · exact ⟨rfl, rfl, [], rfl, rfl⟩

theorem Linked.drainRound (linked : Linked disk promise files taken) :
    ∃ more, Linked disk { promise with session := promise.session.drainRound } files more := by
  obtain ⟨dialed, transport, arrived, whole, received⟩ := drainRound_takes linked.nonempty
  refine ⟨taken ++ arrived, linked.matching, linked.fresh, fun first => ?_, linked.accepting,
    linked.loading, fun early => ?_, ?_, ?_⟩
  · rw [linked.undialed (dialed ▸ first)] at transport
    simpa using transport
  · obtain ⟨nothing, empty, idle⟩ := linked.unsent early
    have both := whole.trans empty
    rw [List.append_eq_nil_iff] at both
    exact ⟨by rw [nothing, both.1, List.nil_append], both.2, idle⟩
  · have sent := linked.sent
    rw [Promise.inbox, ← whole] at sent
    rw [Promise.inbox]
    simpa only [List.append_assoc] using sent
  · rw [List.map_append, List.foldl_append, ← linked.held]
    exact received

theorem fresh_addFile {name data : Bytes} (fresh : Fresh (senderOf files))
    (few : files.length + 1 < 2 ^ 32) (small : data.length < 2 ^ 64) (short : name.length ≤ 0xFFFF) :
    Fresh (senderOf (files ++ [(name, data)])) := by
  have files' := fresh.small
  have names := fresh.short
  rw [senderOf_eq] at files' names ⊢
  refine ⟨rfl, by simpa using few, fun file member => ?_, fun file member => ?_⟩
  · rcases List.mem_append.mp member with old | new
    · exact files' file old
    · rwa [List.mem_singleton.mp new]
  · rcases List.mem_append.mp member with old | new
    · exact names file old
    · rwa [List.mem_singleton.mp new]

theorem Linked.reload {more : List (Bytes × Bytes)} {paths : List FilePath}
    (linked : Linked disk promise files taken) (early : promise.serving ≠ .served)
    (matching : Matches disk promise.announced more) (fresh : Fresh (senderOf more))
    (room : more.length + paths.length < 2 ^ 32) :
    Linked disk { promise with
      serving := .loading paths (senderOf more)
      outgoing := promise.outgoing ++ [] } more taken := by
  obtain ⟨nothing, empty, idle⟩ := linked.unsent early
  refine ⟨matching, fresh, linked.undialed, nofun, fun others sender same => ?_,
    fun _ => ⟨nothing, empty, by simp [idle]⟩, ?_, linked.held⟩
  · cases same
    exact ⟨rfl, room⟩
  · have unread : promise.inbox = [] := empty
    rw [Promise.inbox] at unread ⊢
    simp [nothing, unread, idle]

theorem Linked.send {messages : List Bytes} (linked : Linked disk promise files taken)
    (early : promise.serving ≠ .served) (all : messages <+: sentFor files) :
    Linked disk { promise with
      serving := .served
      outgoing := promise.outgoing ++ messages } files taken := by
  obtain ⟨nothing, empty, idle⟩ := linked.unsent early
  refine ⟨linked.matching, linked.fresh, linked.undialed, nofun, nofun,
    fun early => absurd rfl early, ?_, linked.held⟩
  have unread : promise.inbox = [] := empty
  rw [Promise.inbox] at unread ⊢
  simpa [nothing, unread, idle] using all

theorem Linked.serve {unreadable copiedPaths : List FilePath}
    (linked : Linked disk promise files taken) (few : copiedPaths.length < 2 ^ 32)
    (inPlace : ∀ path paths sender, promise.serving = .loading (path :: paths) sender →
      (disk.readWholeFile unreadable path).isSome = true →
      ∃ other, promise.announced[sender.fileCount]? = some other ∧
        disk.content other = disk.content path) :
    ∃ more, Linked disk (promise.serve disk unreadable copiedPaths) more taken := by
  rw [Promise.serve]
  split
  · cases serving : promise.serving with
    | accepting =>
        have none_ := linked.accepting serving
        subst none_
        exact ⟨[], linked.reload (by simp [serving]) linked.matching linked.fresh (by simpa using few)⟩
    | served =>
        refine ⟨files, linked.matching, linked.fresh, linked.undialed, nofun, nofun,
          fun early => absurd rfl early, ?_, linked.held⟩
        have sent := linked.sent
        simpa [Serving.turn, Promise.inbox] using sent
    | loading paths sender =>
        obtain ⟨rfl, room⟩ := linked.loading paths sender serving
        have early : promise.serving ≠ .served := by simp [serving]
        cases paths with
        | nil =>
            simp only [Serving.turn]
            refine ⟨files, ?_⟩
            split
            · exact linked.send early List.nil_prefix
            · exact linked.send early List.prefix_rfl
        | cons path paths =>
            rw [List.length_cons] at room
            simp only [Serving.turn]
            split
            · rename_i bytes read
              obtain ⟨other, there, same⟩ := inPlace path paths _ serving (by rw [read]; rfl)
              have contents : disk.content path = bytes := by
                simp only [Disk.readWholeFile] at read
                split at read
                · contradiction
                · exact Option.some.inj read
              have small : bytes.length < 2 ^ 64 := by
                rw [← contents]
                exact (disk.small path).trans (by decide)
              have short : (baseNameUtf8 path).length ≤ 0xFFFF :=
                (baseNameUtf8_length path).trans (by decide)
              have fresh := fresh_addFile linked.fresh (by omega) small short
              rw [← senderOf_concat]
              refine ⟨_, linked.reload early (fun index name data found => ?_) fresh ?_⟩
              · rcases Nat.lt_or_ge index files.length with before | behind
                · rw [List.getElem?_append_left before] at found
                  exact linked.matching index name data found
                · obtain ⟨rfl, last⟩ : index = files.length ∧ bytes = data := by
                    rw [List.getElem?_append_right behind] at found
                    have only := (List.getElem?_eq_some_iff.mp found).1
                    rw [List.length_singleton] at only
                    have at_ : index = files.length := by omega
                    rw [at_, Nat.sub_self] at found
                    cases found
                    exact ⟨at_, rfl⟩
                  rw [senderOf_fileCount] at there
                  exact ⟨other, there, same.trans (contents.trans last)⟩
              · rw [List.length_append, List.length_singleton]
                omega
            · exact ⟨files, linked.reload early linked.matching linked.fresh (by omega)⟩
  · exact ⟨files, linked⟩

theorem Linked.start {data sourceIp : Bytes} {hasKey : Bool}
    (became : promiseOf data announced sourceIp hasKey = some promise) : Linked disk promise [] [] := by
  simp only [promiseOf] at became
  split at became
  · contradiction
  · contradiction
  · cases became
    exact ⟨nofun, ⟨rfl, by decide, nofun, nofun⟩, fun _ => rfl, fun _ => rfl, nofun,
      fun _ => ⟨rfl, rfl, rfl⟩, List.nil_prefix, rfl⟩

structure Truthful (disk : Disk) (state : Pasting) : Prop where
  few : state.copiedPaths.length < 2 ^ 32
  linked : ∀ promise ∈ state.promises, ∃ files taken, Linked disk promise files taken
  faithful : ∀ result ∈ state.returned, Faithful disk result

variable {state : Pasting} {place : Nat}

theorem Truthful.init (disk : Disk) : Truthful disk .init where
  few := by decide
  linked _ member := absurd member List.not_mem_nil
  faithful _ member := absurd member List.not_mem_nil

theorem Truthful.change {change : Promise → Promise} (truthful : Truthful disk state)
    (keeps : ∀ promise files taken, state.promises[place]? = some promise →
      Linked disk promise files taken → ∃ more some_, Linked disk (change promise) more some_) :
    Truthful disk (state.change place change) := by
  refine ⟨truthful.few, fun promise member => ?_, truthful.faithful⟩
  obtain ⟨other, found⟩ := List.mem_iff_getElem?.mp member
  rw [Pasting.change, List.getElem?_modify] at found
  obtain ⟨earlier, was, same⟩ := Option.map_eq_some_iff.mp found
  obtain ⟨files, taken, linked⟩ := truthful.linked earlier (List.mem_of_getElem? was)
  split at same
  · rename_i here
    subst here same
    exact keeps earlier files taken was linked
  · cases same
    exact ⟨files, taken, linked⟩

theorem Truthful.return_ {call : ReadCall} {bytes : Option Bytes} (truthful : Truthful disk state)
    (faithful : Faithful disk ⟨announced, call, bytes⟩) :
    Truthful disk (state.return_ announced call bytes) :=
  ⟨truthful.few, truthful.linked, fun result member => by
    rcases List.mem_cons.mp member with rfl | old
    · exact faithful
    · exact truthful.faithful result old⟩

theorem Faithful.failed (announced : List FilePath) (call : ReadCall) :
    Faithful disk ⟨announced, call, none⟩ := nofun

theorem Truthful.step {action : PasteAction} (truthful : Truthful disk state)
    (inPlace : InPlace disk action state) : Truthful disk (pasteStep disk action state) := by
  cases action with
  | copy dropped =>
      have few : (disk.clipboardUpdate state.unreadable dropped).2.length < 2 ^ 32 :=
        (List.length_filter_le _ _).trans_lt dropped.few
      simp only [pasteStep]
      split
      · exact truthful
      · rename_i items paths _ updated
        rw [updated] at few
        exact ⟨few, truthful.linked, truthful.faithful⟩
  | becomeUnreadable path => exact ⟨truthful.few, truthful.linked, truthful.faithful⟩
  | announce place sourceIp hasKey =>
      simp only [pasteStep]
      split
      · exact truthful
      · refine ⟨truthful.few, fun promise member => ?_, truthful.faithful⟩
        rcases List.mem_append.mp member with old | new
        · exact truthful.linked promise old
        · exact ⟨[], [], .start (Option.mem_toList.mp new)⟩
  | openRead place call reached =>
      have opened : Truthful disk (state.change place fun promise => promise.openRead reached) :=
        truthful.change fun promise files taken _ linked => ⟨files, taken, linked.openRead reached⟩
      simp only [pasteStep]
      split
      · exact truthful
      · rename_i promise _
        cases (promise.session.openRead (if reached then some freshLink else none)).1 with
        | true => exact opened
        | false => exact opened.return_ (.failed _ call)
  | readTurn place call =>
      simp only [pasteStep]
      split
      · exact truthful
      · rename_i promise found
        split
        · exact truthful
        · rename_i bytes returned
          obtain ⟨files, taken, linked⟩ := truthful.linked promise (List.mem_of_getElem? found)
          exact truthful.return_ (readTurn_faithful linked.holding linked.matching returned)
  | timeOut place call =>
      simp only [pasteStep]
      split
      · exact truthful
      · have stopped : Truthful disk (state.change place fun promise =>
            { promise with session := promise.session.timeOut }) :=
          truthful.change fun promise files taken _ linked => ⟨files, taken, linked.timeOut⟩
        exact stopped.return_ (.failed _ call)
  | drainRound place =>
      exact truthful.change fun promise files taken _ linked => ⟨files, linked.drainRound⟩
  | serve place =>
      refine truthful.change fun promise files taken found linked => ?_
      obtain ⟨more, served⟩ := linked.serve truthful.few fun path paths sender serving read => by
        have there := inPlace place rfl promise found path (by rw [serving]; rfl) read
        rw [serving] at there
        exact Option.map_eq_some_iff.mp there
      exact ⟨more, taken, served⟩
  | carry place =>
      exact truthful.change fun promise files taken _ linked => ⟨files, taken, linked.carry⟩
  | disconnect place =>
      exact truthful.change fun promise files taken _ linked => ⟨files, taken, linked.disconnect⟩

/-- While every file that is served is in its place, every read returns bytes of
the file that was promised, or fails. -/
theorem pastes_deliver (disk : Disk) {actions : List PasteAction}
    (inPlace : Along (pasteStep disk) (InPlace disk) .init actions) :
    ∀ result ∈ (exec (pasteStep disk) .init actions).returned, Faithful disk result :=
  have truthful : Truthful disk (exec (pasteStep disk) .init actions) :=
    exec_invariant (fun _ _ truthful inPlace => truthful.step inPlace) (.init disk) inPlace
  truthful.faithful

/-! ## Two files -/

def pathOf (byte : UInt8) : FilePath := ⟨[byte], by simp⟩

def smallDisk : Disk where
  content path := if path.bytes = [97] then [1] else [2, 3]
  isDirectory _ := false
  small path := by split <;> decide

def copyOf (bytes : Bytes) (few : bytes.length < 2 ^ 32) : PasteAction :=
  .copy ⟨bytes.map pathOf, by rw [List.length_map]; exact few⟩

def firstBytes : ReadCall := ⟨0, 0, 8⟩

/-- The first file of the first promise is read, as far as it has been served. -/
def pullFirst : List PasteAction :=
  [.serve 0, .serve 0, .serve 0, .carry 0, .carry 0, .drainRound 0, .readTurn 0 firstBytes]

def pasted : List PasteAction :=
  [copyOf [97] (by decide), .announce 0 [49] true, .openRead 0 firstBytes true] ++ pullFirst

def overtaken : List PasteAction :=
  [copyOf [97] (by decide), .announce 0 [49] true, copyOf [98] (by decide),
    .openRead 0 firstBytes true] ++ pullFirst

/-- "a" cannot be read any more when "a" and "b" are pasted. -/
def passedBy : List PasteAction :=
  [copyOf [97, 98] (by decide), .announce 0 [49] true, .becomeUnreadable (pathOf 97),
    .openRead 0 firstBytes true, .serve 0] ++ pullFirst

theorem first_file_pasted :
    (exec (pasteStep smallDisk) .init pasted).returned = [⟨[pathOf 97], firstBytes, some [1]⟩] ∧
      Faithful smallDisk ⟨[pathOf 97], firstBytes, some [1]⟩ := by
  have returned : (exec (pasteStep smallDisk) .init pasted).returned =
      [⟨[pathOf 97], firstBytes, some [1]⟩] := by decide
  have inPlace : Along (pasteStep smallDisk) (InPlace smallDisk) .init pasted :=
    ⟨by decide, by decide, by decide, by decide, by decide, by decide, by decide, by decide, by decide,
      by decide, trivial⟩
  exact ⟨returned, pastes_deliver smallDisk inPlace _ (returned ▸ List.mem_singleton_self _)⟩

theorem other_file_pasted :
    (∃ result ∈ (exec (pasteStep smallDisk) .init overtaken).returned, ¬Faithful smallDisk result) ∧
      ∃ result ∈ (exec (pasteStep smallDisk) .init passedBy).returned, ¬Faithful smallDisk result := by
  have wrong : ∀ rest, ¬Faithful smallDisk ⟨pathOf 97 :: rest, firstBytes, some [2, 3]⟩ := by
    intro rest faithful
    obtain ⟨path, there, front, _⟩ := faithful [2, 3] rfl
    cases there
    exact absurd front.length_le (by simp [smallDisk, pathOf, firstBytes])
  exact ⟨⟨_, by decide, wrong []⟩, ⟨_, by decide, wrong [pathOf 98]⟩⟩

end Skittermouse.Files

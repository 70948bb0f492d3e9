import Skittermouse.Net.FileChannel
import Skittermouse.Net.FilePromiseAnnounce

namespace Skittermouse.Platform

open Skittermouse.Data Skittermouse.Core Skittermouse.Net

/-! # Copied here, pasted there

What the tray does with copied files: the source announces them and serves the
files it copied last, the destination pulls a promise's bytes when it is pasted.
-/

/-- A path as the clipboard hands it over, through a buffer of `MAX_PATH` wide
characters. -/
structure FilePath where
  bytes : Bytes
  short : bytes.length ≤ 3 * 259
deriving DecidableEq

/-- The paths of one copy. `DragQueryFileW` counts them in 32 bits. -/
structure DroppedFiles where
  paths : List FilePath
  few : paths.length < 2 ^ 32

/-- The contents of every path are fixed. A stream's size is a signed 64-bit number. -/
structure Disk where
  content : FilePath → Bytes
  isDirectory : FilePath → Bool
  small : ∀ path, (content path).length < 2 ^ 63

def baseNameUtf8 (path : FilePath) : Bytes :=
  (path.bytes.reverse.takeWhile fun byte => byte != 0x5C && byte != 0x2F).reverse

theorem baseNameUtf8_length (path : FilePath) : (baseNameUtf8 path).length ≤ 3 * 259 := by
  have whole := (List.takeWhile_sublist (fun byte => byte != 0x5C && byte != 0x2F)
    (l := path.bytes.reverse)).length_le
  simp only [baseNameUtf8, List.length_reverse] at whole ⊢
  exact whole.trans path.short

namespace Disk

variable (disk : Disk) (unreadable : List FilePath)

/-- Zero as well when the attributes cannot be read. -/
def fileSizeOf (path : FilePath) : UInt64 :=
  if path ∈ unreadable ∨ disk.isDirectory path = true then 0
  else UInt64.ofNat (disk.content path).length

def readWholeFile (path : FilePath) : Option Bytes :=
  if path ∈ unreadable ∨ disk.isDirectory path = true then none else some (disk.content path)

/-- `WM_CLIPBOARDUPDATE` with files on the clipboard: what is announced, and
what `copiedPaths` becomes. -/
def clipboardUpdate (dropped : DroppedFiles) : List FilePromiseItem × List FilePath :=
  let paths := dropped.paths.filter fun path => disk.isDirectory path = false
  (paths.map fun path => ⟨baseNameUtf8 path, disk.fileSizeOf unreadable path⟩, paths)

end Disk

inductive Serving where
  | accepting
  | loading (paths : List FilePath) (sender : FileSender)
  | served

namespace Serving

def next? : Serving → Option FilePath
  | .loading (path :: _) _ => some path
  | _ => none

def loaded : Serving → Nat
  | .loading _ sender => sender.fileCount
  | _ => 0

end Serving

/-- The source's end of a fresh link. A link that dies is one that carries no more. -/
def freshLink : Wire := ⟨0, true, [], []⟩

def kServeChunk : Nat := 64 * 1024

/-- One turn: the copied paths are taken, then read one after the other, and
what could be read is sent. -/
def Serving.turn (disk : Disk) (unreadable copiedPaths : List FilePath) : Serving → Serving × List Bytes
  | .accepting => (.loading copiedPaths .init, [])
  | .loading (path :: paths) sender => match disk.readWholeFile unreadable path with
    | some bytes => (.loading paths (sender.addFile (baseNameUtf8 path) bytes), [])
    | none => (.loading paths sender, [])
  | .loading [] sender =>
      if sender.fileCount = 0 then (.served, [])
      else (.served, (FileChannel.sendAll freshLink sender kServeChunk).2.1.outbox)
  | .served => (.served, [])

structure FilePullSession (τ : Type) where
  sourceIp : Bytes
  hasKey : Bool
  transport : Option τ
  receiver : FileReceiver
  failed : Bool
  dialed : Bool
  draining : Bool

structure ReadCall where
  index : UInt32
  offset : UInt64
  cap : UInt32
deriving DecidableEq

namespace FilePullSession

variable {τ : Type}

def init (τ : Type) (sourceIp : Bytes) (hasKey : Bool) : FilePullSession τ :=
  { sourceIp, hasKey, transport := none, receiver := .init, failed := false, dialed := false
    draining := false }

/-- `link` is what dialing and securing the link would come to. -/
def ensureConnected (session : FilePullSession τ) (link : Option τ) : Bool × FilePullSession τ :=
  if session.dialed then (session.transport.isSome, session)
  else if session.sourceIp = [] ∨ session.hasKey = false then
    (false, { session with dialed := true, failed := true })
  else match link with
  | none => (false, { session with dialed := true, failed := true })
  | some transport =>
      (true, { session with dialed := true, transport := some transport, draining := true })

/-- What `read` does before it waits for bytes. -/
def openRead (session : FilePullSession τ) (link : Option τ) : Bool × FilePullSession τ :=
  if session.failed then (false, session) else session.ensureConnected link

def haveOf (session : FilePullSession τ) (index : UInt32) : UInt64 :=
  if index.toNat < session.receiver.fileCount then session.receiver.receivedOf index.toNat else 0

/-- One turn of the loop in `read`: it waits on, or it returns -1 or some bytes.
The count is returned as an `int`, which is negative from 2^31 on. -/
def readTurn (session : FilePullSession τ) (call : ReadCall) : Option (Option Bytes) :=
  if session.failed then some none
  else if call.offset < session.haveOf call.index then
    if min (session.haveOf call.index - call.offset).toNat call.cap.toNat < 2 ^ 31 then
      some (some (((session.receiver.data call.index.toNat).drop call.offset.toNat).take
        (min (session.haveOf call.index - call.offset).toNat call.cap.toNat)))
    else some none
  else if call.index.toNat < session.receiver.fileCount ∧
      session.receiver.complete call.index.toNat = true then some (some [])
  else none

def timeOut (session : FilePullSession τ) : FilePullSession τ := { session with failed := true }

variable [Transport τ]

def drainRound (session : FilePullSession τ) : FilePullSession τ :=
  match session.draining, session.transport with
  | true, some transport =>
      match FileChannel.receiveAvailable transport session.receiver with
      | (true, transport, receiver) =>
          let transport := if Transport.isConnected transport then Transport.close transport else transport
          { session with receiver, transport := some transport, draining := false }
      | (false, transport, receiver) =>
          if Transport.isConnected transport then { session with receiver, transport := some transport }
          else { session with receiver, transport := some transport, failed := true, draining := false }
  | _, _ => session

end FilePullSession

end Skittermouse.Platform

import Skittermouse.Net.FileSession
import Skittermouse.Net.MessageCodec
import Skittermouse.Net.Transport

namespace Skittermouse.Net

open Skittermouse.Data Skittermouse.Core

namespace FileChannel

def kMaxFileMessage : Nat := 2 ^ 20

def kDefaultChunk : Nat := 64 * 1024

variable {τ : Type} [Transport τ]

/-- The chunk loop over one file, for as many rounds as `fuel`. It stops with
false when a send fails. -/
def sendFile (chunkSize : Nat) (index : UInt32) : Nat → τ → FileSender → Bool × τ × FileSender
  | 0, transport, sender => (true, transport, sender)
  | fuel + 1, transport, sender =>
      if sender.complete index.toNat then (true, transport, sender)
      else
        let (chunk, sender) := sender.nextChunk index chunkSize
        if chunk = [] then (true, transport, sender)
        else
          let (sent, transport) := Transport.send transport (encodeVarMessage .fileChunk chunk)
          if sent then sendFile chunkSize index fuel transport sender
          else (false, transport, sender)

/-- Every chunk hands out at least a byte of the file, which bounds the rounds. -/
def chunkRounds (sender : FileSender) (index : UInt32) : Nat :=
  match sender.files[index.toNat]? with
  | some (_, data) => data.length + 1
  | none => 1

def sendFiles (chunkSize : Nat) : List UInt32 → τ → FileSender → Bool × τ × FileSender
  | [], transport, sender => (true, transport, sender)
  | index :: indices, transport, sender =>
      let (sent, transport, sender) :=
        sendFile chunkSize index (chunkRounds sender index) transport sender
      if sent then sendFiles chunkSize indices transport sender else (false, transport, sender)

/-- The indices of the loops over the files; the count is cast to 32 bits. -/
def fileIndices (sender : FileSender) : List UInt32 :=
  (List.range (UInt32.ofNat sender.fileCount).toNat).map UInt32.ofNat

def sendAll (transport : τ) (sender : FileSender) (chunkSize : Nat) : Bool × τ × FileSender :=
  let chunkSize := if chunkSize = 0 then kDefaultChunk else chunkSize
  let (sent, transport) :=
    Transport.send transport (encodeVarMessage .filePromiseMeta sender.promiseMeta)
  if sent = false then (false, transport, sender)
  else
    let (sent, transport, after) := sendFiles chunkSize (fileIndices sender) transport sender
    if sent = false then (false, transport, after)
    else ((fileIndices sender).all fun index => after.complete index.toNat, transport, after)

def acceptMessage (receiver : FileReceiver) (data : Bytes) : FileReceiver :=
  match decodeMessage data with
  | .ok message _ =>
      if message.isFixed then receiver
      else match message.type with
      | .filePromiseMeta => (receiver.acceptMeta message.payload).2
      | .fileChunk => (receiver.acceptChunk message.payload).2
      | _ => receiver
  | _ => receiver -- skip malformed / version-mismatched frames

def receiveFor : Nat → τ → FileReceiver → τ × FileReceiver
  | 0, transport, receiver => (transport, receiver)
  | fuel + 1, transport, receiver => match Transport.recv transport kMaxFileMessage with
    | (none, transport) | (some [], transport) => (transport, receiver)
    | (some data, transport) => receiveFor fuel transport (acceptMessage receiver data)

/-- Each round but the last eats backlog. -/
def receiveAvailable (transport : τ) (receiver : FileReceiver) : Bool × τ × FileReceiver :=
  let (transport, receiver) := receiveFor (Transport.backlog transport + 1) transport receiver
  (receiver.allComplete, transport, receiver)

end FileChannel

end Skittermouse.Net

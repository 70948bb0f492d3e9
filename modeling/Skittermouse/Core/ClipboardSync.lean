import Skittermouse.Data.Words

namespace Skittermouse.Core

open Skittermouse.Data

/-- Remembers the hash of the text a peer just had us write, so that its echo
is not sent back. -/
structure ClipboardSync where
  pendingRemoteHash : UInt64
  hasPending : Bool
deriving DecidableEq

namespace ClipboardSync

def init : ClipboardSync := ⟨0, false⟩

/-- FNV-1a, 64 bits. -/
def hash (text : Bytes) : UInt64 :=
  text.foldl (fun state byte => (state ^^^ byte.toUInt64) * 1099511628211) 1469598103934665603

def noteAppliedRemote (_ : ClipboardSync) (text : Bytes) : ClipboardSync := ⟨hash text, true⟩

def shouldBroadcastLocalChange (sync : ClipboardSync) (text : Bytes) : Bool × ClipboardSync :=
  (!(sync.hasPending && hash text == sync.pendingRemoteHash), { sync with hasPending := false })

end ClipboardSync

end Skittermouse.Core

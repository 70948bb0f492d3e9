import Skittermouse.Data.Search
import Skittermouse.Net.WsHandshake
import Skittermouse.Platform.WsTransport

namespace Skittermouse.Platform

open Skittermouse.Data Skittermouse.Core Skittermouse.Net

/-! # Opening a WebSocket

The socket blocks until the handshake is done: what it answers is what arrives in the
end, and where more must arrive the call has not returned.
-/

def kBlankLine : Bytes := textOf "\r\n\r\n"
def kKeyTag : Bytes := textOf "Sec-WebSocket-Key:"
def kMaxHeader : Nat := 8192

inductive HeaderRead where
  | header (text rest : Bytes)
  /-- The other end has closed, or the header is too long. -/
  | fails (rest : Bytes)
  | waits
deriving DecidableEq

/-- The loop reads one byte at a time until `text` has a blank line in it. -/
def readHeader (ending : SocketEnd) : Bytes → Bytes → HeaderRead
  | text, [] =>
      if (search kBlankLine text).isSome then .header text []
      else if ending = .pending then .waits
      else .fails []
  | text, byte :: rest =>
      if (search kBlankLine text).isSome then .header text (byte :: rest)
      else if (text ++ [byte]).length > kMaxHeader then .fails rest
      else readHeader ending (text ++ [byte]) rest

def isBlankOrTab (byte : UInt8) : Bool := byte == 32 || byte == 9

/-- The key of a request; empty where there is none. -/
def parseKeyFromRequest (req : Bytes) : Bytes :=
  match search kKeyTag req with
  | none => []
  | some tagged =>
      let value := (req.drop (tagged + kKeyTag.length)).dropWhile isBlankOrTab
      match search (textOf "\r\n") value with
      | none => []
      | some e => value.take e

namespace WsTransport

variable (sha1 : Bytes → Hash160)

/-- The upgrade on an accepted socket; nothing where it still waits. -/
def acceptServerSide (transport : WsTransport) : Option (Bool × WsTransport) :=
  match readHeader transport.socket.ending [] transport.socket.readable with
  | .waits => none
  | .fails readable => some (false, { transport with socket.readable := readable })
  | .header req readable =>
      let transport := { transport with socket.readable := readable }
      let key := parseKeyFromRequest req
      if key.isEmpty then some (false, transport)
      else
        let (sent, socket) := transport.socket.sendAll (wsBuildServerResponse sha1 key)
        if sent then some (true, { transport with socket, connected := true })
        else some (false, { transport with socket })

/-- `reached` is the socket of the TCP connection, if there is one. -/
def connect (transport : WsTransport) (host : Bytes) (port : UInt16) (random : Bytes)
    (reached : Option Socket) : Option (Bool × WsTransport) :=
  if transport.connected then some (true, transport)
  else match reached with
  | none => some (false, transport)
  | some socket =>
      let key := wsGenerateClientKey random
      let req := wsBuildClientHandshake (host ++ textOf ":" ++ decimal port.toNat) (textOf "/input") key
      let (sent, socket) := socket.sendAll req
      if !sent then some (false, { transport with socket })
      else match readHeader socket.ending [] socket.readable with
      | .waits => none
      | .fails readable => some (false, { transport with socket := { socket with readable } })
      | .header resp readable =>
          let transport := { transport with socket := { socket with readable } }
          if (search (wsAcceptKey sha1 key) resp).isNone then some (false, transport)
          else some (true, { transport with connected := true })

end WsTransport

end Skittermouse.Platform

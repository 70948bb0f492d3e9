import Skittermouse.Core.Config
import Skittermouse.Crypto.Base64

namespace Skittermouse.Net

open Skittermouse.Data Skittermouse.Core Skittermouse.Crypto

/-! # The opening handshake of a WebSocket

`sha1` is the platform's, and `random` what `randomBytes` returns.
-/

def Hash160 : Type := { bytes : Bytes // bytes.length = 20 }

def kMagicGuid : Bytes := textOf "258EAFA5-E914-47DA-95CA-C5AB0DC85B11"

variable (sha1 : Bytes → Hash160)

def wsAcceptKey (clientKey : Bytes) : Bytes := base64Encode (sha1 (clientKey ++ kMagicGuid)).val

def wsGenerateClientKey (random : Bytes) : Bytes := base64Encode random

def wsBuildClientHandshake (host path key : Bytes) : Bytes :=
  textOf "GET " ++ path ++ textOf " HTTP/1.1\r\n" ++
    (textOf "Host: " ++ host ++ textOf "\r\n" ++
      (textOf "Upgrade: websocket\r\n" ++
        (textOf "Connection: Upgrade\r\n" ++
          (textOf "Sec-WebSocket-Key: " ++ key ++ textOf "\r\n" ++
            textOf "Sec-WebSocket-Version: 13\r\n\r\n"))))

def wsBuildServerResponse (clientKey : Bytes) : Bytes :=
  textOf "HTTP/1.1 101 Switching Protocols\r\n" ++
    (textOf "Upgrade: websocket\r\n" ++
      (textOf "Connection: Upgrade\r\n" ++
        (textOf "Sec-WebSocket-Accept: " ++ wsAcceptKey sha1 clientKey ++ textOf "\r\n\r\n")))

end Skittermouse.Net

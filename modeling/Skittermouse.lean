import Skittermouse.Data.OrdMap
import Skittermouse.Data.Exec
import Skittermouse.Data.Words
import Skittermouse.Data.LatestWins
import Skittermouse.Core.EventTypes
import Skittermouse.Core.OwnershipState
import Skittermouse.Ownership.Convergence
import Skittermouse.Net.MessageCodec
import Skittermouse.Net.OwnershipCodec
import Skittermouse.Net.FilePromiseAnnounce
import Skittermouse.Net.PeerHello
import Skittermouse.Net.Transport
import Skittermouse.Net.EncryptedTransport
import Skittermouse.Pairing.KeyStore
import Skittermouse.App.SecureLink
import Skittermouse.Link.NonceReuse
import Skittermouse.Core.Heartbeat
import Skittermouse.Core.ServerElection
import Skittermouse.Core.ClipboardSync
import Skittermouse.Core.InputPipeline
import Skittermouse.App.MeshNode
import Skittermouse.Mesh.Frame
import Skittermouse.Mesh.FailSafe
import Skittermouse.Mesh.Network
import Skittermouse.Mesh.Calls
import Skittermouse.Mesh.Switch
import Skittermouse.Data.Strokes
import Skittermouse.Mesh.StuckKeys
import Skittermouse.Mesh.Transports
import Skittermouse.App.ConnectionManager
import Skittermouse.App.ConnectionService
import Skittermouse.Link.Resolution
import Skittermouse.Link.Identity
import Skittermouse.Net.MeshMessage
import Skittermouse.Link.Frames
import Skittermouse.Mesh.Delivery
import Skittermouse.Link.Replay
import Skittermouse.Link.SimultaneousDials
import Skittermouse.Data.Reassembly
import Skittermouse.Net.WsFrame
import Skittermouse.Net.FrameAssembler
import Skittermouse.Framing.Splits
import Skittermouse.Platform.WsTransport
import Skittermouse.Framing.FailedSends
import Skittermouse.Net.FileTransfer
import Skittermouse.Net.FileSession
import Skittermouse.Net.FileChannel
import Skittermouse.Files.Streaming
import Skittermouse.Files.RoundTrip
import Skittermouse.Framing.Receives
import Skittermouse.Link.AuthenticChannel
import Skittermouse.Pairing.EcdhHandshake
import Skittermouse.Pairing.PairingExchange
import Skittermouse.Pairing.Commitment
import Skittermouse.Pairing.Agreement
import Skittermouse.Data.Histories
import Skittermouse.Mesh.Presence
import Skittermouse.App.ConnectionTable
import Skittermouse.Link.Registration
import Skittermouse.Platform.FilePull
import Skittermouse.Files.Paste
import Skittermouse.Mesh.Renaming
import Skittermouse.Link.Addresses
import Skittermouse.Ownership.LocalSwitch
import Skittermouse.Data.Spans
import Skittermouse.Files.Chunks
import Skittermouse.Files.Counts
import Skittermouse.Platform.WinCapture
import Skittermouse.Capture.ReclaimChord
import Skittermouse.Core.Config
import Skittermouse.Data.Decimal
import Skittermouse.Stored.ConfigText
import Skittermouse.Stored.SealedKeys
import Skittermouse.Mesh.Books
import Skittermouse.Mesh.Election
import Skittermouse.Mesh.ClipboardEcho
import Skittermouse.Mesh.Injection
import Skittermouse.Capture.LocalKeys
import Skittermouse.Capture.Forwarding
import Skittermouse.Data.Format
import Skittermouse.Data.Buffer
import Skittermouse.Wire.FileLists
import Skittermouse.Wire.OwnershipClaims
import Skittermouse.Net.DiscoveryBeacon
import Skittermouse.Wire.Beacons
import Skittermouse.Wire.Messages
import Skittermouse.Core.Hotkey
import Skittermouse.Capture.HotkeyGrammar
import Skittermouse.Files.Announcing
import Skittermouse.Stored.ConfigNumbers
import Skittermouse.Data.Keyed
import Skittermouse.Stored.PairedDevices
import Skittermouse.Data.Bits
import Skittermouse.Crypto.Base64
import Skittermouse.Encodings.Base64Text
import Skittermouse.Data.Loop
import Skittermouse.Pairing.KeyDerivation
import Skittermouse.Data.Der
import Skittermouse.Crypto.X509SelfSigned
import Skittermouse.Encodings.Certificate
import Skittermouse.Data.Cursor
import Skittermouse.Platform.FilePromiseWin
import Skittermouse.Files.PromiseCursor
import Skittermouse.Core.WakeFlow
import Skittermouse.Net.WolSender
import Skittermouse.Platform.WinMouse
import Skittermouse.Platform.TrayWin
import Skittermouse.Tray.Following
import Skittermouse.Tray.Runs
import Skittermouse.Tray.FailSafe
import Skittermouse.Tray.RemoteInput
import Skittermouse.Wire.MacText
import Skittermouse.Data.Cooldown
import Skittermouse.Platform.NetThread
import Skittermouse.Tray.Frame
import Skittermouse.Tray.Waking
import Skittermouse.Threads.Links
import Skittermouse.Platform.PairThreads
import Skittermouse.Threads.Pairing
import Skittermouse.Threads.PairedKeys
import Skittermouse.Platform.WsOpening
import Skittermouse.Framing.Opening
import Skittermouse.Platform.DiscoveryThread
import Skittermouse.Threads.Discovery
import Skittermouse.Threads.Reconnect
import Skittermouse.Link.Establishing
import Skittermouse.Threads.Wakeups

import RustXhttp.Lib.Machine
import RustXhttp.Lib.Bytes
import RustXhttp.Lib.Word
import RustXhttp.Lib.Source
import RustXhttp.Vision.Codec
import RustXhttp.Vision.Decode
import RustXhttp.Vision.Transparent
import RustXhttp.Session.Reorder
import RustXhttp.Session.Packets
import RustXhttp.Session.InOrder
import RustXhttp.Session.Cancel
import RustXhttp.Encryption.Kdf
import RustXhttp.Encryption.Record
import RustXhttp.Encryption.Xor
import RustXhttp.Encryption.Stream
import RustXhttp.Dispatch.Writer
import RustXhttp.Encryption.Transparent
import RustXhttp.Dispatch.Associations
import RustXhttp.Session.Table
import RustXhttp.Session.Generations
import RustXhttp.Dispatch.Udp
import RustXhttp.Dispatch.Isolation
import RustXhttp.Origin.Xhttp
import RustXhttp.Origin.Padding
import RustXhttp.Origin.Classify
import RustXhttp.Origin.Site
import RustXhttp.Origin.Probe
import RustXhttp.Lib.Program
import RustXhttp.Encryption.Handshake
import RustXhttp.Encryption.Tickets
import RustXhttp.Encryption.Agreement
import RustXhttp.Encryption.Nonce
import RustXhttp.Lib.Count
import RustXhttp.Session.Ledger
import RustXhttp.Session.Accounting
import RustXhttp.Session.Cap
import RustXhttp.Session.Reaper
import RustXhttp.Session.Budget
import RustXhttp.Tls.Record
import RustXhttp.Tls.Stream
import RustXhttp.Tls.Transparent
import RustXhttp.Tls.KeySchedule
import RustXhttp.Lib.Utf8
import RustXhttp.Tls.ClientHello
import RustXhttp.Tls.Flight
import RustXhttp.Tls.Handshake
import RustXhttp.Tls.Agreement
import RustXhttp.Origin.Handle
import RustXhttp.Origin.Upload
import RustXhttp.Lib.OneFailure
import RustXhttp.Acme.Publish
import RustXhttp.Acme.Renewal
import RustXhttp.Acme.Crash
import RustXhttp.Lib.Protobuf
import RustXhttp.Lib.Base64
import RustXhttp.Vless.Addons
import RustXhttp.Vless.Address
import RustXhttp.Dispatch.XudpCodec
import RustXhttp.Vless.Grammar
import RustXhttp.Vless.Header
import RustXhttp.Manage.Files
import RustXhttp.Manage.Release
import RustXhttp.Manage.Update
import RustXhttp.Manage.Config
import RustXhttp.Manage.Resources
import RustXhttp.Manage.Install
import RustXhttp.Session.Bounds
import RustXhttp.Session.Charge
import RustXhttp.Session.Close
import RustXhttp.Session.GapFiller
import RustXhttp.Session.GraceTimer
import RustXhttp.Encryption.HeaderStream
import RustXhttp.Encryption.Blake3
import RustXhttp.Encryption.Config
import RustXhttp.Tls.Channel
import RustXhttp.Tls.HelloCodec
import RustXhttp.Tls.RecordBuffer
import RustXhttp.Tls.Backend
import RustXhttp.Tls.FlightRecord
import RustXhttp.Lib.Percent
import RustXhttp.Origin.Directory
import RustXhttp.Manage.Restore
import RustXhttp.Server.Config
import RustXhttp.Tls.Scan
import RustXhttp.Server.Clients
import RustXhttp.Encryption.ZeroRtt
import RustXhttp.Encryption.Integrity
import RustXhttp.Lib.Polls
import RustXhttp.Vision.Layered
import RustXhttp.Dispatch.ClientReader
import RustXhttp.Lib.Transducer
import RustXhttp.Session.Downlink
import RustXhttp.Dispatch.Pump
import RustXhttp.Dispatch.Tunnel
import RustXhttp.Dispatch.Serve

import GatoPskTls.Lib.Splice
import GatoPskTls.Lib.History
import GatoPskTls.ExtensionCodec
import GatoPskTls.RecordLimit
import GatoPskTls.Server.ListEntries
import GatoPskTls.PkiBinding
import GatoPskTls.Webpki
import GatoPskTls.SanNames
import GatoPskTls.Rfc8446
import GatoPskTls.ByteWindow
import GatoPskTls.BufferSafety
import GatoPskTls.WriteBufferRuns
import GatoPskTls.HelloAgreement
import GatoPskTls.MessageLength
import GatoPskTls.RecordReaderRuns
import GatoPskTls.Client.Authentication
import GatoPskTls.Client.Greeting
import GatoPskTls.Client.TlsConnection
import GatoPskTls.Client.Injection
import GatoPskTls.Client.Nonces
import GatoPskTls.Client.SendStream
import GatoPskTls.Client.Robustness
import GatoPskTls.Client.ReceiveStream
import GatoPskTls.Client.Fragments
import GatoPskTls.Client.FlightSafety
import GatoPskTls.Client.Schedule
import GatoPskTls.Server.Decrypt
import GatoPskTls.Server.FailedHello
import GatoPskTls.Server.Retry
import GatoPskTls.Server.Order
import GatoPskTls.Server.FlightForm
import GatoPskTls.Server.ReceiveChannel
import GatoPskTls.Server.Nonces
import GatoPskTls.Server.Totality
import GatoPskTls.Duplex
import GatoPskTls.Client.Gate
import GatoPskTls.Server.InPlace
import GatoPskTls.Server.OwnClient

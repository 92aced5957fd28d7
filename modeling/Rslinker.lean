import Rslinker.Basic.Framing
import Rslinker.Basic.KeyedList
import Rslinker.Basic.LittleEndian
import Rslinker.Basic.Ownership
import Rslinker.Basic.Queue
import Rslinker.Basic.Scanner
import Rslinker.Basic.ScannerSteps
import Rslinker.Basic.ScannerRuns
import Rslinker.Basic.ScannerCalls
import Rslinker.Basic.ScannerFeed
import Rslinker.Basic.ScannerPaths
import Rslinker.Basic.ScannerGrammar
import Rslinker.Basic.ScannerBytes
import Rslinker.Basic.ScannerWords
import Rslinker.Basic.Segments
import Rslinker.Basic.Transition
import Rslinker.Basic.Utf8
import Rslinker.Basic.WriteOnce
import Rslinker.Protocol.AntiSticky
import Rslinker.Protocol.RawMode
import Rslinker.Protocol.ReadOne
import Rslinker.Protocol.EndOfFile
import Rslinker.Protocol.Fifo
import Rslinker.Protocol.Message
import Rslinker.Server.Controller
import Rslinker.Server.Ports
import Rslinker.Server.Exclusive
import Rslinker.Server.Leak
import Rslinker.Server.AcceptLoop
import Rslinker.Server.Heartbeat
import Rslinker.Utils.Chat
import Rslinker.Utils.Mailbox
import Rslinker.Server.Directory
import Rslinker.Server.Monitors
import Rslinker.Server.Released
import Rslinker.Server.Served
import Rslinker.Server.Starting
import Rslinker.Server.Fired
import Rslinker.Client.Session
import Rslinker.Client.Links
import Rslinker.Config.Table
import Rslinker.Config.Merge
import Rslinker.Config.Redirects
import Rslinker.Llhttp.Parser
import Rslinker.Llhttp.Headers
import Rslinker.Llhttp.Report
import Rslinker.Client.HttpChannel
import Rslinker.Client.HttpPanic
import Rslinker.Llhttp.Internal
import Rslinker.Llhttp.Nodes
import Rslinker.Llhttp.Machine
import Rslinker.Llhttp.Spans
import Rslinker.Llhttp.Phases
import Rslinker.Llhttp.Documented
import Rslinker.Llhttp.HeaderNames
import Rslinker.Llhttp.Numbers
import Rslinker.Llhttp.HeaderValues
import Rslinker.Llhttp.HeaderLists
import Rslinker.Llhttp.Fields
import Rslinker.Llhttp.RequestLine
import Rslinker.Llhttp.Heads
import Rslinker.Llhttp.Bodies
import Rslinker.Llhttp.Messages
import Rslinker.Llhttp.RoundTrip
import Rslinker.Llhttp.HeadReports
import Rslinker.Llhttp.Behind
import Rslinker.Llhttp.Collected
import Rslinker.Llhttp.Guarantees
import Rslinker.Client.HttpOutput
import Rslinker.Client.HttpForward
import Rslinker.Client.HttpOverride
import Rslinker.Client.HttpLink
import Rslinker.Client.HttpBody
import Rslinker.Client.HttpHeaders
import Rslinker.Client.HttpOrder
import Rslinker.Client.HttpUpgrade
import Rslinker.Udp.Relay
import Rslinker.Udp.Datagrams
import Rslinker.Udp.Server
import Rslinker.Udp.Sessions
import Rslinker.Udp.Demultiplex
import Rslinker.Udp.StreamEnd
import Rslinker.Udp.Shutdown
import Rslinker.System.Handshake
import Rslinker.System.World
import Rslinker.System.Steps
import Rslinker.System.Registry
import Rslinker.System.Labelled
import Rslinker.System.Pairing
import Rslinker.System.Trace
import Rslinker.System.ClientScript
import Rslinker.System.ServerScript
import Rslinker.System.Conformance
import Rslinker.System.Heartbeats
import Rslinker.System.Pending
import Rslinker.System.Replies
import Rslinker.System.Reconnect

import Nmap.Base.TSys
import Nmap.Base.Json
import Nmap.Base.CString
import Nmap.Base.GuardedUnion
import Nmap.Base.Numeral
import Nmap.Ports.PortList
import Nmap.Ports.Responses
import Nmap.Ports.PortMap
import Nmap.Ports.Counts
import Nmap.Ports.Iteration
import Nmap.Ports.PortSpec
import Nmap.Ports.PortUnion
import Nmap.Service.Probes
import Nmap.Service.Scan
import Nmap.Service.Invariant
import Nmap.Service.Handlers
import Nmap.Service.Bookkeeping
import Nmap.Service.Tcpwrapped
import Nmap.Service.EarlyCredit
import Nmap.Addrset.MatchesAll
import Nmap.Addrset.ExcludeSpec
import Nmap.Addrset.HostnameRuns
import Nmap.Json.Document
import Nmap.Json.Stream
import Nmap.Json.RoundTrip
import Nmap.Json.Finish
import Nmap.Json.Lines
import Nmap.Json.Lossless
import Nmap.Json.NumberGrammar
import Nmap.Xml.Escape
import Nmap.Packet.Validate
import Nmap.OsScan.ExprMatch
import Nmap.OsScan.HexNumbers
import Nmap.OsScan.Alternatives
import Nmap.ScanEngine.Supply
import Nmap.ScanEngine.Coverage
import Nmap.ScanEngine.Verdict
import Nmap.ScanEngine.Retransmit
import Nmap.ScanEngine.Completed
import Nmap.ScanEngine.TryNumbers
import Nmap.ScanEngine.PingReplies
import Nmap.ScanEngine.PortReplies
import Nmap.ScanEngine.QuotedErrors
import Nmap.Packet.TcpOptions
import Nmap.Dns.RoundTrip
import Nmap.Ncat.CertName
import Nmap.Ncat.Relay
import Nmap.Ncat.DigestLogin
import Nmap.Dns.ResolverLoop
import Nmap.Nsock.IodDelete
import Nmap.Nsock.SocketRuns
import Nmap.Nsock.ProxyRuns
import Nmap.OsScan.MatchList
import Nmap.Ports.ExcludePorts
import Nmap.Ports.Ignored
import Nmap.Ports.FullVersion
import Nmap.Ports.PortSpecCursor
import Nmap.Service.ProbeOrder
import Nmap.Base.Paced
import Nmap.Targets.HostGroups
import Nmap.ScanEngine.MaxRate
import Nmap.Ndiff.ScanDiff
import Nmap.Ndiff.Shown
import Nmap.Ndiff.HostPairs
import Nmap.Zenmap.RoundTrip
import Nmap.Base.Attempts
import Nmap.ScanEngine.HostTries
import Nmap.ScanEngine.TryBound
import Nmap.ScanEngine.RetransmissionBound
import Nmap.ScanEngine.RetransmissionWrap
import Nmap.Packet.ReadIp
import Nmap.Ncat.RequestLine
import Nmap.Base.OnesComplement
import Nmap.Packet.Checksum
import Nmap.Packet.Build
import Nmap.Base.Pieces
import Nmap.Packet.Fragments
import Nmap.Ncat.Challenges
import Nmap.Packet.IpOptions
import Nmap.Service.TemplateArgs
import Nmap.Base.Cuts
import Nmap.Service.Substitution
import Nmap.Service.TemplateVar
import Nmap.Service.Template
import Nmap.Base.CLiteral
import Nmap.Service.Fingerprint
import Nmap.Base.LinkedList
import Nmap.Ncat.Strbuf
import Nmap.Ncat.HeaderText
import Nmap.Ncat.HopByHop
import Nmap.Ncat.LineEndings
import Nmap.Ncat.Telnet
import Nmap.Ncat.CommandLine
import Nmap.Dns.ReverseName
import Nmap.Dns.ReverseOctets
import Nmap.Dns.ReverseNibbles
import Nmap.Dns.PutName
import Nmap.Dns.NameField
import Nmap.Dns.AnswerFraming
import Nmap.Base.AgingCache
import Nmap.Dns.HostCache
import Nmap.Base.Along
import Nmap.Base.Buffer
import Nmap.Base.CInt
import Nmap.Base.Lasts
import Nmap.Utils.Wildtest
import Nmap.Utils.Unescape
import Nmap.Timing.TimeoutInfo
import Nmap.Timing.Congestion
import Nmap.Timing.Progress
import Nmap.Base.WordReader
import Nmap.Nbase.WindowsArg
import Nmap.Zenmap.Quoting
import Nmap.Base.FullPeriod
import Nmap.Nbase.UniqueRandom

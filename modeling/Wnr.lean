import Wnr.Pcap.SavefileFormat
import Wnr.Pcap.FilterLanguage
import Wnr.Pcap.CaptureCopy
import Wnr.Pcap.Savefile
import Wnr.ClassicBpf.Semantics
import Wnr.Pcap.Bpf
import Wnr.Pcap.BpfRefinement
import Wnr.Pcap.BpfTermination
import Wnr.Pcap.CompiledFilter
import Wnr.Nsock.PoolCases
import Wnr.Foundation.Actions
import Wnr.Nsock.PoolActions
import Wnr.Nsock.EventChange
import Wnr.Nsock.Notification
import Wnr.Nsock.ConnectResults
import Wnr.Nsock.Datagrams
import Wnr.Nsock.WriteOrder
import Wnr.Pcap.CompiledRuns
import Wnr.Pcap.Verdicts
import Wnr.Pcap.FrameProtocols
import Wnr.Pcap.SavefileTruncation
import Wnr.Pcap.SavefileByteOrder
import Wnr.Pcap.FilteredCapture
import Wnr.Pcap.CaptureFailures
import Wnr.Dnet.Addr
import Wnr.Foundation.BestMatch
import Wnr.Dnet.Route
import Wnr.Dnet.RouteLookup
import Wnr.Dnet.RouteNetworks
import Wnr.Nsock.PassOutcomes
import Wnr.Nsock.EntrySteps
import Wnr.Nsock.FinishedEvents
import Wnr.Nsock.Passes
import Wnr.Nsock.Deadlines
import Wnr.Nsock.ReadConditions
import Wnr.Nsock.IodSteps
import Wnr.Nsock.StreamWrites
import Wnr.Nsock.ReadLedger
import Wnr.Nsock.ReadAccounting
import Wnr.Foundation.Lines
import Wnr.Nsock.LineReads
import Wnr.Nsock.UsableConnects
import Wnr.Dnet.Intf
import Wnr.Pcap.Devices
import Wnr.Dnet.Adapters
import Wnr.Dnet.InterfaceGroups
import Wnr.Dnet.RouteProbe
import Wnr.Dnet.AddrLaws
import Wnr.Dnet.AddrText
import Wnr.Dnet.Masks
import Wnr.Dnet.Padding
import Wnr.Nsock.UdpConnects
import Wnr.Pcap.BpfSafety
import Wnr.Pcap.CaptureLoop
import Wnr.Pcap.Sendqueue
import Wnr.Pcap.SavefileLimits
import Wnr.Pcap.CaptureLengths
import Wnr.Dnet.AddrOrder
import Wnr.Dnet.RoutePrefixes
import Wnr.Dnet.RouteDeletion
import Wnr.Dnet.EthGrammar
import Wnr.Dnet.TextRoundTrips
import Wnr.Dnet.LinkLayer
import Wnr.Scan.Ports
import Wnr.Foundation.Ipv6Text
import Wnr.Dnet.ArpCache
import Wnr.Foundation.Polling
import Wnr.Nsock.Naps
import Wnr.Nsock.ConnectThreads
import Wnr.Nsock.ConnectBounded
import Wnr.Foundation.Grouping
import Wnr.Scan.ScanArgs
import Wnr.Scan.ConnectScan
import Wnr.Nsock.PassFrame
import Wnr.Nsock.AlikePools
import Wnr.Nsock.IterationOrder
import Wnr.Dnet.RouteHistory
import Wnr.Foundation.CallMachines
import Wnr.Pcap.CaptureHandle
import Wnr.Pcap.LiveFeed
import Wnr.Pcap.Consumers
import Wnr.Pcap.StrippedFrames
import Wnr.Foundation.CommandLine
import Wnr.Scan.PcapReport
import Wnr.Nsock.LoopQuits
import Wnr.Pcap.Snapshots
import Wnr.Nsock.DatagramEvents
import Wnr.Foundation.Duplex
import Wnr.Nsock.StreamPeers
import Wnr.Scan.InterfaceReport
import Wnr.Pcap.LiveRecording

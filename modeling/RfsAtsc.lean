import RfsAtsc.TracedMemory
import RfsAtsc.ByteStuffing
import RfsAtsc.TableCrc
import RfsAtsc.Fcs
import RfsAtsc.FcsHdlc
import RfsAtsc.SerialReader
import RfsAtsc.Rd3418
import RfsAtsc.BufferAccesses
import RfsAtsc.RoundTrip
import RfsAtsc.SerialStream
import RfsAtsc.RequestMessages
import RfsAtsc.RequestReplies
import RfsAtsc.UdpStatus
import RfsAtsc.ReaderAgreement
import RfsAtsc.EventMachine
import RfsAtsc.UrmsSetMeter
import RfsAtsc.UrmsGating
import RfsAtsc.UrmsTransfer
import RfsAtsc.UrmsPolls
import RfsAtsc.BerEncoding
import RfsAtsc.NtcipParse
import RfsAtsc.GetResponses
import RfsAtsc.NtcipElements
import RfsAtsc.NtcipAcceptance
import RfsAtsc.FieldSwaps
import RfsAtsc.Phase170
import RfsAtsc.Phase170Messages
import RfsAtsc.Phase170Broadcast
import RfsAtsc.Phase170Bounds
import RfsAtsc.StatusTracking
import RfsAtsc.Countdown
import RfsAtsc.IxMessages
import RfsAtsc.IxCodec
import RfsAtsc.IxDatagrams
import RfsAtsc.DecimalText
import RfsAtsc.IxFiles
import RfsAtsc.IxDatabase
import RfsAtsc.IxSnapshots
import RfsAtsc.PmppFrames
import RfsAtsc.NtcipFcs
import RfsAtsc.AtscStatus
import RfsAtsc.PhasesLoop
import RfsAtsc.ChangeWriter
import RfsAtsc.SnifferWriter
import RfsAtsc.EdiWriter
import RfsAtsc.OverlapNotes
import RfsAtsc.OverlapIndependence
import RfsAtsc.OverlapRuns
import RfsAtsc.GreenDecoding
import RfsAtsc.ColorInference
import RfsAtsc.PhaseStatus
import RfsAtsc.SpatTimers
import RfsAtsc.MemoryProbe
import RfsAtsc.PmppReceiver
import RfsAtsc.PmppCanonical
import RfsAtsc.ParserBounds
import RfsAtsc.BerDecoding
import RfsAtsc.AscRequests
import RfsAtsc.AscRequestBounds
import RfsAtsc.AscRequestDecoding
import RfsAtsc.IxFormatBounds
import RfsAtsc.ApproachRecords
import RfsAtsc.StartTables
import RfsAtsc.TimingPlans
import RfsAtsc.ConfigText
import RfsAtsc.ApproachConfig
import RfsAtsc.ApproachMisreads
import RfsAtsc.PhasesMessage
import RfsAtsc.PhaseConfig
import RfsAtsc.PhaseRecovery
import RfsAtsc.PhaseConfigBounds
import RfsAtsc.BroadcastColors
import RfsAtsc.HashChains
import RfsAtsc.Dict
import RfsAtsc.DictRuns
import RfsAtsc.AtscSets
import RfsAtsc.OnsetTable
import RfsAtsc.UrmsStandalone
import RfsAtsc.ConfigSplit
import RfsAtsc.UrmsComputation
import RfsAtsc.UrmsDatafile
import RfsAtsc.Rd3418Loop
import RfsAtsc.SeparatedHeap
import RfsAtsc.DictHeap
import RfsAtsc.IxRelay
import RfsAtsc.IxExclusion
import RfsAtsc.AscGetLoop
import RfsAtsc.Descriptors
import RfsAtsc.UrmsDescriptors
import RfsAtsc.SerialConnection
import RfsAtsc.PhaseTimers
import RfsAtsc.GreenTimers
import RfsAtsc.LampTimers
import RfsAtsc.PhasesRelay
import RfsAtsc.NemaConfig
import RfsAtsc.UdpConnection

import Iputils.MachineInt
import Iputils.BitTable
import Iputils.ReceivedTable
import Iputils.PingState
import Iputils.AckWindow
import Iputils.GatherStatistics
import Iputils.DuplicateDetection
import Iputils.ByteBuffer
import Iputils.OnesComplement
import Iputils.InCksum
import Iputils.SendProbe
import Iputils.Pinger
import Iputils.SendRate
import Iputils.PrintfText
import Iputils.JsonText
import Iputils.PingJson
import Iputils.PingFinish
import Iputils.ClockdiffMeasure
import Iputils.ClockdiffOffset
import Iputils.ClockdiffOptions
import Iputils.ScanText
import Iputils.HopLine
import Iputils.CoordinateSource
import Iputils.SourcePriority
import Iputils.JsonPacket
import Iputils.ClockdiffProbes
import Iputils.AddressFallback
import Iputils.SourceRoute
import Iputils.PingOutput
import Iputils.PrOptions
import Iputils.ParseReply
import Iputils.ClassicBpf
import Iputils.SocketFilter
import Iputils.EchoLaw
import Iputils.JsonReplies
import Iputils.ErrorQueue
import Iputils.MainLoop
import Iputils.ErrorParity
import Iputils.QuietRuns
import Iputils.ProbeAccounting
import Iputils.ReceivedBytes
import Iputils.Md5
import Iputils.NodeInfo
import Iputils.LeftoverBytes
import Iputils.ClockdiffBytes
import Iputils.PinPath
import Iputils.SourceTags
import Iputils.Tracepath
import Iputils.TracepathBuffer
import Iputils.TracepathHops
import Iputils.TracepathSlots
import Iputils.TracerouteText
import Iputils.HopNames
import Iputils.HopTable
import Iputils.CompleteTable
import Iputils.AnchorAudit
import Iputils.Arping
import Iputils.ArpingRuns
import Iputils.TripStatistics
import Iputils.RoundTrip
import Iputils.ProbeNumbers
import Iputils.OptionItems
import Iputils.CheckedMemory
import Iputils.OptionReads
import Iputils.OptionDecoding
import Iputils.SameRoute
import Iputils.ArpingCounts
import Iputils.SampleStatistics
import Iputils.RollingStatistics
import Iputils.Centroid
import Iputils.ClockdiffDeltas
import Iputils.LineTimes
import Iputils.LineSamples
import Iputils.JsonBounds
import Iputils.Utf8Text
import Iputils.JsonReading
import Iputils.JsonBytes
import Iputils.JsonErrors
import Iputils.JsonStrings
import Iputils.NumeralText
import Iputils.JsonPlaces
import Iputils.GeoLookup
import Iputils.PrintedTimes
import Iputils.FinalWait
import Iputils.AdaptivePacing
import Iputils.IntegerText
import Iputils.RangeOptions
import Iputils.NonceTable
import Iputils.DomainName
import Iputils.SubjectName
import Iputils.AddressCache
import Iputils.FillPattern
import Iputils.NewtonDescent
import Iputils.SquareRoot
import Iputils.CksumAgreement
import Iputils.ColorFlags
import Iputils.BraceFraming
import Iputils.QuotedWords
import Iputils.BridgeFields
import Iputils.Base64
import Iputils.BridgeBytes
import Iputils.Binary64
import Iputils.LinkTranscript
import Iputils.EciesEnvelope
import Iputils.LinkClient
import Iputils.LinkRuns
import Iputils.MockBridge
import Iputils.LinkMessages
import Iputils.Handshake
import Iputils.PinFile
import Iputils.PinRaces
import Iputils.BlockStream
import Iputils.Md5Stream
import Iputils.NumberOptions
import Iputils.RouteReplies
import Iputils.ArpingDevice

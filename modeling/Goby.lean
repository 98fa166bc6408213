import Goby.StableLists
import Goby.Multimaps
import Goby.TransmissionMessages
import Goby.DcclCodecConfiguration
import Goby.QueueOperations
import Goby.QueueProperties
import Goby.QueueMoves
import Goby.QueueRefinement
import Goby.QueueExpiry
import Goby.ExceptionState
import Goby.QueueManagerRuns
import Goby.AcknowledgmentSoundness
import Goby.QueueSizeReports
import Goby.MessageFates
import Goby.EncryptionHistory
import Goby.FrameDelivery
import Goby.FrameIndependence
import Goby.RouteManager
import Goby.RoutedPushes
import Goby.MacPhase
import Goby.MacSlotPointer
import Goby.MacExclusion
import Goby.IridiumContainment
import Goby.DirectIpSegments
import Goby.DirectIpElements
import Goby.LineSplitting
import Goby.LineWriting
import Goby.BenthosDestinations
import Goby.BenthosLink
import Goby.BenthosPackets
import Goby.FileTransfer
import Goby.MoshRelay
import Goby.StoreServer
import Goby.BluefinAttempts
import Goby.MicroModemCommands
import Goby.MicroModemRetries
import Goby.MicroModemLink
import Goby.IpGatewayPorts
import Goby.IpGatewayAddresses
import Goby.NetChecksum
import Goby.FrameCapacity
import Goby.FullFrames
import Goby.SenderContest
import Goby.EncodeFailures
import Goby.MoosTranslator
import Goby.PublishEntries
import Goby.DynamicParse
import Goby.NmeaStrings
import Goby.Occurrences
import Goby.MoosStrings
import Goby.ZeroMQBlackout
import Goby.ByteStuffing
import Goby.WaveGliderReader
import Goby.WaveGliderFraming
import Goby.BluefinCommands
import Goby.BluefinRequests
import Goby.BluefinResponses
import Goby.MarkedText
import Goby.FormatMessages
import Goby.FormatTechnique
import Goby.FormatSpecifiers
import Goby.FormatWriting
import Goby.FormatReading
import Goby.FormatRoundTrip
import Goby.LatestEvents
import Goby.BridgeApplication
import Goby.BridgeMoves
import Goby.BridgeTimeUpdates
import Goby.BridgeExpiry
import Goby.BluefinHeartbeat
import Goby.BluefinPayloads

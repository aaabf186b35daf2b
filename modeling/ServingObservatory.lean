import ServingObservatory.BigEndian
import ServingObservatory.Decoding
import ServingObservatory.Crc
import ServingObservatory.Sorting
import ServingObservatory.TieBreaking
import ServingObservatory.Covering
import ServingObservatory.SplitReads
import ServingObservatory.WordSums
import ServingObservatory.WeightedChains
import ServingObservatory.Machine
import ServingObservatory.Interleaving
import ServingObservatory.OrderedMap
import ServingObservatory.Platform
import ServingObservatory.Identity
import ServingObservatory.Names
import ServingObservatory.Sha256
import ServingObservatory.Json
import ServingObservatory.JsonSize
import ServingObservatory.Observation
import ServingObservatory.BinaryCodec
import ServingObservatory.BinaryLanguage
import ServingObservatory.ObservationCodec
import ServingObservatory.ObservationWire
import ServingObservatory.ObservationRoundTrip
import ServingObservatory.ObservationCanonical
import ServingObservatory.ObservationSize
import ServingObservatory.Frame
import ServingObservatory.FrameDecoding
import ServingObservatory.FrameIntegrity
import ServingObservatory.FrameReading
import ServingObservatory.ClientLoop
import ServingObservatory.SourceAuthority
import ServingObservatory.RegistrySlots
import ServingObservatory.AuthorityHistory
import ServingObservatory.AuthorityProgress
import ServingObservatory.KeyIsolation
import ServingObservatory.Coordinator
import ServingObservatory.CoordinatorEvidence
import ServingObservatory.Payloads
import ServingObservatory.ClientDispatch
import ServingObservatory.SourceConnection
import ServingObservatory.AckMatching
import ServingObservatory.SequenceUniqueness
import ServingObservatory.RejectedEvidence
import ServingObservatory.EpochEnforcement
import ServingObservatory.ArrivalOrder
import ServingObservatory.Trace
import ServingObservatory.EvidenceTimes
import ServingObservatory.Latency
import ServingObservatory.LatencySweep
import ServingObservatory.ExclusiveLatency
import ServingObservatory.CriticalPath
import ServingObservatory.MovedPhases
import ServingObservatory.LatencyBounds
import ServingObservatory.RequestBounds
import ServingObservatory.ClockShift
import ServingObservatory.PhaseSlots
import ServingObservatory.Attribution
import ServingObservatory.ByteAvailability
import ServingObservatory.FirstToken
import ServingObservatory.Explanation
import ServingObservatory.Replay
import ServingObservatory.ReplayOrder
import ServingObservatory.EvidenceDigest
import ServingObservatory.ReplayReturns
import ServingObservatory.LiveIndex
import ServingObservatory.AggregateCounts
import ServingObservatory.AuthoritySpan
import ServingObservatory.MeasuredPhases
import ServingObservatory.EvidencedStatements
import ServingObservatory.Archive
import ServingObservatory.ArchiveFile
import ServingObservatory.AuthorityWire
import ServingObservatory.ArchiveWire
import ServingObservatory.ArchiveLoading
import ServingObservatory.Recovery
import ServingObservatory.ArchiveWriting
import ServingObservatory.ArchiveRoundTrip
import ServingObservatory.RecoveredReplay
import ServingObservatory.ArchiveRecovery
import ServingObservatory.ArchiveSchedule
import ServingObservatory.SignedDeltas
import ServingObservatory.Comparison
import ServingObservatory.Counterfactual
import ServingObservatory.NearestRank
import ServingObservatory.TailSelection
import ServingObservatory.Correlation
import ServingObservatory.SummaryAgreement
import ServingObservatory.BlockHashing
import ServingObservatory.ShaStreaming
import ServingObservatory.PayloadStrictness
import ServingObservatory.Fnv
import ServingObservatory.ObservationIds
import ServingObservatory.RestartBoot
import ServingObservatory.Numerals
import ServingObservatory.DigitText
import ServingObservatory.IdentityText
import ServingObservatory.ScriptFields
import ServingObservatory.JsonReading
import ServingObservatory.IdentityForms
import ServingObservatory.PointerReader
import ServingObservatory.ReaderFailures
import ServingObservatory.ReaderAgreement
import ServingObservatory.StreamWriters
import ServingObservatory.FramesOnWire
import ServingObservatory.CoordinatorServer
import ServingObservatory.ClientThreads
import ServingObservatory.ClientProgress
import ServingObservatory.ServedClients
import ServingObservatory.ServedOrder
import ServingObservatory.ServedArchive
import ServingObservatory.ScriptParsing
import ServingObservatory.ScriptIngest
import ServingObservatory.SourceSession
import ServingObservatory.StreamedScript
import ServingObservatory.PrettyJson

import PqcContiki.Protocol
import PqcContiki.Library.Memory
import PqcContiki.Library.Pool
import PqcContiki.Fragmentation
import PqcContiki.Reassembly
import PqcContiki.FragmentationRoundTrip
import PqcContiki.TxQueue
import PqcContiki.TxQueueSafety
import PqcContiki.Nack
import PqcContiki.Platform
import PqcContiki.Metrics
import PqcContiki.Session
import PqcContiki.Handshake
import PqcContiki.HandshakeHandlers
import PqcContiki.Sending
import PqcContiki.NackRecovery
import PqcContiki.Messages
import PqcContiki.TempChannel
import PqcContiki.Root
import PqcContiki.Node
import PqcContiki.SessionMachine
import PqcContiki.HandshakeEffects
import PqcContiki.HandshakeOutcome
import PqcContiki.RetryOutcome
import PqcContiki.RootActs
import PqcContiki.NodeActs
import PqcContiki.Library.Runs
import PqcContiki.StateMachineSafety
import PqcContiki.ReassemblyHoles
import PqcContiki.TxQueueOrder
import PqcContiki.TempLossTolerance
import PqcContiki.SlotOwners
import PqcContiki.SessionTable
import PqcContiki.AtomicSends
import PqcContiki.QueueSoundness
import PqcContiki.UnexpectedFragments
import PqcContiki.KeyRetry
import PqcContiki.SessionIsolation
import PqcContiki.SecretLifetimes
import PqcContiki.Patchwork
import PqcContiki.Traffic
import PqcContiki.World
import PqcContiki.RootAgreement
import PqcContiki.KeyFreshness
import PqcContiki.TxSelection
import PqcContiki.NackCodec
import PqcContiki.MetricsReports
import PqcContiki.Library.Decimal
import PqcContiki.Measurements
import PqcContiki.RetryTiming
import PqcContiki.SessionBooks
import PqcContiki.Library.Ring
import PqcContiki.RadioRing
import PqcContiki.RootTurns
import PqcContiki.HandshakeAccounting
import PqcContiki.ImpactWindows
import PqcContiki.SessionSummaries
import PqcContiki.ReassemblyInvariant
import PqcContiki.ImpactMeters
import PqcContiki.CtRetry
import PqcContiki.Acknowledgements
import PqcContiki.CiphertextMixing
import PqcContiki.KeyAgreement
import PqcContiki.Aes
import PqcContiki.Gf2x
import PqcContiki.HqcKem
import PqcContiki.Telemetry
import PqcContiki.AesCounterMode
import PqcContiki.HqcDecapsulation
import PqcContiki.HqcPlatform
import PqcContiki.RadioRingFifo

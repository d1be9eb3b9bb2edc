import Cosaci.Foundation.Word
import Cosaci.Core.Quorum
import Cosaci.Foundation.Machine
import Cosaci.State.Replay
import Cosaci.State.RateLimit
import Cosaci.State.Polling
import Cosaci.Core.Attestation
import Cosaci.State.SubmissionAuth
import Cosaci.Core.MerkleLog
import Cosaci.Core.FileStore
import Cosaci.Foundation.Text
import Cosaci.State.Journal
import Cosaci.Core.Capabilities
import Cosaci.Jobs.Execute
import Cosaci.State.StakeLedger
import Cosaci.Foundation.Round
import Cosaci.Protocol.Envelope
import Cosaci.Coordinator.Fleet
import Cosaci.Coordinator.Conclude
import Cosaci.Coordinator.Anchoring
import Cosaci.Agent.MainLoop
import Cosaci.Coordinator.RunOneJob
import Cosaci.Coordinator.Binding
import Cosaci.Coordinator.HonestCommittee
import Cosaci.Foundation.Shards
import Cosaci.State.Aggregator
import Cosaci.State.Sharding
import Cosaci.State.Lease
import Cosaci.State.ReplicatedCluster
import Cosaci.State.Admission
import Cosaci.Protocol.Frame
import Cosaci.Agent.Service
import Cosaci.Coordinator.Session
import Cosaci.Coordinator.Committee
import Cosaci.Coordinator.Tolerance
import Cosaci.Coordinator.Channels
import Cosaci.Coordinator.Synchronisation
import Cosaci.Coordinator.CrashPoints
import Cosaci.Coordinator.Restart
import Cosaci.Coordinator.Threshold
import Cosaci.Coordinator.Verdict
import Cosaci.Core.LogRefinement
import Cosaci.Coordinator.Retrieval
import Cosaci.Coordinator.Submission
import Cosaci.Coordinator.Consumption
import Cosaci.Foundation.Replication
import Cosaci.Core.Gossip
import Cosaci.Foundation.PrefixCode
import Cosaci.Jobs.Captures
import Cosaci.Jobs.CaptureBinding
import Cosaci.Foundation.Transport
import Cosaci.Protocol.Wire
import Cosaci.Foundation.CborSize
import Cosaci.Agent.SubmissionSize
import Cosaci.Coordinator.RateChange
import Cosaci.Foundation.JsonTree
import Cosaci.Coordinator.SubmissionLine
import Cosaci.Foundation.TextSearch
import Cosaci.Webhook.Translate
import Cosaci.Webhook.Listener
import Cosaci.Webhook.RoundTrip
import Cosaci.Coordinator.LineGate
import Cosaci.Webhook.Delivery
import Cosaci.Foundation.TextRecords
import Cosaci.Coordinator.RegistryFiles
import Cosaci.Foundation.Process
import Cosaci.Coordinator.AdminHandlers
import Cosaci.Coordinator.Revocation
import Cosaci.Core.QuorumLimits
import Cosaci.State.SlashAccounting
import Cosaci.State.ShardedStore
import Cosaci.Foundation.Ranking
import Cosaci.Foundation.MerkleTree
import Cosaci.Core.Peaks
import Cosaci.Core.Verifier
import Cosaci.Foundation.CborTree
import Cosaci.Foundation.CborValues
import Cosaci.Foundation.CborCodes
import Cosaci.Core.AttestationCodec
import Cosaci.State.SubmissionEncoding
import Cosaci.State.RateWindow
import Cosaci.State.ClockSteps
import Cosaci.Jobs.CaptureLength
import Cosaci.Jobs.Divergence
import Cosaci.Jobs.WasmRuntime
import Cosaci.Jobs.PipeReader
import Cosaci.Webhook.Template
import Cosaci.Foundation.Fallible
import Cosaci.Webhook.Placeholders
import Cosaci.Foundation.Address
import Cosaci.Jobs.Network
import Cosaci.Coordinator.TenantFile
import Cosaci.Foundation.LossyText
import Cosaci.Jobs.WorkingTree
import Cosaci.Jobs.TreeBinding
import Cosaci.Foundation.CborShapes
import Cosaci.Foundation.CborCuts
import Cosaci.Jobs.PipelineCodec
import Cosaci.Protocol.Messages
import Cosaci.Coordinator.CaptureStore
import Cosaci.Coordinator.ReadServer
import Cosaci.Coordinator.Auditor
import Cosaci.Foundation.LineFile
import Cosaci.Coordinator.EnrollmentFile
import Cosaci.Foundation.Silence
import Cosaci.Coordinator.AdminKeys
import Cosaci.Coordinator.AdminSession
import Cosaci.Foundation.Await
import Cosaci.Jobs.StepCgroup
import Cosaci.Jobs.NativeHost
import Cosaci.Jobs.SourceFetch
import Cosaci.Jobs.Agreement
import Cosaci.Foundation.Flow
import Cosaci.Coordinator.JobQueue

import XChainSync.Library.HashTree
import XChainSync.Library.Bytes
import XChainSync.Library.JsText
import XChainSync.Library.Json
import XChainSync.Library.Joined
import XChainSync.Library.Runs
import XChainSync.Library.KeyedRows
import XChainSync.Library.UndoJournal
import XChainSync.Library.WeightedQuorum
import XChainSync.Merkle.SparseMerkleTree
import XChainSync.Merkle.PersistentSMT
import XChainSync.Merkle.SmtProofs
import XChainSync.Merkle.ProofCompleteness
import XChainSync.Merkle.StakesMemo
import XChainSync.Client.Events
import XChainSync.Client.BlockQuorum
import XChainSync.Client.BlockSafety
import XChainSync.Client.Strikes
import XChainSync.Client.RollbackGuard
import XChainSync.Client.ReorgQuorum
import XChainSync.Client.Replica
import XChainSync.Client.State
import XChainSync.Client.Calls
import XChainSync.Client.Step
import XChainSync.Client.Frames
import XChainSync.Client.Cases
import XChainSync.Client.Notes
import XChainSync.Client.Commits
import XChainSync.Client.Contiguity
import XChainSync.Client.HaltSafety
import XChainSync.Client.StateHash
import XChainSync.Client.InFlight
import XChainSync.Client.RollbackDepth
import XChainSync.Client.RewindEvidence
import XChainSync.Client.StrictConfirm
import XChainSync.Client.VoteFrames
import XChainSync.Client.StrictReorg
import XChainSync.Client.Vouched
import XChainSync.Client.VerifiedTipSoundness
import XChainSync.Server.Source
import XChainSync.Server.Poller
import XChainSync.Server.PollerCases
import XChainSync.Server.StreamContinuity
import XChainSync.Server.ForkPoint
import XChainSync.Checkpoint.Verifier
import XChainSync.Checkpoint.FlagDays
import XChainSync.Checkpoint.Canonical
import XChainSync.Checkpoint.Serving
import XChainSync.Checkpoint.RotationFollow
import XChainSync.Checkpoint.RotationSoundness
import XChainSync.Checkpoint.Paging
import XChainSync.Checkpoint.Anchor
import XChainSync.Checkpoint.Freshness
import XChainSync.Rollback.Flips
import XChainSync.Rollback.Stakes
import XChainSync.Rollback.StakeRestores
import XChainSync.Rollback.Database
import XChainSync.Rollback.Restores
import XChainSync.Quorum.StakeWeighted
import XChainSync.Staking.Weights
import XChainSync.Staking.ScanOrder
import XChainSync.Staking.AsOf
import XChainSync.Delivery.Source
import XChainSync.Delivery.Payloads
import XChainSync.Delivery.Placement
import XChainSync.Delivery.Selection
import XChainSync.Delivery.Rewards
import XChainSync.Delivery.Convergence
import XChainSync.Train.Gate
import XChainSync.Train.Boundary
import XChainSync.Apply.SharedConnection
import XChainSync.Halts.Persistence
import XChainSync.Halts.Records
import XChainSync.Halts.Durability
import XChainSync.Lookups.Paging
import XChainSync.Lookups.Consistency
import XChainSync.Checkpoint.CountQuorum
import XChainSync.Library.LayerTree
import XChainSync.Library.Base64
import XChainSync.Library.Double
import XChainSync.Library.JsonText
import XChainSync.Transparency.MerkleTree
import XChainSync.Transparency.Log
import XChainSync.Merkle.FixedMerkle
import XChainSync.Merkle.BlockLeaves
import XChainSync.Wire.Codec
import XChainSync.Schema.ColumnDefinition
import XChainSync.Commitment.BalancesRuns
import XChainSync.Commitment.AmountValues
import XChainSync.Commitment.SmtKeys
import XChainSync.Completeness.ReplicaGaps
import XChainSync.Completeness.ContentDigest
import XChainSync.ArmedMap.Fingerprint
import XChainSync.Apply.TransactionSlot
import XChainSync.Halts.Markers
import XChainSync.Wire.InsertRows
import XChainSync.Lookups.Repair
import XChainSync.Apply.BalanceRebuild
import XChainSync.Mutations.Convergence
import XChainSync.Hub.Cache
import XChainSync.Broadcaster.Delivery
import XChainSync.Broadcaster.Heartbeats
import XChainSync.Database.CircuitBreaker
import XChainSync.Tokens.Reorgs
import XChainSync.Observability.LogShipper
import XChainSync.Rollback.Rederive
import XChainSync.Library.JsonPrefixes
import XChainSync.Library.CutStream
import XChainSync.Snapshots.View
import XChainSync.Snapshots.Streaming
import XChainSync.Snapshots.Texts
import XChainSync.Snapshots.Runs
import XChainSync.Snapshots.Transfers
import XChainSync.Snapshots.Windows

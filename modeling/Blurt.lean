import Blurt.ForkChain.ChainStateLaws
import Blurt.ForkChain.ForkDatabaseLaws
import Blurt.ForkChain.Finality
import Blurt.ForkChain.BlockLog
import Blurt.ForkChain.Reindex
import Blurt.ForkChain.Agreement
import Blurt.ForkChain.KnownBlocks
import Blurt.ForkChain.LongestChain
import Blurt.Foundation.Store
import Blurt.Protocol.Asset
import Blurt.Protocol.Authority
import Blurt.Protocol.Constants
import Blurt.Protocol.Operations
import Blurt.Ledger.Database
import Blurt.Ledger.Votes
import Blurt.Ledger.Vesting
import Blurt.Ledger.Reward
import Blurt.Ledger.TransferEvaluators
import Blurt.Ledger.CommentEvaluators
import Blurt.Ledger.AccountEvaluators
import Blurt.Ledger.GovernanceEvaluators
import Blurt.Ledger.Transaction
import Blurt.Ledger.ProposalRemoval
import Blurt.ForkChain.SlotAccounting
import Blurt.ForkChain.TransactionIndex
import Blurt.Chainbase.GenericIndex
import Blurt.Foundation.SnapshotStack
import Blurt.Chainbase.UndoLaws
import Blurt.Foundation.Threshold
import Blurt.Protocol.SignState
import Blurt.Protocol.SignStateLaws
import Blurt.ForkChain.PendingLaws
import Blurt.ForkChain.PendingState
import Blurt.Foundation.Table
import Blurt.Ledger.Books
import Blurt.Ledger.BooksLaws
import Blurt.Ledger.TransferBooks
import Blurt.Ledger.VestingBooks
import Blurt.Ledger.AccountBooks
import Blurt.Ledger.GovernanceBooks
import Blurt.Ledger.CommentBooks
import Blurt.Ledger.Consent
import Blurt.Ledger.Maintenance
import Blurt.Foundation.Links
import Blurt.Foundation.Run
import Blurt.Ledger.Entries
import Blurt.Ledger.EntryDrift
import Blurt.Ledger.ProxyLinks
import Blurt.Ledger.Lending
import Blurt.Ledger.EscrowRun
import Blurt.Ledger.EscrowPayout
import Blurt.Ledger.ResourceDynamics
import Blurt.Ledger.WitnessSchedule
import Blurt.Ledger.Hardforks
import Blurt.Ledger.Block
import Blurt.Ledger.Genesis
import Blurt.Ledger.Overview
import Blurt.Ledger.OverviewFrames
import Blurt.Ledger.OverviewOperations
import Blurt.Ledger.OverviewMaintenance
import Blurt.Ledger.BlockInvariants
import Blurt.Ledger.ScheduleLaws
import Blurt.Ledger.HardforkVotes
import Blurt.Ledger.WitnessProperties
import Blurt.Ledger.PublishedBounds
import Blurt.Ledger.ScheduleProgress
import Blurt.Ledger.FeeLaws
import Blurt.Ledger.EscrowAmounts
import Blurt.Foundation.Lineage
import Blurt.Ledger.CommentForest
import Blurt.Ledger.ForestLaws
import Blurt.Chainbase.UniqueKeys
import Blurt.ForkChain.LogFile
import Blurt.ForkChain.LogFileLaws
import Blurt.P2p.Synopsis
import Blurt.P2p.SynopsisLaws
import Blurt.Client.JsValue
import Blurt.Client.WireOperation
import Blurt.Client.BlurtJs
import Blurt.Client.BlurtJsScalars
import Blurt.Client.BlurtJsCollections
import Blurt.Client.BlurtJsLaws
import Blurt.Client.BlurtJsOperations
import Blurt.Client.BlurtJsLongs
import Blurt.Client.Dblurt
import Blurt.Client.DblurtLaws
import Blurt.Client.DblurtAssets
import Blurt.Client.DblurtOperations
import Blurt.Ledger.ProposalPay
import Blurt.Protocol.MoreKeys
import Blurt.Foundation.Rises
import Blurt.Ledger.RewardLaws
import Blurt.Ledger.VoteWeights
import Blurt.Ledger.CurationWeight
import Blurt.Ledger.Frame
import Blurt.Ledger.FrameOperations
import Blurt.Ledger.FrameMaintenance
import Blurt.Ledger.ScheduleOrder
import Blurt.Ledger.Polls
import Blurt.Ledger.PollsOperations
import Blurt.Ledger.PollsBlocks
import Blurt.Ledger.CuratorShares
import Blurt.Foundation.RefillBucket
import Blurt.Ledger.VoteMana
import Blurt.Ledger.VotingWindow
import Blurt.Protocol.AssetPrice
import Blurt.Protocol.AssetSymbolLaws
import Blurt.ForkChain.MerkleRoot
import Blurt.Foundation.Paging
import Blurt.Plugins.AccountHistory
import Blurt.Plugins.VirtualOperations
import Blurt.Foundation.Separated
import Blurt.Jussi.Json
import Blurt.Jussi.Urn
import Blurt.Foundation.Dictionary
import Blurt.Jussi.UrnLaws
import Blurt.Jussi.CacheGroup
import Blurt.Jussi.CacheGroupLaws
import Blurt.Jussi.Pool
import Blurt.Jussi.PoolLaws
import Blurt.Plugins.Tags
import Blurt.Plugins.TagsLaws
import Blurt.Plugins.Follow
import Blurt.Plugins.FollowFeeds
import Blurt.Plugins.FollowRuns
import Blurt.Foundation.FlatSet
import Blurt.Plugins.AccountByKey
import Blurt.Plugins.KeyLookupLaws
import Blurt.Foundation.Retention
import Blurt.Plugins.AccountRecords
import Blurt.Plugins.PruningLaws
import Blurt.Plugins.StorePruning
import Blurt.Plugins.PruningRuns
import Blurt.Foundation.Descending
import Blurt.Plugins.HistoryPages
import Blurt.Protocol.FixedString
import Blurt.Protocol.NameScan
import Blurt.ForkChain.BranchFetch
import Blurt.Foundation.ExpiringMap
import Blurt.Jussi.MemoryCache
import Blurt.Jussi.MemoryCacheLaws
import Blurt.Ledger.BlockRuns
import Blurt.Ledger.GenesisBooks
import Blurt.Ledger.ReachableBooks
import Blurt.Ledger.PayoutCredits
import Blurt.Ledger.ValidateInvariants
import Blurt.Ledger.RecoveryTrail
import Blurt.Ledger.RecoveryRuns
import Blurt.Plugins.LegacyAsset
import Blurt.Plugins.LegacyAssetLaws

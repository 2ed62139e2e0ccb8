import ProtocolExplorer.Lib.Transition
import ProtocolExplorer.Lib.Decimal
import ProtocolExplorer.Lib.OrderedBatch
import ProtocolExplorer.Lib.Process
import ProtocolExplorer.Lib.KeyedTable
import ProtocolExplorer.Store.RawEvent
import ProtocolExplorer.Store.Database
import ProtocolExplorer.Finality.Watcher
import ProtocolExplorer.Indexer.InsertEvents
import ProtocolExplorer.Indexer.Backfill
import ProtocolExplorer.Reorg.Watcher
import ProtocolExplorer.Finality.Lifecycle
import ProtocolExplorer.Reorg.Soundness
import ProtocolExplorer.Reorg.Recovery
import ProtocolExplorer.Valuator.Bulk
import ProtocolExplorer.Valuator.Cursor
import ProtocolExplorer.Valuator.CursorSafety
import ProtocolExplorer.Valuator.OutcomeAtomicity
import ProtocolExplorer.Valuator.LptPricing
import ProtocolExplorer.Valuator.VersionCoherence
import ProtocolExplorer.Valuator.MultiAsset
import ProtocolExplorer.Staker.Flow
import ProtocolExplorer.Staker.ReplayCompleteness
import ProtocolExplorer.Staker.FlowCheckpoint
import ProtocolExplorer.Lib.GroupedTotals
import ProtocolExplorer.Lib.DistinctCounts
import ProtocolExplorer.Rollups.Daily
import ProtocolExplorer.Rollups.Writers
import ProtocolExplorer.Rollups.Incremental
import ProtocolExplorer.Rollups.Completeness
import ProtocolExplorer.Rollups.CrashSafety
import ProtocolExplorer.Lib.AdaptiveChunks
import ProtocolExplorer.Lib.AnswerCache
import ProtocolExplorer.Lib.IndexedWrites
import ProtocolExplorer.Lib.Failures
import ProtocolExplorer.Rpc.Provider
import ProtocolExplorer.Rpc.CrossCheck
import ProtocolExplorer.Indexer.Decode
import ProtocolExplorer.Indexer.Chunk
import ProtocolExplorer.Indexer.Drive
import ProtocolExplorer.Indexer.Chunking
import ProtocolExplorer.Indexer.CriticalEvents
import ProtocolExplorer.Indexer.ReplayCache
import ProtocolExplorer.Staker.TxReceipts
import ProtocolExplorer.Staker.ReceiptCompleteness
import ProtocolExplorer.Api.TxFees
import ProtocolExplorer.Gateway.Statements
import ProtocolExplorer.Gateway.Programs
import ProtocolExplorer.Gateway.Directory
import ProtocolExplorer.Gateway.FlowValuation
import ProtocolExplorer.Gateway.Completeness
import ProtocolExplorer.Gateway.Snapshots
import ProtocolExplorer.Gateway.BalanceAtBlock
import ProtocolExplorer.Staker.Pending
import ProtocolExplorer.Staker.Current
import ProtocolExplorer.Staker.Iteration
import ProtocolExplorer.Staker.Registry
import ProtocolExplorer.Staker.StaleRows
import ProtocolExplorer.Staker.Profile
import ProtocolExplorer.Lib.KeysetPaging
import ProtocolExplorer.Lib.NumericColumns
import ProtocolExplorer.Lib.CountedOnce
import ProtocolExplorer.Lib.WindowAverages
import ProtocolExplorer.Indexer.Amounts
import ProtocolExplorer.Indexer.InOrder
import ProtocolExplorer.Valuator.EthPricing
import ProtocolExplorer.Valuator.Columns
import ProtocolExplorer.Valuator.Settlement
import ProtocolExplorer.Rollups.ServedColumns
import ProtocolExplorer.Lib.BatchWalk
import ProtocolExplorer.Rollups.RowCounts
import ProtocolExplorer.Rollups.BatchBoundary
import ProtocolExplorer.Lib.RoundedSums
import ProtocolExplorer.Rollups.Batchings
import ProtocolExplorer.Rollups.BatchIndependence
import ProtocolExplorer.Rollups.Conservation
import ProtocolExplorer.Rollups.Reclassification
import ProtocolExplorer.Rollups.RebuildAgreement
import ProtocolExplorer.Staker.RoundSnapshots
import ProtocolExplorer.Api.Governance
import ProtocolExplorer.Api.Delegations
import ProtocolExplorer.Api.Dashboard
import ProtocolExplorer.Api.NetEconomics
import ProtocolExplorer.Api.Rounds
import ProtocolExplorer.Api.TrailingAverage
import ProtocolExplorer.Api.Payouts
import ProtocolExplorer.Api.Reports
import ProtocolExplorer.Diagnostics.PricingBacklog
import ProtocolExplorer.Api.TranscoderParams
import ProtocolExplorer.Rollups.DistinctParties
import ProtocolExplorer.Indexer.ChunkRouting
import ProtocolExplorer.Staker.Replay
import ProtocolExplorer.Lib.Reconciliation
import ProtocolExplorer.Lib.RetryRounds
import ProtocolExplorer.Rpc.BatchReplies
import ProtocolExplorer.Rpc.BatchDemux
import ProtocolExplorer.Lib.DecimalText
import ProtocolExplorer.Lib.CursorWalk
import ProtocolExplorer.Api.EventPages
import ProtocolExplorer.Lib.FirstOccurrences
import ProtocolExplorer.Api.TopByUsd
import ProtocolExplorer.Lib.Numerals
import ProtocolExplorer.Api.RankedLists
import ProtocolExplorer.Lib.NumberedLogs
import ProtocolExplorer.Valuator.AttemptNumbers
import ProtocolExplorer.Lib.BitProducts
import ProtocolExplorer.Valuator.TickMath
import ProtocolExplorer.Valuator.MeanTick
import ProtocolExplorer.Valuator.ChainlinkGates
import ProtocolExplorer.Valuator.DeterminismGuard
import ProtocolExplorer.Valuator.SeedPass
import ProtocolExplorer.Valuator.SeedPrecedence
import ProtocolExplorer.Daemon.Supervisor
import ProtocolExplorer.Lib.JoinUpdates
import ProtocolExplorer.Staker.BulkPending
import ProtocolExplorer.Lib.InclusivePages
import ProtocolExplorer.Staker.ProfileProgress
import ProtocolExplorer.Staker.LayerStale
import ProtocolExplorer.Staker.ExactStake
import ProtocolExplorer.Staker.ProfileBatches
import ProtocolExplorer.Lib.PointerWalk
import ProtocolExplorer.Staker.ActivePool
import ProtocolExplorer.Lib.BulkStatements
import ProtocolExplorer.Writers.BulkInserts
import ProtocolExplorer.Lib.Utf8
import ProtocolExplorer.Enricher.PercentDecode
import ProtocolExplorer.Diagnostics.DockerLogs
import ProtocolExplorer.Seed.CrossCheck
import ProtocolExplorer.Lib.Calendar
import ProtocolExplorer.Api.SummaryWindows
import ProtocolExplorer.Lib.LatestRow
import ProtocolExplorer.Api.PointInTimeCuts
import ProtocolExplorer.Api.Aggregations
import ProtocolExplorer.Rpc.CallPreimage
import ProtocolExplorer.Lib.Overlooked
import ProtocolExplorer.Orchestrator.Replay
import ProtocolExplorer.Orchestrator.ReplayIndependence
import ProtocolExplorer.Orchestrator.IdlePasses
import ProtocolExplorer.Orchestrator.KeptCheckpoints
import ProtocolExplorer.Orchestrator.ReplayFixedPoint
import ProtocolExplorer.Lib.Semaphore
import ProtocolExplorer.Rpc.Permits
import ProtocolExplorer.Rpc.Routes
import ProtocolExplorer.Rpc.RouteRuns
import ProtocolExplorer.Rpc.RouteAnswers
import ProtocolExplorer.Rpc.RoutesAlone
import ProtocolExplorer.Lib.FairSweeps
import ProtocolExplorer.Enricher.Sweeps
import ProtocolExplorer.Enricher.Watcher
import ProtocolExplorer.Lib.Csv
import ProtocolExplorer.Api.ReportCsv
import ProtocolExplorer.Enricher.ConfirmedNames
import ProtocolExplorer.Enricher.Avatars

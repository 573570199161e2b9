import TairKvCache.WholeKeyDelete
import TairKvCache.Recovery.Safety
import TairKvCache.CapacityCheck
import TairKvCache.Rollback
import TairKvCache.WriteSessions
import TairKvCache.EventReport.MetadataWrites
import TairKvCache.EventReport.CleanupSafety
import TairKvCache.EventReport.Visibility
import TairKvCache.EventReport.SnapshotOutcome
import TairKvCache.GarbageCollector.Grounds
import TairKvCache.GarbageCollector.Pending
import TairKvCache.GarbageCollector.Rounds
import TairKvCache.Reclaimer.Conservation
import TairKvCache.Reclaimer.FairPlan
import TairKvCache.Reclaimer.FilterSafety
import TairKvCache.Reclaimer.LruBatch
import TairKvCache.PlanExecutor.Promises
import TairKvCache.FullScan
import TairKvCache.HostMatch.Mamba
import TairKvCache.HostMatch.Selection
import TairKvCache.LocalBackend.MergePaths
import TairKvCache.PyConnector.LoadReports
import TairKvCache.PyConnector.SaveSessions
import TairKvCache.PyConnector.ExternalMatch
import TairKvCache.PyConnector.BlockTables
import TairKvCache.LeaderElection.Agreement
import TairKvCache.LeaderElection.Stopping
import TairKvCache.LeaderElection.Leases
import TairKvCache.Registry.StorageErrors
import TairKvCache.Registry.Overlap
import TairKvCache.Registry.RedisHash
import TairKvCache.InstanceRemoval
import TairKvCache.ReportEventJson.NestingDepth
import TairKvCache.ReportEventJson.MutableBody
import TairKvCache.Optimizer.LiteHitExact
import TairKvCache.Hf3fsBackend
import TairKvCache.LocalFileSdk
import TairKvCache.UriRoundTrip
import TairKvCache.StorageSelection
import TairKvCache.WriteFilter
import TairKvCache.Optimizer.LruPolicy
import TairKvCache.HiCache.BatchGet
import TairKvCache.HiCache.PoolHits
import TairKvCache.IndexBatches
import TairKvCache.PyConnector.QueryRuns

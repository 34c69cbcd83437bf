import UniDb.Authz.Credentials
import UniDb.Authz.Ledger
import UniDb.Authz.ReadGrants
import UniDb.Catalog.FailedRequests
import UniDb.Catalog.Serials
import UniDb.Engine.DeleteAll
import UniDb.Engine.RowCount
import UniDb.Index.Multimap
import UniDb.Index.Partition
import UniDb.Index.Recovery
import UniDb.Latch.NoCycle
import UniDb.Lib.WorkSteal
import UniDb.Query.Aggregate
import UniDb.Query.Decimal
import UniDb.Query.SetOp
import UniDb.Queue.Completeness
import UniDb.Queue.Realtime
import UniDb.Recovery.Frames
import UniDb.Recovery.Frontier
import UniDb.Recovery.Restart
import UniDb.Replication.Slots
import UniDb.Side.CacheInvisible
import UniDb.Side.LargeObjects
import UniDb.Sql.ColumnNames
import UniDb.Sql.IndexScan
import UniDb.Sql.Like
import UniDb.Sql.PlanCache
import UniDb.Sql.PolicyDdl
import UniDb.Storage.Candidates
import UniDb.Storage.Rollback
import UniDb.Txn.CommitOutcome
import UniDb.Txn.Durability
import UniDb.Txn.Abort
import UniDb.Txn.Locks
import UniDb.Txn.RowWriters
import UniDb.Txn.Snapshots
import UniDb.Query.ParallelScan

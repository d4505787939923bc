import HyperbyteDb.AuthorizationCoverage
import HyperbyteDb.CatchUpSync
import HyperbyteDb.ColumnNames
import HyperbyteDb.HintConservation
import HyperbyteDb.MutationReplication
import HyperbyteDb.PlacementConvergence
import HyperbyteDb.PointDeletion
import HyperbyteDb.PointTimes
import HyperbyteDb.QueryTimeBounds
import HyperbyteDb.RefusedBatches
import HyperbyteDb.RegionHandoff
import HyperbyteDb.ReplicaConvergence
import HyperbyteDb.ReplicateBatchApplication
import HyperbyteDb.SelectorExactness
import HyperbyteDb.ShardMapReplay
import HyperbyteDb.ShardMapStoreRuns
import HyperbyteDb.ShardWriteFencing
import HyperbyteDb.StoredFieldValues
import HyperbyteDb.SyncQuorum
import HyperbyteDb.TagCardinality
import HyperbyteDb.TransferUnderFlush
import HyperbyteDb.TruncateAcknowledgements
import HyperbyteDb.WalSequences

import HyperbyteDb.MachineWords

/-!
# Errors of the write path

The errors that the modelled part of the service returns, with the texts that
callers and peers see.
-/

namespace HyperbyteDb

inductive HyperbytedbError where
  | fieldTypeConflict (field measurement got expected : String)
  /-- Some points were written and `dropped` were not. -/
  | partialWrite (reason : String) (dropped : Nat)
  | lineProtocolParse (line reason : String)
  | wallClockTimestampUnavailable
  | writeToMaterializedDestination (measurement : String)
  | wal (message : String)
  | metadata (message : String)
  | cardinalityExceeded (measurement tagKey : String) (current limit : Nat)
  | requestPointLimitExceeded (count limit : Nat)
  | payloadTooLarge (message : String)
  | clusterUnavailable (message : String)
  | peerUnreachable (message : String)
  | syncFailed (message : String)
  | staleShardEpoch (regionId : UInt64)
  | shardMap (message : String)
  | replicationQuorumTimeout (acksReceived required timeoutMs : Nat)
  | queryParse (message : String)
  | forbidden (message : String)
  | internal (message : String)
deriving DecidableEq, Repr

namespace HyperbytedbError

def message : HyperbytedbError → String
  | fieldTypeConflict field measurement got expected =>
    s!"field type conflict: input field \"{field}\" on measurement \"{measurement}\" " ++
      s!"is type {got}, already exists as type {expected}"
  | partialWrite reason dropped => s!"partial write: {reason} dropped={dropped}"
  | lineProtocolParse line reason => s!"unable to parse '{line}': {reason}"
  | wallClockTimestampUnavailable =>
    "wall clock not available for implicit timestamp on line protocol point"
  | writeToMaterializedDestination measurement =>
    s!"error parsing query: cannot write directly to materialized view destination " ++
      s!"\"{measurement}\""
  | wal message => s!"WAL error: {message}"
  | metadata message => s!"metadata error: {message}"
  | cardinalityExceeded measurement tagKey current limit =>
    s!"cardinality limit exceeded: measurement \"{measurement}\" tag \"{tagKey}\" " ++
      s!"has {current} values (limit: {limit})"
  | requestPointLimitExceeded count limit =>
    s!"request exceeds maximum point count: {count} points (limit: {limit})"
  | payloadTooLarge message => s!"request payload too large: {message}"
  | clusterUnavailable message => s!"cluster unavailable: {message}"
  | peerUnreachable message => s!"peer unreachable: {message}"
  | syncFailed message => s!"sync failed: {message}"
  | staleShardEpoch regionId => s!"stale shard epoch for region {regionId}"
  | shardMap message => s!"shard map error: {message}"
  | replicationQuorumTimeout acksReceived required timeoutMs =>
    s!"replication quorum timeout: {acksReceived}/{required} peer acks received within " ++
      s!"{timeoutMs}ms"
  | queryParse message => s!"error parsing query: {message}"
  | forbidden message => s!"forbidden: {message}"
  | internal message => s!"internal error: {message}"

end HyperbytedbError

end HyperbyteDb

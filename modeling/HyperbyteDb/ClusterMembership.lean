import HyperbyteDb.MachineWords

/-!
# Cluster membership

The node records that the data plane reads, and how Raft topology and received
snapshots are merged into them.
-/

namespace HyperbyteDb

inductive NodeState where
  | joining
  | syncing
  | active
  | disconnected
  | draining
  /-- Permanently leaving: regions are evacuated and the node is removed. -/
  | decommissioning
  | leaving
deriving DecidableEq, Repr, Inhabited

structure NodeInfo where
  nodeId : UInt64
  addr : String
  state : NodeState
  joinedAt : Int64
  lastHeartbeat : Int64
  needsSync : Bool := false
  consecutiveMisses : UInt32 := 0
deriving DecidableEq, Inhabited

structure ClusterMembership where
  version : UInt64 := 0
  nodes : Std.ExtTreeMap UInt64 NodeInfo := ∅

namespace ClusterMembership

variable (membership : ClusterMembership)

def addNode (info : NodeInfo) : ClusterMembership where
  version := membership.version + 1
  nodes := membership.nodes.insert info.nodeId info

def removeNode (nodeId : UInt64) : ClusterMembership where
  version := membership.version + 1
  nodes := membership.nodes.erase nodeId

/-- The membership afterwards, and whether the node is known. -/
def setState (nodeId : UInt64) (state : NodeState) : ClusterMembership × Bool :=
  match membership.nodes[nodeId]? with
  | some node =>
    ({ version := membership.version + 1
       nodes := membership.nodes.insert nodeId { node with state := state } }, true)
  | none => (membership, false)

/-- Every peer still owed this node's writes. -/
def replicationPeers (excludeId : UInt64) : List NodeInfo :=
  membership.nodes.toList.map Prod.snd |>.filter fun node =>
    node.nodeId != excludeId && node.state != .decommissioning && node.state != .leaving

def nodeStates (nodeId : UInt64) : Option NodeState :=
  membership.nodes[nodeId]?.map (·.state)

theorem nodeStates_setState (nodeId other : UInt64) (state : NodeState) :
    (membership.setState nodeId state).1.nodeStates other =
      if nodeId = other then (membership.nodeStates other).map fun _ => state
      else membership.nodeStates other := by
  unfold setState
  cases lookup : membership.nodes[nodeId]? with
  | some node =>
    by_cases same : nodeId = other
    · subst same
      simp [nodeStates, lookup]
    · simp [nodeStates, Std.ExtTreeMap.getElem?_insert, same]
  | none =>
    by_cases same : nodeId = other
    · subst same
      simp [nodeStates, lookup]
    · simp [same]

/-- One record of a received snapshot.  A node's own view keeps `active` and
`syncing`. -/
def mergeSnapshotNode (shared : ClusterMembership) (entry : UInt64 × NodeInfo) :
    ClusterMembership :=
  match shared.nodes[entry.1]? with
  | some existing =>
    let merged := { existing with
      addr := entry.2.addr
      state :=
        if existing.state == .active || existing.state == .syncing then existing.state
        else entry.2.state }
    { shared with nodes := shared.nodes.insert entry.1 merged }
  | none => shared.addNode entry.2

def mergeSnapshotMembership (shared incoming : ClusterMembership) : ClusterMembership :=
  incoming.nodes.toList.foldl mergeSnapshotNode shared

/-- A snapshot without node records changes nothing. -/
@[simp] theorem mergeSnapshotMembership_empty (shared : ClusterMembership)
    (version : UInt64) : shared.mergeSnapshotMembership ⟨version, ∅⟩ = shared := rfl

end ClusterMembership

/-- Raft's own membership: the voter sets of a joint configuration and the address
of every node. -/
structure RaftMembership where
  configs : List (List UInt64) := []
  nodes : Std.ExtTreeMap UInt64 String := ∅

namespace ClusterMembership

/-- One node of the Raft topology.  Known nodes keep their state; new ones start
from their role. -/
def syncRaftNode (voters : List UInt64) (now : Int64) (shared : ClusterMembership)
    (entry : UInt64 × String) : ClusterMembership :=
  match shared.nodes[entry.1]? with
  | some existing =>
    let synced := { existing with addr := entry.2, lastHeartbeat := now }
    { shared with nodes := shared.nodes.insert entry.1 synced }
  | none =>
    shared.addNode
      { nodeId := entry.1
        addr := entry.2
        state := if voters.contains entry.1 then .active else .syncing
        joinedAt := now
        lastHeartbeat := now }

def syncRaftMembership (shared : ClusterMembership) (membership : RaftMembership)
    (now : Int64) : ClusterMembership :=
  let synced := membership.nodes.toList.foldl (syncRaftNode membership.configs.flatten now) shared
  let stale := synced.nodes.keys.filter fun nodeId => !membership.nodes.contains nodeId
  stale.foldl removeNode synced

end ClusterMembership

end HyperbyteDb

import HyperbyteDb.ClusterMembership
import HyperbyteDb.ShardMapTransitions

/-!
# What a Raft snapshot carries

A node that falls behind receives a snapshot instead of log entries.  The snapshot holds no
node record, no metadata and no shard map, so the node is where it was before.
-/

namespace HyperbyteDb

open GuardedRuns Option ShardMap

def ShardMapApplyError.message : ShardMapApplyError → String
  | .spaceExists db rp measurement =>
    s!"measurement shard space already exists: {db}.{rp}.{measurement}"
  | .duplicateRegionId regionId => s!"duplicate region_id {regionId}"
  | .unknownSpace => "unknown measurement space"
  | .unknownRegion regionId => s!"unknown region_id {regionId}"
  | .unknownLeftRegion regionId => s!"unknown left region {regionId}"
  | .unknownRightRegion regionId => s!"unknown right region {regionId}"
  | .staleEpoch operation => s!"stale epoch on {operation}"
  | .invalid message => message

/-- A schema change.  `other` stands for the kinds that drop no shard space. -/
inductive MutationRequest (δ : Type) where
  | dropDatabase (name : String)
  | dropRetentionPolicy (db name : String)
  | dropMeasurement (database rp name : String)
  | other (mutation : δ)
deriving DecidableEq

/-- The shard map operation that must accompany a schema drop. -/
def dropSpaceFor {δ : Type} : MutationRequest δ → Option ShardMapOp
  | .dropDatabase name => some (.dropSpace name none none)
  | .dropRetentionPolicy db name => some (.dropSpace db (some name) none)
  | .dropMeasurement database rp name => some (.dropSpace database (some rp) (some name))
  | .other _ => none

inductive ClusterRequest (δ : Type) where
  | setNodeState (nodeId : UInt64) (state : NodeState)
  | schemaMutation (mutation : MutationRequest δ)
  | shardMapMutation (op : ShardMapOp)

structure ClusterResponse where
  ok : Bool
  message : Option String
deriving DecidableEq

namespace ClusterResponse

def success : ClusterResponse := ⟨true, none⟩

def error (message : String) : ClusterResponse := ⟨false, some message⟩

end ClusterResponse

structure LogId where
  term : UInt64
  nodeId : UInt64
  index : UInt64
deriving DecidableEq, Repr

structure StoredMembership where
  logId : Option LogId := none
  membership : RaftMembership := {}

structure StateMachineData where
  lastAppliedLog : Option LogId := none
  lastMembership : StoredMembership := {}
  clusterMembership : ClusterMembership := {}

inductive EntryPayload (δ : Type) where
  | blank
  | normal (request : ClusterRequest δ)
  | membership (membership : RaftMembership)

structure Entry (δ : Type) where
  logId : LogId
  payload : EntryPayload δ

/-- The state of one node.  `metadata` and `shardMap` are absent where the node has
no such port. -/
structure RaftStore (μ : Type) where
  sm : StateMachineData
  lastPurgedLogId : Option LogId
  sharedMembership : ClusterMembership
  metadata : Option μ
  shardMap : Option ShardMap

namespace RaftStore

variable {μ δ β : Type}

def fresh (membership : ClusterMembership) (metadata : Option μ) (sharded : Bool) :
    RaftStore μ where
  sm := {}
  lastPurgedLogId := none
  sharedMembership := membership
  metadata := metadata
  shardMap := if sharded then some ShardMap.default else none

def applyShardMapOp (store : RaftStore μ) (op : ShardMapOp) : RaftStore μ × ClusterResponse :=
  match store.shardMap with
  | none => (store, .error "shard map not available")
  | some map =>
    match HyperbyteDb.applyShardMapOp map op with
    | .ok after => ({ store with shardMap := some after }, .success)
    | .error error => (store, .error s!"shard map error: {error.message}")

variable (applySchema : μ → MutationRequest δ → μ × Option String)

/-- `applySchema` changes the metadata and returns an error text when it failed;
a failed change may have done part of its work. -/
def applyRequest (store : RaftStore μ) : ClusterRequest δ → RaftStore μ × ClusterResponse
  | .setNodeState nodeId state =>
    ({ store with sharedMembership := (store.sharedMembership.setState nodeId state).1 }, .success)
  | .schemaMutation mutation =>
    match store.metadata with
    | none => (store, .error "metadata port not available")
    | some metadata =>
      let (changed, failure) := applySchema metadata mutation
      let response := match failure with
        | none => ClusterResponse.success
        | some text => .error text
      let store := { store with metadata := some changed }
      match dropSpaceFor mutation with
      | some op =>
        if store.shardMap.isSome then ((store.applyShardMapOp op).1, response)
        else (store, response)
      | none => (store, response)
  | .shardMapMutation op => store.applyShardMapOp op

variable (now : UInt64 → Int64) (store : RaftStore μ)

def applyEntry (entry : Entry δ) : RaftStore μ :=
  let store := { store with sm := { store.sm with lastAppliedLog := some entry.logId } }
  match entry.payload with
  | .blank => store
  | .normal request => (store.applyRequest applySchema request).1
  | .membership membership =>
    { store with
      sm := { store.sm with lastMembership := ⟨some entry.logId, membership⟩ }
      sharedMembership :=
        store.sharedMembership.syncRaftMembership membership (now entry.logId.index) }

def applyToStateMachine (entries : List (Entry δ)) : RaftStore μ :=
  entries.foldl (applyEntry applySchema now) store

end RaftStore

structure StateMachineCodec (β : Type) where
  encode : StateMachineData → β
  decode : β → Option StateMachineData
  decode_encode : ∀ data, decode (encode data) = some data

structure Snapshot (β : Type) where
  lastLogId : Option LogId
  lastMembership : StoredMembership
  data : β

namespace RaftStore

variable {μ δ β : Type}

variable (codec : StateMachineCodec β) (store : RaftStore μ)

def serializeSnapshot : Snapshot β where
  lastLogId := store.sm.lastAppliedLog
  lastMembership := store.sm.lastMembership
  data := codec.encode store.sm

/-- Absent when the received bytes do not decode. -/
def installSnapshot (snapshot : Snapshot β) : Option (RaftStore μ) :=
  match codec.decode snapshot.data with
  | none => none
  | some sm =>
    some { store with
      sm := sm
      lastPurgedLogId := snapshot.lastLogId
      sharedMembership :=
        store.sharedMembership.mergeSnapshotMembership sm.clusterMembership }

end RaftStore

/-! ## What a Raft snapshot carries -/

variable {μ δ β : Type}

namespace RaftStore

structure SameStores (first second : RaftStore μ) : Prop where
  statesEq : first.sharedMembership.nodeStates = second.sharedMembership.nodeStates
  metadataEq : first.metadata = second.metadata
  shardMapEq : first.shardMap = second.shardMap

namespace SameStores

theorem refl (store : RaftStore μ) : SameStores store store := ⟨rfl, rfl, rfl⟩

theorem symm {first second : RaftStore μ} (same : SameStores first second) :
    SameStores second first :=
  ⟨same.statesEq.symm, same.metadataEq.symm, same.shardMapEq.symm⟩

theorem trans {first second third : RaftStore μ} (left : SameStores first second)
    (right : SameStores second third) : SameStores first third :=
  ⟨left.statesEq.trans right.statesEq, left.metadataEq.trans right.metadataEq,
    left.shardMapEq.trans right.shardMapEq⟩

end SameStores

/-- Applying requests leaves the serialised membership as it was. -/
theorem applyRequest_sm (applySchema : μ → MutationRequest δ → μ × Option String)
    (store : RaftStore μ) (request : ClusterRequest δ) :
    (store.applyRequest applySchema request).1.sm = store.sm := by
  have mapOp : ∀ (store : RaftStore μ) op, (store.applyShardMapOp op).1.sm = store.sm := by
    intro store op
    unfold applyShardMapOp
    split
    · rfl
    · split <;> rfl
  unfold applyRequest
  split
  · rfl
  · split
    · rfl
    · dsimp only
      split
      · split
        · exact mapOp _ _
        · rfl
      · rfl
  · exact mapOp _ _

end RaftStore

/-- What the operation of an empty map's log must look like to be refused: it is
neither a drop nor a bootstrap of a proper space. -/
def ShardMapOp.RefusedWhenEmpty (op : ShardMapOp) : Prop :=
  (∀ db rp measurement, op ≠ .dropSpace db rp measurement) ∧
    ∀ key regions, op.bootstrapRegions = some (key, regions) →
      ¬((regions.map (·.regionId)).Nodup ∧ CoversSeries (sortByStart regions))

theorem ShardMapOp.refusedWhenEmpty_iff (op : ShardMapOp) :
    op.RefusedWhenEmpty ↔ ∃ error, applyShardMapOp ShardMap.default op = .error error := by
  constructor
  · rintro ⟨notDrop, notProper⟩
    cases result : applyShardMapOp ShardMap.default op with
    | error error => exact ⟨error, rfl⟩
    | ok after =>
      cases applyShardMapOp_eq_ok_iff.mp result with
      | bootstrap isBootstrap absent distinct unused covers =>
        exact absurd ⟨distinct, covers⟩ (notProper _ _ isBootstrap)
      | split allocatable spaceEq => simp [ShardMap.default] at spaceEq
      | merge spaceEq => simp [ShardMap.default] at spaceEq
      | edit isEdit spaceEq => simp [ShardMap.default] at spaceEq
      | drop => exact absurd rfl (notDrop _ _ _)
  · rintro ⟨error, refused⟩
    have never : ∀ after, ¬Applied ShardMap.default op after := by
      intro after applied
      rw [applyShardMapOp_eq_ok_iff.mpr applied] at refused
      simp at refused
    refine ⟨?_, ?_⟩
    · rintro db rp measurement rfl
      exact never _ .drop
    · rintro key regions isBootstrap ⟨distinct, covers⟩
      refine never _ (.bootstrap isBootstrap rfl distinct (fun region _ => ?_) covers)
      simp [ShardMap.hasRegionId, ShardMap.default]

variable {op : ShardMapOp}

/-- An accepted operation raises the version of a new map. -/
theorem Applied.ne_default {after : ShardMap}
    (applied : Applied ShardMap.default op after) : after ≠ ShardMap.default := by
  intro same
  have raised : after.mapVersion = 1 := by
    rcases applied.replaced_or_dropped with ⟨_, _, _, _, rfl⟩ | ⟨_, _, _, _, rfl⟩ <;> rfl
  rw [same] at raised
  exact absurd raised (by decide)

section Requests

variable (applySchema : μ → MutationRequest δ → μ × Option String)
  (membership : ClusterMembership) (metadata : Option μ) (sharded : Bool)

/-- The request has no effect on a node that has applied nothing yet. -/
def ClusterRequest.Inert : ClusterRequest δ → Prop
  | .setNodeState nodeId state =>
    ∀ known, membership.nodeStates nodeId = some known → known = state
  | .schemaMutation mutation =>
    ∀ data, metadata = some data → (applySchema data mutation).1 = data ∧
      (sharded = true → dropSpaceFor mutation = none)
  | .shardMapMutation op => sharded = true → op.RefusedWhenEmpty

def committedRequest (request : LogId × ClusterRequest δ) : Entry δ :=
  ⟨request.1, .normal request.2⟩

theorem ClusterMembership.nodeStates_setState_eq_iff (nodeId : UInt64) (state : NodeState) :
    (membership.setState nodeId state).1.nodeStates = membership.nodeStates ↔
      ∀ known, membership.nodeStates nodeId = some known → known = state := by
  constructor
  · intro same known lookup
    have there := congrFun same nodeId
    rw [nodeStates_setState, if_pos rfl, lookup] at there
    exact (some.inj there).symm
  · intro unchanged
    funext other
    rw [nodeStates_setState]
    split
    · rename_i same
      subst same
      cases lookup : membership.nodeStates nodeId with
      | none => rfl
      | some known => simp [unchanged known lookup]
    · rfl

theorem shardMap_unchanged_iff (store : RaftStore μ)
    (isNew : store.shardMap = if sharded then some default else none) (op : ShardMapOp) :
    (store.applyShardMapOp op).1.shardMap = store.shardMap ↔
      (sharded = true → op.RefusedWhenEmpty) := by
  unfold RaftStore.applyShardMapOp
  cases sharded with
  | false => simp [isNew]
  | true =>
    rw [ShardMapOp.refusedWhenEmpty_iff]
    simp only [isNew, if_true]
    cases result : applyShardMapOp ShardMap.default op with
    | ok after =>
      have changed := (applyShardMapOp_eq_ok_iff.mp result).ne_default
      simp [changed]
    | error error => simp [isNew]

/-- Applying shard map operations touches only the shard map. -/
theorem RaftStore.applyShardMapOp_frame (store : RaftStore μ) (op : ShardMapOp) :
    (store.applyShardMapOp op).1.sharedMembership = store.sharedMembership ∧
      (store.applyShardMapOp op).1.metadata = store.metadata := by
  unfold applyShardMapOp
  split
  · exact ⟨rfl, rfl⟩
  · split <;> exact ⟨rfl, rfl⟩

theorem refusedWhenEmpty_dropSpaceFor {mutation : MutationRequest δ}
    (drops : dropSpaceFor mutation = some op) : ¬op.RefusedWhenEmpty := by
  rintro ⟨notDrop, -⟩
  cases mutation <;> simp only [dropSpaceFor, some.injEq, reduceCtorEq] at drops
  all_goals exact notDrop _ _ _ drops.symm

theorem RaftStore.applyRequest_schemaMutation (store : RaftStore μ) (mutation : MutationRequest δ) :
    (store.applyRequest applySchema (.schemaMutation mutation)).1 = match store.metadata with
      | none => store
      | some data =>
        let changed := { store with metadata := some (applySchema data mutation).1 }
        match dropSpaceFor mutation with
        | none => changed
        | some op => (changed.applyShardMapOp op).1 := by
  cases metadataEq : store.metadata with
  | none => simp [applyRequest, metadataEq]
  | some data =>
    cases drops : dropSpaceFor mutation with
    | none => simp [applyRequest, metadataEq, drops]
    | some op =>
      cases mapEq : store.shardMap <;>
        simp [applyRequest, metadataEq, drops, mapEq, applyShardMapOp]

variable {store : RaftStore μ}

open RaftStore in
theorem sameStores_applyRequest_iff
    (same : SameStores (fresh membership metadata sharded) store) (request : ClusterRequest δ) :
    SameStores (fresh membership metadata sharded) (store.applyRequest applySchema request).1 ↔
      request.Inert applySchema membership metadata sharded := by
  have statesEq : store.sharedMembership.nodeStates = membership.nodeStates :=
    same.statesEq.symm
  have metadataEq : store.metadata = metadata := same.metadataEq.symm
  have mapEq : store.shardMap = if sharded then some default else none :=
    same.shardMapEq.symm
  cases request with
  | setNodeState nodeId state =>
    rw [ClusterRequest.Inert, ← statesEq, ← ClusterMembership.nodeStates_setState_eq_iff]
    constructor
    · exact fun after => after.statesEq.symm.trans statesEq.symm
    · exact fun kept => ⟨(kept.trans statesEq).symm, same.metadataEq, same.shardMapEq⟩
  | shardMapMutation op =>
    rw [ClusterRequest.Inert, ← shardMap_unchanged_iff sharded store mapEq op]
    have frame := store.applyShardMapOp_frame op
    constructor
    · exact fun after => after.shardMapEq.symm.trans same.shardMapEq
    · intro kept
      refine ⟨?_, same.metadataEq.trans frame.2.symm, same.shardMapEq.trans kept.symm⟩
      change _ = (store.applyShardMapOp op).1.sharedMembership.nodeStates
      rw [frame.1]
      exact same.statesEq
  | schemaMutation mutation =>
    rw [applyRequest_schemaMutation, metadataEq, ClusterRequest.Inert]
    cases metadata with
    | none => simpa using same
    | some data =>
      have onlyMetadata : SameStores (fresh membership (some data) sharded)
          { store with metadata := some (applySchema data mutation).1 } ↔
          (applySchema data mutation).1 = data := by
        constructor
        · exact fun after => (some.inj after.metadataEq).symm
        · intro kept
          exact ⟨same.statesEq, congrArg some kept.symm, same.shardMapEq⟩
      cases drops : dropSpaceFor mutation with
      | none => simpa using onlyMetadata
      | some op =>
        have refused := refusedWhenEmpty_dropSpaceFor drops
        have unchanged := shardMap_unchanged_iff sharded
          { store with metadata := some (applySchema data mutation).1 } mapEq op
        cases sharded with
        | false =>
          simpa [RaftStore.applyShardMapOp, mapEq] using onlyMetadata
        | true =>
          simp only [some.injEq, forall_eq', reduceCtorEq, imp_false,
            not_true_eq_false, and_false, iff_false]
          intro after
          exact refused (unchanged.mp (after.shardMapEq.symm.trans same.shardMapEq) rfl)

namespace RaftStore

/-- No entry changes the node records that a snapshot serialises. -/
theorem applyToStateMachine_clusterMembership (now : UInt64 → Int64)
    (store : RaftStore μ) (entries : List (Entry δ)) :
    (store.applyToStateMachine applySchema now entries).sm.clusterMembership =
      store.sm.clusterMembership := by
  induction entries generalizing store with
  | nil => rfl
  | cons entry entries ih =>
    refine (ih _).trans ?_
    obtain ⟨logId, payload⟩ := entry
    cases payload with
    | blank => rfl
    | membership => rfl
    | normal request =>
      change (applyRequest applySchema _ request).1.sm.clusterMembership = _
      rw [applyRequest_sm]

/-- Installing a snapshot without node records leaves the three stores alone. -/
theorem installSnapshot_sameStores (codec : StateMachineCodec β)
    (store source : RaftStore μ) (noRecords : source.sm.clusterMembership = {}) :
    ∃ restored, store.installSnapshot codec (source.serializeSnapshot codec) =
        some restored ∧ SameStores store restored := by
  refine ⟨{ store with
    sm := source.sm
    lastPurgedLogId := source.sm.lastAppliedLog
    sharedMembership := store.sharedMembership }, ?_, rfl, rfl, rfl⟩
  simp [installSnapshot, serializeSnapshot, codec.decode_encode, noRecords]

/-- The states a new node goes through while committed requests are applied. -/
theorem applyToStateMachine_committed (now : UInt64 → Int64) (store : RaftStore μ)
    (requests : List (LogId × ClusterRequest δ)) :
    store.applyToStateMachine applySchema now (requests.map committedRequest) =
      run (fun store request =>
        store.applyEntry applySchema now (committedRequest request)) store requests :=
  List.foldl_map

theorem sameStores_applyEntry_iff
    (same : SameStores (fresh membership metadata sharded) store) (now : UInt64 → Int64)
    (request : LogId × ClusterRequest δ) :
    SameStores (fresh membership metadata sharded)
        (store.applyEntry applySchema now (committedRequest request)) ↔
      request.2.Inert applySchema membership metadata sharded := by
  refine sameStores_applyRequest_iff applySchema membership metadata sharded ?_ request.2
  exact ⟨same.statesEq, same.metadataEq, same.shardMapEq⟩

end RaftStore

open RaftStore in
/-- At every cut of every prefix of the log, a new node that installs the snapshot
another node took there and applies the rest ends like a node that applied the
whole prefix, exactly when no request of the log has any effect. -/
theorem snapshot_equivalent_iff_inert (codec : StateMachineCodec β)
    (now builderNow : UInt64 → Int64) (builder : ClusterMembership)
    (requests : List (LogId × ClusterRequest δ)) :
    (∀ earlier, earlier <+: requests → ∀ k ≤ earlier.length, ∃ restored,
      (fresh membership metadata sharded).installSnapshot codec
          (((fresh builder metadata sharded).applyToStateMachine applySchema builderNow
            ((earlier.take k).map committedRequest)).serializeSnapshot codec) =
        some restored ∧
      SameStores (restored.applyToStateMachine applySchema now
          ((earlier.drop k).map committedRequest))
        ((fresh membership metadata sharded).applyToStateMachine applySchema now
          (earlier.map committedRequest))) ↔
    ∀ request ∈ requests, request.2.Inert applySchema membership metadata sharded := by
  have restores : ∀ taken : List (LogId × ClusterRequest δ), ∃ restored,
      (fresh membership metadata sharded).installSnapshot codec
          (((fresh builder metadata sharded).applyToStateMachine applySchema builderNow
            (taken.map committedRequest)).serializeSnapshot codec) = some restored ∧
        SameStores (fresh membership metadata sharded) restored := fun taken =>
    installSnapshot_sameStores codec _ _
      (applyToStateMachine_clusterMembership applySchema builderNow _ _)
  have decides := fun (store : RaftStore μ) (request : LogId × ClusterRequest δ)
      (same : SameStores (fresh membership metadata sharded) store) =>
    sameStores_applyEntry_iff applySchema membership metadata sharded same now request
  simp only [applyToStateMachine_committed] at restores ⊢
  constructor
  · intro equivalent
    refine along_const_iff.mp ((forall_prefix_iff_along decides (SameStores.refl _) requests).mp ?_)
    intro earlier isPrefix
    obtain ⟨restored, installed, agrees⟩ :=
      equivalent earlier isPrefix earlier.length le_rfl
    obtain ⟨same, sameInstalled, unchanged⟩ := restores (earlier.take earlier.length)
    obtain rfl := some.inj (installed.symm.trans sameInstalled)
    rw [List.drop_length] at agrees
    exact unchanged.trans agrees
  · intro inert earlier isPrefix k _
    obtain ⟨restored, installed, unchanged⟩ := restores (earlier.take k)
    refine ⟨restored, installed, ?_⟩
    have stays : ∀ {store : RaftStore μ} {ops : List (LogId × ClusterRequest δ)},
        SameStores (fresh membership metadata sharded) store → ops ⊆ requests →
        SameStores (fresh membership metadata sharded)
          (run (fun store request =>
            store.applyEntry applySchema now (committedRequest request)) store ops) := by
      intro store ops same within
      exact run_invariant
        (fun store request same inert => (decides store request same).mpr inert) same
        (along_const_iff.mpr fun request member =>
          inert request (within member))
    have dropped : earlier.drop k ⊆ requests := fun _ member =>
      isPrefix.subset (List.mem_of_mem_drop member)
    exact (stays unchanged dropped).symm.trans (stays (SameStores.refl _) isPrefix.subset)

end Requests

/-- Metadata as a list of database names, for the concrete runs below. -/
def createDatabase (databases : List String) : MutationRequest String → List String × Option String
  | .other name => (name :: databases, none)
  | _ => (databases, none)

/-- A node drained, a database created and a measurement bootstrapped: a node that
installs the snapshot taken afterwards has seen none of it. -/
theorem snapshot_loses_all_three_stores :
    let node : NodeInfo := ⟨2, "10.0.0.2:8086", .active, 0, 0, false, 0⟩
    let start : RaftStore (List String) :=
      .fresh (ClusterMembership.addNode {} node) (some []) true
    let requests : List (ClusterRequest String) :=
      [.setNodeState 2 .draining, .schemaMutation (.other "db"),
        .shardMapMutation (.bootstrapMeasurement ⟨"db", "autogen", "cpu"⟩
          { regionId := 1, start := 0, end_ := UInt64.maxValue, epoch := ⟨0, 0⟩
            peers := [1], primary := 1 })]
    let applied := start.applyToStateMachine createDatabase (fun _ => 0)
      (requests.map fun request => committedRequest (⟨1, 1, 1⟩, request))
    let codec : StateMachineCodec StateMachineData := ⟨id, some, fun _ => rfl⟩
    (applied.sharedMembership.nodeStates 2, applied.metadata,
        applied.shardMap.map regionIds) =
      (some .draining, some ["db"], some [1]) ∧
    (start.installSnapshot codec (applied.serializeSnapshot codec)).map
        (fun restored => (restored.sharedMembership.nodeStates 2, restored.metadata,
          restored.shardMap.map regionIds)) =
      some (some .active, some [], some []) := by
  decide +kernel

end HyperbyteDb

import HyperbyteDb.ShardWriteRouting

/-!
# One result for every forwarded region

Whatever a call of the forwarding path meets, it returns one result for each region that it was
given, as long as receivers answer each part under its own region.
-/

namespace HyperbyteDb

open KeyedBatches List ShardWriteService Std

section

def isSuccess (status : Nat) : Bool :=
  200 ≤ status && status ≤ 299

/-- Settings of the forwarding path, and the reader of the `error` member of a JSON
text. -/
structure ForwardSettings where
  errorField : String → Option String
  scatterMaxPeerAttempts : Nat
  asyncForward : Bool
  asyncForwardMaxLagMs : Nat
  asyncForwardMaxBytes : Nat

def parseCount (text : List Char) : Option Nat :=
  let digits := if text.head? = some '+' then text.tail else text
  if digits ≠ [] ∧ digits.all Char.isDigit then
    let count := digits.foldl (fun count digit => 10 * count + (digit.toNat - 48)) 0
    if count < 2 ^ 64 then some count else none
  else none

def rsplitOnce (separator : List Char) : List Char → Option (List Char × List Char)
  | [] => none
  | letter :: rest =>
    match rsplitOnce separator rest with
    | some (before, after) => some (letter :: before, after)
    | none =>
      if separator.isPrefixOf (letter :: rest) then
        some ([], (letter :: rest).drop separator.length)
      else none

variable (settings : ForwardSettings)

/-- A primary's refusal of a part of `points` points.  A partial write keeps its reason
and its count; any other refusal dropped the whole part. -/
def ForwardSettings.refused (message : String) (points : Nat) : HyperbytedbError :=
  let message := (settings.errorField message).getD message.trimAscii.toString
  let opening := "partial write: ".toList
  let partialParts : Option (String × Nat) :=
    if opening.isPrefixOf message.toList then do
      let (reason, count) ← rsplitOnce " dropped=".toList (message.toList.drop opening.length)
      let dropped ← parseCount count
      return (String.ofList reason, dropped)
    else none
  match partialParts with
  | some (reason, dropped) => .partialWrite reason dropped
  | none => .partialWrite message points

structure ShardWritePartResult where
  regionId : UInt64
  status : Nat
  error : Option String
deriving DecidableEq

/-- What the batch endpoint of a node answers, or why it does not. -/
inductive PostAnswer where
  | failed (cause : String)
  | response (status : Nat) (results : Except String (List ShardWritePartResult))

inductive NodeSendOutcome where
  | results (results : List ShardWritePartResult)
  /-- The node has no batch endpoint. -/
  | unsupported
  | capacity
  | failed (cause : String)

def postBatch : PostAnswer → NodeSendOutcome
  | .failed cause => .failed cause
  | .response status results =>
    if status = 404 ∨ status = 405 then .unsupported
    else if status = 503 ∨ status = 429 then .capacity
    else if isSuccess status then
      match results with
      | .ok results => .results results
      | .error cause => .failed s!"{status}: {cause}"
    else .failed s!"{status}"

/-- The answer to a request that may also carry parts of other writes. -/
structure NodeAnswer where
  ahead : List ShardWriteRequest := []
  behind : List ShardWriteRequest := []
  answer : PostAnswer

def sendOutcome (addr : String) (parts : List ShardWriteRequest) (shared : NodeAnswer) :
    NodeSendOutcome :=
  match postBatch shared.answer with
  | .results results =>
    let total := shared.ahead.length + parts.length + shared.behind.length
    let answered := results.length
    if answered = total then
      .results ((results.drop shared.ahead.length).take parts.length)
    else .failed s!"forward batch to {addr}: {answered} results for {total} parts"
  | other => other

inductive PartOutcome where
  | done (result : Except HyperbytedbError Unit)
  /-- Stale epoch or not the primary any more. -/
  | retry

def partOutcome (node : UInt64) (part : ShardWritePartResult) : PartOutcome :=
  let regionId := part.regionId
  let status := part.status
  let reason := part.error.getD ""
  if isSuccess status then .done (.ok ())
  else if status = 409 then .retry
  else if status = 429 ∨ status = 503 then
    .done (.error (.clusterUnavailable
      s!"region {regionId} primary {node} is at write capacity"))
  else if status = 400 ∨ status = 422 then .done (.error (.partialWrite reason 0))
  else
    .done (.error (.peerUnreachable
      s!"forward write for region {regionId} to node {node} failed: {status} {reason}"))

structure Exchange where
  node : UInt64
  request : ShardWriteRequest
  status : Nat

abbrev RegionResults := List (UInt64 × Except HyperbytedbError Unit)

structure SendSettlement where
  results : RegionResults := []
  single : List UInt64 := []
  exchanges : List Exchange := []

variable (forward : Std.ExtTreeMap UInt64 (List Point)) (node : UInt64)

/-- The result of an answered part, if it is not to be sent again. -/
def partResult (part : ShardWritePartResult) : Option (UInt64 × Except HyperbytedbError Unit) :=
  match partOutcome node part with
  | .done (.error (.partialWrite reason _)) =>
    let points := (forward[part.regionId]?.map List.length).getD 0
    some (part.regionId, .error (settings.refused reason points))
  | .done result => some (part.regionId, result)
  | .retry => none

def settleSend (parts : List ShardWriteRequest) : NodeSendOutcome → SendSettlement
  | .unsupported => { single := parts.map (·.regionId) }
  | .capacity =>
    { results := parts.map fun part =>
        (part.regionId, .error (.clusterUnavailable s!"node {node} is at write capacity")) }
  | .failed cause =>
    { results := parts.map fun part =>
        (part.regionId, .error (.peerUnreachable
          s!"forward batch to node {node} failed: {cause}")) }
  | .results results =>
    { results := results.filterMap (partResult settings forward node)
      single := results.filterMap fun part =>
        match partOutcome node part with
        | .done _ => none
        | .retry => some part.regionId
      exchanges := (parts.zip results).map fun (request, result) =>
        ⟨node, request, result.status⟩ }

/-- What the single-region endpoint of a node answers, or why it does not. -/
inductive SingleAnswer where
  | failed (cause : String)
  | response (status : Nat) (body : String)

def singleReply (regionId peer : UInt64) (points : Nat) :
    SingleAnswer → Except HyperbytedbError Unit
  | .failed cause => .error (.peerUnreachable cause)
  | .response status body =>
    if status = 409 then .error (.staleShardEpoch regionId)
    else if status = 503 ∨ status = 429 then
      .error (.clusterUnavailable s!"region {regionId} primary {peer} is at write capacity")
    else if status = 400 ∨ status = 422 then .error (settings.refused body points)
    else if isSuccess status then .ok ()
    else .error (.peerUnreachable s!"forward write to peer {peer} failed: {status}")

/-- Try the peers in turn until one succeeds; a stale epoch ends the search.  Returns
also the peers that were tried. -/
def scatterToRegionPeers (regionId : UInt64)
    (attemptOne : UInt64 → Except HyperbytedbError Unit) (last : HyperbytedbError) :
    List UInt64 → Except HyperbytedbError Unit × List UInt64
  | [] => (.error last, [])
  | peer :: rest =>
    match attemptOne peer with
    | .ok () => (.ok (), [peer])
    | .error (.staleShardEpoch _) => (.error (.staleShardEpoch regionId), [peer])
    | .error cause =>
      let (result, tried) := scatterToRegionPeers regionId attemptOne cause rest
      (result, peer :: tried)

/-- What one attempt of the single-region path meets. -/
structure SingleAttempt where
  snapshot : Except HyperbytedbError ShardMap
  cache : ShardLocationCache
  membership : ClusterMembership
  answer : UInt64 → SingleAnswer

/-- The two attempts, and the snapshot that the region is reloaded from in between. -/
structure SingleCall where
  first : SingleAttempt
  reload : Except HyperbytedbError ShardMap
  second : SingleAttempt

structure ForwardCall where
  snapshot : Except HyperbytedbError ShardMap
  membership : ClusterMembership
  answer : UInt64 → List ShardWriteRequest → NodeAnswer
  single : UInt64 → SingleCall

structure WriteCoordinator where
  service : ShardWriteService
  settings : ForwardSettings
  nodeId : UInt64

namespace WriteCoordinator

variable (coordinator : WriteCoordinator) (db rp : String) (precision : Option String)

def noActivePeers (region : ShardRegion) : HyperbytedbError :=
  let regionId := region.regionId
  let serving := region.isServing
  let peers := region.peers
  let primary := region.primary
  .peerUnreachable (s!"no active peers for region {regionId} " ++
    s!"(serving={serving}, peers={peers}, primary={primary}, role=Write)")

def tryForwardShardWriteToRegion (attempt : SingleAttempt) :
    List Point → Except HyperbytedbError Unit × List Exchange
  | [] => (.ok (), [])
  | first :: rest =>
    match attempt.snapshot with
    | .error cause => (.error cause, [])
    | .ok map =>
      match (coordinator.service.singleRequest map attempt.cache db rp precision first rest).1 with
      | .error cause => (.error cause, [])
      | .ok (region, request) =>
        let targets := scatterTargets region coordinator.nodeId attempt.membership .write
          coordinator.settings.scatterMaxPeerAttempts
        let (result, tried) := scatterToRegionPeers region.regionId
          (fun peer => singleReply coordinator.settings region.regionId peer
            (first :: rest).length (attempt.answer peer)) (noActivePeers region) targets
        (result, tried.filterMap fun peer =>
          match attempt.answer peer with
          | .failed _ => none
          | .response status _ => some ⟨peer, request, status⟩)

def forwardShardWriteToRegion (call : SingleCall) (points : List Point) :
    Except HyperbytedbError Unit × List Exchange :=
  match coordinator.tryForwardShardWriteToRegion db rp precision call.first points with
  | (.error (.staleShardEpoch regionId), earlier) =>
    match points.head?, call.reload with
    | none, _ => (.error (.shardMap "empty forward batch"), earlier)
    | some _, .error cause => (.error cause, earlier)
    | some first, .ok map =>
      match (map.space ⟨db, rp, first.measurement⟩).bind fun space =>
          space.regions.find? (·.regionId == regionId) with
      | none => (.error (.shardMap "region missing after refresh"), earlier)
      | some _ =>
        match coordinator.tryForwardShardWriteToRegion db rp precision call.second points with
        | (.error (.staleShardEpoch _), later) =>
          (.error (.staleShardEpoch regionId), earlier ++ later)
        | (result, later) => (result, earlier ++ later)
  | other => other

def forwardShardWritesByNode (call : ForwardCall)
    (forward : Std.ExtTreeMap UInt64 (List Point)) : RegionResults × List Exchange :=
  let plan := coordinator.service.planForwards coordinator.nodeId call.snapshot
    call.membership db rp precision forward
  let settled := plan.sends.map fun (node, parts) =>
    settleSend coordinator.settings forward node parts
      (sendOutcome ((call.membership.peerAddr node).getD "") parts (call.answer node parts))
  let single := plan.single ++ settled.flatMap (·.single)
  let rest := single.filterMap fun regionId => forward[regionId]?.map fun points =>
    (regionId, coordinator.forwardShardWriteToRegion db rp precision (call.single regionId) points)
  (plan.failed.map (fun failure => (failure.1, .error failure.2)) ++
      settled.flatMap (·.results) ++ rest.map (fun entry => (entry.1, entry.2.1)),
    settled.flatMap (·.exchanges) ++ rest.flatMap (·.2.2))

end WriteCoordinator

end

/-! ## One result for every forwarded region -/

variable {regionIds : List UInt64}

section Plans

variable {service : ShardWriteService} {selfId : UInt64}
  {snapshot : Except HyperbytedbError ShardMap} {membership : ClusterMembership}
  {db rp : String} {precision : Option String}
  {forward : ExtTreeMap UInt64 (List Point)}

theorem findRegions_perm (snapshot : Except HyperbytedbError ShardMap) (regionIds : List UInt64) :
    ((findRegions snapshot regionIds).2 ++
      (findRegions snapshot regionIds).1.map (·.regionId)).Perm regionIds := by
  cases snapshot with
  | error cause => simp [findRegions]
  | ok map =>
    have sorted := sorted_perm regionIds
      (Option.guard fun regionId => (regionById map regionId).isNone)
      (fun regionId => (regionById map regionId).map (·.regionId)) id ?_
    · rw [filterMap_eq_filter, ← map_filterMap, map_id] at sorted
      exact sorted
    · intro regionId _
      cases found : regionById map regionId with
      | none => simp [found]
      | some region => simp [found, (stores_of_regionById found).2]

theorem groupForwardsByPrimary_perm (regions : List ShardRegion) (selfId : UInt64)
    (membership : ClusterMembership) : ((groupForwardsByPrimary regions selfId membership).2 ++
      (groupForwardsByPrimary regions selfId membership).1.toList.flatMap Prod.snd).Perm
      (regions.map (·.regionId)) := by
  have sorted := sorted_perm regions
    (fun region => (Option.guard (fun region => (forwardNode region selfId membership).isNone)
      region).map (·.regionId))
    (fun region => (forwardNode region selfId membership).map fun _ => region.regionId)
    (·.regionId) ?_
  · refine .trans (.append ?_ ?_) sorted
    · rw [← map_filterMap, filterMap_eq_filter]
      exact .refl _
    · refine (values_collect_perm _ _ _).trans ?_
      rw [map_filterMap]
      simp [Function.comp_def]
  · intro region _
    cases found : forwardNode region selfId membership <;> simp [found]

/-- A bucket becomes a part of its own region, or fails under its region. -/
theorem forwardPart_perm {regions : List ShardRegion}
    (held : ∀ regionId ∈ regionIds, regionId ∈ forward) :
    let parts := regionIds.filterMap (service.forwardPart db rp precision regions forward)
    ((parts.filterMap fun part =>
        match part with
        | .ok _ => none
        | .error failure => some failure).map Prod.fst ++
      (parts.filterMap Except.toOption).map (·.regionId)).Perm regionIds := by
  have sorted := sorted_perm regionIds
    (fun regionId => ((service.forwardPart db rp precision regions forward regionId).bind
      fun part => match part with
        | .ok _ => none
        | .error failure => some failure).map Prod.fst)
    (fun regionId => ((service.forwardPart db rp precision regions forward regionId).bind
      Except.toOption).map (·.regionId)) id ?_
  · simp only [map_filterMap, filterMap_filterMap, map_id] at sorted ⊢
    exact sorted
  · intro regionId member
    obtain ⟨points, lookup⟩ := Option.isSome_iff_exists.mp
      (ExtTreeMap.mem_iff_isSome_getElem?.mp (held regionId member))
    unfold forwardPart
    rw [lookup, Option.map_some]
    cases service.encodeForwarded precision points <;> simp [Except.toOption]

theorem planForwards_perm (service : ShardWriteService) (selfId : UInt64)
    (snapshot : Except HyperbytedbError ShardMap) (membership : ClusterMembership)
    (db rp : String) (precision : Option String) (forward : ExtTreeMap UInt64 (List Point)) :
    let plan := service.planForwards selfId snapshot membership db rp precision forward
    (plan.single ++ (plan.failed.map Prod.fst ++
      plan.sends.flatMap fun send => send.2.map (·.regionId))).Perm forward.keys := by
  have found := findRegions_perm snapshot forward.keys
  unfold planForwards
  generalize findRegions snapshot forward.keys = split at found ⊢
  obtain ⟨regions, missing⟩ := split
  dsimp only at found ⊢
  have grouped := groupForwardsByPrimary_perm regions selfId membership
  generalize groupForwardsByPrimary regions selfId membership = groups at grouped ⊢
  obtain ⟨byNode, unrouted⟩ := groups
  have addressed := (filter_append_perm
    (fun group => (membership.peerAddr group.1).isNone) byNode.toList).flatMap_right Prod.snd
  simp only [flatMap_append, Option.not_isNone] at addressed
  have held : ∀ group ∈ byNode.toList, ∀ regionId ∈ group.2, regionId ∈ forward := by
    intro group member regionId inside
    have inGroups : regionId ∈ byNode.toList.flatMap Prod.snd :=
      mem_flatMap.mpr ⟨group, member, inside⟩
    have inRegions := grouped.subset (mem_append_right unrouted inGroups)
    exact ExtTreeMap.mem_keys.mp (found.subset (mem_append_right missing inRegions))
  rw [map_flatMap, flatMap_map]
  refine .trans (.append_left _ ((flatMap_append_perm _ _ _).trans
    (List.Perm.flatMap_left _ fun group member =>
      forwardPart_perm (held group (mem_of_mem_filter member))))) ?_
  rw [append_assoc, append_assoc]
  exact .trans (.append_left missing ((addressed.append_left unrouted).trans grouped)) found

end Plans

variable {regionId : UInt64}

section Settlements

variable {settings : ForwardSettings} {forward : ExtTreeMap UInt64 (List Point)}

variable {parts : List ShardWriteRequest}

def NodeAnswer.ByRegion (shared : NodeAnswer) (parts : List ShardWriteRequest) : Prop :=
  ∀ status results, shared.answer = .response status (.ok results) →
    ∀ (index : Nat) (result : ShardWritePartResult) (request : ShardWriteRequest),
      results[index]? = some result →
      (shared.ahead ++ parts ++ shared.behind)[index]? = some request →
      result.regionId = request.regionId

theorem response_of_postBatch {answer : PostAnswer} {results : List ShardWritePartResult}
    (posted : postBatch answer = .results results) :
    ∃ status, answer = .response status (.ok results) := by
  revert posted
  fun_cases postBatch <;> rintro ⟨⟩
  exact ⟨_, rfl⟩

theorem sendOutcome_regionIds {addr : String} {shared : NodeAnswer}
    (byRegion : shared.ByRegion parts) {answered : List ShardWritePartResult}
    (outcome : sendOutcome addr parts shared = .results answered) :
    answered.map (·.regionId) = parts.map (·.regionId) := by
  unfold sendOutcome at outcome
  split at outcome
  next results posted =>
    obtain ⟨status, response⟩ := response_of_postBatch posted
    dsimp only at outcome
    split at outcome
    next length =>
      cases outcome
      apply ext_getElem
      · simp only [length_map, length_take, length_drop]
        omega
      · intro index inAnswers inParts
        simp only [length_map] at inParts
        simp only [getElem_map, getElem_take, getElem_drop]
        refine byRegion status results response (shared.ahead.length + index) _ _
          (getElem?_eq_getElem (by omega)) ?_
        rw [append_assoc, getElem?_append_right (by omega), Nat.add_sub_cancel_left,
          getElem?_append_left inParts]
        exact getElem?_eq_getElem inParts
    next => cases outcome
  next notResults => exact absurd outcome (notResults answered)

variable {node : UInt64}

theorem settleSend_perm {outcome : NodeSendOutcome}
    (sameIds : ∀ answered, outcome = .results answered →
      answered.map (·.regionId) = parts.map (·.regionId)) :
    ((settleSend settings forward node parts outcome).results.map Prod.fst ++
      (settleSend settings forward node parts outcome).single).Perm (parts.map (·.regionId)) := by
  cases outcome with
  | unsupported => simp [settleSend]
  | capacity => simp [settleSend, Function.comp_def]
  | failed cause => simp [settleSend, Function.comp_def]
  | results answered =>
    rw [← sameIds answered rfl, settleSend, map_filterMap]
    refine sorted_perm _ _ _ _ ?_
    intro part _
    unfold partResult
    cases partOutcome node part with
    | retry => simp
    | done result =>
      cases result with
      | ok => simp
      | error cause => cases cause <;> simp

theorem success_of_partResult_ok {part : ShardWritePartResult}
    (result : partResult settings forward node part = some (regionId, .ok ())) :
    isSuccess part.status = true ∧ part.regionId = regionId := by
  revert result
  fun_cases partResult <;> rintro ⟨⟩
  next decided =>
    revert decided
    fun_cases partOutcome <;> rintro ⟨⟩
    next success => exact ⟨success, rfl⟩

theorem exchange_of_settleSend_ok {outcome : NodeSendOutcome}
    (sameIds : ∀ answered, outcome = .results answered →
      answered.map (·.regionId) = parts.map (·.regionId))
    (settled : (regionId, .ok ()) ∈ (settleSend settings forward node parts outcome).results) :
    ∃ exchange ∈ (settleSend settings forward node parts outcome).exchanges,
      isSuccess exchange.status = true ∧ exchange.request ∈ parts ∧
        exchange.request.regionId = regionId := by
  cases outcome with
  | unsupported => cases settled
  | capacity =>
    obtain ⟨part, -, same⟩ := mem_map.mp settled
    cases same
  | failed cause =>
    obtain ⟨part, -, same⟩ := mem_map.mp settled
    cases same
  | results answered =>
    obtain ⟨part, member, result⟩ := mem_filterMap.mp settled
    obtain ⟨success, rfl⟩ := success_of_partResult_ok result
    obtain ⟨index, inAnswers, rfl⟩ := getElem_of_mem member
    have lengths := congrArg List.length (sameIds answered rfl)
    simp only [length_map] at lengths
    have inParts : index < parts.length := lengths ▸ inAnswers
    have inZip : index < (parts.zip answered).length := by
      rw [length_zip]
      omega
    have zipped : (parts.zip answered)[index] = (parts[index], answered[index]) :=
      getElem_zip
    refine ⟨⟨node, parts[index], answered[index].status⟩,
      mem_map.mpr ⟨_, getElem_mem inZip, by rw [zipped]⟩, success,
      getElem_mem inParts, ?_⟩
    have sameId := congrArg (·[index]?) (sameIds answered rfl)
    simp only [getElem?_map, getElem?_eq_getElem inAnswers,
      getElem?_eq_getElem inParts, Option.map_some, Option.some.injEq] at sameId
    exact sameId.symm

end Settlements

theorem map_fst_filterMap_lookup {α : Type} {forward : ExtTreeMap UInt64 (List Point)}
    (held : ∀ regionId ∈ regionIds, regionId ∈ forward)
    (make : UInt64 → List Point → α) :
    (regionIds.filterMap fun regionId => forward[regionId]?.map fun points =>
      (regionId, make regionId points)).map Prod.fst = regionIds := by
  induction regionIds with
  | nil => rfl
  | cons regionId regionIds ih =>
    obtain ⟨points, lookup⟩ := Option.isSome_iff_exists.mp
      (ExtTreeMap.mem_iff_isSome_getElem?.mp (held regionId mem_cons_self))
    rw [filterMap_cons, lookup, Option.map_some, map_cons,
      ih fun other member => held other (mem_cons_of_mem regionId member)]

def Exchange.Carries (exchange : Exchange) (service : ShardWriteService) (point : Point) : Prop :=
  ∃ points, point ∈ points ∧
    (service.encodeForwarded exchange.request.precision points = .ok exchange.request.body ∨
      service.wire.encodeLines exchange.request.precision points = .ok exchange.request.body)

/-- A node answered a request that holds the point with success. -/
def Acknowledged (service : ShardWriteService) (exchanges : List Exchange) (point : Point) : Prop :=
  ∃ exchange ∈ exchanges, isSuccess exchange.status = true ∧ exchange.Carries service point

theorem Acknowledged.mono {service : ShardWriteService} {exchanges more : List Exchange}
    {point : Point} (acknowledged : Acknowledged service exchanges point)
    (included : exchanges ⊆ more) : Acknowledged service more point := by
  obtain ⟨exchange, member, rest⟩ := acknowledged
  exact ⟨exchange, included member, rest⟩

theorem exists_of_scatter_ok
    {attemptOne : UInt64 → Except HyperbytedbError Unit} {last : HyperbytedbError}
    {peers : List UInt64}
    (succeeded : (scatterToRegionPeers regionId attemptOne last peers).1 = .ok ()) :
    ∃ peer ∈ (scatterToRegionPeers regionId attemptOne last peers).2, attemptOne peer = .ok () := by
  fun_induction scatterToRegionPeers regionId attemptOne last peers with
  | case1 => cases succeeded
  | case2 _ peer _ attempted => exact ⟨peer, mem_singleton_self peer, attempted⟩
  | case3 => cases succeeded
  | case4 _ peer _ _ _ _ _ _ called ih =>
    rw [called] at ih
    obtain ⟨found, member, attempted⟩ := ih succeeded
    exact ⟨found, mem_cons_of_mem peer member, attempted⟩

theorem response_of_singleReply_ok {settings : ForwardSettings} {peer : UInt64}
    {points : Nat} {answer : SingleAnswer}
    (replied : singleReply settings regionId peer points answer = .ok ()) :
    ∃ status body, answer = .response status body ∧ isSuccess status = true := by
  revert replied
  fun_cases singleReply with
  | case5 status body _ _ _ success => exact fun _ => ⟨status, body, rfl, success⟩
  | _ => rintro ⟨⟩

def ForwardCall.AnswersByRegion (call : ForwardCall) : Prop :=
  ∀ node parts, (call.answer node parts).ByRegion parts

namespace WriteCoordinator

variable {coordinator : WriteCoordinator} {db rp : String} {precision : Option String}

variable {points : List Point}

/-- The batch path returns exactly one result for every region. -/
theorem forwardShardWritesByNode_perm {call : ForwardCall}
    (byRegion : call.AnswersByRegion) (forward : ExtTreeMap UInt64 (List Point)) :
    ((coordinator.forwardShardWritesByNode db rp precision call forward).1.map
      Prod.fst).Perm forward.keys := by
  have planned := planForwards_perm coordinator.service coordinator.nodeId call.snapshot
    call.membership db rp precision forward
  unfold forwardShardWritesByNode
  dsimp only at planned ⊢
  generalize coordinator.service.planForwards coordinator.nodeId call.snapshot
    call.membership db rp precision forward = plan at planned ⊢
  have settled : ((plan.sends.map fun (node, parts) => settleSend coordinator.settings forward
        node parts (sendOutcome ((call.membership.peerAddr node).getD "") parts
          (call.answer node parts))).flatMap
        fun settlement => settlement.results.map Prod.fst ++ settlement.single).Perm
      (plan.sends.flatMap fun send => send.2.map (·.regionId)) := by
    rw [flatMap_map]
    refine List.Perm.flatMap_left _ fun send _ => settleSend_perm fun answered outcome => ?_
    exact sendOutcome_regionIds (byRegion send.1 send.2) outcome
  generalize (plan.sends.map fun (node, parts) => settleSend coordinator.settings forward
    node parts (sendOutcome ((call.membership.peerAddr node).getD "") parts
      (call.answer node parts))) = settlements at settled ⊢
  have parts := (flatMap_append_perm settlements
    (fun settlement => settlement.results.map Prod.fst) (·.single)).trans settled
  have whole := ((parts.append_left (plan.failed.map Prod.fst)).append_left
    plan.single).trans planned
  rw [← append_assoc (plan.failed.map Prod.fst)] at whole
  have reordered := (perm_append_comm_assoc (plan.failed.map Prod.fst ++
    settlements.flatMap fun settlement => settlement.results.map Prod.fst) plan.single
    (settlements.flatMap (·.single))).trans whole
  have held : ∀ regionId ∈ plan.single ++ settlements.flatMap (·.single),
      regionId ∈ forward := fun regionId member =>
    ExtTreeMap.mem_keys.mp (reordered.subset (mem_append_right _ member))
  have rest := map_fst_filterMap_lookup held fun regionId points =>
    coordinator.forwardShardWriteToRegion db rp precision (call.single regionId) points
  rw [map_append, map_append, map_map, map_map, map_flatMap]
  rw [show (Prod.fst ∘ fun entry : UInt64 × Except HyperbytedbError Unit × List Exchange =>
    (entry.1, entry.2.1)) = Prod.fst from rfl, rest]
  exact reordered

theorem tryForward_acknowledged {attempt : SingleAttempt}
    (succeeded : (coordinator.tryForwardShardWriteToRegion db rp precision attempt points).1 =
      .ok ()) :
    ∀ point ∈ points, Acknowledged coordinator.service
      (coordinator.tryForwardShardWriteToRegion db rp precision attempt points).2 point := by
  intro point member
  revert succeeded
  fun_cases tryForwardShardWriteToRegion with
  | case1 => cases member
  | case4 first rest map read region request made targets result tried called =>
    intro succeeded
    obtain ⟨-, -, -, precisionEq, encoded⟩ := singleRequest_eq_ok made
    obtain ⟨peer, inTried, replied⟩ := exists_of_scatter_ok
      ((congrArg Prod.fst called).trans succeeded)
    obtain ⟨status, body, answer, success⟩ := response_of_singleReply_ok replied
    rw [called] at inTried
    refine ⟨⟨peer, request, status⟩, mem_filterMap.mpr ⟨peer, inTried, ?_⟩, success,
      first :: rest, member, Or.inr ?_⟩
    · rw [answer]
    · rw [precisionEq]
      exact encoded
  | _ => rintro ⟨⟩

theorem forwardShardWriteToRegion_acknowledged {call : SingleCall}
    (succeeded : (coordinator.forwardShardWriteToRegion db rp precision call points).1 = .ok ()) :
    ∀ point ∈ points, Acknowledged coordinator.service
      (coordinator.forwardShardWriteToRegion db rp precision call points).2 point := by
  intro point member
  revert succeeded
  fun_cases forwardShardWriteToRegion with
  | case5 _ _ _ _ _ _ _ _ _ result later _ retried =>
    intro succeeded
    have acknowledged := tryForward_acknowledged
      ((congrArg Prod.fst retried).trans succeeded) point member
    rw [retried] at acknowledged
    exact acknowledged.mono (subset_append_right _ _)
  | case6 => exact fun succeeded => tryForward_acknowledged succeeded point member
  | _ => rintro ⟨⟩

/-- A region whose result is success had all its points answered so. -/
theorem forwardShardWritesByNode_acknowledged {call : ForwardCall} (byRegion : call.AnswersByRegion)
    {forward : ExtTreeMap UInt64 (List Point)} (succeeded : (regionId, .ok ()) ∈
      (coordinator.forwardShardWritesByNode db rp precision call forward).1)
    (bucket : forward[regionId]? = some points) :
    ∀ point ∈ points, Acknowledged coordinator.service
      (coordinator.forwardShardWritesByNode db rp precision call forward).2 point := by
  intro point member
  unfold forwardShardWritesByNode at succeeded ⊢
  rw [mem_append, mem_append] at succeeded
  rcases succeeded with (failed | settled) | single
  · obtain ⟨failure, -, same⟩ := mem_map.mp failed
    cases same
  · obtain ⟨settlement, sent, inResults⟩ := mem_flatMap.mp settled
    obtain ⟨send, planned, rfl⟩ := mem_map.mp sent
    obtain ⟨exchange, exchanged, success, part, sameId⟩ := exchange_of_settleSend_ok
      (fun _ outcome => sendOutcome_regionIds (byRegion send.1 send.2) outcome) inResults
    cases read : call.snapshot with
    | error cause =>
      rw [read] at planned
      cases planned
    | ok map =>
      rw [read] at planned
      obtain ⟨others, region, lookup, encoded, precisionEq, -⟩ :=
        mem_sends planned part
      rw [sameId] at lookup
      obtain rfl := Option.some.inj (bucket.symm.trans lookup)
      rw [read] at sent
      exact ⟨exchange, mem_append_left _ (mem_flatMap.mpr ⟨_, sent, exchanged⟩),
        success, points, member, Or.inl (precisionEq ▸ encoded)⟩
  · obtain ⟨entry, listed, same⟩ := mem_map.mp single
    obtain ⟨other, -, found⟩ := mem_filterMap.mp listed
    obtain ⟨others, lookup, rfl⟩ := Option.map_eq_some_iff.mp found
    obtain ⟨rfl, succeeded⟩ := Prod.mk.inj same
    obtain rfl := Option.some.inj (bucket.symm.trans lookup)
    refine (forwardShardWriteToRegion_acknowledged succeeded point member).mono ?_
    intro exchange inside
    exact mem_append_right _ (mem_flatMap.mpr ⟨_, listed, inside⟩)

end WriteCoordinator

end HyperbyteDb

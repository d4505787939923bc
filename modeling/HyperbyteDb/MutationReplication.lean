import HyperbyteDb.RaftSnapshots
import HyperbyteDb.ShardWriteRouting

/-!
# Delivery of schema mutations

An origin numbers its mutations and sends each of them to its peers, again and again until it
is answered.  A receiver keeps one number for each origin, the greatest it has taken.
-/

namespace HyperbyteDb

open GuardedRuns List Std.ExtTreeMap

structure MutationReplicateRequest (δ : Type) where
  seq : Nat
  originNodeId : UInt64
  mutation : MutationRequest δ
deriving DecidableEq

inductive MutationResponse where
  | ok (ackSeq : Nat)
  | error (status : Nat) (message : String)
deriving DecidableEq

def validateOriginNodeId (membership : Option ClusterMembership) (originNodeId : UInt64) : Bool :=
  originNodeId == 0 || membership.any fun members => (members.getNode originNodeId).isSome

/-- Whether the mutation is to be applied, and the numbers afterwards.  The number is
stored before it is kept; an entry is made for the origin in any case. -/
def checkAndRecordMutation (appliedMutationSeqs : Std.ExtTreeMap UInt64 Nat)
    (originNodeId : UInt64) (seq : Nat) (stored : Bool) :
    Except String Bool × Std.ExtTreeMap UInt64 Nat :=
  if appliedMutationSeqs.getD originNodeId 0 < seq then
    if stored then (.ok true, appliedMutationSeqs.insert originNodeId seq)
    else (.error "check_and_record_mutation", appliedMutationSeqs.insertIfNew originNodeId 0)
  else (.ok false, appliedMutationSeqs.insertIfNew originNodeId 0)

structure MutationWorld (δ : Type) where
  /-- The last number that each origin has given out. -/
  mutationSeq : Std.ExtTreeMap UInt64 Nat := ∅
  appended : List (MutationReplicateRequest δ) := []
  /-- What the receiver keeps, in memory and in its store. -/
  appliedMutationSeqs : Std.ExtTreeMap UInt64 Nat := ∅
  /-- Requests whose mutation is being applied. -/
  running : List (MutationReplicateRequest δ) := []
  /-- The mutations applied with success, in this order. -/
  applied : List (MutationReplicateRequest δ) := []
  responses : List (MutationReplicateRequest δ × MutationResponse) := []

inductive MutationEvent (δ : Type) where
  /-- Numbers may be lost to failed appends before the mutation gets its own. -/
  | append (originNodeId : UInt64) (skipped : Nat) (mutation : MutationRequest δ)
  /-- A copy of an appended mutation arrives: the first one, a retry or a duplicate. -/
  | receive (position : Nat) (membership : Option ClusterMembership) (stored : Bool)
  /-- The mutation of a running request is applied, or fails with the text. -/
  | finish (position : Nat) (failure : Option String)
  /-- The receiver restarts and reads its numbers from the store. -/
  | restart

structure MutationReceiver where
  replicationLog : Bool

namespace MutationReceiver

variable {δ : Type} (receiver : MutationReceiver)

/-- Requests of the origin are looked up and recorded. -/
def deduplicates (originNodeId : UInt64) : Bool :=
  originNodeId != 0 && receiver.replicationLog

variable (world : MutationWorld δ)

variable (request : MutationReplicateRequest δ)

def respond (response : MutationResponse) : MutationWorld δ :=
  { world with responses := world.responses ++ [(request, response)] }

variable (membership : Option ClusterMembership)

/-- `handle_replicate_mutation` up to the start of the mutation. -/
def receive (stored : Bool) : MutationWorld δ :=
  if !validateOriginNodeId membership request.originNodeId then
    respond world request (.error 400 "invalid origin node id")
  else if receiver.deduplicates request.originNodeId then
    let (outcome, appliedMutationSeqs) := checkAndRecordMutation world.appliedMutationSeqs
      request.originNodeId request.seq stored
    let recorded := { world with appliedMutationSeqs }
    match outcome with
    | .ok false => respond recorded request (.ok request.seq)
    | .error _ => respond recorded request (.error 500 "internal error recording mutation")
    | .ok true => { recorded with running := recorded.running ++ [request] }
  else { world with running := world.running ++ [request] }

def finish (position : Nat) (failure : Option String) : MutationWorld δ :=
  match world.running[position]? with
  | none => world
  | some request =>
    let finished := { world with running := world.running.eraseIdx position }
    match failure with
    | none =>
      respond { finished with applied := finished.applied ++ [request] } request (.ok request.seq)
    | some message => respond finished request (.error 500 message)

def next : MutationEvent δ → MutationWorld δ
  | .append originNodeId skipped mutation =>
    let seq := world.mutationSeq.getD originNodeId 0 + skipped + 1
    { world with
      mutationSeq := world.mutationSeq.insert originNodeId seq
      appended := world.appended ++ [⟨seq, originNodeId, mutation⟩] }
  | .receive position membership stored =>
    match world.appended[position]? with
    | none => world
    | some request => receiver.receive world request membership stored
  | .finish position failure => finish world position failure
  | .restart => { world with running := [] }

def lastSeen (originNodeId : UInt64) : Nat :=
  world.appliedMutationSeqs.getD originNodeId 0

/-- The request is valid and its number is not above the greatest one taken. -/
def CountsAsDuplicate : Prop :=
  validateOriginNodeId membership request.originNodeId ∧
    receiver.deduplicates request.originNodeId ∧
    request.seq ≤ lastSeen world request.originNodeId

variable {receiver}

theorem getD_insertIfNew_zero (seqs : Std.ExtTreeMap UInt64 Nat) (origin other : UInt64) :
    (seqs.insertIfNew origin 0).getD other 0 = seqs.getD other 0 := by
  rw [getD_insertIfNew]
  split
  · next absent =>
      obtain ⟨same, missing⟩ := absent
      obtain rfl := Std.LawfulEqCmp.eq_of_compare same
      exact (getD_eq_fallback missing).symm
  · rfl

theorem checkAndRecordMutation_spec {seqs after : Std.ExtTreeMap UInt64 Nat} {origin : UInt64}
    {seq : Nat} {stored : Bool} {outcome : Except String Bool}
    (checked : checkAndRecordMutation seqs origin seq stored = (outcome, after)) :
    (outcome = .ok false ↔ seq ≤ seqs.getD origin 0) ∧
      (outcome = .ok true → after = seqs.insert origin seq) ∧
      (outcome ≠ .ok true → ∀ other, after.getD other 0 = seqs.getD other 0) := by
  revert checked
  fun_cases checkAndRecordMutation with
  | case1 above =>
    rintro ⟨⟩
    simpa using above
  | case2 above =>
    rintro ⟨⟩
    simpa [getD_insertIfNew_zero] using above
  | case3 reached =>
    rintro ⟨⟩
    simpa [getD_insertIfNew_zero] using reached

def key : UInt64 × Nat :=
  (request.originNodeId, request.seq)

variable (receiver) in
/-- The requests come from the logs of their origins, and those that are looked up were
taken once each, under numbers up to the greatest one. -/
structure TakenOnce (appended : List (MutationReplicateRequest δ)) (last : UInt64 → Nat)
    (requests : List (MutationReplicateRequest δ)) : Prop where
  known : ∀ request ∈ requests, request ∈ appended
  seen : ∀ request ∈ requests, receiver.deduplicates request.originNodeId →
    request.seq ≤ last request.originNodeId
  apart : ((requests.filter fun request =>
    receiver.deduplicates request.originNodeId).map key).Nodup

namespace TakenOnce

variable {appended more requests others : List (MutationReplicateRequest δ)}
  {last later : UInt64 → Nat} {request : MutationReplicateRequest δ}

variable (taken : receiver.TakenOnce appended last requests)
include taken

theorem mono (grown : ∀ request ∈ appended, request ∈ more)
    (above : ∀ origin, last origin ≤ later origin) : receiver.TakenOnce more later requests :=
  ⟨fun request member => grown request (taken.known request member),
    fun request member looksUp => (taken.seen request member looksUp).trans (above _),
    taken.apart⟩

theorem perm (same : requests.Perm others) : receiver.TakenOnce appended last others :=
  ⟨fun request member => taken.known request (same.mem_iff.mpr member),
    fun request member => taken.seen request (same.mem_iff.mpr member),
    ((same.filter _).map key).nodup_iff.mp taken.apart⟩

theorem sublist (part : others.Sublist requests) : receiver.TakenOnce appended last others :=
  ⟨fun request member => taken.known request (part.subset member),
    fun request member => taken.seen request (part.subset member),
    taken.apart.sublist ((part.filter _).map key)⟩

theorem cons_of_lt (known : request ∈ appended) (fresh : last request.originNodeId < request.seq)
    (above : ∀ origin, last origin ≤ later origin)
    (recorded : request.seq ≤ later request.originNodeId) :
    receiver.TakenOnce appended later (request :: requests) := by
  have raised := taken.mono (fun _ member => member) above
  refine ⟨forall_mem_cons.mpr ⟨known, raised.known⟩,
    forall_mem_cons.mpr ⟨fun _ => recorded, raised.seen⟩, ?_⟩
  rw [filter_cons]
  split
  · refine nodup_cons.mpr ⟨fun twice => ?_, taken.apart⟩
    obtain ⟨other, member, same⟩ := mem_map.mp twice
    obtain ⟨inside, looksUp⟩ := mem_filter.mp member
    obtain ⟨sameOrigin, sameSeq⟩ := Prod.mk.inj same
    have := taken.seen other inside looksUp
    rw [sameOrigin, sameSeq] at this
    exact absurd fresh (not_lt.mpr this)
  · exact taken.apart

theorem cons_of_not_deduplicates (known : request ∈ appended)
    (unchecked : receiver.deduplicates request.originNodeId = false) :
    receiver.TakenOnce appended last (request :: requests) := by
  refine ⟨forall_mem_cons.mpr ⟨known, taken.known⟩,
    forall_mem_cons.mpr ⟨fun looksUp => ?_, taken.seen⟩, ?_⟩
  · simp [unchecked] at looksUp
  · simpa [unchecked] using taken.apart

end TakenOnce

variable (receiver) in
structure Recorded (world : MutationWorld δ) : Prop where
  numbered : ∀ request ∈ world.appended, request.seq ≤ world.mutationSeq.getD request.originNodeId 0
  distinct : (world.appended.map key).Nodup
  taken : receiver.TakenOnce world.appended (lastSeen world) (world.running ++ world.applied)

variable {request : MutationReplicateRequest δ}

namespace Recorded

variable {world : MutationWorld δ}

theorem initial : receiver.Recorded ({} : MutationWorld δ) :=
  ⟨nofun, nodup_nil, nofun, nofun, nodup_nil⟩

variable (recorded : receiver.Recorded world)
include recorded

theorem append (originNodeId : UInt64) (skipped : Nat) (mutation : MutationRequest δ) :
    receiver.Recorded (receiver.next world (.append originNodeId skipped mutation)) := by
  have raised : ∀ origin, world.mutationSeq.getD origin 0 ≤
      (world.mutationSeq.insert originNodeId
        (world.mutationSeq.getD originNodeId 0 + skipped + 1)).getD origin 0 := by
    intro origin
    rw [getD_insert]
    split
    · next same =>
        obtain rfl := Std.LawfulEqCmp.eq_of_compare same
        omega
    · exact le_refl _
  refine ⟨?_, ?_, recorded.taken.mono (fun _ member => mem_append_left _ member) fun _ => le_refl _⟩
  · refine forall_mem_append.mpr ⟨fun request member =>
      (recorded.numbered request member).trans (raised _), forall_mem_singleton.mpr ?_⟩
    simp [next]
  · simp only [next, map_append]
    refine nodup_append.mpr ⟨recorded.distinct, nodup_singleton _, ?_⟩
    rintro _ used _ isNew rfl
    obtain ⟨request, member, same⟩ := mem_map.mp used
    obtain ⟨sameOrigin, sameSeq⟩ := Prod.mk.inj (same.trans (mem_singleton.mp isNew))
    have below := recorded.numbered request member
    rw [sameOrigin, sameSeq] at below
    dsimp only at below
    omega

theorem receive (known : request ∈ world.appended)
    (membership : Option ClusterMembership) (stored : Bool) :
    receiver.Recorded (receiver.receive world request membership stored) := by
  have moved : (request :: (world.running ++ world.applied)).Perm
      (world.running ++ [request] ++ world.applied) := by
    rw [append_assoc]
    exact perm_middle.symm
  fun_cases MutationReceiver.receive with
  | case1 => exact ⟨recorded.numbered, recorded.distinct, recorded.taken⟩
  | case2 _ _ seqs _ checked | case3 _ _ seqs _ _ checked =>
    obtain ⟨-, -, same⟩ := checkAndRecordMutation_spec checked
    exact ⟨recorded.numbered, recorded.distinct, recorded.taken.mono (fun _ member => member)
      fun origin => (same nofun origin).ge⟩
  | case4 _ _ seqs updated checked =>
    obtain ⟨skipped, inserted, -⟩ := checkAndRecordMutation_spec checked
    obtain rfl := inserted rfl
    have fresh : lastSeen world request.originNodeId < request.seq :=
      not_le.mp fun below => nomatch skipped.mpr below
    refine ⟨recorded.numbered, recorded.distinct,
      (recorded.taken.cons_of_lt known fresh (fun origin => ?_) ?_).perm moved⟩
    · simp only [lastSeen, updated, getD_insert]
      split
      · next same =>
          obtain rfl := Std.LawfulEqCmp.eq_of_compare same
          exact fresh.le
      · exact le_refl _
    · simp [lastSeen, updated]
  | case5 _ unchecked =>
    exact ⟨recorded.numbered, recorded.distinct,
      (recorded.taken.cons_of_not_deduplicates known (by simpa using unchecked)).perm moved⟩

theorem finish (position : Nat) (failure : Option String) :
    receiver.Recorded (MutationReceiver.finish world position failure) := by
  unfold MutationReceiver.finish
  split
  · exact recorded
  · next request found =>
      obtain ⟨within, rfl⟩ := List.getElem?_eq_some_iff.mp found
      cases failure with
      | none =>
        have moved : (world.running ++ world.applied).Perm (world.running.eraseIdx position ++
            (world.applied ++ [world.running[position]])) := by
          refine ((List.getElem_cons_eraseIdx_perm within).symm.append_right _).trans ?_
          rw [← append_assoc]
          exact (perm_append_singleton _ _).symm
        exact ⟨recorded.numbered, recorded.distinct, recorded.taken.perm moved⟩
      | some message =>
        exact ⟨recorded.numbered, recorded.distinct, recorded.taken.sublist
          ((eraseIdx_sublist _ _).append_right _)⟩

theorem next (event : MutationEvent δ) : receiver.Recorded (receiver.next world event) := by
  cases event with
  | append originNodeId skipped mutation => exact recorded.append originNodeId skipped mutation
  | receive position membership stored =>
    simp only [MutationReceiver.next]
    split
    · exact recorded
    · next found => exact recorded.receive (mem_of_getElem? found) membership stored
  | finish position failure => exact recorded.finish position failure
  | restart =>
    exact ⟨recorded.numbered, recorded.distinct, recorded.taken.sublist (sublist_append_right _ _)⟩

end Recorded

/-- What a success answers for has been applied, and no mutation was applied twice. -/
structure ExactlyOnce (world : MutationWorld δ) : Prop where
  answered : ∀ request ackSeq, (request, .ok ackSeq) ∈ world.responses → request ∈ world.applied
  once : (world.applied.map key).Nodup

variable (receiver) in
/-- The condition on a step: a request whose number is not above the greatest one taken
arrives only after its mutation was applied, and a request that is not looked up finishes
only if its mutation was not applied before. -/
def InTurn (world : MutationWorld δ) : MutationEvent δ → Prop
  | .receive position membership _ => ∀ request ∈ world.appended[position]?,
      receiver.CountsAsDuplicate world request membership → request ∈ world.applied
  | .finish position none => ∀ request ∈ world.running[position]?,
      receiver.deduplicates request.originNodeId = false → key request ∉ world.applied.map key
  | _ => True

section Steps

variable {world : MutationWorld δ}

theorem exactlyOnce_respond {response : MutationResponse}
    (holds : ExactlyOnce world) :
    ExactlyOnce (respond world request response) ↔
      ∀ ackSeq, response = .ok ackSeq → request ∈ world.applied := by
  constructor
  · intro after ackSeq success
    refine after.answered request ackSeq (mem_append_right _ ?_)
    rw [success]
    exact mem_singleton_self _
  · refine fun answered => ⟨fun other ackSeq member => ?_, holds.once⟩
    rcases mem_append.mp member with before | isNew
    · exact holds.answered other ackSeq before
    · obtain ⟨rfl, success⟩ := Prod.mk.inj (mem_singleton.mp isNew)
      exact answered ackSeq success.symm

theorem exactlyOnce_receive_iff (holds : ExactlyOnce world)
    (request : MutationReplicateRequest δ) (membership : Option ClusterMembership) (stored : Bool) :
    ExactlyOnce (receiver.receive world request membership stored) ↔
      (receiver.CountsAsDuplicate world request membership → request ∈ world.applied) := by
  have kept : ∀ appliedMutationSeqs running, ExactlyOnce { world with appliedMutationSeqs, running } :=
    fun _ _ => ⟨holds.1, holds.2⟩
  fun_cases receive with
  | case1 invalid =>
    rw [exactlyOnce_respond holds]
    exact ⟨fun _ duplicate => by simp [duplicate.1] at invalid, fun _ => nofun⟩
  | case2 valid looksUp seqs _ checked =>
    rw [exactlyOnce_respond (kept seqs _)]
    have duplicate := (checkAndRecordMutation_spec checked).1.mp rfl
    exact ⟨fun answered _ => answered _ rfl,
      fun applied _ _ => applied ⟨by simpa using valid, looksUp, duplicate⟩⟩
  | case3 _ _ seqs _ _ checked =>
    rw [exactlyOnce_respond (kept seqs _)]
    exact ⟨fun _ duplicate => (nomatch (checkAndRecordMutation_spec checked).1.mpr duplicate.2.2),
      fun _ => nofun⟩
  | case4 _ _ seqs _ checked =>
    exact ⟨fun _ duplicate => (nomatch (checkAndRecordMutation_spec checked).1.mpr duplicate.2.2),
      fun _ => kept _ _⟩
  | case5 _ unchecked =>
    exact ⟨fun _ duplicate => absurd duplicate.2.1 unchecked, fun _ => kept _ _⟩

variable (recorded : receiver.Recorded world)
include recorded

theorem Recorded.not_applied (runs : request ∈ world.running)
    (looksUp : receiver.deduplicates request.originNodeId) :
    key request ∉ world.applied.map key := by
  intro twice
  obtain ⟨other, member, same⟩ := mem_map.mp twice
  have otherLooksUp : receiver.deduplicates other.originNodeId := by
    rw [(Prod.mk.inj same).1]
    exact looksUp
  have apart := recorded.taken.apart
  rw [filter_append, map_append, nodup_append] at apart
  exact apart.2.2 (key request)
    (mem_map_of_mem (mem_filter.mpr ⟨runs, looksUp⟩)) (key other)
    (mem_map_of_mem (mem_filter.mpr ⟨member, otherLooksUp⟩)) same.symm

theorem exactlyOnce_finish_iff (holds : ExactlyOnce world) (position : Nat)
    (failure : Option String) :
    ExactlyOnce (finish world position failure) ↔
      receiver.InTurn world (.finish position failure) := by
  unfold finish
  split
  · next absent =>
      refine iff_of_true holds ?_
      cases failure with
      | none =>
        intro request found
        rw [absent] at found
        cases found
      | some message => trivial
  · next request found =>
      cases failure with
      | some message =>
        have kept : ExactlyOnce { world with running := world.running.eraseIdx position } :=
          ⟨holds.1, holds.2⟩
        exact iff_of_true ((exactlyOnce_respond kept).mpr nofun) trivial
      | none =>
        have inTurn : receiver.InTurn world (.finish position none) ↔
            key request ∉ world.applied.map key := by
          constructor
          · intro condition
            cases looksUp : receiver.deduplicates request.originNodeId with
            | false => exact condition request found looksUp
            | true => exact recorded.not_applied (mem_of_getElem? found) looksUp
          · intro fresh other same _
            obtain rfl := Option.some.inj (found.symm.trans same)
            exact fresh
        rw [inTurn]
        constructor
        · intro after
          have once := after.once
          simp only [respond, map_append, nodup_append] at once
          exact fun used => once.2.2 _ used _ (by simp) rfl
        · intro fresh
          have kept : ExactlyOnce { world with
              running := world.running.eraseIdx position
              applied := world.applied ++ [request] } := by
            refine ⟨fun other ackSeq member =>
              mem_append_left _ (holds.answered other ackSeq member), ?_⟩
            rw [map_append, nodup_append]
            refine ⟨holds.once, nodup_singleton _, ?_⟩
            rintro _ used _ isNew rfl
            obtain rfl := mem_singleton.mp isNew
            exact fresh used
          exact (exactlyOnce_respond kept).mpr fun _ _ =>
            mem_append_right _ (mem_singleton_self _)

theorem exactlyOnce_next_iff (holds : ExactlyOnce world) (event : MutationEvent δ) :
    ExactlyOnce (receiver.next world event) ↔ receiver.InTurn world event := by
  cases event with
  | append originNodeId skipped mutation => exact iff_of_true ⟨holds.1, holds.2⟩ trivial
  | receive position membership stored =>
    simp only [next, InTurn]
    cases world.appended[position]? with
    | none => simpa using holds
    | some request => simpa using exactlyOnce_receive_iff holds request membership stored
  | finish position failure => exact exactlyOnce_finish_iff recorded holds position failure
  | restart => exact iff_of_true ⟨holds.1, holds.2⟩ trivial

end Steps

/-- A run delivers exactly once, in each of its states, just if every step meets the
condition. -/
theorem exactlyOnce_iff (receiver : MutationReceiver) (events : List (MutationEvent δ)) :
    (∀ earlier, earlier <+: events → ExactlyOnce (run receiver.next {} earlier)) ↔
      Along receiver.next receiver.InTurn {} events := by
  exact forall_prefix_iff_along_of_preserved
    (fun (world : MutationWorld δ) event (recorded : receiver.Recorded world) =>
      recorded.next event)
    (fun _ event recorded holds => exactlyOnce_next_iff recorded holds event)
    Recorded.initial ⟨nofun, nodup_nil⟩ events

end MutationReceiver

def originMembership : ClusterMembership :=
  ({} : ClusterMembership).addNode ⟨2, "b:8086", .active, 0, 0, false, 0⟩

def droppedDatabases : List (MutationEvent Unit) :=
  [.append 2 0 (.dropDatabase "first"), .append 2 0 (.dropDatabase "second")]

def retriedMutation : List (MutationEvent Unit) :=
  droppedDatabases ++ [.receive 0 (some originMembership) true, .finish 0 (some "timeout"),
    .receive 0 (some originMembership) true]

def overtakenMutation : List (MutationEvent Unit) :=
  droppedDatabases ++ [.receive 1 (some originMembership) true, .finish 0 none,
    .receive 0 (some originMembership) true]

/-- In both runs the first mutation is answered with success and was not applied. -/
theorem droppedDatabases_not_exactlyOnce :
    ¬MutationReceiver.ExactlyOnce (run (MutationReceiver.next ⟨true⟩) {} retriedMutation) ∧
      ¬MutationReceiver.ExactlyOnce (run (MutationReceiver.next ⟨true⟩) {} overtakenMutation) := by
  constructor
  · intro holds
    have := holds.answered ⟨1, 2, .dropDatabase "first"⟩ 1 (by decide +kernel)
    revert this
    decide +kernel
  · intro holds
    have := holds.answered ⟨1, 2, .dropDatabase "first"⟩ 1 (by decide +kernel)
    revert this
    decide +kernel

end HyperbyteDb

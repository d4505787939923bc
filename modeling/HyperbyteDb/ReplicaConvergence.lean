import HyperbyteDb.FieldUnion

/-!
# Convergence of a replica

The replica numbers the writes as they arrive, and its queries read the value of greatest
number.
-/

namespace HyperbyteDb

open FactService GuardedRuns List VersionedRows

/-- A write on its way, with its sequence on the primary. -/
abbrev SentWrite := Nat × LoggedWrite

/-- Parts of one request for one database and retention policy are applied as one job. -/
structure ReplicaJob where
  db : String
  rp : String
  parts : List SentWrite
  target : ∀ part ∈ parts, part.2.db = db ∧ part.2.rp = rp

namespace ReplicaJob

def ofParts (first : SentWrite) (more : List SentWrite) : ReplicaJob where
  db := first.2.db
  rp := first.2.rp
  parts := first :: more.filter fun part => part.2.db = first.2.db ∧ part.2.rp = first.2.rp
  target := by simp

/-- The write that a worker appends: the points of all parts, one after another. -/
def write (job : ReplicaJob) (originNodeId : UInt64) : LoggedWrite :=
  .points job.db job.rp originNodeId (job.parts.flatMap (·.2.written))

end ReplicaJob

inductive StorageEvent where
  | flushPrepared (count : Nat)
  | flushNative (count : Nat)
  | merge (selected : FactRow → Bool)

def StorageEvent.toFactEvent : StorageEvent → FactEvent
  | .flushPrepared count => .flushPrepared count
  | .flushNative count => .flushNative count
  | .merge selected => .merge selected

structure DeliveryWorld where
  primary : FactWorld := {}
  replica : FactWorld := {}
  sending : List SentWrite := []
  hints : List SentWrite := []
  draining : List SentWrite := []
  /-- Jobs that the replica has accepted and no worker has finished. -/
  queue : List ReplicaJob := []
  /-- The writes in the replica's log, in the order of their arrival there. -/
  applied : List SentWrite := []

inductive DeliveryEvent where
  | accept (skipped : Nat) (write : LoggedWrite)
  /-- A request with the sends at the positions arrives; its answer may be lost. -/
  | deliver (positions : List Nat) (answered : Bool)
  | giveUp (position : Nat)
  | drain
  /-- The next hint of the batch is posted; it may arrive without an answer. -/
  | replay (arrived answered : Bool)
  | apply (position skipped : Nat)
  | discard (position : Nat)
  | storePrimary (event : StorageEvent)
  | storeReplica (event : StorageEvent)

structure ReplicaPair where
  primary : FactService
  replica : FactService
  primaryId : UInt64
  sameSeries : replica.seriesId = primary.seriesId

namespace ReplicaPair

variable (pair : ReplicaPair)

def drainBatch : Nat := 100

def next (world : DeliveryWorld) : DeliveryEvent → DeliveryWorld
  | .accept skipped write =>
    let primary := pair.primary.next world.primary (.append skipped write)
    { world with primary, sending := world.sending ++ [(primary.seq, write)] }
  | .deliver positions answered =>
    match positions.filterMap fun position => world.sending[position]? with
    | [] => world
    | first :: more =>
      let job := ReplicaJob.ofParts first more
      { world with
        queue := world.queue ++ [job]
        sending :=
          if answered then
            world.sending.filter fun sent => sent.1 ∉ job.parts.map Prod.fst
          else world.sending }
  | .giveUp position =>
    match world.sending[position]? with
    | none => world
    | some sent =>
      { world with
        sending := world.sending.eraseIdx position
        hints := world.hints ++ [sent] }
  | .drain =>
    match world.draining with
    | _ :: _ => world
    | [] =>
      { world with
        draining := world.hints.take drainBatch
        hints := world.hints.drop drainBatch }
  | .replay arrived answered =>
    match world.draining with
    | [] => world
    | hint :: rest =>
      let queue :=
        if arrived || answered then world.queue ++ [ReplicaJob.ofParts hint []]
        else world.queue
      if answered then { world with queue, draining := rest }
      else { world with queue, draining := [], hints := world.hints ++ hint :: rest }
  | .apply position skipped =>
    match world.queue[position]? with
    | none => world
    | some job =>
      { world with
        queue := world.queue.eraseIdx position
        applied := world.applied ++ job.parts
        replica := pair.replica.next world.replica (.append skipped (job.write pair.primaryId)) }
  | .discard position => { world with queue := world.queue.eraseIdx position }
  | .storePrimary event =>
    { world with primary := pair.primary.next world.primary event.toFactEvent }
  | .storeReplica event =>
    { world with replica := pair.replica.next world.replica event.toFactEvent }

/-- What a step does to the primary's log and tables. -/
def primaryEvent : DeliveryEvent → Option FactEvent
  | .accept skipped write => some (.append skipped write)
  | .storePrimary event => some event.toFactEvent
  | _ => none

/-- The job that a step appends to the replica's log. -/
def appendedJob (world : DeliveryWorld) : DeliveryEvent → Option ReplicaJob
  | .apply position _ => world.queue[position]?
  | _ => none

/-- What a step does to the replica's log and tables. -/
def replicaEvent (world : DeliveryWorld) : DeliveryEvent → Option FactEvent
  | .apply position skipped =>
    world.queue[position]?.map fun job => .append skipped (job.write pair.primaryId)
  | .storeReplica event => some event.toFactEvent
  | _ => none

variable {pair} (world : DeliveryWorld) (event : DeliveryEvent)

theorem primary_next :
    (pair.next world event).primary =
      (primaryEvent event).elim world.primary (pair.primary.next world.primary) := by
  cases event with
  | accept | discard | storePrimary | storeReplica => rfl
  | deliver | giveUp | drain | apply =>
    simp only [next]
    split <;> rfl
  | replay arrived answered =>
    simp only [next]
    split
    · rfl
    · split <;> rfl

theorem replica_next :
    (pair.next world event).replica =
      (pair.replicaEvent world event).elim world.replica (pair.replica.next world.replica) := by
  cases event with
  | accept | discard | storePrimary | storeReplica => rfl
  | deliver | giveUp | drain =>
    simp only [next]
    split <;> rfl
  | apply position skipped =>
    simp only [next, replicaEvent]
    cases world.queue[position]? <;> rfl
  | replay arrived answered =>
    simp only [next]
    split
    · rfl
    · split <;> rfl

theorem applied_next :
    (pair.next world event).applied =
      world.applied ++ ((appendedJob world event).map (·.parts)).getD [] := by
  cases event with
  | accept | discard | storePrimary | storeReplica => simp [next, appendedJob]
  | deliver | giveUp | drain =>
    simp only [next, appendedJob]
    split <;> simp
  | apply position skipped =>
    simp only [next, appendedJob]
    cases world.queue[position]? <;> simp
  | replay arrived answered =>
    simp only [next, appendedJob]
    split
    · simp
    · split <;> simp

end ReplicaPair

/-! ## Convergence of a replica -/

namespace FactService

variable (service : FactService)

variable {instant : MeasurementKey × UInt64 × Int64}

theorem lastWritten_append (first second : List (Nat × LoggedWrite)) (field : String) :
    service.lastWritten (first ++ second) instant field =
      (service.lastWritten second instant field).or (service.lastWritten first instant field) := by
  have split : writtenRows (first ++ second) = writtenRows first ++ writtenRows second :=
    flatMap_append
  rw [lastWritten, split, latestUnder_append]
  rfl

theorem lastWritten_eq_latest (log : List (Nat × LoggedWrite))
    (instant : MeasurementKey × UInt64 × Int64) (field : String) :
    service.lastWritten log instant field =
      latest (fun item => service.lastWritten [item] instant field) log := by
  induction log with
  | nil => rfl
  | cons item log ih => rw [← singleton_append, lastWritten_append, latest_append, ih,
      latest_singleton]

theorem lastWritten_singleton (seq : Nat) (write : LoggedWrite) (field : String) :
    service.lastWritten [(seq, write)] instant field =
      latestUnder (fun point => service.instantOf ⟨write.db, write.rp, point.measurement⟩ point)
        (fun point field => point.fields[field]?) write.written instant field := by
  rw [lastWritten, writtenRows, flatMap_singleton, latestUnder_map]
  rfl

/-- Flushes and merges leave the log alone. -/
theorem log_storage (world : FactWorld) (event : StorageEvent) :
    (service.next world event.toFactEvent).log = world.log ∧
      (service.next world event.toFactEvent).seq = world.seq := by
  cases event with
  | flushPrepared count =>
    simp only [StorageEvent.toFactEvent, next, flushPreparedStep]
    split
    · split <;> exact ⟨rfl, rfl⟩
    · exact ⟨rfl, rfl⟩
  | flushNative count => exact ⟨rfl, rfl⟩
  | merge selected => exact ⟨rfl, rfl⟩

/-- The two writes give a value to one field of one series and time. -/
def Overlap (first second : LoggedWrite) : Prop :=
  ∃ row ∈ writtenRows [(0, first)], ∃ other ∈ writtenRows [(0, second)],
    service.sourceKey row = service.sourceKey other ∧
      ∃ name ∈ row.2.1.fields.keys, name ∈ other.2.1.fields

instance (first second : LoggedWrite) : Decidable (service.Overlap first second) :=
  inferInstanceAs (Decidable (∃ row ∈ _, _))

variable {service}

variable {field : String}

theorem exists_row_of_lastWritten {write : LoggedWrite} {seq : Nat}
    (given : (service.lastWritten [(seq, write)] instant field).isSome) :
    ∃ row ∈ writtenRows [(0, write)], service.sourceKey row = instant ∧ field ∈ row.2.1.fields := by
  rw [lastWritten_singleton, ← lastWritten_singleton service 0] at given
  by_contra absent
  push Not at absent
  have none : service.lastWritten [(0, write)] instant field = none :=
    latestUnder_eq_none_iff.mpr fun row member under =>
      Std.ExtTreeMap.getElem?_eq_none (absent row member under)
  simp [none] at given

theorem overlap_of_lastWritten {first second : Nat × LoggedWrite}
    (given : (service.lastWritten [first] instant field).isSome)
    (givenAgain : (service.lastWritten [second] instant field).isSome) :
    service.Overlap first.2 second.2 := by
  obtain ⟨row, member, under, carries⟩ := exists_row_of_lastWritten given
  obtain ⟨other, otherMember, otherUnder, otherCarries⟩ := exists_row_of_lastWritten givenAgain
  exact ⟨row, member, other, otherMember, under.trans otherUnder.symm, field,
    Std.ExtTreeMap.mem_keys.mpr carries, otherCarries⟩

theorem lastWritten_jobWrite (job : ReplicaJob) (seq : Nat) (originNodeId : UInt64)
    (field : String) :
    service.lastWritten [(seq, job.write originNodeId)] instant field =
      service.lastWritten job.parts instant field := by
  obtain ⟨db, rp, parts, target⟩ := job
  rw [lastWritten_singleton]
  change latestUnder (fun point => service.instantOf ⟨db, rp, point.measurement⟩ point) _
    (parts.flatMap (·.2.written)) instant field = service.lastWritten parts instant field
  induction parts with
  | nil => rfl
  | cons part parts ih =>
    obtain ⟨rfl, rfl⟩ := target part (by simp)
    rw [flatMap_cons, latestUnder_append, ih fun other member =>
      target other (mem_cons_of_mem part member), ← singleton_append (l := parts),
      lastWritten_append, ← lastWritten_singleton service part.1]

end FactService

structure DeliveryWorld.AllCopies (property : SentWrite → Prop) (world : DeliveryWorld) :
    Prop where
  sending : ∀ sent ∈ world.sending, property sent
  hints : ∀ sent ∈ world.hints, property sent
  draining : ∀ sent ∈ world.draining, property sent
  queue : ∀ job ∈ world.queue, ∀ part ∈ job.parts, property part
  applied : ∀ sent ∈ world.applied, property sent

variable {property : SentWrite → Prop}

theorem DeliveryWorld.AllCopies.imp {other : SentWrite → Prop} {world : DeliveryWorld}
    (all : world.AllCopies property) (implies : ∀ sent, property sent → other sent) :
    world.AllCopies other where
  sending sent member := implies sent (all.sending sent member)
  hints sent member := implies sent (all.hints sent member)
  draining sent member := implies sent (all.draining sent member)
  queue job member part inside := implies part (all.queue job member part inside)
  applied sent member := implies sent (all.applied sent member)

theorem ReplicaJob.forall_ofParts {first : SentWrite} {more : List SentWrite}
    (all : ∀ part ∈ first :: more, property part) :
    ∀ part ∈ (ReplicaJob.ofParts first more).parts, property part := by
  obtain ⟨here, others⟩ := forall_mem_cons.mp all
  exact forall_mem_cons.mpr ⟨here, fun part member => others part (mem_of_mem_filter member)⟩

namespace ReplicaPair

variable {pair : ReplicaPair} {world : DeliveryWorld} {event : DeliveryEvent}

/-- The only new copy is the one of a write just accepted. -/
theorem allCopies_next (all : world.AllCopies property)
    (accepted : ∀ skipped write, event = .accept skipped write →
      property (world.primary.seq + skipped + 1, write)) :
    (pair.next world event).AllCopies property := by
  cases event with
  | accept skipped write =>
    exact { all with
      sending := forall_mem_append.mpr
        ⟨all.sending, forall_mem_singleton.mpr (accepted skipped write rfl)⟩ }
  | deliver positions answered =>
    simp only [next]
    split
    · exact all
    · next first more chosen =>
        have known : ∀ part ∈ first :: more, property part := by
          rw [← chosen]
          intro part member
          obtain ⟨position, -, found⟩ := mem_filterMap.mp member
          exact all.sending part (mem_of_getElem? found)
        refine { all with
          sending := fun sent member => all.sending sent ?_
          queue := forall_mem_append.mpr
            ⟨all.queue, forall_mem_singleton.mpr (ReplicaJob.forall_ofParts known)⟩ }
        cases answered
        · exact member
        · exact mem_of_mem_filter member
  | giveUp position =>
    simp only [next]
    split
    · exact all
    · next sent found =>
        exact { all with
          sending := fun other member => all.sending other (mem_of_mem_eraseIdx member)
          hints := forall_mem_append.mpr ⟨all.hints,
            forall_mem_singleton.mpr (all.sending sent (mem_of_getElem? found))⟩ }
  | drain =>
    simp only [next]
    split
    · exact all
    · exact { all with
        hints := fun sent member => all.hints sent (mem_of_mem_drop member)
        draining := fun sent member => all.hints sent (mem_of_mem_take member) }
  | replay arrived answered =>
    simp only [next]
    split
    · exact all
    · next hint rest out =>
        have batch : ∀ sent ∈ hint :: rest, property sent := out ▸ all.draining
        obtain ⟨posted, others⟩ := forall_mem_cons.mp batch
        have queued : ∀ job ∈ (if arrived || answered then
            world.queue ++ [ReplicaJob.ofParts hint []] else world.queue),
            ∀ part ∈ job.parts, property part := by
          split
          · exact forall_mem_append.mpr ⟨all.queue, forall_mem_singleton.mpr
              (ReplicaJob.forall_ofParts (forall_mem_singleton.mpr posted))⟩
          · exact all.queue
        split
        · exact { all with queue := queued, draining := others }
        · exact { all with
            queue := queued
            draining := forall_mem_nil _
            hints := forall_mem_append.mpr ⟨all.hints, batch⟩ }
  | apply position skipped =>
    simp only [next]
    split
    · exact all
    · next job found =>
        exact { all with
          queue := fun other member => all.queue other (mem_of_mem_eraseIdx member)
          applied := forall_mem_append.mpr ⟨all.applied, all.queue job (mem_of_getElem? found)⟩ }
  | discard position =>
    exact { all with
      queue := fun other member => all.queue other (mem_of_mem_eraseIdx member) }
  | storePrimary event => exact { all with }
  | storeReplica event => exact { all with }

variable (pair) in
theorem primaryLog_next (world : DeliveryWorld) (event : DeliveryEvent) :
    (∃ skipped write, event = .accept skipped write ∧
      (pair.next world event).primary.seq = world.primary.seq + skipped + 1 ∧
      (pair.next world event).primary.log =
        world.primary.log ++ [(world.primary.seq + skipped + 1, write)]) ∨
    ((∀ skipped write, event ≠ .accept skipped write) ∧
      (pair.next world event).primary.seq = world.primary.seq ∧
      (pair.next world event).primary.log = world.primary.log) := by
  rw [primary_next]
  cases event with
  | accept skipped write => exact .inl ⟨skipped, write, rfl, rfl, rfl⟩
  | storePrimary event =>
    obtain ⟨sameLog, sameSeq⟩ := pair.primary.log_storage world.primary event
    exact .inr ⟨fun _ _ => nofun, sameSeq, sameLog⟩
  | _ => exact .inr ⟨fun _ _ => nofun, rfl, rfl⟩

theorem lastWritten_replica_next (instant : MeasurementKey × UInt64 × Int64) (field : String) :
    pair.primary.lastWritten (pair.next world event).replica.log instant field =
      (pair.primary.lastWritten (((appendedJob world event).map (·.parts)).getD []) instant
        field).or (pair.primary.lastWritten world.replica.log instant field) := by
  rw [replica_next]
  cases event with
  | apply position skipped =>
    simp only [replicaEvent, appendedJob]
    cases world.queue[position]? with
    | none => rfl
    | some job =>
      rw [Option.map_some, Option.map_some, Option.getD_some,
        ← lastWritten_jobWrite job (world.replica.seq + skipped + 1)
          pair.primaryId, ← lastWritten_append]
      rfl
  | storeReplica event =>
    have sameLog := (pair.replica.log_storage world.replica event).1
    exact congrArg (pair.primary.lastWritten · instant field) sameLog
  | _ => rfl

variable (pair) in
def MayFollow (first second : SentWrite) : Prop :=
  second.1 < first.1 → ¬pair.primary.Overlap first.2 second.2

instance : DecidableRel pair.MayFollow :=
  fun _ _ => inferInstanceAs (Decidable (_ → _))

variable (pair) in
/-- The condition on the order of arrival: a worker appends no write after a later write
of the primary that overlaps with it. -/
def InOrderStep (world : DeliveryWorld) (event : DeliveryEvent) : Prop :=
  ∀ job ∈ appendedJob world event, (world.applied ++ job.parts).Pairwise pair.MayFollow

instance (world : DeliveryWorld) (event : DeliveryEvent) :
    Decidable (pair.InOrderStep world event) :=
  inferInstanceAs (Decidable (∀ job ∈ _, _))

variable (pair) in
/-- The condition on the storage of both nodes. -/
def StorageStep (world : DeliveryWorld) (event : DeliveryEvent) : Prop :=
  (∀ step ∈ primaryEvent event, pair.primary.UnionStep world.primary step) ∧
    ∀ step ∈ pair.replicaEvent world event, pair.replica.UnionStep world.replica step

variable (pair) in
/-- Only writes of the primary arrive, and the replica's log holds what was applied. -/
structure Delivered (world : DeliveryWorld) : Prop where
  assigned : ∀ item ∈ world.primary.log, item.1 ≤ world.primary.seq
  ascending : world.primary.log.Pairwise fun first second => first.1 < second.1
  known : world.AllCopies (· ∈ world.primary.log)
  ordered : world.applied.Pairwise pair.MayFollow
  logged : ∀ instant field,
    pair.primary.lastWritten world.replica.log instant field =
      pair.primary.lastWritten world.applied instant field

variable {events : List DeliveryEvent}

namespace Delivered

theorem initial : pair.Delivered {} where
  assigned := nofun
  ascending := List.Pairwise.nil
  known := ⟨nofun, nofun, nofun, nofun, nofun⟩
  ordered := List.Pairwise.nil
  logged _ _ := rfl

theorem ordered_next (delivered : pair.Delivered world) (inOrder : pair.InOrderStep world event) :
    (pair.next world event).applied.Pairwise pair.MayFollow := by
  rw [applied_next]
  cases found : appendedJob world event with
  | none => simpa using delivered.ordered
  | some job => exact inOrder job found

theorem next (delivered : pair.Delivered world) (inOrder : pair.InOrderStep world event) :
    pair.Delivered (pair.next world event) := by
  have logged : ∀ instant field,
      pair.primary.lastWritten (pair.next world event).replica.log instant field =
        pair.primary.lastWritten (pair.next world event).applied instant field := by
    intro instant field
    rw [lastWritten_replica_next, applied_next, lastWritten_append, delivered.logged]
  rcases pair.primaryLog_next world event with
    ⟨skipped, write, rfl, seqIs, logIs⟩ | ⟨notAccept, seqIs, logIs⟩
  · have fresh : ∀ item ∈ world.primary.log, item.1 < world.primary.seq + skipped + 1 := by
      intro item member
      have := delivered.assigned item member
      omega
    refine ⟨?_, ?_, ?_, delivered.ordered_next inOrder, logged⟩
    · exact forall_mem_append.mpr
        ⟨fun item member => (fresh item member).le, forall_mem_singleton.mpr (le_refl _)⟩
    · exact pairwise_append.mpr ⟨delivered.ascending, pairwise_singleton _ _,
        fun item member => forall_mem_singleton.mpr (fresh item member)⟩
    · rw [logIs]
      refine allCopies_next (delivered.known.imp fun sent member => by simp [member]) ?_
      simp
  · refine ⟨?_, ?_, ?_, delivered.ordered_next inOrder, logged⟩
    · rw [seqIs, logIs]
      exact delivered.assigned
    · rw [logIs]
      exact delivered.ascending
    · rw [logIs]
      exact allCopies_next delivered.known fun skipped write is =>
        absurd is (notAccept skipped write)

/-- Once every write has been applied, both logs give the same last values. -/
theorem lastWritten_eq (delivered : pair.Delivered world)
    (everywhere : ∀ item ∈ world.primary.log, item ∈ world.applied)
    (instant : MeasurementKey × UInt64 × Int64) (field : String) :
    pair.primary.lastWritten world.replica.log instant field =
      pair.primary.lastWritten world.primary.log instant field := by
  rw [delivered.logged, lastWritten_eq_latest, pair.primary.lastWritten_eq_latest world.primary.log]
  refine latest_eq_of_arrivals delivered.ascending delivered.known.applied everywhere
    (delivered.ordered.imp fun mayFollow given givenAgain => ?_)
  by_contra behind
  exact mayFollow (not_le.mp behind) (overlap_of_lastWritten given givenAgain)

theorem run
    (inOrder : Along pair.next pair.InOrderStep {} events) :
    pair.Delivered (run pair.next {} events) :=
  run_invariant (fun _ _ delivered step => delivered.next step) initial inOrder

end Delivered

theorem lastWritten_replica (log : List (Nat × LoggedWrite))
    (instant : MeasurementKey × UInt64 × Int64) (field : String) :
    pair.replica.lastWritten log instant field = pair.primary.lastWritten log instant field := by
  have sameKey : pair.replica.sourceKey = pair.primary.sourceKey := by
    funext row
    simp only [sourceKey, instantOf, pair.sameSeries]
  rw [lastWritten, sameKey, lastWritten]

/-- Both nodes hold the last values of what they have flushed. -/
theorem complete_next (step : DeliveryEvent)
    (complete : pair.primary.Complete world.primary ∧ pair.replica.Complete world.replica)
    (allowed : pair.StorageStep world step) :
    pair.primary.Complete (pair.next world step).primary ∧
      pair.replica.Complete (pair.next world step).replica := by
  rw [primary_next, replica_next]
  constructor
  · cases happens : primaryEvent step with
    | none => exact complete.1
    | some event => exact complete.1.next (allowed.1 event happens)
  · cases happens : pair.replicaEvent world step with
    | none => exact complete.2
    | some event => exact complete.2.next (allowed.2 event happens)

theorem complete_run
    (allowed : Along pair.next pair.StorageStep {} events) :
    pair.primary.Complete (run pair.next {} events).primary ∧
      pair.replica.Complete (run pair.next {} events).replica :=
  run_invariant (fun (world : DeliveryWorld) step
    (complete : pair.primary.Complete world.primary ∧ pair.replica.Complete world.replica)
    allowed => complete_next step complete allowed) ⟨.initial, .initial⟩ allowed

theorem storageStep_apply {position skipped : Nat}
    (single : ∀ job ∈ world.queue[position]?, pair.replica.SingleRowStep world.replica
      (.append skipped (job.write pair.primaryId))) :
    pair.StorageStep world (.apply position skipped) := by
  refine ⟨nofun, fun step happens => ?_⟩
  obtain ⟨job, found, rfl⟩ := Option.map_eq_some_iff.mp happens
  exact ⟨single job found, trivial⟩

end ReplicaPair

def samplePair : ReplicaPair := ⟨sampleFactService, sampleFactService, 1, rfl⟩

def usageWrite (value : Int64) : LoggedWrite :=
  .points "db" "rp" 1 [sampleFactPoint "usage" value 3]

/-- The answer to the first send is lost, so that the first write arrives twice, but
before the second one. -/
def repeatedDelivery : List DeliveryEvent :=
  [.accept 0 (usageWrite 1), .accept 0 (usageWrite 2), .deliver [0] false, .deliver [0] true,
    .apply 0 0, .apply 0 0, .deliver [0] true, .apply 0 0,
    .storePrimary (.flushPrepared 2), .storeReplica (.flushPrepared 3)]

/-- Two workers take the two writes, and the second one is appended first. -/
def overtakenDelivery : List DeliveryEvent :=
  [.accept 0 (usageWrite 1), .accept 0 (usageWrite 2), .deliver [0] true, .deliver [0] true,
    .apply 1 0, .apply 0 0, .storePrimary (.flushPrepared 2), .storeReplica (.flushPrepared 2)]

end HyperbyteDb

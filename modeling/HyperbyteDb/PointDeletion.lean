import HyperbyteDb.MetadataDrops

/-!
# Deleted points

A deletion stores its predicate as a tombstone, and every later query leaves out the rows
for which a stored predicate is not false.  Nothing tells a query when the predicate was
stored: it hides points that are written later as well, and is evaluated at the time of the
query.  Deletions without a predicate hide nothing, and neither do those that name no
measurement.
-/

namespace HyperbyteDb

open GuardedRuns List ServerMetadata Std

/-- The evaluation of predicates by the database engine, and the ids of tombstones. -/
structure DeletionEngine where
  /-- The value of an SQL predicate on a point at a time; `none` is `NULL`. -/
  evaluate : Int → String → Point → Option Bool
  uuid : Nat → String
  uuid_injective : Function.Injective uuid

/-- The translation of a `WHERE` clause, which is never the empty text. -/
structure WherePredicate where
  sql : String
  nonempty : sql ≠ ""

/-- A statement that deletes points.  `DELETE` without `FROM` has an empty name. -/
inductive Deletion where
  | delete (from_ : String) (condition : Option WherePredicate)
  | dropSeries (from_ : Option String) (condition : Option WherePredicate)

namespace Deletion

def condition : Deletion → Option WherePredicate
  | delete _ condition => condition
  | dropSeries _ condition => condition

/-- The statement is about points of the measurement. -/
def concerns : Deletion → String → Bool
  | delete from_ _, measurement => from_ == "" || from_ == measurement
  | dropSeries from_ _, measurement => from_.all (· == measurement)

/-- The tombstone that is stored: the measurement and the predicate. -/
def tombstone : Deletion → Option (String × String)
  | delete from_ condition => some (from_, (condition.map (·.sql)).getD "")
  | dropSeries (some from_) (some condition) => some (from_, condition.sql)
  | dropSeries _ _ => none

end Deletion

/-- What happens to the points of a retention policy. -/
inductive DeletionEvent where
  | write (points : List Point)
  | delete (deletion : Deletion)
  | select (measurement : String)
  | advance (clock : Int)

structure DeletionState where
  server : ServerMetadata := {}
  points : List Point := []
  issued : Nat := 0
  clock : Int := 0

namespace DeletionState

variable (engine : DeletionEngine) (db rp : String) (state : DeletionState)

def passes (tombstones : List Tombstone) (point : Point) : Bool :=
  tombstones.all fun tombstone =>
    tombstone.2.isEmpty || engine.evaluate state.clock tombstone.2 point == some false

def select (measurement : String) : List Point × DeletionState :=
  let (tombstones, server) := state.server.listTombstones ⟨db, rp, measurement⟩
  (state.points.filter fun point =>
      point.measurement == measurement && state.passes engine tombstones point,
    { state with server })

def storeTombstone : Option (String × String) → ServerMetadata
  | some (measurement, sql) =>
    state.server.storeTombstone ⟨db, rp, measurement⟩ (engine.uuid state.issued) sql
  | none => state.server

def delete (deletion : Deletion) : DeletionState :=
  let server := state.storeTombstone engine db rp deletion.tombstone
  { state with
    server := match deletion with
      | .delete .. => server
      | .dropSeries from_ condition =>
        if from_.isSome || condition.isSome then server.deleteSeriesMatching db rp from_
        else server
    issued := state.issued + 1 }

def next : DeletionEvent → DeletionState
  | .write points => { state with points := state.points ++ points }
  | .delete deletion => state.delete engine db rp deletion
  | .select measurement => (state.select engine db rp measurement).2
  | .advance clock => { state with clock }

end DeletionState

/-! ## What a query should return -/

namespace Deletion

/-- The point satisfies the predicate; every point satisfies an absent one. -/
def Satisfied (engine : DeletionEngine) (clock : Int) (deletion : Deletion) (point : Point) :
    Prop :=
  deletion.concerns point.measurement = true ∧
    ∀ condition, deletion.condition = some condition →
      engine.evaluate clock condition.sql point = some true

end Deletion

namespace DeletionEvent

def Writes : DeletionEvent → Point → Prop
  | write points, point => point ∈ points
  | _, _ => False

def Deletes (engine : DeletionEngine) (clock : Int) : DeletionEvent → Point → Prop
  | delete deletion, point => deletion.Satisfied engine clock point
  | _, _ => False

def clockAfter (clock : Int) : DeletionEvent → Int
  | advance later => later
  | _ => clock

end DeletionEvent

/-- A deletion of the history, which starts at the given time, is satisfied by the point. -/
def DeletedIn (engine : DeletionEngine) (point : Point) : Int → List DeletionEvent → Prop
  | _, [] => False
  | clock, event :: later =>
    event.Deletes engine clock point ∨ DeletedIn engine point (event.clockAfter clock) later

def WrittenLast (engine : DeletionEngine) (point : Point) : Int → List DeletionEvent → Prop
  | _, [] => False
  | clock, event :: later =>
    (event.Writes point ∧ ¬DeletedIn engine point (event.clockAfter clock) later) ∨
      WrittenLast engine point (event.clockAfter clock) later

variable {point : Point} {engine : DeletionEngine} {clock : Int}

variable {history : List DeletionEvent} {event : DeletionEvent}

theorem deletedIn_append : DeletedIn engine point clock (history ++ [event]) ↔
      DeletedIn engine point clock history ∨
        event.Deletes engine (history.foldl DeletionEvent.clockAfter clock) point := by
  induction history generalizing clock with
  | nil => simp [DeletedIn]
  | cons earlier history ih =>
    rw [cons_append, DeletedIn, ih, DeletedIn, or_assoc, foldl_cons]

/-- An event adds what it writes and takes away what satisfies it. -/
theorem writtenLast_append : WrittenLast engine point clock (history ++ [event]) ↔
      event.Writes point ∨ (WrittenLast engine point clock history ∧
        ¬event.Deletes engine (history.foldl DeletionEvent.clockAfter clock) point) := by
  induction history generalizing clock with
  | nil => simp [WrittenLast, DeletedIn]
  | cons earlier history ih =>
    rw [cons_append, WrittenLast, ih, WrittenLast, deletedIn_append]
    tauto

namespace DeletionState

variable {engine : DeletionEngine} {db rp : String} {state : DeletionState}

/-! ## Hidden points -/

def Hidden (engine : DeletionEngine) (db rp : String) (state : DeletionState) (point : Point) :
    Prop :=
  ∃ (id sql : String),
    (state.server.tombstoneRows ⟨db, rp, point.measurement⟩)[id]? = some sql ∧
    sql ≠ "" ∧ engine.evaluate state.clock sql point ≠ some false

structure Sound (engine : DeletionEngine) (state : DeletionState) : Prop where
  cached : ∀ key entries, state.server.tombstoneCache key = some entries →
    entries = (state.server.tombstoneRows key).toList
  drawn : ∀ key id, id ∈ state.server.tombstoneRows key →
    ∃ number < state.issued, engine.uuid number = id

variable (sound : state.Sound engine)
include sound

theorem Sound.listTombstones (key : MeasurementKey) :
    (state.server.listTombstones key).1 = (state.server.tombstoneRows key).toList := by
  rw [fst_listTombstones]
  cases found : state.server.tombstoneCache key with
  | none => rfl
  | some entries => exact sound.cached key entries found

theorem Sound.mem_select {measurement : String} :
    point ∈ (state.select engine db rp measurement).1 ↔
      point ∈ state.points ∧ point.measurement = measurement ∧ ¬state.Hidden engine db rp point := by
  have returned : (state.select engine db rp measurement).1 = state.points.filter fun point =>
      point.measurement == measurement &&
        state.passes engine (state.server.tombstoneRows ⟨db, rp, measurement⟩).toList point := by
    rw [← sound.listTombstones]
    rfl
  rw [returned, mem_filter, Bool.and_eq_true, beq_iff_eq]
  refine and_congr_right fun _ => and_congr_right ?_
  rintro rfl
  unfold passes Hidden
  rw [all_eq_true]
  constructor
  · rintro all ⟨id, sql, stored, nonempty, notFalse⟩
    have passed := all (id, sql) (ExtTreeMap.mem_toList_iff_getElem?_eq_some.mpr stored)
    simp_all
  · intro none_ tombstone member
    have stored := ExtTreeMap.mem_toList_iff_getElem?_eq_some.mp member
    by_contra fails
    rw [Bool.or_eq_true, not_or, beq_iff_eq, String.isEmpty_iff] at fails
    exact none_ ⟨tombstone.1, tombstone.2, stored, fails⟩

/-! ## Steps -/

omit sound in
theorem tombstoneRows_storeTombstone (server : ServerMetadata) (key : MeasurementKey)
    (id predicate : String) (other : MeasurementKey) :
    (server.storeTombstone key id predicate).tombstoneRows other =
      if key = other then (server.tombstoneRows key).insert id predicate
      else server.tombstoneRows other := by
  unfold ServerMetadata.storeTombstone ServerMetadata.tombstoneRows
  dsimp only
  rw [ExtTreeMap.getElem?_insert]
  by_cases same : key = other
  · subst same
    simp
  · simp [same]

omit sound in
/-- Only storing a tombstone changes them. -/
theorem server_delete (state : DeletionState) (deletion : Deletion) :
    (state.delete engine db rp deletion).server.tombstones =
        (state.storeTombstone engine db rp deletion.tombstone).tombstones ∧
      (state.delete engine db rp deletion).server.tombstoneCache =
        (state.storeTombstone engine db rp deletion.tombstone).tombstoneCache := by
  unfold delete
  cases deletion with
  | delete => exact ⟨rfl, rfl⟩
  | dropSeries from_ condition =>
    dsimp only
    split <;> exact ⟨rfl, rfl⟩

omit sound in
theorem tombstoneRows_delete (deletion : Deletion) (key : MeasurementKey) :
    (state.delete engine db rp deletion).server.tombstoneRows key =
      (state.storeTombstone engine db rp deletion.tombstone).tombstoneRows key := by
  rw [tombstoneRows, (state.server_delete deletion).1]
  rfl

theorem Sound.delete (deletion : Deletion) : (state.delete engine db rp deletion).Sound engine := by
  constructor
  · intro key entries found
    rw [(state.server_delete deletion).2] at found
    rw [tombstoneRows_delete]
    revert found
    unfold storeTombstone
    split
    next measurement sql _ =>
      intro found
      rw [tombstoneRows_storeTombstone]
      unfold ServerMetadata.storeTombstone at found
      dsimp only at found
      by_cases same : key = ⟨db, rp, measurement⟩
      · rw [if_pos same] at found
        cases found
      · rw [if_neg same] at found
        rw [if_neg (Ne.symm same)]
        exact sound.cached key entries found
    next => exact sound.cached key entries
  · intro key id member
    have issued : (state.delete engine db rp deletion).issued = state.issued + 1 := rfl
    have before : id ∈ state.server.tombstoneRows key →
        ∃ number < state.issued + 1, engine.uuid number = id := by
      intro member
      obtain ⟨number, below, named⟩ := sound.drawn key id member
      exact ⟨number, by omega, named⟩
    rw [tombstoneRows_delete] at member
    revert member
    unfold storeTombstone
    split
    next measurement sql _ =>
      rw [tombstoneRows_storeTombstone]
      split
      next same =>
        subst same
        rw [ExtTreeMap.mem_insert, Std.compare_eq_iff_eq]
        rintro (rfl | member)
        · exact ⟨state.issued, by omega, rfl⟩
        · exact before member
      next => exact before
    next => exact before

omit sound in
theorem tombstoneRows_select (measurement : String) (key : MeasurementKey) :
    (state.select engine db rp measurement).2.server.tombstoneRows key =
      state.server.tombstoneRows key := by
  unfold select listTombstones
  dsimp only
  split <;> rfl

theorem Sound.select (measurement : String) :
    (state.select engine db rp measurement).2.Sound engine := by
  refine ⟨fun key entries found => ?_, fun key id member => ?_⟩
  · revert found
    unfold DeletionState.select ServerMetadata.listTombstones
    dsimp only
    split
    next => exact sound.cached key entries
    next =>
      dsimp only
      split
      next same =>
        subst same
        rintro ⟨⟩
        rfl
      next => exact sound.cached key entries
  · rw [tombstoneRows_select] at member
    exact sound.drawn key id member

theorem Sound.next (event : DeletionEvent) : (state.next engine db rp event).Sound engine := by
  cases event with
  | write points => exact ⟨sound.cached, sound.drawn⟩
  | delete deletion => exact sound.delete deletion
  | select measurement => exact sound.select measurement
  | advance clock => exact ⟨sound.cached, sound.drawn⟩

end DeletionState

/-- The predicate that the deletion makes later queries evaluate on the measurement. -/
def Deletion.reaching (deletion : Deletion) (measurement : String) : Option String :=
  match deletion.tombstone with
  | some (name, sql) => if name = measurement ∧ sql ≠ "" then some sql else none
  | none => none

variable {deletion : Deletion}

theorem Deletion.satisfied_iff_of_reaching {sql : String}
    (reaches : deletion.reaching point.measurement = some sql) :
    deletion.Satisfied engine clock point ↔ engine.evaluate clock sql point = some true := by
  unfold reaching at reaches
  unfold Satisfied
  cases deletion with
  | delete from_ condition =>
    cases condition with
    | none => simp [tombstone] at reaches
    | some condition =>
      simp only [tombstone, Option.ite_none_right_eq_some] at reaches
      obtain ⟨⟨rfl, -⟩, made⟩ := reaches
      obtain rfl := Option.some.inj made
      simp [Deletion.concerns, Deletion.condition]
  | dropSeries from_ condition =>
    cases from_ with
    | none => simp [tombstone] at reaches
    | some from_ =>
      cases condition with
      | none => simp [tombstone] at reaches
      | some condition =>
        simp only [tombstone, Option.ite_none_right_eq_some] at reaches
        obtain ⟨⟨rfl, -⟩, made⟩ := reaches
        obtain rfl := Option.some.inj made
        simp [Deletion.concerns, Deletion.condition]

namespace DeletionState

variable {engine : DeletionEngine} {db rp : String} {state : DeletionState}

theorem Sound.hidden_delete_iff (sound : state.Sound engine) :
    (state.delete engine db rp deletion).Hidden engine db rp point ↔
      state.Hidden engine db rp point ∨ ∃ sql, deletion.reaching point.measurement = some sql ∧
        engine.evaluate state.clock sql point ≠ some false := by
  have clock : (state.delete engine db rp deletion).clock = state.clock := rfl
  unfold Hidden Deletion.reaching
  rw [tombstoneRows_delete, clock]
  rcases stored : deletion.tombstone with _ | ⟨name, sql⟩
  · simp [storeTombstone]
  · dsimp only [storeTombstone]
    rw [tombstoneRows_storeTombstone]
    by_cases same : name = point.measurement
    · subst same
      have fresh : ¬engine.uuid state.issued ∈
          state.server.tombstoneRows ⟨db, rp, point.measurement⟩ := by
        intro member
        obtain ⟨number, below, named⟩ := sound.drawn _ _ member
        have same := engine.uuid_injective named
        omega
      rw [if_pos rfl]
      simp only [ExtTreeMap.getElem?_insert, Std.compare_eq_iff_eq]
      constructor
      · rintro ⟨id, text, found, nonempty, notFalse⟩
        split at found
        · obtain rfl := Option.some.inj found
          exact .inr ⟨sql, by simp [nonempty], notFalse⟩
        · exact .inl ⟨id, text, found, nonempty, notFalse⟩
      · rintro (⟨id, text, found, nonempty, notFalse⟩ | ⟨text, reached, notFalse⟩)
        · refine ⟨id, text, ?_, nonempty, notFalse⟩
          rw [if_neg, found]
          rintro rfl
          exact fresh (ExtTreeMap.mem_iff_isSome_getElem?.mpr (by simp [found]))
        · obtain ⟨⟨-, nonempty⟩, made⟩ := Option.ite_none_right_eq_some.mp reached
          obtain rfl := Option.some.inj made
          exact ⟨engine.uuid state.issued, sql, by simp, nonempty, notFalse⟩
    · simp [same]

/-! ## When queries return what they should -/

/-- What an event may meet.  Points are written where no tombstone hides them.  A deletion
whose predicate reaches a point that is not hidden has a value there, and one whose
predicate does not reach it is not satisfied.  Time hides and uncovers nothing. -/
def Harmless (engine : DeletionEngine) (db rp : String) (state : DeletionState) :
    DeletionEvent → Prop
  | .write points => ∀ point ∈ points, ¬state.Hidden engine db rp point
  | .delete deletion => ∀ point ∈ state.points, ¬state.Hidden engine db rp point →
      match deletion.reaching point.measurement with
      | some sql => engine.evaluate state.clock sql point ≠ none
      | none => ¬deletion.Satisfied engine state.clock point
  | .select _ => True
  | .advance clock => ∀ point ∈ state.points,
      ({ state with clock } : DeletionState).Hidden engine db rp point ↔
        state.Hidden engine db rp point

def Exact (engine : DeletionEngine) (db rp : String) (history : List DeletionEvent) : Prop :=
  ∀ measurement point,
    point ∈ ((run (next engine db rp) {} history).select engine db rp measurement).1 ↔
      point.measurement = measurement ∧ WrittenLast engine point 0 history

theorem sound_run (history : List DeletionEvent) :
    (run (next engine db rp) {} history).Sound engine := by
  have initially : ({} : DeletionState).Sound engine := by
    constructor
    · intro key entries found
      cases found
    · intro key id member
      exact absurd member ExtTreeMap.not_mem_empty
  exact run_preserves (fun _ event sound => sound.next event) initially history

theorem clock_run (history : List DeletionEvent) : (run (next engine db rp) state history).clock =
      history.foldl DeletionEvent.clockAfter state.clock := by
  induction history generalizing state with
  | nil => rfl
  | cons event history ih =>
    rw [run_cons, ih]
    cases event <;> rfl

theorem exact_iff (history : List DeletionEvent) :
    Exact engine db rp history ↔ ∀ point, (point ∈ (run (next engine db rp) {} history).points ∧
        ¬(run (next engine db rp) {} history).Hidden engine db rp point) ↔
      WrittenLast engine point 0 history := by
  unfold Exact
  simp only [(sound_run history).mem_select]
  constructor
  · intro exact_ point
    have returned := exact_ point.measurement point
    tauto
  · intro exact_ measurement point
    rw [← exact_ point]
    tauto

/-- A deletion hides what satisfies it where its predicate has a value, or where it neither
reaches the point nor is satisfied by it. -/
theorem agrees_iff : (match deletion.reaching point.measurement with
      | some sql => engine.evaluate clock sql point ≠ none
      | none => ¬deletion.Satisfied engine clock point) ↔
    ((∃ sql, deletion.reaching point.measurement = some sql ∧
        engine.evaluate clock sql point ≠ some false) ↔
      deletion.Satisfied engine clock point) := by
  cases reaches : deletion.reaching point.measurement with
  | none => simp
  | some sql =>
    rw [Deletion.satisfied_iff_of_reaching reaches]
    simp only [Option.some.injEq, exists_eq_left']
    rcases engine.evaluate clock sql point with _ | (_ | _) <;> simp

theorem Sound.exact_next_iff (sound : state.Sound engine) (event : DeletionEvent)
    {live : Point → Prop}
    (now : ∀ point, point ∈ state.points ∧ ¬state.Hidden engine db rp point ↔ live point) :
    (∀ point, point ∈ (state.next engine db rp event).points ∧
        ¬(state.next engine db rp event).Hidden engine db rp point ↔
      event.Writes point ∨ (live point ∧ ¬event.Deletes engine state.clock point)) ↔
    state.Harmless engine db rp event := by
  simp only [← now]
  cases event with
  | write points =>
    have grown : (state.next engine db rp (.write points)).points = state.points ++ points := rfl
    simp only [grown, mem_append]
    constructor
    · intro exact_ point written
      exact ((exact_ point).mpr (.inl written)).2
    · intro unhidden point
      have shown := unhidden point
      tauto
  | delete deletion =>
    have hidden : ∀ point,
        (state.next engine db rp (.delete deletion)).Hidden engine db rp point ↔ _ :=
      fun point => sound.hidden_delete_iff
    simp only [hidden]
    refine forall_congr' fun point => ?_
    rw [agrees_iff]
    generalize (∃ sql, _) = reached
    tauto
  | select measurement =>
    have same : ∀ point,
        (state.next engine db rp (.select measurement)).Hidden engine db rp point ↔
          state.Hidden engine db rp point := by
      intro point
      unfold Hidden DeletionState.next
      rw [tombstoneRows_select]
      rfl
    have kept : (state.next engine db rp (.select measurement)).points = state.points := rfl
    simp [same, kept, DeletionEvent.Writes, DeletionEvent.Deletes, Harmless]
  | advance clock =>
    refine forall_congr' fun point => ?_
    tauto

/-- An engine for which every predicate holds of every point. -/
def matchingEngine : DeletionEngine where
  evaluate _ _ _ := some true
  uuid number := String.ofList (replicate number 'a')
  uuid_injective first second same := by
    have lists := congrArg (·.toList.length) same
    simpa using lists

end DeletionState

end HyperbyteDb

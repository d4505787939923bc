import HyperbyteDb.ByteReaders
import HyperbyteDb.StatementExecution

/-!
# What authorization covers

A user who is let through touches no database without a grant exactly if the databases that
the execution finds for itself are those that the check has found: the sources of a subquery,
the qualified measurement of a `SHOW`, the sources and destinations of stored queries, the
destinations of dropped views and the databases whose stored queries are listed.
-/

namespace HyperbyteDb

open Ast ByteReaders List Operation Option

/-! ## Steps that stay within databases -/

def Stays (allowed : String → Prop) (steps : List Step) : Prop :=
  ∀ operation ∈ performed steps, ∀ name, operation.touches = some name → allowed name

def passes : List Step → Bool
  | [] => true
  | .perform _ :: rest => passes rest
  | .require holds :: rest => holds && passes rest

variable {dbs : List String}

section Stays

variable {allowed : String → Prop} {subject : Subject} {db : String} {steps rest : List Step}

@[simp] theorem stays_nil : Stays allowed [] := by
  rintro operation ⟨⟩

@[simp] theorem stays_perform {operation : Operation} :
    Stays allowed (.perform operation :: rest) ↔
      (∀ name, operation.touches = some name → allowed name) ∧ Stays allowed rest := by
  simp only [Stays, performed, forall_mem_cons]

@[simp] theorem stays_reads :
    Stays allowed (reads subject db :: rest) ↔ allowed db ∧ Stays allowed rest := by
  simp [reads, touches]

@[simp] theorem stays_writes :
    Stays allowed (writes subject db :: rest) ↔ allowed db ∧ Stays allowed rest := by
  simp [writes, touches]

@[simp] theorem stays_require {holds : Bool} :
    Stays allowed (.require holds :: rest) ↔ (holds = true → Stays allowed rest) := by
  cases holds <;> simp [Stays, performed]

@[simp] theorem passes_reads : passes (reads subject db :: rest) = passes rest := rfl

@[simp] theorem passes_writes : passes (writes subject db :: rest) = passes rest := rfl

theorem performed_append :
    performed (steps ++ rest) = performed steps ++ if passes steps then performed rest else [] := by
  induction steps with
  | nil => simp [performed, passes]
  | cons step steps ih =>
    match step with
    | .perform operation =>
      rw [cons_append, performed, ih]
      rfl
    | .require true => simp [performed, passes, ih]
    | .require false => simp [performed, passes]

@[simp] theorem stays_append :
    Stays allowed (steps ++ rest) ↔
      Stays allowed steps ∧ (passes steps = true → Stays allowed rest) := by
  unfold Stays
  rw [performed_append]
  by_cases passed : passes steps = true <;> simp [passed, or_imp, forall_and]

@[simp] theorem passes_append : passes (steps ++ rest) = (passes steps && passes rest) := by
  induction steps with
  | nil => rfl
  | cons step steps ih =>
    cases step <;> simp [passes, ih, Bool.and_assoc]

@[simp] theorem stays_map_reads :
    Stays allowed (dbs.map (reads subject)) ↔ ∀ db ∈ dbs, allowed db := by
  induction dbs with
  | nil => simp
  | cons db dbs ih => simp [ih]

variable {α : Type} {items : List α} {part : α → List Step}

theorem stays_flatMap (passed : ∀ item ∈ items, passes (part item) = true) :
    Stays allowed (items.flatMap part) ↔ ∀ item ∈ items, Stays allowed (part item) := by
  induction items with
  | nil => simp
  | cons item items ih =>
    rw [forall_mem_cons] at passed
    simp [passed.1, ih passed.2]

theorem stays_flatMap_of_forall (each : ∀ item ∈ items, Stays allowed (part item)) :
    Stays allowed (items.flatMap part) := by
  induction items with
  | nil => simp
  | cons item items ih =>
    rw [forall_mem_cons] at each
    simp [each.1, ih each.2]

end Stays

/-! ## Retention policies and queries -/

section Policies

variable {allowed : String → Prop} {db : String}

theorem stays_resolveRetentionPolicyForSelect (own : allowed db)
    (measurementRp queryRp : Option String) :
    Stays allowed (resolveRetentionPolicyForSelect db measurementRp queryRp) := by
  unfold resolveRetentionPolicyForSelect normalizeRpName
  split <;> [skip; split] <;> split <;> simp [own]

@[simp] theorem passes_resolveRetentionPolicyForSelect (measurementRp queryRp : Option String) :
    passes (resolveRetentionPolicyForSelect db measurementRp queryRp) = true := by
  unfold resolveRetentionPolicyForSelect normalizeRpName
  split <;> [skip; split] <;> split <;> simp [passes]

variable (rp : Option String)

/-- The name of a policy is looked up in the database. -/
def looksUpPolicy : Prop := rp = none ∨ rp = some "" ∨ rp = some "default"

theorem stays_resolveRetentionPolicy_iff (named : db ≠ "") (rp : Option String) :
    Stays allowed (resolveRetentionPolicy db rp) ↔ (looksUpPolicy rp → allowed db) := by
  unfold resolveRetentionPolicy resolveRetentionPolicyForSelect normalizeRpName looksUpPolicy
  cases rp with
  | none => simp [named]
  | some rp =>
    by_cases empty : rp = ""
    · simp [empty, Option.filter, named]
    · by_cases isDefault : rp = "default"
      · simp [isDefault, Option.filter]
      · simp [empty, isDefault, Option.filter]

theorem stays_resolveRetentionPolicy (own : allowed db) (rp : Option String) :
    Stays allowed (resolveRetentionPolicy db rp) :=
  stays_resolveRetentionPolicyForSelect own rp none

@[simp] theorem passes_resolveRetentionPolicy : passes (resolveRetentionPolicy db rp) = true :=
  passes_resolveRetentionPolicyForSelect rp none

@[simp] theorem passes_defaultPolicy : passes (defaultPolicy db rp) = true := by
  unfold defaultPolicy
  split <;> rfl

@[simp] theorem stays_defaultPolicy :
    Stays allowed (defaultPolicy db rp) ↔ (rp = none → allowed db) := by
  unfold defaultPolicy
  cases rp <;> simp

variable {svc : QueryService}

@[simp] theorem stays_executeMeasurementQuery (stmt : SelectStatement) :
    Stays allowed (executeMeasurementQuery svc db stmt) ↔
      (svc.multiSelector stmt = true → allowed db) := by
  simp only [executeMeasurementQuery, stays_require, stays_reads]
  tauto

@[simp] theorem passes_executeMeasurementQuery (stmt : SelectStatement) :
    passes (executeMeasurementQuery svc db stmt) =
      (svc.multiSelector stmt && svc.translates stmt) := by
  simp [executeMeasurementQuery, passes]

end Policies

/-! ## What the parser returns -/

def measurementOfParts : List String → Option Measurement
  | [name] => some { name := .name name }
  | [rp, name] => some { retentionPolicy := some rp, name := .name name }
  | [db, rp, name] =>
    some { database := some db, retentionPolicy := some rp, name := .name name }
  | _ => none

/-- The reading of texts that the parser does before it looks at measurements. -/
structure TextScanner where
  /-- The parts between dots outside of quotes, without quotes. -/
  dotParts : String → Except HyperbytedbError (List String)
  topLevelCommas : String → Except HyperbytedbError (List String)
  parseSelect : String → Except HyperbytedbError SelectStatement
  startsWithSelect : String → Bool

/-- The text between the first and the last character. -/
def innerText (input : String) : String := .ofList (input.toList.drop 1).dropLast

def parseMeasurement (scanner : TextScanner) (input : String) :
    Except HyperbytedbError Measurement :=
  if input.toList.head? = some '/' ∧ input.toList.getLast? = some '/' then
    .ok { name := .regex (innerText input) }
  else
    (scanner.dotParts input).bind fun parts =>
      match measurementOfParts parts with
      | some measurement => .ok measurement
      | none => .error (.queryParse s!"invalid measurement reference: {input}")

def parseFromSources (scanner : TextScanner) (input : String) :
    Except HyperbytedbError (List MeasurementSource) :=
  if input.toList.head? = some '(' ∧ input.toList.getLast? = some ')' ∧
      scanner.startsWithSelect (innerText input) = true then
    (scanner.parseSelect (innerText input)).map fun sub => [.subquery sub]
  else
    (scanner.topLevelCommas input).bind fun parts =>
      parts.mapM fun part => (parseMeasurement scanner part).map .concrete

def ParsedMeasurement (measurement : Measurement) : Prop :=
  measurement.database.isSome → measurement.retentionPolicy.isSome ∧
    ∃ name, measurement.name = .name name

def ParsedSources (sources : List MeasurementSource) : Prop :=
  (∃ sub, sources = [.subquery sub]) ∨ ∀ source ∈ sources, ∃ m, source = .concrete m

variable {measurement : Measurement}

theorem parsed_measurementOfParts {parts : List String}
    (parsed : measurementOfParts parts = some measurement) : ParsedMeasurement measurement := by
  unfold measurementOfParts at parsed
  split at parsed <;> cases parsed <;> simp [ParsedMeasurement]

variable {scanner : TextScanner} {input : String}

theorem parsed_parseMeasurement
    (parsed : parseMeasurement scanner input = .ok measurement) :
    ParsedMeasurement measurement := by
  unfold parseMeasurement at parsed
  split at parsed
  · cases parsed
    simp [ParsedMeasurement]
  · obtain ⟨parts, -, parsed⟩ := exists_of_bind_eq_ok parsed
    split at parsed
    next found =>
      cases parsed
      exact parsed_measurementOfParts found
    next => cases parsed

theorem parsed_parseFromSources
    {sources : List MeasurementSource} (parsed : parseFromSources scanner input = .ok sources) :
    ParsedSources sources := by
  unfold parseFromSources at parsed
  split at parsed
  · obtain ⟨sub, -, ⟨⟩⟩ := exists_of_bind_eq_ok parsed
    exact .inl ⟨sub, rfl⟩
  · obtain ⟨parts, -, read⟩ := exists_of_bind_eq_ok parsed
    refine .inr fun source isSource => ?_
    have each := forall₂_of_mapM_eq_ok read
    clear parsed read
    induction each with
    | nil => cases isSource
    | cons made _ ih =>
      obtain rfl | later := mem_cons.mp isSource
      · obtain ⟨measurement, -, ⟨⟩⟩ := exists_of_bind_eq_ok made
        exact ⟨measurement, rfl⟩
      · exact ih later

/-! ## Statements one by one -/

/-- The empty name stands for no database. -/
def Within (db name : String) : Prop := name = "" ∨ name = db

@[simp] theorem within_self (db : String) : Within db db := .inr rfl

variable {name : String}

section Statements

variable {svc : QueryService} {requestDb : String} {queryRp : Option String}

variable {db : String} {s : ShowStatement} {stmt : SelectStatement} {allowed : String → Prop}
  {from_ : Option Measurement}

theorem within_getD {database : Option String} :
    Within db (database.getD db) ↔ ∀ d, database = some d → Within db d := by
  cases database <;> simp

def SubqueryWithin (requestDb : String) (stmt : SelectStatement) : Prop :=
  ∀ sub measurement name rest, stmt.from_ = [.subquery sub] →
    sub.from_ = .concrete measurement :: rest → measurement.name = .name name →
      ∀ db, measurement.database = some db → Within requestDb db

theorem stays_subquery {sub stmt : SelectStatement} :
    Stays (Within requestDb) (executeSelectFromSource svc requestDb queryRp stmt (.subquery sub)) ↔
      ∀ measurement name rest, sub.from_ = .concrete measurement :: rest →
        measurement.name = .name name →
          ∀ db, measurement.database = some db → Within requestDb db := by
  rw [executeSelectFromSource]
  split
  next database retentionPolicy name first =>
    constructor
    · intro stays measurement other rest shape _ db hasDb
      rw [shape] at first
      cases first
      simp only [stays_append, stays_reads] at stays
      exact within_getD.mp (stays.2 (by simp)).1 db hasDb
    · intro within
      obtain ⟨rest, shape⟩ := head?_eq_some_iff.mp first
      have own : Within requestDb (database.getD requestDb) :=
        within_getD.mpr (within _ name rest shape rfl)
      simp only [stays_append, stays_reads]
      refine ⟨stays_resolveRetentionPolicyForSelect own _ _, fun _ => ⟨own, ?_⟩⟩
      split <;> simp [own]
  next noMeasurement =>
    simp only [stays_require, Bool.false_eq_true, false_imp_iff, true_iff]
    intro measurement name rest shape named
    obtain ⟨database, retentionPolicy, name'⟩ := measurement
    obtain rfl : name' = .name name := named
    exact absurd (by rw [shape]; rfl) (noMeasurement database retentionPolicy name)

theorem stays_concrete (own : allowed (measurement.database.getD requestDb)) :
    Stays allowed (executeSelectFromSource svc requestDb queryRp stmt (.concrete measurement)) := by
  simp only [executeSelectFromSource, stays_append]
  refine ⟨stays_resolveRetentionPolicyForSelect own _ _, fun _ => ?_⟩
  split
  · simp [own]
  · simp only [stays_reads, own, true_and]
    exact stays_flatMap_of_forall fun _ _ => by simp [own]

theorem stays_executeSelectInto_of
    (sources : ∀ m, .concrete m ∈ stmt.from_ → allowed (m.database.getD requestDb))
    (dest : ∀ m, stmt.into = some m → allowed (m.database.getD requestDb)) :
    Stays allowed (executeSelectInto svc requestDb stmt) := by
  unfold executeSelectInto
  split
  next intoDb intoRp target database retentionPolicy name hasInto first =>
    have read := sources _ (mem_of_head? first)
    have written := dest _ hasInto
    simp [stays_resolveRetentionPolicy, read, written]
  next => simp

/-- What a stored query reads and writes is in its own database. -/
def BodyWithin (svc : QueryService) (db : String) (stmt : SelectStatement) : Prop :=
  ∀ into target source name rest, stmt.into = some into → into.name = .name target →
    stmt.from_ = .concrete source :: rest → source.name = .name name →
      (looksUpPolicy source.retentionPolicy ∨ svc.multiSelector stmt = true →
        ∀ d, source.database = some d → Within db d) ∧
      (looksUpPolicy into.retentionPolicy ∨
          svc.multiSelector stmt = true ∧ svc.translates stmt = true →
        ∀ d, into.database = some d → Within db d)

theorem stays_resolve_within (database rp : Option String) :
    Stays (Within db) (resolveRetentionPolicy (database.getD db) rp) ↔
      (looksUpPolicy rp → ∀ d, database = some d → Within db d) := by
  by_cases empty : database.getD db = ""
  · have own : Within db (database.getD db) := .inl empty
    exact iff_of_true (stays_resolveRetentionPolicy own rp) fun _ => within_getD.mp own
  · rw [stays_resolveRetentionPolicy_iff empty, within_getD]

theorem stays_executeSelectInto :
    Stays (Within db) (executeSelectInto svc db stmt) ↔ BodyWithin svc db stmt := by
  unfold executeSelectInto
  split
  next intoDb intoRp target database retentionPolicy name hasInto first =>
    obtain ⟨rest, shape⟩ := head?_eq_some_iff.mp first
    simp only [stays_append, stays_resolve_within, passes_append, passes_resolveRetentionPolicy,
      Bool.true_and, forall_const, stays_executeMeasurementQuery, passes_executeMeasurementQuery,
      stays_writes, stays_nil, and_true, and_self, within_getD, Bool.and_eq_true, BodyWithin,
      hasInto, shape]
    constructor
    · rintro ⟨⟨⟨policy, intoPolicy⟩, read⟩, written⟩ into other source second tail
        ⟨⟩ - ⟨⟩ -
      exact ⟨fun reached => reached.elim policy read, fun reached => reached.elim intoPolicy written⟩
    · intro within
      obtain ⟨source, dest⟩ := within _ target _ name rest rfl rfl rfl rfl
      exact ⟨⟨⟨fun policy => source (.inl policy), fun policy => dest (.inl policy)⟩,
        fun reached => source (.inr reached)⟩, fun reached => dest (.inr reached)⟩
  next other =>
    simp only [stays_require, Bool.false_eq_true, false_imp_iff, true_iff]
    rintro ⟨intoDb, intoRp, _⟩ target ⟨database, retentionPolicy, _⟩ name rest hasInto rfl shape rfl
    exact absurd (by rw [shape]; rfl) (other intoDb intoRp target database retentionPolicy name hasInto)

/-! ### Tags -/

def ShownWithin (requestDb : String) (stmt : ShowStatement) : Prop :=
  ∀ measurement, stmt.from_ = some measurement →
    ∀ db, measurement.database = some db → Within (stmt.database.getD requestDb) db

variable (svc) in
theorem tagScope_fst (parsed : ∀ m, from_ = some m → ParsedMeasurement m) :
    (tagScope svc db from_).1 = (from_.bind Measurement.database).getD db := by
  fun_cases tagScope with
  | case1 | case2 => rfl
  | case3 database retentionPolicy name notSharded noPolicy =>
    cases database with
    | none => rfl
    | some d => exact absurd (parsed _ rfl rfl).1 noPolicy
  | case4 _ other =>
    cases from_ with
    | none => rfl
    | some m =>
      obtain ⟨database, retentionPolicy, name | pattern⟩ := m
      · exact absurd rfl (other database retentionPolicy name)
      · cases database with
        | none => rfl
        | some d =>
          obtain ⟨-, name, named⟩ := parsed _ rfl rfl
          cases named

theorem passes_tagScope : passes (tagScope svc db from_).2 = true := by
  fun_cases tagScope with
  | case1 => split <;> simp [passes]
  | _ => simp [passes]

theorem stays_tagScope (own : allowed (tagScope svc db from_).1) :
    Stays allowed (tagScope svc db from_).2 := by
  revert own
  fun_cases tagScope with
  | case1 =>
    intro own
    split <;> simp [stays_resolveRetentionPolicy own]
  | case2 => exact fun own => stays_resolveRetentionPolicy own _
  | _ => simp

theorem stays_readTagKeys :
    Stays allowed (readTagKeys svc db from_) ↔ allowed (tagScope svc db from_).1 := by
  simp only [readTagKeys, stays_append, stays_reads, stays_nil, and_true, passes_tagScope,
    forall_const, and_iff_right_iff_imp]
  exact stays_tagScope

theorem passes_readTagKeys : passes (readTagKeys svc db from_) = true := by
  simp [readTagKeys, passes_tagScope, passes]

theorem shownWithin_iff :
    Within (s.database.getD requestDb)
      ((s.from_.bind Measurement.database).getD (s.database.getD requestDb)) ↔
        ShownWithin requestDb s := by
  rw [within_getD]
  unfold ShownWithin
  cases s.from_ <;> simp

theorem stays_executeShowTagKeys (parsed : ∀ m, s.from_ = some m → ParsedMeasurement m) :
    Stays (Within (s.database.getD requestDb)) (executeShowTagKeys svc requestDb queryRp s) ↔
      ShownWithin requestDb s := by
  have policy := stays_resolveRetentionPolicyForSelect
    (within_self (s.database.getD requestDb)) none queryRp
  simp only [executeShowTagKeys, stays_append, policy, passes_resolveRetentionPolicyForSelect,
    stays_readTagKeys, tagScope_fst svc parsed, true_and, forall_const, shownWithin_iff]

theorem stays_measurementsOf (own : allowed db) :
    Stays allowed (measurementsOf svc db from_).1 := by
  unfold measurementsOf
  split <;> simp [own]

theorem stays_executeShowTagValues (parsed : ∀ m, s.from_ = some m → ParsedMeasurement m) :
    Stays (Within (s.database.getD requestDb)) (executeShowTagValues svc requestDb queryRp s) ↔
      ShownWithin requestDb s := by
  have policy := stays_resolveRetentionPolicyForSelect
    (within_self (s.database.getD requestDb)) none queryRp
  simp only [executeShowTagValues, stays_append, policy, passes_resolveRetentionPolicyForSelect,
    passes_append, stays_readTagKeys, passes_readTagKeys, tagScope_fst svc parsed, true_and,
    Bool.and_self, forall_const, shownWithin_iff, and_iff_left_iff_imp]
  intro shown
  have own := shownWithin_iff.mpr shown
  split
  next condition _ =>
    simp only [cons_append, stays_require, stays_append]
    refine fun _ => ⟨⟨stays_measurementsOf (within_self _), fun _ => ?_⟩, fun _ => ?_⟩
    · split
      · exact stays_resolveRetentionPolicy own _
      · exact stays_nil
    · exact stays_flatMap_of_forall fun _ _ => by simp [own]
  next =>
    refine stays_flatMap_of_forall fun _ _ => ?_
    simp only [stays_append, stays_reads, stays_nil, and_true]
    rw [← tagScope_fst svc parsed] at own
    exact ⟨stays_tagScope own, fun _ => by rwa [← tagScope_fst svc parsed]⟩

@[simp] theorem stays_executeShowFieldKeys :
    Stays (Within (s.database.getD requestDb)) (executeShowFieldKeys svc requestDb queryRp s) := by
  unfold executeShowFieldKeys
  dsimp only
  split
  · simp
  · simp only [stays_append]
    exact ⟨⟨stays_resolveRetentionPolicyForSelect (within_self _) _ _,
      fun _ => stays_measurementsOf (within_self _)⟩,
      fun _ => stays_flatMap_of_forall fun _ _ => by simp⟩

@[simp] theorem stays_executeShowSeries :
    Stays (Within (s.database.getD requestDb)) (executeShowSeries svc requestDb queryRp s) := by
  unfold executeShowSeries
  dsimp only
  split
  · simp
  · simp only [stays_append]
    refine ⟨⟨stays_measurementsOf (within_self _), fun _ => ?_⟩,
      fun _ => stays_flatMap_of_forall fun _ _ => by simp⟩
    split
    · exact stays_resolveRetentionPolicy (within_self _) _
    · exact stays_resolveRetentionPolicyForSelect (within_self _) _ _

@[simp] theorem stays_executeShowCardinality {kind : CardinalityKind} :
    Stays (Within ((s.from_.bind Measurement.database).getD (s.database.getD requestDb)))
      (executeShowCardinality svc requestDb queryRp kind s) := by
  simp only [executeShowCardinality, getD_or]
  split
  · simp
  · simp only [cons_append, stays_require, stays_append]
    refine fun _ => ⟨⟨stays_resolveRetentionPolicyForSelect (within_self _) _ _,
      fun _ _ => ?_⟩, fun _ => ?_⟩
    · split
      · simp
      · exact stays_measurementsOf (within_self _)
    · refine stays_flatMap_of_forall fun _ _ => ?_
      generalize cardinalitySubjects kind s.condition.isSome = subjects
      induction subjects with
      | nil => simp
      | cons subject subjects ih => simp [ih]

/-! ### Stored queries -/

theorem stays_executeCreateContinuousQuery {cq : CreateContinuousQueryStatement} :
    Stays (Within cq.database) (executeCreateContinuousQuery svc cq) ↔
      (deriveSchedule cq = true → BodyWithin svc cq.database cq.query) := by
  simp only [executeCreateContinuousQuery, cons_append, nil_append, stays_perform,
    touches, reduceCtorEq, false_imp_iff, implies_true, true_and, stays_require,
    stays_writes, within_self, stays_executeSelectInto, Bool.and_eq_true, and_imp]
  constructor
  · intro within schedule
    by_cases hasInto : cq.query.into.isSome = true
    · exact within hasInto schedule
    · intro into target source name rest isInto
      rw [isInto] at hasInto
      exact absurd rfl hasInto
  · exact fun within _ => within

/-- Where a view can be created, its source is in its own database, and its destination too
if the creation gets that far. -/
def ViewWithin (svc : QueryService) (mv : CreateMaterializedViewStatement) : Prop :=
  mv.query.fields.all (·.alias_.isSome) = true → svc.view mv.database mv.name = none →
    ∀ source sourceRp dest destRp, extractSource mv.query mv.database = some (source, sourceRp) →
      extractDest mv.query mv.database = some (dest, destRp) →
        Within mv.database source ∧
          (destRp = none ∨ svc.sharded = true ∨ svc.fieldRollups mv.query.fields = true →
            Within mv.database dest)

variable {mv : CreateMaterializedViewStatement}

theorem stays_materializeDdl {source dest : String} (notSharded : svc.sharded = false) :
    Stays allowed (materializeDdl svc source dest mv) ↔
      allowed source ∧ (svc.fieldRollups mv.query.fields = true → allowed dest) := by
  simp only [materializeDdl, notSharded, Bool.false_and, Bool.false_eq_true, if_false,
    cons_append, nil_append, stays_reads, stays_require, stays_writes]
  tauto

theorem stays_executeCreateMaterializedView :
    Stays (Within mv.database) (executeCreateMaterializedView svc mv) ↔ ViewWithin svc mv := by
  simp only [executeCreateMaterializedView, cons_append, nil_append, stays_perform,
    touches, reduceCtorEq, false_imp_iff, implies_true, true_and, stays_require,
    stays_reads, within_self, isNone_iff_eq_none]
  refine forall_congr' fun named => forall_congr' fun isNew => ?_
  split
  next source sourceRp dest destRp isSource isDest =>
    simp only [isSource, isDest, some.injEq, Prod.mk.injEq, stays_append, stays_defaultPolicy,
      passes_append, passes_defaultPolicy, Bool.true_and, forall_const, stays_writes, within_self,
      stays_nil, and_true, implies_true]
    by_cases isSharded : svc.sharded = true
    · rw [if_pos isSharded]
      constructor
      · rintro ⟨⟨-, bootstrap⟩, -⟩ _ _ _ _ ⟨rfl, rfl⟩ ⟨rfl, rfl⟩
        simp only [bootstrapView, cons_append, stays_reads, stays_writes] at bootstrap
        exact ⟨bootstrap.1, fun _ => bootstrap.2.2.2.1⟩
      · intro within
        obtain ⟨sourceIn, destIn⟩ := within _ _ _ _ ⟨rfl, rfl⟩ ⟨rfl, rfl⟩
        replace destIn := destIn (.inr (.inl isSharded))
        refine ⟨⟨⟨fun _ => destIn, fun _ => sourceIn⟩, ?_⟩, fun _ => ?_⟩
        · unfold bootstrapView
          split <;> simp [sourceIn, destIn]
        · unfold materializeDdl
          split <;> simp [sourceIn, destIn]
    · rw [if_neg isSharded, stays_materializeDdl (by simpa using isSharded)]
      constructor
      · rintro ⟨⟨⟨policy, -⟩, -⟩, ddl⟩ _ _ _ _ ⟨rfl, rfl⟩ ⟨rfl, rfl⟩
        obtain ⟨sourceIn, destIn⟩ := ddl (by rfl)
        exact ⟨sourceIn, fun reached => reached.elim policy fun later =>
          destIn (later.resolve_left isSharded)⟩
      · intro within
        obtain ⟨sourceIn, destIn⟩ := within _ _ _ _ ⟨rfl, rfl⟩ ⟨rfl, rfl⟩
        exact ⟨⟨⟨fun noPolicy => destIn (.inl noPolicy), fun _ => sourceIn⟩, stays_nil⟩,
          fun _ => ⟨sourceIn, fun rollups => destIn (.inr (.inr rollups))⟩⟩
  next other =>
    simp only [stays_require, Bool.false_eq_true, false_imp_iff, true_iff]
    intro source sourceRp dest destRp isSource isDest
    exact absurd isDest (other source sourceRp dest destRp isSource)

/-! ### Dropped views -/

theorem stays_dropMv :
    Stays (Within db) (dropMv svc db name) ↔
      ∀ def_, svc.view db name = some def_ → Within db def_.destDb := by
  simp only [dropMv]
  split
  next def_ found => simp [found]
  next missing => simp [missing]

/-- The views that go with a measurement have written to the same database. -/
def CascadeWithin (svc : QueryService) (db measurement : String) : Prop :=
  ∀ name ∈ svc.viewNames db, ∀ def_, svc.view db name = some def_ → def_.sourceDb = db →
    def_.sourceMeasurement = measurement → Within db def_.destDb

theorem stays_dropForSourceMeasurement {measurement : String} :
    Stays (Within db) (dropForSourceMeasurement svc db measurement) ↔
      CascadeWithin svc db measurement := by
  simp only [dropForSourceMeasurement, stays_reads, within_self, true_and]
  rw [stays_flatMap]
  · refine forall_congr' fun name => forall_congr' fun _ => ?_
    cases found : svc.view db name with
    | none => simp
    | some def_ =>
      simp only [some.injEq, forall_eq']
      split
      next isSource =>
        rw [stays_dropMv]
        simp [found, isSource]
      next notSource =>
        simp only [stays_nil, true_iff]
        exact fun sameDb same => absurd ⟨sameDb, same⟩ notSource
  · intro name _
    cases found : svc.view db name with
    | none => rfl
    | some def_ =>
      dsimp only
      split
      · simp [dropMv, found, passes]
      · rfl

theorem stays_scatterDelete : Stays (Within db) (scatterDelete svc db) := by
  unfold scatterDelete
  split <;> simp

theorem stays_executeDropMeasurement {rp : Option String} :
    Stays (Within db) (executeDropMeasurement svc db name rp) ↔ CascadeWithin svc db name := by
  simp [executeDropMeasurement, stays_dropForSourceMeasurement, stays_scatterDelete]

@[simp] theorem stays_executeDelete {stmt : DeleteStatement} :
    Stays (Within db) (executeDelete svc db queryRp stmt) := by
  unfold executeDelete
  split <;> simp [stays_scatterDelete]

@[simp] theorem stays_executeDropSeries {s : DropSeriesStatement} :
    Stays (Within (s.database.getD requestDb)) (executeDropSeries svc requestDb queryRp s) := by
  unfold executeDropSeries
  simp only [stays_append, stays_defaultPolicy, within_self, implies_true, true_and]
  refine ⟨fun _ => by split <;> simp, fun _ => ?_⟩
  split
  · split <;> simp [stays_scatterDelete]
  · split
    · simp [stays_flatMap_of_forall, stays_scatterDelete]
    · simp
  · simp

end Statements

/-! ## The check and the execution -/

def Covers (targets : StatementAuthTargets) (name : String) : Prop :=
  targets.requiresAdmin = true ∨ name ∈ targets.read ∨ name ∈ targets.write

variable (svc : QueryService) (db : String) (queryRp : Option String) (stmt : Statement)

/-- Each database that is touched, whichever operations fail, is a target, or the statement
is for administrators. -/
def TargetsCover : Prop :=
  ∀ done : List Operation, done.Sublist (performed (executeStatement svc db queryRp stmt)) →
    ∀ operation ∈ done, ∀ name, operation.touches = some name → name ≠ "" →
      Covers (statementAuthTargets stmt db) name

/-- A user who is let through has a grant on each database that is touched. -/
def GrantsCover : Prop :=
  ∀ user : StoredUser, user.admin = false → checkAuthorization user db stmt = .ok () →
    ∀ done : List Operation, done.Sublist (performed (executeStatement svc db queryRp stmt)) →
      ∀ operation ∈ done, ∀ name, operation.touches = some name → name ≠ "" →
        user.canRead name = true ∨ user.canWrite name = true

def ParsedStatement : Statement → Prop
  | .select s => ParsedSources s.from_
  | .showTagKeys s | .showTagValues s => ∀ m, s.from_ = some m → ParsedMeasurement m
  | _ => True

/-- The databases that the execution finds for itself are those of the check. -/
def WithinTargets (requestDb : String) : Statement → Prop
  | .select s => s.into.isSome = true ∨ requestDb = "" ∨ SubqueryWithin requestDb s
  | .showTagKeys s | .showTagValues s => ShownWithin requestDb s
  | .showContinuousQueries | .showMaterializedViews => ∀ db ∈ svc.databases, Within requestDb db
  | .createContinuousQuery cq => deriveSchedule cq = true → BodyWithin svc cq.database cq.query
  | .createMaterializedView mv => ViewWithin svc mv
  | .dropMaterializedView name db =>
    ∀ def_, svc.view (resolveOnDb db requestDb) name = some def_ →
      Within (resolveOnDb db requestDb) def_.destDb
  | .dropMeasurement name _ => CascadeWithin svc requestDb name
  | _ => True

section Coverage

variable {svc : QueryService} {db : String} {queryRp : Option String} {stmt : Statement}

theorem grantsCover_of_targetsCover (covered : TargetsCover svc db queryRp stmt) :
    GrantsCover svc db queryRp stmt := by
  intro user notAdmin passed done isDone operation isOperation name touched named
  obtain ⟨noAdmin, canRead, canWrite⟩ := grants_of_checkAuthorization notAdmin passed
  obtain admin | isRead | isWrite := covered done isDone operation isOperation name touched named
  · rw [noAdmin] at admin
    cases admin
  · exact .inl (canRead name isRead)
  · exact .inr (canWrite name isWrite)

theorem targetsCover_iff_stays :
    TargetsCover svc db queryRp stmt ↔
      Stays (fun name => name ≠ "" → Covers (statementAuthTargets stmt db) name)
        (statementSteps svc db queryRp stmt) := by
  have wholeRun : TargetsCover svc db queryRp stmt ↔
      Stays (fun name => name ≠ "" → Covers (statementAuthTargets stmt db) name)
        (executeStatement svc db queryRp stmt) :=
    ⟨fun covered => covered _ (.refl _), fun stays done isDone operation isOperation =>
      stays operation (isDone.subset isOperation)⟩
  rw [wholeRun, executeStatement]
  split <;> simp [touches]

theorem targetsCover_iff_within {target : String}
    (single : statementAuthTargets stmt db = .reading target ∨
      statementAuthTargets stmt db = .writing target) :
    TargetsCover svc db queryRp stmt ↔
      Stays (Within target) (statementSteps svc db queryRp stmt) := by
  have same : (fun name => name ≠ "" → Covers (statementAuthTargets stmt db) name) =
      Within target := by
    funext name
    obtain is | is := single <;>
      simp [is, Covers, Within, StatementAuthTargets.reading, StatementAuthTargets.writing] <;>
      grind
  rw [targetsCover_iff_stays, same]



theorem mem_foldl_pushDbUnique {init : List String} :
    name ∈ dbs.foldl pushDbUnique init ↔ name ∈ init ∨ name ∈ dbs ∧ name ≠ "" := by
  induction dbs generalizing init with
  | nil => simp
  | cons db dbs ih =>
    rw [foldl_cons, ih, mem_pushDbUnique]
    grind

/-- The sources that a query names, and its destination, are targets. -/
theorem covers_select {s : SelectStatement} :
    Covers (statementAuthTargets (.select s) db) name ↔
      name ≠ "" ∧ (name = db ∨ name ∈ s.from_.filterMap namedDatabase ∨
        ∃ into, s.into = some into ∧ name = into.database.getD db) := by
  simp only [Covers, statementAuthTargets, mem_foldl_pushDbUnique]
  cases s.into <;> simp <;> grind

theorem stays_executeSelect {s : SelectStatement} (parsed : ParsedSources s.from_) :
    Stays (fun name => name ≠ "" → Covers (statementAuthTargets (.select s) db) name)
      (executeSelect svc db queryRp s) ↔ s.into.isSome = true ∨ db = "" ∨ SubqueryWithin db s := by
  have named : ∀ m, .concrete m ∈ s.from_ → m.database.getD db ≠ "" →
      Covers (statementAuthTargets (.select s) db) (m.database.getD db) := by
    intro m isSource notEmpty
    refine covers_select.mpr ⟨notEmpty, ?_⟩
    cases hasDb : m.database with
    | none => exact .inl rfl
    | some d => exact .inr (.inl (mem_filterMap.mpr ⟨_, isSource, hasDb⟩))
  unfold executeSelect
  split
  next noDb => simp [noDb]
  next hasDb =>
    split
    next hasInto =>
      simp only [hasInto, true_or, iff_true]
      refine stays_executeSelectInto_of named fun m isInto notEmpty => ?_
      exact covers_select.mpr ⟨notEmpty, .inr (.inr ⟨m, isInto, rfl⟩)⟩
    next noInto =>
      rw [stays_require, or_iff_right noInto, or_iff_right hasDb]
      obtain ⟨sub, single⟩ | concretes := parsed
      · have same : (fun name => name ≠ "" → Covers (statementAuthTargets (.select s) db) name) =
            Within db := by
          funext name
          simp only [covers_select, single, filterMap_cons, namedDatabase, Within]
          cases hasInto : s.into with
          | none => grind
          | some into => simp [hasInto] at noInto
        rw [same]
        simp only [isEmpty_cons, Bool.not_false, forall_const, flatMap_cons,
          flatMap_nil, append_nil, stays_subquery, SubqueryWithin, single]
        constructor
        · rintro within other measurement name rest ⟨⟩
          exact within measurement name rest
        · exact fun within measurement name rest => within sub measurement name rest rfl
      · refine iff_of_true (fun _ => stays_flatMap_of_forall fun source isSource => ?_) ?_
        · obtain ⟨m, rfl⟩ := concretes source isSource
          exact stays_concrete (named m isSource)
        · intro sub measurement name rest single
          obtain ⟨m, shape⟩ := concretes (.subquery sub) (by rw [single]; exact mem_cons_self)
          cases shape

/-- The check covers what a statement does exactly if what the execution finds for itself is
within the targets. -/
theorem authorization_complete_iff (svc : QueryService) (db : String) (queryRp : Option String)
    (stmt : Statement) (parsed : ParsedStatement stmt) :
    TargetsCover svc db queryRp stmt ∧ GrantsCover svc db queryRp stmt ↔
      WithinTargets svc db stmt := by
  rw [and_iff_left_of_imp grantsCover_of_targetsCover]
  match stmt with
  | .createDatabase _ | .dropDatabase _ | .createUser _ | .dropUser _ | .setPassword _
  | .grant .. | .revoke .. | .showGrants _ | .setSetting _ =>
    exact iff_of_true (fun _ _ _ _ _ _ _ => .inl rfl) trivial
  | .select s =>
    rw [targetsCover_iff_stays]
    exact stays_executeSelect parsed
  | .showTagKeys s =>
    rw [targetsCover_iff_within (.inl rfl)]
    exact stays_executeShowTagKeys parsed
  | .showTagValues s =>
    rw [targetsCover_iff_within (.inl rfl)]
    exact stays_executeShowTagValues parsed
  | .createContinuousQuery cq =>
    rw [targetsCover_iff_within (.inr rfl)]
    exact stays_executeCreateContinuousQuery
  | .createMaterializedView mv =>
    rw [targetsCover_iff_within (.inr rfl)]
    exact stays_executeCreateMaterializedView
  | .dropMaterializedView name mvDb =>
    rw [targetsCover_iff_within (.inr rfl), statementSteps, executeDropMaterializedView,
      stays_perform, stays_dropMv]
    exact and_iff_right (by simp [touches])
  | .dropMeasurement name rp =>
    rw [targetsCover_iff_within (.inr rfl)]
    exact stays_executeDropMeasurement
  | .showContinuousQueries | .showMaterializedViews =>
    rw [targetsCover_iff_within (.inl rfl), statementSteps, stays_perform, stays_map_reads]
    exact and_iff_right (by simp [touches])
  | .showMeasurements database =>
    rw [targetsCover_iff_within (.inl rfl), statementSteps]
    refine iff_of_true ?_ trivial
    split
    · simp
    · simp [stays_resolveRetentionPolicyForSelect]
  | .showRetentionPolicies rpDb =>
    rw [targetsCover_iff_within (.inl rfl), statementSteps]
    refine iff_of_true ?_ trivial
    split <;> simp [touches]
  | .showDatabases | .showUsers | .showSettings | .showFieldKeys _ | .showSeries _
  | .showCardinality .. =>
    rw [targetsCover_iff_within (.inl rfl)]
    exact iff_of_true (by simp [statementSteps, touches]) trivial
  | .createRetentionPolicy .. | .alterRetentionPolicy .. | .dropRetentionPolicy ..
  | .dropContinuousQuery .. | .delete _ | .dropSeries _ =>
    rw [targetsCover_iff_within (.inr rfl)]
    exact iff_of_true (by simp [statementSteps, touches]) trivial

end Coverage

/-! ## A query over a subquery -/

def plainService : QueryService where
  sharded := false
  databases := ["mine", "secret"]
  measurements _ := ["cpu"]
  viewNames _ := []
  view _ _ := none
  matchingKeys _ := []
  regexMatches _ _ := false
  multiSelector _ := true
  translates _ := true
  tagPredicate _ := true
  fieldRollups _ := true

def outerQuery (database : Option String) : Statement :=
  .select { fields := [⟨.star, none⟩], from_ := [.subquery { fields := [⟨.star, none⟩], from_ :=
    [.concrete { database, retentionPolicy := some "autogen", name := .name "cpu" }] }] }

theorem outerQuery_mine_covered :
    TargetsCover plainService "mine" none (outerQuery (some "mine")) ∧
      GrantsCover plainService "mine" none (outerQuery (some "mine")) := by
  refine (authorization_complete_iff plainService "mine" none (outerQuery (some "mine"))
    (.inl ⟨_, rfl⟩)).mpr (.inr (.inr ?_))
  rintro sub measurement name rest ⟨⟩ ⟨⟩ - db ⟨⟩
  exact within_self "mine"

def mineReader : StoredUser := ⟨false, Std.ExtTreeMap.ofList [("mine", DatabasePrivilege.read)]⟩

/-- A user who may read `mine` is let through and reads `secret`. -/
theorem outerQuery_secret_not_covered :
    checkAuthorization mineReader "mine" (outerQuery (some "secret")) = .ok () ∧
      (mineReader.canRead "secret" || mineReader.canWrite "secret") = false ∧
      .read .points "secret" ∈
        performed (executeStatement plainService "mine" none (outerQuery (some "secret"))) ∧
      ¬ (TargetsCover plainService "mine" none (outerQuery (some "secret")) ∧
        GrantsCover plainService "mine" none (outerQuery (some "secret"))) := by
  have passed : checkAuthorization mineReader "mine" (outerQuery (some "secret")) = .ok () := by
    decide +kernel
  have noGrant : (mineReader.canRead "secret" || mineReader.canWrite "secret") = false := by
    decide +kernel
  have reached : .read .points "secret" ∈
      performed (executeStatement plainService "mine" none (outerQuery (some "secret"))) := by
    decide +kernel
  refine ⟨passed, noGrant, reached, fun ⟨_, granted⟩ => ?_⟩
  have grant := granted mineReader rfl passed _ (.refl _) _ reached "secret" rfl (by decide)
  rw [← Bool.or_eq_true] at grant
  cases grant

end HyperbyteDb

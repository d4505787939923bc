import HyperbyteDb.QueryAst
import HyperbyteDb.ServiceErrors

/-!
# What the execution of a statement does

The execution of a statement is a list of steps: operations on databases, and checks that end
the execution where they fail.
-/

namespace HyperbyteDb

open Ast Measurement

/-! ## Statements -/

structure ShowStatement where
  database : Option String := none
  from_ : Option Measurement := none
  condition : Option Expr := none

inductive CardinalityKind where
  | series | measurement | tagKey | tagValues | fieldKey
deriving DecidableEq

structure DropSeriesStatement where
  database : Option String
  from_ : Option MeasurementName
  condition : Option Expr

structure DeleteStatement where
  from_ : String
  condition : Option Expr

structure CreateContinuousQueryStatement where
  name : String
  database : String
  query : SelectStatement
  resampleEvery : Option Duration := none
  resampleFor : Option Duration := none

structure CreateMaterializedViewStatement where
  name : String
  database : String
  query : SelectStatement
  backfillOnCreate : Bool := false

/-- The statements, with the parts that say which databases they are about. -/
inductive Statement where
  | select (stmt : SelectStatement)
  | showDatabases
  | showMeasurements (database : Option String)
  | showTagKeys (stmt : ShowStatement)
  | showTagValues (stmt : ShowStatement)
  | showFieldKeys (stmt : ShowStatement)
  | showSeries (stmt : ShowStatement)
  | showCardinality (kind : CardinalityKind) (stmt : ShowStatement)
  | createDatabase (name : String)
  | dropDatabase (name : String)
  | dropMeasurement (name : String) (rp : Option String)
  | dropSeries (stmt : DropSeriesStatement)
  | showRetentionPolicies (db : String)
  | showUsers
  | showGrants (username : String)
  | dropUser (username : String)
  | createRetentionPolicy (name db : String)
  | alterRetentionPolicy (name db : String)
  | dropRetentionPolicy (name db : String)
  | createUser (username : String)
  | setPassword (username : String)
  | grant (username : String) (database : Option String)
  | revoke (username : String) (database : Option String)
  | delete (stmt : DeleteStatement)
  | createContinuousQuery (stmt : CreateContinuousQueryStatement)
  | showContinuousQueries
  | dropContinuousQuery (name db : String)
  | createMaterializedView (stmt : CreateMaterializedViewStatement)
  | showMaterializedViews
  | setSetting (name : String)
  | showSettings
  | dropMaterializedView (name db : String)

/-! ## Targets -/

structure StatementAuthTargets where
  read : List String := []
  write : List String := []
  requiresAdmin : Bool := false

/-- The empty name stands for no database. -/
def pushDbUnique (targets : List String) (db : String) : List String :=
  if db ≠ "" ∧ db ∉ targets then targets ++ [db] else targets

@[simp] theorem mem_pushDbUnique {targets : List String} {db name : String} :
    name ∈ pushDbUnique targets db ↔ name ∈ targets ∨ name = db ∧ db ≠ "" := by
  unfold pushDbUnique
  split <;> simp_all

/-- `ON <db>`, where an empty name stands for the database of the request. -/
def resolveOnDb (stmtDb requestDb : String) : String :=
  if stmtDb = "" then requestDb else stmtDb

namespace StatementAuthTargets

def reading (db : String) : StatementAuthTargets := { read := pushDbUnique [] db }

def writing (db : String) : StatementAuthTargets := { write := pushDbUnique [] db }

def administering : StatementAuthTargets := { requiresAdmin := true }

end StatementAuthTargets

def namedDatabase : MeasurementSource → Option String
  | .concrete measurement => measurement.database
  | .subquery _ => none

open StatementAuthTargets in
def statementAuthTargets (stmt : Statement) (requestDb : String) : StatementAuthTargets :=
  match stmt with
  | .createDatabase _ | .dropDatabase _ | .createUser _ | .dropUser _ | .setPassword _
  | .grant .. | .revoke .. | .showGrants _ | .setSetting _ => administering
  | .select s =>
    { read := (s.from_.filterMap namedDatabase).foldl pushDbUnique (pushDbUnique [] requestDb)
      write :=
        match s.into with
        | some into => pushDbUnique [] (into.database.getD requestDb)
        | none => [] }
  | .showRetentionPolicies db => reading (resolveOnDb db requestDb)
  | .showMeasurements database => reading (database.getD requestDb)
  | .showTagKeys s | .showTagValues s | .showFieldKeys s | .showSeries s =>
    reading (s.database.getD requestDb)
  | .showCardinality _ s =>
    reading (((s.from_.bind database).or s.database).getD requestDb)
  | .showDatabases | .showUsers | .showContinuousQueries | .showMaterializedViews
  | .showSettings => reading requestDb
  | .createRetentionPolicy _ db | .alterRetentionPolicy _ db | .dropRetentionPolicy _ db =>
    writing (resolveOnDb db requestDb)
  | .createContinuousQuery cq => writing cq.database
  | .dropContinuousQuery _ db => writing (resolveOnDb db requestDb)
  | .createMaterializedView mv => writing mv.database
  | .dropMaterializedView _ db => writing (resolveOnDb db requestDb)
  | .dropSeries s => writing (s.database.getD requestDb)
  | .delete _ | .dropMeasurement .. => writing requestDb

/-! ## Users -/

inductive DatabasePrivilege where
  | read | write | all
deriving DecidableEq

structure StoredUser where
  admin : Bool
  privileges : Std.ExtTreeMap String DatabasePrivilege

namespace StoredUser

def canRead (user : StoredUser) (db : String) : Bool :=
  user.admin || user.privileges[db]? = some .read || user.privileges[db]? = some .all

def canWrite (user : StoredUser) (db : String) : Bool :=
  user.admin || user.privileges[db]? = some .write || user.privileges[db]? = some .all

end StoredUser

def checkAuthorization (user : StoredUser) (db : String) (stmt : Statement) :
    Except HyperbytedbError Unit :=
  if user.admin then .ok ()
  else
    let targets := statementAuthTargets stmt db
    if targets.requiresAdmin then .error (.forbidden "admin privileges required")
    else
      match targets.read.find? fun name => !user.canRead name with
      | some name => .error (.forbidden s!"not authorized to read from database '{name}'")
      | none =>
        match targets.write.find? fun name => !user.canWrite name with
        | some name => .error (.forbidden s!"not authorized to write to database '{name}'")
        | none => .ok ()

/-- A user who is let through without being an administrator has a grant on each target. -/
theorem grants_of_checkAuthorization {user : StoredUser} {db : String} {stmt : Statement}
    (notAdmin : user.admin = false) (passed : checkAuthorization user db stmt = .ok ()) :
    (statementAuthTargets stmt db).requiresAdmin = false ∧
      (∀ name ∈ (statementAuthTargets stmt db).read, user.canRead name = true) ∧
      ∀ name ∈ (statementAuthTargets stmt db).write, user.canWrite name = true := by
  revert passed
  fun_cases checkAuthorization with
  | case1 isAdmin => simp [notAdmin] at isAdmin
  | case5 _ _ noAdmin reads writes =>
    rw [List.find?_eq_none] at reads writes
    exact fun _ => ⟨by simpa using noAdmin, fun name isRead => by simpa using reads name isRead,
      fun name isWrite => by simpa using writes name isWrite⟩
  | _ => rintro ⟨⟩

/-! ## What the execution of a statement does -/

/-! ## Steps -/

/-- What an operation reads or writes in a database. -/
inductive Subject where
  | database | retentionPolicies | measurements | tagKeys | tagValues | fieldKeys | series
  | columns | points | tombstones | continuousQueries | materializedViews | shardSpaces
deriving DecidableEq

inductive Operation where
  | getDatabase (db : String)
  | listDatabases
  | accounts
  | settings
  | read (subject : Subject) (db : String)
  | write (subject : Subject) (db : String)
deriving DecidableEq

/-- The database whose data, schema or series an operation is about.  The names of the
databases are not a part of any of them. -/
def Operation.touches : Operation → Option String
  | .read _ db | .write _ db => some db
  | .getDatabase _ | .listDatabases | .accounts | .settings => none

inductive Step where
  | perform (operation : Operation)
  | require (holds : Bool)

/-- The operations before the first check that fails. -/
def performed : List Step → List Operation
  | [] => []
  | .perform operation :: rest => operation :: performed rest
  | .require true :: rest => performed rest
  | .require false :: _ => []

def reads (subject : Subject) (db : String) : Step := .perform (.read subject db)

def writes (subject : Subject) (db : String) : Step := .perform (.write subject db)

/-! ## Services -/

structure MaterializedViewDef where
  sourceDb : String
  sourceMeasurement : String
  destDb : String

/-- What the service knows, and the checks that it leaves to the translation of queries. -/
structure QueryService where
  sharded : Bool
  databases : List String
  measurements : String → List String
  viewNames : String → List String
  view : String → String → Option MaterializedViewDef
  /-- The tag keys that `SHOW TAG VALUES` finds and selects. -/
  matchingKeys : ShowStatement → List String
  regexMatches : String → String → Bool
  /-- The arguments of `TOP`, `BOTTOM` and `SAMPLE` are in order. -/
  multiSelector : SelectStatement → Bool
  translates : SelectStatement → Bool
  tagPredicate : Expr → Bool
  fieldRollups : List Field → Bool

/-! ## Retention policies -/

def normalizeRpName (db rp : String) : List Step :=
  if rp = "default" then [reads .retentionPolicies db] else []

def resolveRetentionPolicyForSelect (db : String) (measurementRp queryRp : Option String) :
    List Step :=
  match measurementRp.filter (· ≠ "") with
  | some rp => normalizeRpName db rp
  | none =>
    match queryRp.filter (· ≠ "") with
    | some rp => normalizeRpName db rp
    | none => if db = "" then [] else [reads .retentionPolicies db]

def resolveRetentionPolicy (db : String) (rp : Option String) : List Step :=
  resolveRetentionPolicyForSelect db rp none

/-! ## Queries -/

variable (svc : QueryService)

section Queries

def executeMeasurementQuery (db : String) (stmt : SelectStatement) : List Step :=
  [.require (svc.multiSelector stmt), reads .columns db, .require (svc.translates stmt),
    reads .points db]

def executeSelectFromSource (db : String) (queryRp : Option String) (stmt : SelectStatement) :
    MeasurementSource → List Step
  | .concrete m =>
    let queryDb := m.database.getD db
    resolveRetentionPolicyForSelect queryDb m.retentionPolicy queryRp ++
      match m.name with
      | .name _ => executeMeasurementQuery svc queryDb stmt
      | .regex pattern =>
        reads .measurements queryDb ::
          ((svc.measurements queryDb).filter (svc.regexMatches pattern)).flatMap fun _ =>
            executeMeasurementQuery svc queryDb stmt
  | .subquery sub =>
    match sub.from_.head? with
    | some (.concrete { database, retentionPolicy, name := .name _ }) =>
      let queryDb := database.getD db
      resolveRetentionPolicyForSelect queryDb retentionPolicy queryRp ++
        reads .columns queryDb ::
          if svc.sharded then
            executeMeasurementQuery svc queryDb sub ++
              [.require (svc.translates stmt)]
          else [.require (svc.translates sub && svc.translates stmt), reads .points queryDb]
    | _ => [.require false]

/-- The rows of the first source go to the measurement after `INTO`. -/
def executeSelectInto (db : String) (stmt : SelectStatement) : List Step :=
  match stmt.into, stmt.from_.head? with
  | some { database := intoDb, retentionPolicy := intoRp, name := .name _ },
    some (.concrete { database, retentionPolicy, name := .name _ }) =>
      resolveRetentionPolicy (database.getD db) retentionPolicy ++
        resolveRetentionPolicy (intoDb.getD db) intoRp ++
        executeMeasurementQuery svc (database.getD db) stmt ++
        [writes .measurements (intoDb.getD db), writes .points (intoDb.getD db)]
  | _, _ => [.require false]

def executeSelect (db : String) (queryRp : Option String) (stmt : SelectStatement) : List Step :=
  if db = "" then [.require false]
  else if stmt.into.isSome then executeSelectInto svc db stmt
  else
    .require (!stmt.from_.isEmpty) ::
      stmt.from_.flatMap (executeSelectFromSource svc db queryRp stmt)

end Queries

/-! ## Schemas -/

section Schemas

/-- Where `SHOW TAG KEYS` and `SHOW TAG VALUES` look, and what it takes to find the policy. -/
def tagScope (db : String) (from_ : Option Measurement) : String × List Step :=
  match from_ with
  | some { database, retentionPolicy, name := .name _ } =>
    let queryDb := database.getD db
    if svc.sharded then
      (queryDb, if retentionPolicy.isSome then resolveRetentionPolicy queryDb retentionPolicy
        else [])
    else if retentionPolicy.isSome then
      (queryDb, resolveRetentionPolicy queryDb retentionPolicy)
    else (db, [])
  | _ => (db, [])

def readTagKeys (db : String) (from_ : Option Measurement) : List Step :=
  (tagScope svc db from_).2 ++ [reads .tagKeys (tagScope svc db from_).1]

variable (requestDb : String)

variable (queryRp : Option String)

variable (s : ShowStatement)

def executeShowTagKeys : List Step :=
  let db := s.database.getD requestDb
  resolveRetentionPolicyForSelect db none queryRp ++ readTagKeys svc db s.from_

def measurementsOf (db : String) (from_ : Option Measurement) : List Step × List String :=
  match from_ with
  | some { name := .name name, .. } => ([], [name])
  | _ => ([reads .measurements db], svc.measurements db)

def executeShowTagValues : List Step :=
  let db := s.database.getD requestDb
  resolveRetentionPolicyForSelect db none queryRp ++ readTagKeys svc db s.from_ ++
    match s.condition with
    | some condition =>
      let queryDb := (s.from_.bind database).getD db
      let policy :=
        match s.from_.bind retentionPolicy with
        | some rp => resolveRetentionPolicy queryDb (some rp)
        | none => []
      .require (svc.tagPredicate condition) :: (measurementsOf svc db s.from_).1 ++ policy ++
        (measurementsOf svc db s.from_).2.flatMap fun _ => [reads .series queryDb]
    | none =>
      (svc.matchingKeys s).flatMap fun _ =>
        (tagScope svc db s.from_).2 ++ [reads .tagValues (tagScope svc db s.from_).1]

def executeShowFieldKeys : List Step :=
  let db := s.database.getD requestDb
  if db = "" then [.require false]
  else
    resolveRetentionPolicyForSelect db none queryRp ++ (measurementsOf svc db s.from_).1 ++
      (measurementsOf svc db s.from_).2.flatMap fun _ => [reads .fieldKeys db]

def executeShowSeries : List Step :=
  let db := s.database.getD requestDb
  if db = "" then [.require false]
  else
    (measurementsOf svc db s.from_).1 ++
      (match s.from_.bind retentionPolicy with
        | some rp => resolveRetentionPolicy db (some rp)
        | none => resolveRetentionPolicyForSelect db none queryRp) ++
      (measurementsOf svc db s.from_).2.flatMap fun _ => [reads .series db]

/-- What is read of each measurement that is counted. -/
def cardinalitySubjects (kind : CardinalityKind) (filtered : Bool) : List Subject :=
  match kind, filtered with
  | .measurement, false => []
  | .fieldKey, _ => [.fieldKeys]
  | _, true | .series, false => [.series]
  | .tagKey, false => [.tagKeys]
  | .tagValues, false => [.tagKeys, .tagValues]

def executeShowCardinality (kind : CardinalityKind) (s : ShowStatement) : List Step :=
  let db := ((s.from_.bind database).or s.database).getD requestDb
  if db = "" then [.require false]
  else
    .require (!(kind = .fieldKey && s.condition.isSome)) ::
      resolveRetentionPolicyForSelect db (s.from_.bind retentionPolicy) queryRp ++
      .require (s.condition.all svc.tagPredicate) ::
        (if kind = .measurement then [reads .measurements db, reads .columns db]
          else (measurementsOf svc db s.from_).1) ++
      (measurementsOf svc db s.from_).2.flatMap fun _ =>
        (cardinalitySubjects kind s.condition.isSome).map fun subject => reads subject db

end Schemas

/-! ## Continuous queries -/

def durationToSecs (duration : Duration) : Option Nat :=
  if duration.toNanos ≤ 0 then none else some (duration.toNanos / 1000000000).toNat

def groupByIntervalSecs (query : SelectStatement) : Option Nat :=
  match query.groupBy.bind GroupBy.timeDimension with
  | some (.time interval _) => durationToSecs interval
  | _ => none

def groupByOffsetSecs (query : SelectStatement) : Option Nat :=
  query.groupBy.bind fun groupBy =>
    match groupBy.timeDimension with
    | some (.time _ (some offset)) => durationToSecs offset
    | _ => some 0

/-- The schedule of a query: what it groups by is a positive time, and so are the times of
`RESAMPLE`, which cover at least one interval. -/
def deriveSchedule (cq : CreateContinuousQueryStatement) : Bool :=
  match groupByIntervalSecs cq.query, groupByOffsetSecs cq.query with
  | some interval, some _ =>
    let every := cq.resampleEvery.map durationToSecs
    let for_ := cq.resampleFor.map durationToSecs
    every ≠ some none && for_ ≠ some none &&
      match for_.join with
      | some secs => decide (max (every.join.getD interval) interval ≤ secs)
      | none => true
  | _, _ => false

section Commands

/-- A query that is stored runs later, for the database that it is stored in. -/
def executeCreateContinuousQuery (cq : CreateContinuousQueryStatement) : List Step :=
  [.perform (.getDatabase cq.database), .require (cq.query.into.isSome && deriveSchedule cq),
    writes .continuousQueries cq.database] ++ executeSelectInto svc cq.database cq.query

/-! ## Materialized views -/

variable (stmt : SelectStatement) (defaultDb : String)

def extractSource : Option (String × Option String) :=
  match stmt.from_ with
  | [.concrete { database, retentionPolicy, name := .name _ }] =>
    some (database.getD defaultDb, retentionPolicy)
  | _ => none

def extractDest : Option (String × Option String) :=
  match stmt.into with
  | some { database, retentionPolicy, name := .name _ } =>
    some (database.getD defaultDb, retentionPolicy)
  | _ => none

variable (db : String)

def defaultPolicy (rp : Option String) : List Step :=
  if rp.isNone then [reads .retentionPolicies db] else []

variable (source dest : String) (mv : CreateMaterializedViewStatement)

def bootstrapView : List Step :=
  [reads .measurements source, writes .measurements source, writes .shardSpaces source,
    writes .shardSpaces dest] ++
    if mv.backfillOnCreate then
      [reads .measurements source, .require (svc.fieldRollups mv.query.fields),
        writes .measurements dest, .require (svc.translates mv.query), reads .points source,
        writes .points dest]
    else []

def materializeDdl : List Step :=
  [reads .measurements source, .require (svc.fieldRollups mv.query.fields)] ++
    (if svc.sharded && mv.backfillOnCreate then [] else [writes .measurements dest]) ++
    [.require (svc.translates mv.query), writes .measurements dest, reads .points source,
      writes .points dest, reads .series source, writes .series dest]

def executeCreateMaterializedView : List Step :=
  [.perform (.getDatabase mv.database), .require (mv.query.fields.all (·.alias_.isSome)),
    reads .materializedViews mv.database, .require (svc.view mv.database mv.name).isNone] ++
    match extractSource mv.query mv.database, extractDest mv.query mv.database with
    | some (source, sourceRp), some (dest, destRp) =>
      defaultPolicy dest destRp ++ defaultPolicy source sourceRp ++
        (if svc.sharded then bootstrapView svc source dest mv else []) ++
        materializeDdl svc source dest mv ++ [writes .materializedViews mv.database]
    | _, _ => [.require false]

/-- A view goes together with the measurement that it wrote. -/
def dropMv (db name : String) : List Step :=
  reads .materializedViews db ::
    match svc.view db name with
    | some def_ => [writes .points def_.destDb, writes .materializedViews db]
    | none => [.require false]

def executeDropMaterializedView (requestDb name mvDb : String) : List Step :=
  .perform (.getDatabase (resolveOnDb mvDb requestDb)) ::
    dropMv svc (resolveOnDb mvDb requestDb) name

def dropForSourceMeasurement (db measurement : String) : List Step :=
  reads .materializedViews db ::
    (svc.viewNames db).flatMap fun name =>
      match svc.view db name with
      | some def_ =>
        if def_.sourceDb = db ∧ def_.sourceMeasurement = measurement then dropMv svc db name
        else []
      | none => []

/-! ## Other statements -/

def scatterDelete : List Step :=
  if svc.sharded then [writes .tombstones db] else []

def executeDropMeasurement (db name : String) (rp : Option String) : List Step :=
  dropForSourceMeasurement svc db name ++ defaultPolicy db rp ++ [writes .measurements db] ++
    scatterDelete svc db ++ [writes .points db, writes .shardSpaces db]

def executeDelete (queryRp : Option String) (stmt : DeleteStatement) : List Step :=
  defaultPolicy db queryRp ++ (if stmt.condition.isSome then [reads .columns db] else []) ++
    [writes .tombstones db] ++ scatterDelete svc db

def executeDropSeries (requestDb : String) (queryRp : Option String) (s : DropSeriesStatement) :
    List Step :=
  let db := s.database.getD requestDb
  defaultPolicy db queryRp ++ (if s.condition.isSome then [reads .columns db] else []) ++
    match s.from_, s.condition with
    | some (.name _), condition =>
      (if condition.isSome then [writes .tombstones db] else []) ++ [writes .series db] ++
        scatterDelete svc db
    | _, some _ =>
      writes .series db ::
        if svc.sharded then
          reads .measurements db :: (svc.measurements db).flatMap fun _ => scatterDelete svc db
        else []
    | _, none => []

/-- The statements that run without the database of the request. -/
def skipsDatabaseCheck : Statement → Bool
  | .showDatabases | .createDatabase _ | .dropDatabase _ | .createUser _ | .dropUser _
  | .setPassword _ | .showUsers | .showGrants _ | .showContinuousQueries
  | .showMaterializedViews | .setSetting _ | .showSettings => true
  | _ => false

def statementSteps (queryRp : Option String) : Statement → List Step
  | .showDatabases => [.perform .listDatabases]
  | .showMeasurements database =>
    let db := database.getD db
    if db = "" then [.require false]
    else
      resolveRetentionPolicyForSelect db none queryRp ++
        [reads .measurements db, reads .columns db]
  | .showTagKeys s => executeShowTagKeys svc db queryRp s
  | .showTagValues s => executeShowTagValues svc db queryRp s
  | .showFieldKeys s => executeShowFieldKeys svc db queryRp s
  | .showSeries s => executeShowSeries svc db queryRp s
  | .showCardinality kind s => executeShowCardinality svc db queryRp kind s
  | .createDatabase name => [writes .database name]
  | .dropDatabase name => [writes .database name, writes .points name, writes .shardSpaces name]
  | .select stmt => executeSelect svc db queryRp stmt
  | .dropMeasurement name rp => executeDropMeasurement svc db name rp
  | .delete stmt => executeDelete svc db queryRp stmt
  | .dropSeries s => executeDropSeries svc db queryRp s
  | .createContinuousQuery cq => executeCreateContinuousQuery svc cq
  | .showContinuousQueries =>
    .perform .listDatabases :: svc.databases.map (reads .continuousQueries)
  | .dropContinuousQuery _ cqDb =>
    [.perform (.getDatabase (resolveOnDb cqDb db)), writes .continuousQueries (resolveOnDb cqDb db)]
  | .createMaterializedView mv => executeCreateMaterializedView svc mv
  | .showMaterializedViews =>
    .perform .listDatabases :: svc.databases.map (reads .materializedViews)
  | .dropMaterializedView name mvDb => executeDropMaterializedView svc db name mvDb
  | .setSetting _ | .showSettings => [.perform .settings]
  | .showRetentionPolicies rpDb =>
    (if rpDb = "" then [] else [.perform (.getDatabase rpDb)]) ++
      [reads .retentionPolicies (resolveOnDb rpDb db)]
  | .showGrants _ | .showUsers | .createUser _ | .dropUser _ | .setPassword _
  | .grant .. | .revoke .. => [.perform .accounts]
  | .createRetentionPolicy _ rpDb | .alterRetentionPolicy _ rpDb =>
    [writes .retentionPolicies (resolveOnDb rpDb db)]
  | .dropRetentionPolicy _ rpDb =>
    [writes .retentionPolicies (resolveOnDb rpDb db), writes .shardSpaces (resolveOnDb rpDb db)]

def executeStatement (queryRp : Option String) (stmt : Statement) : List Step :=
  (if db ≠ "" ∧ skipsDatabaseCheck stmt = false then [.perform (.getDatabase db)] else []) ++
    statementSteps svc db queryRp stmt

end Commands

end HyperbyteDb

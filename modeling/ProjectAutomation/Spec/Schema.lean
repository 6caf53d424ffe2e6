import ProjectAutomation.Relational.Table
import ProjectAutomation.Relational.Transaction
import ProjectAutomation.Spec.Time
import ProjectAutomation.Spec.Contract

/-!
# The PostgreSQL schema and what the storage layer runs on

One row type for each table of `001_create_project_automation.sql`, with the
columns that some statement reads or a receipt shows. `TEXT … CHECK (… IN …)`
columns are enumerations, `TIMESTAMPTZ` columns whole microseconds.

A `Session` is what a storage function finds around it: the clock, what the
database and the random source hand out during the transaction, which of its
statements the database fails, and whether the answer to its commit arrives. `Env`
holds the code outside the repository.
-/

namespace ProjectAutomation

open Relational

/-- A UUID, by the text its `Display` writes. -/
structure Uuid where
  text : String
deriving DecidableEq

/-! ## Failures -/

/-- `lenso_kernel::RuntimeFailure`, as far as the plugin builds or forwards it. -/
inductive RuntimeFailure where
  | pluginFailure (detail : String)
  | protocolViolation (capability : String)
  | invalidResolvedPlan (detail : String)
  | forwarded (detail : String)
deriving DecidableEq

/-- `DomainFailure`. -/
inductive DomainFailure where
  | invalidRequest | notFound | revisionConflict | idempotencyConflict | ruleIdConflict
  | ruleNameConflict
deriving DecidableEq

/-- How `{:?}` writes a `DomainFailure`. -/
def DomainFailure.debug : DomainFailure → String
  | .invalidRequest => "InvalidRequest"
  | .notFound => "NotFound"
  | .revisionConflict => "RevisionConflict"
  | .idempotencyConflict => "IdempotencyConflict"
  | .ruleIdConflict => "RuleIdConflict"
  | .ruleNameConflict => "RuleNameConflict"

/-- `StorageError`, with the panic that unwinds a transaction. -/
inductive StorageError where
  | domain (failure : DomainFailure)
  | runtime (failure : RuntimeFailure)
  | panic (detail : String)
deriving DecidableEq

def runtime (operation source : String) : StorageError :=
  .runtime (.pluginFailure
    ("Project Automation PostgreSQL operation `" ++ operation ++ "` failed: " ++ source))

/-! ## Tables -/

/-- The primary key of `automation_commands`. -/
structure CommandScope where
  callerInstance : String
  actorSubject : String
  operation : String
  idempotencyKey : String
deriving DecidableEq

/-- `automation_commands`. -/
structure CommandRow where
  scope : CommandScope
  requestHash : List UInt8
  response : Option Value
  completedAt : Option ℤ

/-- `automation_rules`. -/
structure RuleRow where
  ruleId : String
  organizationId : String
  name : String
  enabled : Bool
  trigger : Value
  conditions : Value
  actions : Value
  revision : ℤ
  nextFireAt : Option ℤ
  rowSeq : ℤ
  createdAt : ℤ
  updatedAt : ℤ
  deletedAt : Option ℤ

/-- `automation_triggers.source`. -/
inductive Source where
  | event | timer
deriving DecidableEq

/-- `automation_triggers`. -/
structure TriggerRow where
  triggerId : Uuid
  organizationId : String
  source : Source
  dedupeKey : String
  ruleId : Option String
  payload : Value
  occurredAt : ℤ

/-- `automation_executions.status`. -/
inductive ExecutionStatus where
  | pending | running | succeeded | failed
deriving DecidableEq

/-- `automation_executions`. -/
structure ExecutionRow where
  executionId : Uuid
  organizationId : String
  ruleId : String
  triggerId : Uuid
  actions : Value
  status : ExecutionStatus
  attempts : ℕ
  lastFailure : Option String
  leaseOwner : Option String
  leaseUntil : Option ℤ
  createdAt : ℤ
  updatedAt : ℤ

/-- `automation_attempts.status`. -/
inductive AttemptStatus where
  | running | succeeded | failed | retryable
deriving DecidableEq

/-- `automation_attempts`. -/
structure AttemptRow where
  executionId : Uuid
  attempt : ℕ
  workerInstance : String
  status : AttemptStatus
  failure : Option String
  startedAt : ℤ
  completedAt : Option ℤ

/-- `automation_action_receipts.status`. -/
inductive ReceiptStatus where
  | pending | succeeded | failed
deriving DecidableEq

/-- `automation_action_receipts`. -/
structure ActionReceiptRow where
  executionId : Uuid
  actionIndex : ℕ
  kind : String
  status : ReceiptStatus
  attempts : ℕ
  idempotencyKey : String
  lastFailure : Option String
  response : Option Value
  updatedAt : ℤ

/-- `automation_schedule_dispatches.state`. -/
inductive DispatchState where
  | pending | enqueued | cancelled
deriving DecidableEq

/-- `automation_schedule_dispatches`. -/
structure DispatchRow where
  ruleId : String
  organizationId : String
  scheduledFor : ℤ
  state : DispatchState
  attempts : ℕ
  idempotencyKey : String
  jobId : Option String
  lastFailure : Option String

def AttemptRow.key (a : AttemptRow) : Uuid × ℕ := (a.executionId, a.attempt)
def ActionReceiptRow.key (r : ActionReceiptRow) : Uuid × ℕ := (r.executionId, r.actionIndex)
def DispatchRow.key (d : DispatchRow) : String × ℤ := (d.ruleId, d.scheduledFor)

/-- The owned schema. -/
structure Database where
  commands : Table CommandRow.scope
  rules : Table RuleRow.ruleId
  triggers : Table TriggerRow.triggerId
  executions : Table ExecutionRow.executionId
  attempts : Table AttemptRow.key
  receipts : Table ActionReceiptRow.key
  dispatches : Table DispatchRow.key

/-- The schema as `setup` leaves it. -/
def Database.init : Database := ⟨.empty, .empty, .empty, .empty, .empty, .empty, .empty⟩

/-- A rule that is not deleted. -/
def RuleRow.live (r : RuleRow) : Bool := r.deletedAt.isNone

/-- `succeeded` and `failed` end an execution. -/
def ExecutionStatus.terminal : ExecutionStatus → Bool
  | .succeeded | .failed => true
  | .pending | .running => false

/-! ## Surroundings -/

/-- The namespaces the plugin derives UUIDs in. -/
inductive Namespace where
  | oid | url
deriving DecidableEq

/-- Code outside the repository. -/
structure Env where
  /-- `OffsetDateTime::format(&Rfc3339)` -/
  formatRfc3339 : OffsetDateTime → Option String
  /-- `OffsetDateTime::parse(_, &Rfc3339)` -/
  parseRfc3339 : String → Option OffsetDateTime
  /-- `Uuid::new_v5` -/
  newV5 : Namespace → String → Uuid
  /-- `Sha256::digest(serde_json::to_vec(request))` -/
  requestHash : CommandRequest → List UInt8
  /-- `ProjectAutomationConfig::jobs_queue` -/
  jobsQueue : String
  /-- `ProjectAutomationConfig::job_max_attempts` -/
  jobMaxAttempts : ℤ

/-- What the database and the random source hand out during one transaction. -/
structure Connection where
  /-- `transaction_timestamp()` -/
  transactionTimestamp : ℤ
  /-- what the calls of `Uuid::new_v4()` return, in order -/
  newV4 : ℕ → Uuid
  /-- the next value of the identity column `row_seq` -/
  nextRowSeq : ℤ
  /-- the statements that fail, by their operation names, and why: an `UPDATE` that counts a column past
  `INTEGER` among them -/
  faults : String → Option String
  /-- the commits that are carried out while their answer is lost, and why it is -/
  lost : String → Option String

/-- The database serves every statement. -/
def Connection.Serves (conn : Connection) : Prop := ∀ operation, conn.faults operation = none

/-- The database serves these statements. -/
def Connection.ServesAll (conn : Connection) (operations : List String) : Prop :=
  ∀ operation ∈ operations, conn.faults operation = none

instance (conn : Connection) (operations : List String) : Decidable (conn.ServesAll operations) :=
  inferInstanceAs (Decidable (∀ operation ∈ operations, conn.faults operation = none))

/-- The answer to a commit arrives. -/
def Connection.Answers (conn : Connection) : Prop := ∀ operation, conn.lost operation = none

/-- What a storage function finds around it. -/
structure Session extends Connection where
  env : Env
  /-- `OffsetDateTime::now_utc()` -/
  nowUtc : OffsetDateTime

/-- A body of statements over the schema. -/
abbrev Tx (α : Type) := Txn Database StorageError α

/-- How a transaction of the plugin ends. -/
abbrev Ending (α : Type) := Relational.Ending StorageError α

/-- Every statement may fail. -/
def Session.statement (s : Session) (operation : String) : Tx Unit :=
  match s.faults operation with
  | some source => throw (runtime operation source)
  | none => pure ()

/-- `transaction.commit()`. It fails and nothing is written, or it is carried out; the error is the same
where it is carried out and its answer is lost. -/
def Session.commit {α : Type} (s : Session) (operation : String) (value : α) : Tx (Ending α) := do
  s.statement operation
  match s.lost operation with
  | some source => return .lost value (runtime operation source)
  | none => return .commit value

/-- A result computed without the database. -/
def ofExcept {α : Type} : Except StorageError α → Tx α
  | .ok a => pure a
  | .error e => throw e

/-- `format_time`. -/
def formatTime (env : Env) (value : OffsetDateTime) : Except StorageError String :=
  match env.formatRfc3339 value with
  | some text => .ok text
  | none => .error (runtime "format timestamp" "the value cannot be formatted")

/-- `parse_time`. -/
def parseTime (env : Env) (value : String) : Except StorageError OffsetDateTime :=
  match env.parseRfc3339 value with
  | some t => .ok t
  | none => .error (.domain .invalidRequest)

/-- How the driver binds a `TIMESTAMPTZ`: it shifts the time to UTC, and panics when the date there is none
of `time`'s, before the statement is sent. -/
def bindTimestamptz (t : OffsetDateTime) : Except StorageError ℤ :=
  if t.Bindable then .ok (encodeTimestamptz t)
  else .error (.panic "local datetime out of valid range")

/-- A nullable `TIMESTAMPTZ`. -/
def bindNullable : Option OffsetDateTime → Except StorageError (Option ℤ)
  | none => .ok none
  | some t => (bindTimestamptz t).map some

/-! ## Inversion of the building blocks -/

theorem bindTimestamptz_eq_ok {t : OffsetDateTime} {column : ℤ} :
    bindTimestamptz t = .ok column ↔ t.Bindable ∧ column = encodeTimestamptz t := by
  unfold bindTimestamptz
  split
  · rename_i h
    rw [Except.ok.injEq, and_iff_right h, eq_comm]
  · rename_i h
    simp only [reduceCtorEq, h, false_and]

theorem bindTimestamptz_of_bindable {t : OffsetDateTime} (h : t.Bindable) :
    bindTimestamptz t = .ok (encodeTimestamptz t) := bindTimestamptz_eq_ok.2 ⟨h, rfl⟩

theorem bindNullable_eq_ok {next : Option OffsetDateTime} {column : Option ℤ} :
    bindNullable next = .ok column ↔ (∀ t ∈ next, t.Bindable) ∧ column = next.map encodeTimestamptz := by
  cases next with
  | none => simp [bindNullable, eq_comm]
  | some t =>
    by_cases h : t.Bindable
    · simp [bindNullable, bindTimestamptz, h, Except.map, eq_comm]
    · simp [bindNullable, bindTimestamptz, h, Except.map]

theorem bindNullable_of_bindable {next : Option OffsetDateTime} (h : ∀ t ∈ next, t.Bindable) :
    bindNullable next = .ok (next.map encodeTimestamptz) := bindNullable_eq_ok.2 ⟨h, rfl⟩

theorem statement_eq_ok {s : Session} {operation : String} {db : Database} {r : Unit × Database} :
    s.statement operation db = .ok r ↔ s.faults operation = none ∧ r = ((), db) := by
  unfold Session.statement
  cases h : s.faults operation with
  | some source => simp only [Txn.throw_eq_ok, reduceCtorEq, false_and]
  | none => simp only [Txn.pure_eq_ok, true_and]

/-- A statement at the head of a body succeeds when the database serves it. -/
theorem statement_bind_eq_ok {α : Type} {s : Session} {operation : String} {f : Unit → Tx α} {db : Database}
    {r : α × Database} :
    (s.statement operation >>= f) db = .ok r ↔ s.faults operation = none ∧ f () db = .ok r := by
  rw [Txn.bind_eq_ok]
  constructor
  · rintro ⟨_, _, h, hf⟩
    obtain ⟨hn, he⟩ := statement_eq_ok.1 h
    cases he
    exact ⟨hn, hf⟩
  · rintro ⟨hn, hf⟩
    exact ⟨(), db, statement_eq_ok.2 ⟨hn, rfl⟩, hf⟩

theorem statement_bind_serves {α : Type} {s : Session} {operation : String} {f : Unit → Tx α} {db : Database}
    (hs : s.faults operation = none) : (s.statement operation >>= f) db = f () db :=
  Txn.bind_of_ok (statement_eq_ok.2 ⟨hs, rfl⟩)

/-- How a body ends that was committed with `value`. -/
def Session.Committed {α : Type} (s : Session) (ending : Ending α) (value : α) : Prop :=
  ending = .commit value ∨ ∃ operation source, s.lost operation = some source ∧
    ending = .lost value (runtime operation source)

theorem Session.Committed.value {α : Type} {s : Session} {ending : Ending α} {value : α}
    (h : s.Committed ending value) : ending.committed = some value := by
  rcases h with rfl | ⟨_, _, -, rfl⟩ <;> rfl

/-- The caller is told of the value, or of a commit whose answer is lost. -/
theorem Session.Committed.answer {α : Type} {s : Session} {ending : Ending α} {value : α}
    (h : s.Committed ending value) : ending.answer = .ok value ∨
      ∃ operation source, s.lost operation = some source ∧ ending.answer = .error (runtime operation source) := by
  rcases h with rfl | ⟨operation, source, hlost, rfl⟩
  · exact Or.inl rfl
  · exact Or.inr ⟨operation, source, hlost, rfl⟩

theorem Session.Committed.eq_commit {α : Type} {s : Session} {ending : Ending α} {value : α}
    (h : s.Committed ending value) (ha : s.Answers) : ending = .commit value := by
  rcases h with rfl | ⟨operation, _, hlost, -⟩
  · rfl
  · rw [ha operation] at hlost
    cases hlost

/-- A commit that does not fail writes what the body did. -/
theorem commit_eq_ok {α : Type} {s : Session} {operation : String} {value : α} {db : Database}
    {r : Ending α × Database} (h : s.commit operation value db = .ok r) :
    ∃ ending, s.Committed ending value ∧ r = (ending, db) := by
  unfold Session.commit at h
  obtain ⟨-, h⟩ := statement_bind_eq_ok.1 h
  cases hlost : s.lost operation with
  | some source =>
    rw [hlost] at h
    exact ⟨_, Or.inr ⟨_, _, hlost, rfl⟩, Txn.pure_eq_ok.1 h⟩
  | none =>
    rw [hlost] at h
    exact ⟨_, Or.inl rfl, Txn.pure_eq_ok.1 h⟩

theorem commit_served {α : Type} {s : Session} {operation : String} {value : α} {db : Database}
    {r : Ending α × Database} (h : s.commit operation value db = .ok r) : s.faults operation = none := by
  unfold Session.commit at h
  exact (statement_bind_eq_ok.1 h).1

/-- One that is served is carried out. -/
theorem commit_written {α : Type} {s : Session} {operation : String} {value : α} {db : Database}
    (hs : s.Serves) : ∃ ending, s.commit operation value db = .ok (ending, db) := by
  unfold Session.commit
  rw [statement_bind_serves (hs _)]
  cases s.lost operation with
  | some source => exact ⟨_, rfl⟩
  | none => exact ⟨_, rfl⟩

theorem commit_serves {α : Type} {s : Session} {operation : String} {value : α} {db : Database}
    (hs : s.Serves) (ha : s.Answers) : s.commit operation value db = .ok (.commit value, db) := by
  unfold Session.commit
  rw [statement_bind_serves (hs _), ha operation]
  rfl

theorem ofExcept_bind_eq_ok {α β : Type} {x : Except StorageError α} {f : α → Tx β} {db : Database}
    {r : β × Database} :
    (ofExcept x >>= f) db = .ok r ↔ ∃ a, x = .ok a ∧ f a db = .ok r := by
  unfold ofExcept
  cases x with
  | error e => simp [Txn.bind_eq_ok, Txn.throw_eq_ok]
  | ok a => simp

theorem ofExcept_bind {α β : Type} (a : α) (f : α → Tx β) (db : Database) :
    (ofExcept (.ok a) >>= f) db = f a db := Txn.bind_of_ok rfl

theorem ofExcept_eq_ok {α : Type} {x : Except StorageError α} {db : Database} {r : α × Database} :
    ofExcept x db = .ok r ↔ ∃ a, x = .ok a ∧ r = (a, db) := by
  unfold ofExcept
  cases x with
  | error e => simp [Txn.throw_eq_ok]
  | ok a => simp [Txn.pure_eq_ok]

end ProjectAutomation

import ProjectAutomation.Spec.Execution

/-!
# Reads

`get_rule`, `list_rules` and `inspect_execution` of the storage layer, and
`pending_dispatch_count`. None writes. The three statements of `inspect_execution`
are not one transaction, so each sees the schema at a time of its own.
-/

namespace ProjectAutomation

open Relational

/-! ## Requests -/

/-- `GetRuleRequest`. -/
structure GetRuleRequest where
  organizationId : String
  ruleId : String
deriving DecidableEq

/-- `ListRulesRequest`. -/
structure ListRulesRequest where
  after : Option String
  enabled : Option Bool
  limit : ℤ
  organizationId : String
deriving DecidableEq

/-- `InspectExecutionRequest`. -/
structure InspectExecutionRequest where
  attemptAfter : Option String
  attemptLimit : ℤ
  executionId : String
  organizationId : String
deriving DecidableEq

/-! ## Rules -/

/-- `storage::get_rule`. -/
def getRule (s : Session) (organizationId ruleId : String) : Tx (Ending Value) := do
  s.statement "get rule"
  let db ← get
  match db.rules.rows.find? (RuleRow.liveAt organizationId ruleId) with
  | none => throw (.domain .notFound)
  | some row => return .drop (← ofExcept (ruleJson s.env row))

/-- `after.map(parse_revision).transpose()?.unwrap_or(0)`. -/
def afterCursor (after : Option String) : Except StorageError ℤ :=
  match after with
  | none => .ok 0
  | some text => orInvalid (parseRevision? text)

/-- `WHERE organization_id=… AND deleted_at IS NULL AND row_seq > … AND enabled = …`. -/
def RuleRow.listed (organizationId : String) (enabled : Option Bool) (after : ℤ) (r : RuleRow) : Bool :=
  r.organizationId = organizationId && r.live && after < r.rowSeq && enabled.all (r.enabled = ·)

/-- `ORDER BY row_seq,rule_id`. -/
def RuleRow.before (a b : RuleRow) : Prop :=
  a.rowSeq < b.rowSeq ∨ (a.rowSeq = b.rowSeq ∧ a.ruleId ≤ b.ruleId)

instance : DecidableRel RuleRow.before := fun _ _ => inferInstanceAs (Decidable (_ ∨ (_ ∧ _)))

/-- The rows the statement of `list_rules` returns: one more than the page holds. -/
def listedRules (db : Database) (organizationId : String) (enabled : Option Bool) (after : ℤ) (limit : ℕ) :
    List RuleRow :=
  ((db.rules.rows.filter (RuleRow.listed organizationId enabled after)).insertionSort RuleRow.before).take
    (limit + 1)

/-- The cursor behind a page: the number of its last row, when there are more. -/
def nextCursor (hasMore : Bool) (last : Option ℤ) : Value :=
  if hasMore then .ofOption (fun n => .string (toString n)) last else .null

/-- `storage::list_rules`. -/
def listRules (s : Session) (organizationId : String) (enabled : Option Bool) (limit : ℕ)
    (after : Option String) : Tx (Ending Value) := do
  let after ← ofExcept (afterCursor after)
  s.statement "list rules"
  let db ← get
  let rows := listedRules db organizationId enabled after limit
  let kept := min limit rows.length
  let items ← ofExcept ((rows.take kept).mapM (ruleJson s.env))
  let cursor := nextCursor (limit < rows.length) (rows[kept - 1]?.map (·.rowSeq))
  return .drop (.object [("items", .array items), ("next_cursor", cursor)])

/-! ## Executions -/

/-- The texts of the `status` columns. -/
def ExecutionStatus.name : ExecutionStatus → String
  | .pending => "pending"
  | .running => "running"
  | .succeeded => "succeeded"
  | .failed => "failed"

def AttemptStatus.name : AttemptStatus → String
  | .running => "running"
  | .succeeded => "succeeded"
  | .failed => "failed"
  | .retryable => "retryable"

def ReceiptStatus.name : ReceiptStatus → String
  | .pending => "pending"
  | .succeeded => "succeeded"
  | .failed => "failed"

/-- `SELECT … FROM automation_executions WHERE organization_id=$1 AND execution_id=$2`. -/
def readExecution (s : Session) (organizationId : String) (executionId : Uuid) : Tx ExecutionRow := do
  s.statement "inspect execution"
  let db ← get
  match db.executions.rows.find? (fun e => e.organizationId = organizationId && e.executionId = executionId) with
  | none => throw (.domain .notFound)
  | some row => return row

/-- `SELECT … FROM automation_attempts WHERE execution_id=$1 AND attempt>$2 ORDER BY attempt LIMIT $3`. -/
def readAttempts (s : Session) (executionId : Uuid) (after : ℤ) (limit : ℕ) : Tx (List AttemptRow) := do
  s.statement "inspect attempt receipts"
  let db ← get
  let rows := db.attempts.rows.filter (fun a => a.executionId = executionId && after < a.attempt)
  return (rows.insertionSort (fun a b => a.attempt ≤ b.attempt)).take (limit + 1)

/-- `SELECT … FROM automation_action_receipts WHERE execution_id=$1 ORDER BY action_index`. -/
def readReceipts (s : Session) (executionId : Uuid) : Tx (List ActionReceiptRow) := do
  s.statement "inspect action receipts"
  let db ← get
  let rows := db.receipts.rows.filter (fun r => r.executionId = executionId)
  return rows.insertionSort (fun a b => a.actionIndex ≤ b.actionIndex)

/-- `format_time` of a column. -/
def timeJson (env : Env) (t : ℤ) : Except StorageError Value :=
  (formatTime env (decodeTimestamptz t)).map Value.string

/-- An item of `attempt_receipts`. -/
def attemptJson (env : Env) (a : AttemptRow) : Except StorageError Value := do
  let startedAt ← timeJson env a.startedAt
  let completedAt ← match a.completedAt with
    | none => .ok Value.null
    | some t => timeJson env t
  return .object [("attempt", .number a.attempt), ("worker_instance", .string a.workerInstance),
    ("status", .string a.status.name), ("failure", .ofOption .string a.failure), ("started_at", startedAt),
    ("completed_at", completedAt)]

/-- An item of `actions`. -/
def receiptJson (env : Env) (r : ActionReceiptRow) : Except StorageError Value := do
  let updatedAt ← timeJson env r.updatedAt
  return .object [("action_index", .number r.actionIndex), ("kind", .string r.kind),
    ("status", .string r.status.name), ("attempts", .number r.attempts),
    ("idempotency_key", .string r.idempotencyKey), ("last_failure", .ofOption .string r.lastFailure),
    ("updated_at", updatedAt)]

/-- What `inspect_execution` answers of an execution and its receipts. -/
def executionJson (env : Env) (row : ExecutionRow) (attemptReceipts : List Value) (nextAttemptCursor : Value)
    (actions : List Value) : Except StorageError Value := do
  let createdAt ← timeJson env row.createdAt
  let updatedAt ← timeJson env row.updatedAt
  return .object [("execution_id", .string row.executionId.text), ("rule_id", .string row.ruleId),
    ("trigger_id", .string row.triggerId.text), ("status", .string row.status.name),
    ("attempts", .number row.attempts), ("last_failure", .ofOption .string row.lastFailure),
    ("created_at", createdAt), ("updated_at", updatedAt), ("attempt_receipts", .array attemptReceipts),
    ("next_attempt_cursor", nextAttemptCursor), ("actions", .array actions)]

/-- `storage::inspect_execution`; each statement finds the schema as it is when it runs. -/
def inspectExecution (s : Session) (executionsAt attemptsAt receiptsAt : Database) (organizationId : String)
    (executionId : Uuid) (attemptLimit : ℕ) (attemptAfter : Option String) : Except StorageError Value := do
  let (row, _) ← readExecution s organizationId executionId executionsAt
  let after ← afterCursor attemptAfter
  let (attempts, _) ← readAttempts s executionId after attemptLimit attemptsAt
  let kept := attempts.take attemptLimit
  let cursor := nextCursor (attemptLimit < attempts.length) (kept.getLast?.map (·.attempt))
  let attemptReceipts ← kept.mapM (attemptJson s.env)
  let (receipts, _) ← readReceipts s executionId receiptsAt
  let actions ← receipts.mapM (receiptJson s.env)
  executionJson s.env row attemptReceipts cursor actions

/-! ## Dispatches -/

/-- `pending_dispatch_count`. -/
def pendingDispatchCount (s : Session) (organizationId : String) : Tx (Ending ℕ) := do
  s.statement "count schedule dispatches"
  let db ← get
  return .drop (db.dispatches.affected (fun d => d.organizationId = organizationId && d.state = .pending))

end ProjectAutomation

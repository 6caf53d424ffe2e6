import ProjectAutomation.Spec.Intake

/-!
# Claims, receipts and the end of an execution

`claim_executions` leases a batch to a worker, `action_status` and `complete_action`
keep the action receipts, and `release_execution_for_retry` and `complete_execution`
give the lease up. Only the last two check that the claim still holds the lease.
-/

namespace ProjectAutomation

open Relational

/-! ## Claiming -/

/-- `ClaimedExecution`, a worker's copy. -/
structure ClaimedExecution where
  executionId : Uuid
  ruleId : String
  triggerId : Uuid
  attempt : ℕ
  worker : String
  payload : Value
  actions : List Value

/-- `status='pending' OR (status='running' AND lease_until < transaction_timestamp())`. -/
def ExecutionRow.claimable (now : ℤ) (e : ExecutionRow) : Bool :=
  e.status = .pending || (e.status = .running && e.leaseUntil.any (· < now))

/-- `ORDER BY created_at,execution_id`. -/
def ExecutionRow.before (a b : ExecutionRow × Value) : Prop :=
  a.1.createdAt < b.1.createdAt ∨
    (a.1.createdAt = b.1.createdAt ∧ a.1.executionId.text ≤ b.1.executionId.text)

instance : DecidableRel ExecutionRow.before := fun _ _ => inferInstanceAs (Decidable (_ ∨ (_ ∧ _)))

/-- The claimable executions of an organization that no other transaction has locked, each
with the payload of its trigger. -/
def claimCandidates (db : Database) (organizationId : String) (locked : Uuid → Bool) (now : ℤ) :
    List (ExecutionRow × Value) :=
  db.executions.rows.filterMap (fun e =>
    if e.organizationId = organizationId && e.claimable now && !locked e.executionId then
      (db.triggers.find? e.triggerId).map (fun t => (e, t.payload))
    else none)

/-- `status='retryable',failure=…,completed_at=transaction_timestamp()`, and its two kin. -/
def AttemptRow.close (status : AttemptStatus) (failure : Option String) (now : ℤ) (a : AttemptRow) :
    AttemptRow :=
  { a with status, failure, completedAt := some now }

/-- `WHERE execution_id=$1 AND attempt=$2`. -/
def AttemptRow.at (executionId : Uuid) (attempt : ℕ) (a : AttemptRow) : Bool :=
  a.executionId = executionId && a.attempt = attempt

/-- `SET status='running',attempts=$2,lease_owner=$3,lease_until=…`. -/
def ExecutionRow.lease (attempt : ℕ) (worker : String) (leaseUntil now : ℤ) (e : ExecutionRow) :
    ExecutionRow :=
  { e with
    status := .running, attempts := attempt, leaseOwner := some worker, leaseUntil := some leaseUntil
    updatedAt := now }

/-- `i32::try_from`. -/
def fitsI32 (n : ℤ) : Bool := -2 ^ 31 ≤ n && n ≤ 2 ^ 31 - 1

/-- Closes the attempt a reclaimed execution was left in. -/
def expirePreviousAttempt (s : Session) (e : ExecutionRow) : Tx Unit := do
  if 0 < e.attempts then
    s.statement "expire previous attempt"
    let db ← get
    let attempts := db.attempts.update
      (fun a => a.at e.executionId e.attempts && a.status = .running)
      (AttemptRow.close .retryable (some "lease_expired") s.transactionTimestamp) ⟨fun _ => rfl⟩
    set { db with attempts }

/-- The loop body of `claim_executions`. -/
def claimRow (s : Session) (worker : String) (leaseSeconds : ℤ) (e : ExecutionRow) (payload : Value) :
    Tx ClaimedExecution := do
  expirePreviousAttempt s e
  let attempt := e.attempts + 1
  if i32Max < attempt then throw (runtime "claim execution" "attempt counter exhausted")
  else if !fitsI32 leaseSeconds then throw (runtime "lease duration" "out of range")
  else
    s.statement "claim execution"
    let db ← get
    let leaseUntil := s.transactionTimestamp + leaseSeconds * microsPerSecond
    let executions := db.executions.update (fun r => r.executionId = e.executionId)
      (ExecutionRow.lease attempt worker leaseUntil s.transactionTimestamp) ⟨fun _ => rfl⟩
    s.statement "create attempt"
    match db.attempts.insert?
        ⟨e.executionId, attempt, worker, .running, none, s.transactionTimestamp, none⟩ with
    | none => throw (runtime "create attempt" "duplicate primary key")
    | some attempts =>
      set { db with executions, attempts }
      match e.actions.asArray with
      | none => throw (.domain .invalidRequest)
      | some actions =>
        return ⟨e.executionId, e.ruleId, e.triggerId, attempt, worker, payload, actions⟩

/-- The loop of `claim_executions`. -/
def claimRows (s : Session) (worker : String) (leaseSeconds : ℤ) :
    List (ExecutionRow × Value) → Tx (List ClaimedExecution)
  | [] => pure []
  | (e, payload) :: rest => do
    let claim ← claimRow s worker leaseSeconds e payload
    let claims ← claimRows s worker leaseSeconds rest
    return claim :: claims

/-- `claim_executions`; `locked` are the rows `SKIP LOCKED` passes over. -/
def claimExecutions (s : Session) (organizationId worker : String) (limit : ℕ) (leaseSeconds : ℤ)
    (locked : Uuid → Bool) : Tx (Ending (List ClaimedExecution)) := do
  s.statement "begin claim executions"
  s.statement "select executions"
  let db ← get
  let rows := claimCandidates db organizationId locked s.transactionTimestamp
  let claims ← claimRows s worker leaseSeconds ((rows.insertionSort ExecutionRow.before).take limit)
  s.commit "commit claim executions" claims

/-! ## Action receipts -/

/-- `WHERE execution_id=$1 AND action_index=$2`. -/
def ActionReceiptRow.at (executionId : Uuid) (index : ℕ) (r : ActionReceiptRow) : Bool :=
  r.executionId = executionId && r.actionIndex = index

theorem ActionReceiptRow.at_iff {executionId : Uuid} {index : ℕ} {r : ActionReceiptRow} :
    r.at executionId index = true ↔ r.key = (executionId, index) := by
  simp [ActionReceiptRow.at, ActionReceiptRow.key]

/-- `SET attempts=attempts+1`. -/
def ActionReceiptRow.attempt (now : ℤ) (r : ActionReceiptRow) : ActionReceiptRow :=
  { r with attempts := r.attempts + 1, updatedAt := now }

/-- `SET status=$3,response=$4,last_failure=$5`. -/
def ActionReceiptRow.complete (status : ReceiptStatus) (response : Option Value)
    (failure : Option String) (now : ℤ) (r : ActionReceiptRow) : ActionReceiptRow :=
  { r with status, response, lastFailure := failure, updatedAt := now }

/-- `action_status`. -/
def actionStatus (s : Session) (executionId : Uuid) (index : ℕ) :
    Tx (Ending (ReceiptStatus × String)) := do
  s.statement "begin action attempt"
  let db ← get
  match db.receipts.find? (executionId, index) with
  | none => throw (.domain .notFound)
  | some row =>
    let receipts := db.receipts.update (ActionReceiptRow.at executionId index)
      (ActionReceiptRow.attempt s.transactionTimestamp) ⟨fun _ => rfl⟩
    set { db with receipts }
    return .commit (row.status, row.idempotencyKey)

/-- `complete_action`. -/
def completeAction (s : Session) (executionId : Uuid) (index : ℕ) (succeeded : Bool)
    (response : Option Value) (failure : Option String) : Tx (Ending Unit) := do
  s.statement "complete action"
  let db ← get
  let status := if succeeded then ReceiptStatus.succeeded else .failed
  let receipts := db.receipts.update (ActionReceiptRow.at executionId index)
    (ActionReceiptRow.complete status response failure s.transactionTimestamp) ⟨fun _ => rfl⟩
  set { db with receipts }
  return .commit ()

/-! ## Giving the lease up -/

/-- The fence: `execution_id=$1 AND attempts=$2 AND status='running' AND lease_owner=$3 AND
lease_until >= transaction_timestamp()`. -/
def ExecutionRow.heldBy (claim : ClaimedExecution) (now : ℤ) (e : ExecutionRow) : Bool :=
  e.executionId = claim.executionId && e.attempts = claim.attempt && e.status = .running &&
    e.leaseOwner = some claim.worker && e.leaseUntil.any (now ≤ ·)

theorem heldBy_iff {claim : ClaimedExecution} {now : ℤ} {e : ExecutionRow} :
    e.heldBy claim now = true ↔ e.executionId = claim.executionId ∧ e.attempts = claim.attempt ∧
      e.status = .running ∧ e.leaseOwner = some claim.worker ∧ ∃ t, e.leaseUntil = some t ∧ now ≤ t := by
  unfold ExecutionRow.heldBy
  cases e.leaseUntil <;> simp [and_assoc]

/-- `SET status=…,last_failure=…,lease_owner=NULL,lease_until=NULL`. -/
def ExecutionRow.leave (status : ExecutionStatus) (failure : Option String) (now : ℤ)
    (e : ExecutionRow) : ExecutionRow :=
  { e with status, lastFailure := failure, leaseOwner := none, leaseUntil := none, updatedAt := now }

/-- What `release_execution_for_retry` and `complete_execution` begin with: the fenced
update of the execution, then the update of its attempt. -/
def leaveExecution (s : Session) (operation attemptOperation : String) (claim : ClaimedExecution)
    (status : ExecutionStatus) (attemptStatus : AttemptStatus) (failure : Option String) : Tx Unit := do
  s.statement operation
  let db ← get
  let now := s.transactionTimestamp
  if db.executions.affected (ExecutionRow.heldBy claim now) ≠ 1 then
    throw (runtime operation "execution lease is no longer owned by this worker")
  else
    let executions := db.executions.update (ExecutionRow.heldBy claim now)
      (ExecutionRow.leave status failure now) ⟨fun _ => rfl⟩
    s.statement attemptOperation
    let attempts := db.attempts.update (AttemptRow.at claim.executionId claim.attempt)
      (AttemptRow.close attemptStatus failure now) ⟨fun _ => rfl⟩
    set { db with executions, attempts }

/-- `release_execution_for_retry`. -/
def releaseExecutionForRetry (s : Session) (claim : ClaimedExecution) (failure : String) :
    Tx (Ending Unit) := do
  s.statement "begin release execution"
  leaveExecution s "release execution" "complete retryable attempt" claim .pending .retryable
    (some failure)
  s.commit "commit release execution" ()

/-- The instant a claimed payload was scheduled for. -/
def payloadScheduledFor (env : Env) (payload : Value) : Except StorageError (Option OffsetDateTime) :=
  match payload.getStr "scheduled_for" with
  | none => .ok none
  | some text => (parseTime env text).map some

/-- The rule row still waits for the fire that `scheduledFor` names. -/
def RuleRow.awaits (scheduledFor : Option OffsetDateTime) (r : RuleRow) : Bool :=
  r.enabled && triggerKind r.trigger = some "schedule" &&
    r.nextFireAt.map (fun t => (decodeTimestamptz t).unixNanos) = scheduledFor.map (·.unixNanos)

/-- `SET next_fire_at=$2`. -/
def RuleRow.advance (next now : ℤ) (r : RuleRow) : RuleRow :=
  { r with nextFireAt := some next, updatedAt := now }

/-- `ok_or_else(|| runtime(operation, source))`. -/
def orRuntime {α : Type} (operation source : String) : Option α → Except StorageError α
  | some a => .ok a
  | none => .error (runtime operation source)

/-- The schedule advance of `complete_execution`. -/
def advanceRule (s : Session) (claim : ClaimedExecution) : Tx Unit := do
  s.statement "lock recurring rule"
  let db ← get
  match db.rules.rows.find? (fun r => r.ruleId = claim.ruleId && r.live) with
  | none => pure ()
  | some rule =>
    let scheduledFor ← ofExcept (payloadScheduledFor s.env claim.payload)
    if rule.awaits scheduledFor then
      let interval ← ofExcept (orInvalid (intervalSeconds rule.trigger))
      let current ← ofExcept (orInvalid scheduledFor)
      let next ← ofExcept
        (orRuntime "advance recurring rule" "next fire is out of range" (current.checkedAdd interval))
      let column ← ofExcept (bindTimestamptz next)
      s.statement "advance recurring rule"
      let db ← get
      let rules := db.rules.update (fun r => r.ruleId = claim.ruleId)
        (RuleRow.advance column s.transactionTimestamp) ⟨fun _ => rfl⟩
      set { db with rules }
      replacePendingSchedule s rule.organizationId claim.ruleId (some next)

/-- `complete_execution`. -/
def completeExecution (s : Session) (claim : ClaimedExecution) (succeeded : Bool)
    (failure : Option String) : Tx (Ending Unit) := do
  s.statement "begin complete execution"
  let status := if succeeded then ExecutionStatus.succeeded else .failed
  let attemptStatus := if succeeded then AttemptStatus.succeeded else .failed
  leaveExecution s "complete execution" "complete attempt" claim status attemptStatus failure
  s.statement "read trigger source"
  let db ← get
  match db.triggers.find? claim.triggerId with
  | none => throw (runtime "read trigger source" "no row")
  | some trigger =>
    if trigger.source = .timer then advanceRule s claim
    s.commit "commit complete execution" ()

end ProjectAutomation

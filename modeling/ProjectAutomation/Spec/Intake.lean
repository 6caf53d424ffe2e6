import ProjectAutomation.Spec.Rules

/-!
# Trigger intake

`receive_event` and `receive_timer`: record the trigger under its dedupe key, and in
the same transaction open an execution, with one receipt for each action, for every
rule the trigger fires. The foreign key of `automation_triggers` is checked, since a
timer may name any rule; those of the other tables point at rows the same
transaction has just read or written.
-/

namespace ProjectAutomation

open Relational

/-! ## Matching -/

/-- One condition of a rule against an event. -/
def conditionMatches (event condition : Value) : Bool :=
  match condition.getStr "field", condition.getStr "operator", condition.getStr "value" with
  | some field, some operator, some expected =>
    let holds :=
      if field = "label_id" then
        ((event.get "label_ids").bind Value.asArray).any (fun values =>
          values.any (fun v => v.asStr = some expected))
      else event.getStr field = some expected
    if operator = "equals" ∨ operator = "contains" then holds
    else if operator = "not_equals" then !holds
    else false
  | _, _, _ => false

/-- `conditions_match`. -/
def conditionsMatch (conditions event : Value) : Bool :=
  match conditions.asArray with
  | none => false
  | some items => items.all (conditionMatches event)

/-- The trigger lists the event's type. -/
def eventAllowed (trigger : Value) (eventType : String) : Bool :=
  ((trigger.get "event_types").bind Value.asArray).any (fun items =>
    items.any (fun v => v.asStr = some eventType))

/-! ## Executions and receipts -/

/-- The idempotency key of an action of an execution. -/
def actionKey (env : Env) (executionId : Uuid) (index : ℕ) : String :=
  "pa-action-" ++ (env.newV5 .url (executionId.text ++ ":" ++ toString index)).text

def i32Max : ℕ := 2 ^ 31 - 1

/-- The receipt of an action not yet attempted. -/
def newReceipt (s : Session) (executionId : Uuid) (index : ℕ) (kind : String) : ActionReceiptRow where
  executionId
  actionIndex := index
  kind
  status := .pending
  attempts := 0
  idempotencyKey := actionKey s.env executionId index
  lastFailure := none
  response := none
  updatedAt := s.transactionTimestamp

/-- `INSERT INTO automation_action_receipts`. -/
def insertReceipt (s : Session) (row : ActionReceiptRow) : Tx Unit := do
  s.statement "create action receipt"
  let db ← get
  if db.receipts.rows.any (fun r => r.idempotencyKey = row.idempotencyKey) then
    throw (runtime "create action receipt" "duplicate idempotency_key")
  else match db.receipts.insert? row with
    | none => throw (runtime "create action receipt" "duplicate primary key")
    | some receipts => set { db with receipts }

/-- The loop of `insert_execution` over the actions from `index` on. -/
def insertReceipts (s : Session) (executionId : Uuid) : ℕ → List Value → Tx Unit
  | _, [] => pure ()
  | index, action :: rest =>
    if i32Max < index then throw (runtime "action index" "out of range")
    else match action.getStr "kind" with
      | none => throw (.domain .invalidRequest)
      | some kind => do
        insertReceipt s (newReceipt s executionId index kind)
        insertReceipts s executionId (index + 1) rest

/-- An execution not yet claimed. -/
def newExecution (s : Session) (executionId : Uuid) (organizationId ruleId : String) (triggerId : Uuid)
    (actions : Value) : ExecutionRow where
  executionId
  organizationId
  ruleId
  triggerId
  actions
  status := .pending
  attempts := 0
  lastFailure := none
  leaseOwner := none
  leaseUntil := none
  createdAt := s.transactionTimestamp
  updatedAt := s.transactionTimestamp

/-- `insert_execution`. -/
def insertExecution (s : Session) (row : ExecutionRow) : Tx Uuid := do
  s.statement "create execution"
  let db ← get
  match db.executions.rows.find? (fun e => e.ruleId = row.ruleId && e.triggerId = row.triggerId) with
  | some e =>
    s.statement "read execution"
    return e.executionId
  | none =>
    match db.executions.insert? row with
    | none => throw (runtime "create execution" "duplicate primary key")
    | some executions =>
      set { db with executions }
      match row.actions.asArray with
      | none => throw (.domain .invalidRequest)
      | some actions =>
        insertReceipts s row.executionId 0 actions
        return row.executionId

/-! ## Triggers -/

/-- The unique key triggers are deduplicated by. -/
def TriggerRow.sameKey (organizationId : String) (source : Source) (dedupeKey : String)
    (t : TriggerRow) : Bool :=
  t.organizationId = organizationId && t.source = source && t.dedupeKey = dedupeKey

/-- `INSERT INTO automation_triggers … ON CONFLICT(organization_id,source,dedupe_key) DO
NOTHING`; whether the row went in. -/
def insertTrigger (s : Session) (operation : String) (row : TriggerRow) : Tx Bool := do
  s.statement operation
  let db ← get
  if db.triggers.rows.any (TriggerRow.sameKey row.organizationId row.source row.dedupeKey) then
    return false
  else match db.triggers.insert? row with
    | none => throw (runtime operation "duplicate primary key")
    | some triggers =>
      if row.ruleId.all (fun id => (db.rules.find? id).isSome) then
        set { db with triggers }
        return true
      else throw (runtime operation "foreign key violation")

/-- The executions of a trigger, in id order. -/
def executionsOf (db : Database) (triggerId : Uuid) : List Uuid :=
  ((db.executions.rows.filter (fun e => e.triggerId = triggerId)).map (·.executionId)).insertionSort
    (fun a b => a.text ≤ b.text)

/-- The receipt a duplicate is answered with: the executions of the trigger recorded under the
key. -/
def duplicateReceipt (db : Database) (organizationId : String) (source : Source) (dedupeKey : String) :
    TriggerReceipt :=
  let triggers := db.triggers.rows.filter (TriggerRow.sameKey organizationId source dedupeKey)
  let executionIds := triggers.flatMap (fun t => executionsOf db t.triggerId)
  ⟨true, true, executionIds.map Uuid.text⟩

/-- `existing_trigger_receipt`. -/
def existingTriggerReceipt (s : Session) (organizationId : String) (source : Source)
    (dedupeKey : String) : Tx TriggerReceipt := do
  s.statement "read duplicate trigger"
  let db ← get
  return duplicateReceipt db organizationId source dedupeKey

/-- The trigger a delivery records. -/
def newTrigger (s : Session) (organizationId : String) (source : Source) (dedupeKey : String)
    (ruleId : Option String) (payload : Value) (occurredAt : ℤ) : TriggerRow where
  triggerId := s.newV4 0
  organizationId
  source
  dedupeKey
  ruleId
  payload
  occurredAt

/-- The loop of `receive_event` over the candidate rules; `n` counts `Uuid::new_v4()`. -/
def fireRules (s : Session) (organizationId : String) (triggerId : Uuid) (eventType : String)
    (payload : Value) : ℕ → List RuleRow → Tx (List String)
  | _, [] => pure []
  | n, rule :: rest => do
    if eventAllowed rule.trigger eventType && conditionsMatch rule.conditions payload then
      let id ← insertExecution s
        (newExecution s (s.newV4 n) organizationId rule.ruleId triggerId rule.actions)
      let ids ← fireRules s organizationId triggerId eventType payload (n + 1) rest
      return id.text :: ids
    else fireRules s organizationId triggerId eventType payload n rest

/-- `WHERE organization_id=$1 AND enabled AND deleted_at IS NULL AND trigger->>'kind'='event'`. -/
def RuleRow.takesEvents (organizationId : String) (r : RuleRow) : Bool :=
  r.organizationId = organizationId && r.enabled && r.live && triggerKind r.trigger = some "event"

/-- `storage::receive_event`. -/
def receiveEvent (s : Session) (organizationId dedupeKey : String) (occurredAt : OffsetDateTime)
    (payload : Value) : Tx (Ending TriggerReceipt) := do
  match payload.getStr "event_type" with
  | none => throw (.domain .invalidRequest)
  | some eventType =>
    s.statement "begin receive event"
    let column ← ofExcept (bindTimestamptz occurredAt)
    let trigger := newTrigger s organizationId .event dedupeKey none payload column
    let inserted ← insertTrigger s "insert event" trigger
    if !inserted then
      return .drop (← existingTriggerReceipt s organizationId .event dedupeKey)
    else
      s.statement "match event rules"
      let db ← get
      let rules := db.rules.rows.filter (RuleRow.takesEvents organizationId)
      let ids ← fireRules s organizationId trigger.triggerId eventType payload 1 rules
      s.commit "commit receive event" ⟨true, false, ids⟩

/-- The rule row lets a timer for `scheduledFor` fire. -/
def RuleRow.firesAt (scheduledFor : OffsetDateTime) (r : RuleRow) : Bool :=
  r.enabled && triggerKind r.trigger = some "schedule" &&
    r.nextFireAt.any (fun t => (decodeTimestamptz t).unixNanos = scheduledFor.unixNanos)

/-- `storage::receive_timer`. -/
def receiveTimer (s : Session) (organizationId ruleId dedupeKey : String)
    (scheduledFor : OffsetDateTime) (payload : Value) : Tx (Ending TriggerReceipt) := do
  if dedupeKey ≠ scheduleKey s.env ruleId scheduledFor then throw (.domain .invalidRequest)
  else
    s.statement "begin receive timer"
    let column ← ofExcept (bindTimestamptz scheduledFor)
    let trigger := newTrigger s organizationId .timer dedupeKey (some ruleId) payload column
    let inserted ← insertTrigger s "insert timer" trigger
    if !inserted then
      return .drop (← existingTriggerReceipt s organizationId .timer dedupeKey)
    else
      s.statement "read timer rule"
      let db ← get
      match db.rules.rows.find? (RuleRow.liveAt organizationId ruleId) with
      | none =>
        s.commit "commit stale timer" ⟨false, false, []⟩
      | some rule =>
        if !rule.firesAt scheduledFor then
          s.commit "commit ignored timer" ⟨false, false, []⟩
        else
          let id ← insertExecution s
            (newExecution s (s.newV4 1) organizationId ruleId trigger.triggerId rule.actions)
          s.commit "commit receive timer" ⟨true, false, [id.text]⟩

/-! ## Endpoints -/

/-- The endpoint of `receive_event`, past the caller check. -/
def takeEvent (s : Session) (r : ReceiveEventRequest) : Tx (Ending TriggerReceipt) := do
  if !validEvent (fun text => (s.env.parseRfc3339 text).isSome) r then throw (.domain .invalidRequest)
  else
    let occurredAt ← ofExcept (parseTime s.env r.occurredAt)
    receiveEvent s r.organizationId r.dedupeKey occurredAt r.toValue

/-- The endpoint of `receive_timer`, past the caller check. -/
def takeTimer (s : Session) (r : ReceiveTimerRequest) : Tx (Ending TriggerReceipt) := do
  if !([r.organizationId, r.ruleId, r.dedupeKey].all validId) then throw (.domain .invalidRequest)
  else
    let scheduledFor ← ofExcept (parseTime s.env r.scheduledFor)
    receiveTimer s r.organizationId r.ruleId r.dedupeKey scheduledFor r.toValue

end ProjectAutomation

import ProjectAutomation.Spec.Schedule
import ProjectAutomation.Spec.Validate

/-!
# Rule commands

`create_rule`, `update_rule`, `set_enabled` and `delete_rule` of the storage layer.
All four run inside `command`: reserve the idempotency key, answer a replay or a
conflict from the reservation alone, else do the work, store the response and
commit.
-/

namespace ProjectAutomation

open Relational

/-! ## Idempotency -/

/-- `CommandStart`. -/
inductive CommandStart where
  | new
  | replay (response : Value)
  | conflict

/-- `reserve_command`. -/
def reserveCommand (s : Session) (scope : CommandScope) (request : CommandRequest) : Tx CommandStart := do
  let hash := s.env.requestHash request
  s.statement "reserve command"
  let db ← get
  match db.commands.insert? ⟨scope, hash, none, none⟩ with
  | some commands =>
    set { db with commands }
    return .new
  | none =>
    s.statement "read command"
    match db.commands.find? scope with
    | none => throw (runtime "read command" "no row")
    | some row =>
      if row.requestHash ≠ hash then return .conflict
      else match row.response with
        | none => return .conflict
        | some value => return .replay value

/-- `WHERE … AND response IS NULL`. -/
def CommandRow.openAt (scope : CommandScope) (row : CommandRow) : Bool :=
  row.scope = scope && row.response.isNone

/-- `SET response=$5,completed_at=transaction_timestamp()`. -/
def CommandRow.answer (response : Value) (now : ℤ) (row : CommandRow) : CommandRow :=
  { row with response := some response, completedAt := some now }

/-- `complete_command`. -/
def completeCommand (s : Session) (scope : CommandScope) (response : Value) : Tx Unit := do
  s.statement "complete command"
  let db ← get
  let commands := db.commands.update (CommandRow.openAt scope)
    (CommandRow.answer response s.transactionTimestamp) ⟨fun _ => rfl⟩
  if db.commands.affected (CommandRow.openAt scope) = 1 then set { db with commands }
  else throw (runtime "complete command" "command reservation is missing or already completed")

/-- The frame of the four commands: `begin`, `reserve_command` and its three answers, the
work, `complete_command`, `commit`. -/
def command (s : Session) (name : String) (scope : CommandScope) (request : CommandRequest)
    (work : Tx Value) : Tx (Ending Value) := do
  s.statement ("begin " ++ name)
  match ← reserveCommand s scope request with
  | .replay response => return .drop response
  | .conflict => throw (.domain .idempotencyConflict)
  | .new =>
    let response ← work
    completeCommand s scope response
    s.commit ("commit " ++ name) response

/-! ## Rows -/

/-- `rule_json`. -/
def ruleJson (env : Env) (row : RuleRow) : Except StorageError Value := do
  let nextFireAt ← match row.nextFireAt with
    | none => .ok Value.null
    | some t => (formatTime env (decodeTimestamptz t)).map Value.string
  let createdAt ← formatTime env (decodeTimestamptz row.createdAt)
  let updatedAt ← formatTime env (decodeTimestamptz row.updatedAt)
  return .object [("rule_id", .string row.ruleId), ("organization_id", .string row.organizationId),
    ("name", .string row.name), ("enabled", .bool row.enabled), ("trigger", row.trigger),
    ("conditions", row.conditions), ("actions", row.actions),
    ("revision", .string (toString row.revision)), ("next_fire_at", nextFireAt),
    ("created_at", .string createdAt), ("updated_at", .string updatedAt)]

/-- `WHERE organization_id=$1 AND rule_id=$2 AND deleted_at IS NULL`. -/
def RuleRow.liveAt (organizationId ruleId : String) (r : RuleRow) : Bool :=
  r.organizationId = organizationId && r.ruleId = ruleId && r.live

/-- `WHERE organization_id=$1 AND rule_id=$2 AND revision=$3 AND deleted_at IS NULL`. -/
def RuleRow.liveAtRevision (organizationId ruleId : String) (revision : ℤ) (r : RuleRow) : Bool :=
  r.liveAt organizationId ruleId && r.revision = revision

theorem liveAtRevision_iff {organizationId ruleId : String} {revision : ℤ} {r : RuleRow} :
    r.liveAtRevision organizationId ruleId revision = true ↔
      r.organizationId = organizationId ∧ r.ruleId = ruleId ∧ r.live = true ∧ r.revision = revision := by
  simp [RuleRow.liveAtRevision, RuleRow.liveAt, and_assoc]

theorem liveAt_iff {organizationId ruleId : String} {r : RuleRow} :
    r.liveAt organizationId ruleId = true ↔
      r.organizationId = organizationId ∧ r.ruleId = ruleId ∧ r.live = true := by
  simp [RuleRow.liveAt, and_assoc]

/-- The `CHECK`s on the JSONB columns. -/
def RuleRow.wellTyped (r : RuleRow) : Bool :=
  r.trigger.isObject && r.conditions.isArray && r.actions.isArray

/-- `automation_rules_active_name_key`, `NULLS NOT DISTINCT`, violated by writing `new`. -/
def nameTaken (rules : Table RuleRow.ruleId) (new : RuleRow) : Bool :=
  rules.rows.any (fun r => r.ruleId ≠ new.ruleId && r.organizationId = new.organizationId &&
    r.name = new.name && r.deletedAt = new.deletedAt)

/-! ## Commands -/

/-- `INSERT INTO automation_rules … RETURNING …`. -/
def insertRule (s : Session) (row : RuleRow) : Tx RuleRow := do
  s.statement "insert rule"
  let db ← get
  if !row.wellTyped then throw (runtime "insert rule" "check constraint")
  else match db.rules.insert? row with
  | none => throw (.domain .ruleIdConflict)
  | some rules =>
    if nameTaken db.rules row then throw (.domain .ruleNameConflict)
    else if db.rules.rows.any (fun r => r.rowSeq = row.rowSeq) then
      throw (runtime "insert rule" "duplicate row_seq")
    else
      set { db with rules }
      return row

/-- The row `create_rule` inserts. -/
def newRule (s : Session) (organizationId ruleId name : String) (enabled : Bool)
    (trigger conditions actions : Value) (nextFireAt : Option ℤ) : RuleRow where
  ruleId
  organizationId
  name
  enabled
  trigger
  conditions
  actions
  revision := 1
  nextFireAt
  rowSeq := s.nextRowSeq
  createdAt := s.transactionTimestamp
  updatedAt := s.transactionTimestamp
  deletedAt := none

/-- `create_rule`. -/
def createRule (s : Session) (scope : CommandScope) (organizationId ruleId name : String)
    (enabled : Bool) (trigger conditions actions : Value) (request : CommandRequest) :
    Tx (Ending Value) :=
  command s "create rule" scope request do
    let nextFireAt ← ofExcept (initialNextFire s.env s.nowUtc trigger enabled)
    let column ← ofExcept (bindNullable nextFireAt)
    let row ← insertRule s (newRule s organizationId ruleId name enabled trigger conditions actions column)
    replacePendingSchedule s organizationId ruleId nextFireAt
    ofExcept (ruleJson s.env row)

/-- `SELECT … FROM automation_rules WHERE organization_id=$1 AND rule_id=$2 AND deleted_at IS
NULL FOR UPDATE`. -/
def lockRule (s : Session) (organizationId ruleId : String) : Tx RuleRow := do
  s.statement "lock rule"
  let db ← get
  match db.rules.rows.find? (RuleRow.liveAt organizationId ruleId) with
  | none => throw (.domain .notFound)
  | some row => return row

/-- `UPDATE automation_rules SET … WHERE … AND revision=$3 … RETURNING …`; `violated` is the
error of a name already taken. -/
def updateRuleRow (s : Session) (operation : String) (organizationId ruleId : String) (revision : ℤ)
    (assign : RuleRow → RuleRow) (hassign : Table.KeepsKey RuleRow.ruleId assign) (violated : StorageError) :
    Tx (Option RuleRow) := do
  s.statement operation
  let db ← get
  match db.rules.rows.find? (RuleRow.liveAtRevision organizationId ruleId revision) with
  | none => return none
  | some row =>
    if !(assign row).wellTyped then throw (runtime operation "check constraint")
    else if nameTaken db.rules (assign row) then throw violated
    else
      let rules := db.rules.update (RuleRow.liveAtRevision organizationId ruleId revision) assign hassign
      set { db with rules }
      return some (assign row)

/-- `SET name=$4,trigger=$5,conditions=$6,actions=$7,next_fire_at=$8,revision=revision+1,…`. -/
def RuleRow.redefine (name : String) (trigger conditions actions : Value) (nextFireAt : Option ℤ)
    (now : ℤ) (r : RuleRow) : RuleRow :=
  { r with name, trigger, conditions, actions, nextFireAt, revision := r.revision + 1, updatedAt := now }

/-- `SET enabled=$4,next_fire_at=$5,revision=revision+1,…`. -/
def RuleRow.enable (enabled : Bool) (nextFireAt : Option ℤ) (now : ℤ) (r : RuleRow) : RuleRow :=
  { r with enabled, nextFireAt, revision := r.revision + 1, updatedAt := now }

/-- `SET enabled=FALSE,next_fire_at=NULL,deleted_at=…,revision=revision+1,…`. -/
def RuleRow.delete (now : ℤ) (r : RuleRow) : RuleRow :=
  { r with
    enabled := false, nextFireAt := none, deletedAt := some now, revision := r.revision + 1
    updatedAt := now }

/-- What follows the guarded `UPDATE` of `update_rule` and `set_enabled`. -/
def finishRuleWrite (s : Session) (organizationId ruleId : String) (nextFireAt : Option OffsetDateTime)
    (written : Option RuleRow) : Tx Value := do
  match written with
  | none => throw (.domain .revisionConflict)
  | some row =>
    replacePendingSchedule s organizationId ruleId nextFireAt
    ofExcept (ruleJson s.env row)

/-- `update_rule`. -/
def updateRule (s : Session) (scope : CommandScope) (organizationId ruleId : String)
    (expectedRevision : ℤ) (name : String) (trigger conditions actions : Value)
    (request : CommandRequest) : Tx (Ending Value) :=
  command s "update rule" scope request do
    let current ← lockRule s organizationId ruleId
    let nextFireAt ← ofExcept (initialNextFire s.env s.nowUtc trigger current.enabled)
    let column ← ofExcept (bindNullable nextFireAt)
    let written ← updateRuleRow s "update rule" organizationId ruleId expectedRevision
      (RuleRow.redefine name trigger conditions actions column s.transactionTimestamp) ⟨fun _ => rfl⟩
      (.domain .ruleNameConflict)
    finishRuleWrite s organizationId ruleId nextFireAt written

/-- `set_enabled`. -/
def setEnabled (s : Session) (scope : CommandScope) (organizationId ruleId : String)
    (expectedRevision : ℤ) (enabled : Bool) (request : CommandRequest) : Tx (Ending Value) :=
  command s "set rule enabled" scope request do
    let current ← lockRule s organizationId ruleId
    let nextFireAt ← ofExcept (initialNextFire s.env s.nowUtc current.trigger enabled)
    let column ← ofExcept (bindNullable nextFireAt)
    let written ← updateRuleRow s "set rule enabled" organizationId ruleId expectedRevision
      (RuleRow.enable enabled column s.transactionTimestamp) ⟨fun _ => rfl⟩
       (runtime "set rule enabled" "duplicate name")
    finishRuleWrite s organizationId ruleId nextFireAt written

/-- What `delete_rule` answers. -/
def deletedJson : Value := .object [("deleted", .bool true)]

/-- `delete_rule`. -/
def deleteRule (s : Session) (scope : CommandScope) (organizationId ruleId : String)
    (expectedRevision : ℤ) (request : CommandRequest) : Tx (Ending Value) :=
  command s "delete rule" scope request do
    match ← updateRuleRow s "delete rule" organizationId ruleId expectedRevision
        (RuleRow.delete s.transactionTimestamp) ⟨fun _ => rfl⟩ (runtime "delete rule" "duplicate name") with
    | none =>
      s.statement "inspect delete conflict"
      let db ← get
      if db.rules.rows.any (RuleRow.liveAt organizationId ruleId) then
        throw (.domain .revisionConflict)
      else throw (.domain .notFound)
    | some _ =>
      replacePendingSchedule s organizationId ruleId none
      return deletedJson

/-! ## Endpoints -/

/-- `Authorized`: the calling instance and the actor the assertion was verified for. -/
structure Authorized where
  caller : String
  actor : String
deriving DecidableEq

/-- The idempotency scope of a request. -/
def CommandRequest.scope (auth : Authorized) (request : CommandRequest) : CommandScope :=
  ⟨auth.caller, auth.actor, request.operation, request.idempotencyKey⟩

/-- What the endpoint checks after authorization. -/
def CommandRequest.valid (env : Env) : CommandRequest → Bool
  | .create r => validCreateRule (fun text => (env.parseRfc3339 text).isSome) r
  | .update r => validUpdateRule (fun text => (env.parseRfc3339 text).isSome) r
  | .setEnabled r =>
    validCommandIdentity r.organizationId r.ruleId r.idempotencyKey &&
      (parseRevision? r.expectedRevision).isSome
  | .delete r =>
    validCommandIdentity r.organizationId r.ruleId r.idempotencyKey &&
      (parseRevision? r.expectedRevision).isSome

/-- `expected_revision` of a request that passed validation. -/
def expected (text : String) : ℤ := (parseRevision? text).getD 0

/-- `serde_json::to_value` of a list of conditions, of actions. -/
def storedConditions (conditions : List Condition) : Value := .array (conditions.map Condition.toValue)
def storedActions (actions : List Action) : Value := .array (actions.map Action.toValue)

/-- The storage call of the four endpoints, for a request that passed validation. -/
def storeCommand (s : Session) (auth : Authorized) (request : CommandRequest) : Tx (Ending Value) :=
  match request with
  | .create r =>
    createRule s (request.scope auth) r.organizationId r.ruleId r.name r.enabled r.trigger.toValue
      (storedConditions r.conditions) (storedActions r.actions) request
  | .update r =>
    updateRule s (request.scope auth) r.organizationId r.ruleId (expected r.expectedRevision) r.name
      r.trigger.toValue (storedConditions r.conditions) (storedActions r.actions) request
  | .setEnabled r =>
    setEnabled s (request.scope auth) r.organizationId r.ruleId (expected r.expectedRevision) r.enabled
      request
  | .delete r =>
    deleteRule s (request.scope auth) r.organizationId r.ruleId (expected r.expectedRevision) request

end ProjectAutomation

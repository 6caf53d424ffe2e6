import ProjectAutomation.Codec.Format
import ProjectAutomation.Spec.Endpoints

/-!
# The contract on the wire

How serde writes the types of `generated.rs` as JSON and reads them back: one format for
each type, put together from its fields in the order the source has them. The derived
readers also take a record as an array of its fields and a variant as an object with that
one key; `deserialize_required` makes every field required. `ts` tells the texts that
`lenso_contract_runtime::Timestamp` takes.

The domain errors have a serialization of their own, `WireError`.
-/

namespace ProjectAutomation

open Codec

variable {α : Type} (ts : String → Bool)

/-! ## serde -/

namespace Serde

def string : Format Value String where
  write := .string
  read := Value.asStr
  Fits _ := True
  read_write _ := rfl
  fits_of_read _ := trivial

def bool : Format Value Bool where
  write := .bool
  read
    | .bool b => some b
    | _ => none
  Fits _ := True
  read_write _ := rfl
  fits_of_read _ := trivial

def i64 : Format Value ℤ where
  write := .number
  read := Value.asI64
  Fits n := -2 ^ 63 ≤ n ∧ n < 2 ^ 63
  read_write h := if_pos h
  fits_of_read {d n} h := by
    unfold Value.asI64 at h
    split at h
    · split at h
      · cases h; assumption
      · cases h
    · cases h

/-- `Timestamp`. -/
def timestamp : Format Value String := string.refine ts

def array : Format Value (List Value) where
  write := .array
  read := Value.asArray
  Fits _ := True
  read_write _ := rfl
  fits_of_read _ := trivial

/-- `Vec<T>`. -/
def vec (F : Format Value α) : Format Value (List α) := F.list array fun _ => trivial

/-- `Value::is_null`. -/
def isNull : Value → Bool
  | .null => true
  | _ => false

/-- Nothing is written as `null`. -/
def NonNull (F : Format Value α) : Prop := ∀ a, isNull (F.write a) = false

/-- `Option<T>`, of a `T` that is never written as `null`. -/
def option (F : Format Value α) (h : NonNull F) : Format Value (Option α) := F.option .null isNull rfl h

/-- The name of a unit variant: a text, or the only key of an object that has `null` under it. -/
def variant : Format Value String where
  write := .string
  read
    | .string name => some name
    | .object [(name, .null)] => some name
    | _ => none
  Fits _ := True
  read_write _ := rfl
  fits_of_read _ := trivial

/-- An enumeration of unit variants. -/
def enum (all : List α) (name : α → String) (hall : ∀ a, a ∈ all)
    (hname : ∀ a ∈ all, ∀ b ∈ all, name a = name b → a = b) : Format Value α :=
  variant.table (fun _ => trivial) all name hall hname

theorem nonNull_string : NonNull string := fun _ => rfl
theorem nonNull_bool : NonNull bool := fun _ => rfl
theorem nonNull_i64 : NonNull i64 := fun _ => rfl
theorem nonNull_timestamp : NonNull (timestamp ts) := fun _ => rfl

theorem nonNull_enum {all : List α} {name : α → String} {hall : ∀ a, a ∈ all}
    {hname : ∀ a ∈ all, ∀ b ∈ all, name a = name b → a = b} : NonNull (enum all name hall hname) := fun _ => rfl

/-- What the derived visitors find under the names of a record: fields of other names are skipped, a
field given twice is refused, and so is an array that is not as long as the record. -/
def known (names : List String) : Value → Option (String → Option Value)
  | .object fields =>
    if ((fields.map Prod.fst).filter (names.contains ·)).Nodup then some (lookup fields) else none
  | .array items => if items.length = names.length then some (lookup (names.zip items)) else none
  | _ => none

/-- A struct. -/
def record (F : Fields String Value α) (hnodup : F.names.Nodup) : Format Value α where
  write a := .object (F.write a)
  read v := (known F.names v).bind F.read
  Fits := F.Fits
  read_write {a} h := by
    have hnames : ((F.write a).map Prod.fst).Nodup := by rw [F.names_write]; exact hnodup
    have hknown : known F.names (.object (F.write a)) = some (lookup (F.write a)) := if_pos (hnames.filter _)
    rw [hknown, Option.bind_some]
    refine F.read_write h fun f hf => lookup_of_mem (p := fun _ => true) ?_ hf rfl
    rwa [List.filter_true]
  fits_of_read h := by
    obtain ⟨_, -, hread⟩ := Option.bind_eq_some_iff.1 h
    exact F.fits_of_read hread

/-- `Option<String>`. -/
def optString : Format Value (Option String) := option string nonNull_string

end Serde

open Serde

/-! ## Rules -/

/-- `TriggerEventTypesItem`, `ReceiveEventRequestEventType`. -/
def EventType.format : Format Value EventType :=
  enum [.issueCreated, .issueUpdated, .issueMoved, .issueArchived, .commentAdded, .projectCreated,
    .projectUpdated, .projectArchived] EventType.name (fun a => by cases a <;> decide) (by decide)

def TriggerKind.format : Format Value TriggerKind :=
  enum [.event, .schedule] TriggerKind.name (fun a => by cases a <;> decide) (by decide)

def Trigger.format : Format Value Trigger :=
  record (((Fields.one "event_types" (vec EventType.format)).and <|
    (Fields.one "interval_seconds" (option i64 nonNull_i64)).and <|
    (Fields.one "kind" TriggerKind.format).and <|
    Fields.one "start_at" (option (timestamp ts) (nonNull_timestamp ts))).congr
      ⟨fun (a, b, c, d) => ⟨a, b, c, d⟩, fun t => (t.eventTypes, t.intervalSeconds, t.kind, t.startAt),
        fun _ => rfl, fun _ => rfl⟩) (by dsimp only [Fields.congr, Fields.and, Fields.one]; decide)

def ConditionField.format : Format Value ConditionField :=
  enum [.eventType, .entityKind, .teamId, .projectId, .workflowStateId, .priority, .statusId, .labelId]
    ConditionField.name (fun a => by cases a <;> decide) (by decide)

def ConditionOperator.format : Format Value ConditionOperator :=
  enum [.equals, .notEquals, .contains] ConditionOperator.name (fun a => by cases a <;> decide) (by decide)

def Condition.format : Format Value Condition :=
  record (((Fields.one "field" ConditionField.format).and <|
    (Fields.one "operator" ConditionOperator.format).and <|
    Fields.one "value" string).congr
      ⟨fun (a, b, c) => ⟨a, b, c⟩, fun c => (c.field, c.operator, c.value), fun _ => rfl, fun _ => rfl⟩)
    (by decide)

def ActionKind.format : Format Value ActionKind :=
  enum [.assignIssueToTeam, .updateIssue, .moveIssue, .addComment, .updateProject] ActionKind.name
    (fun a => by cases a <;> decide) (by decide)

/-- `ActionPriority`, `ReceiveEventRequestPriority`. -/
def Priority.format : Format Value Priority :=
  enum [.none, .urgent, .high, .medium, .low] Priority.name (fun a => by cases a <;> decide) (by decide)

def Action.format : Format Value Action :=
  record (((Fields.one "comment_body" optString).and <| (Fields.one "description" optString).and <|
    (Fields.one "issue_id" optString).and <| (Fields.one "kind" ActionKind.format).and <|
    (Fields.one "label_ids" (vec string)).and <|
    (Fields.one "priority" (option Priority.format nonNull_enum)).and <|
    (Fields.one "project_id" optString).and <| (Fields.one "project_name" optString).and <|
    (Fields.one "project_summary" optString).and <| (Fields.one "replace_labels" bool).and <|
    (Fields.one "status_id" optString).and <| (Fields.one "team_id" optString).and <|
    (Fields.one "title" optString).and <| Fields.one "workflow_state_id" optString).congr
      ⟨fun (a, b, c, d, e, f, g, h, i, j, k, l, m, n) => ⟨a, b, c, d, e, f, g, h, i, j, k, l, m, n⟩,
        fun a => (a.commentBody, a.description, a.issueId, a.kind, a.labelIds, a.priority, a.projectId,
          a.projectName, a.projectSummary, a.replaceLabels, a.statusId, a.teamId, a.title, a.workflowStateId),
        fun _ => rfl, fun _ => rfl⟩) (by decide)

/-! ## Requests -/

def CreateRuleRequest.format : Format Value CreateRuleRequest :=
  record (((Fields.one "actions" (vec Action.format)).and <|
    (Fields.one "conditions" (vec Condition.format)).and <| (Fields.one "enabled" bool).and <|
    (Fields.one "idempotency_key" string).and <| (Fields.one "name" string).and <|
    (Fields.one "organization_id" string).and <| (Fields.one "rule_id" string).and <|
    Fields.one "trigger" (Trigger.format ts)).congr
      ⟨fun (a, b, c, d, e, f, g, h) => ⟨a, b, c, d, e, f, g, h⟩,
        fun r => (r.actions, r.conditions, r.enabled, r.idempotencyKey, r.name, r.organizationId, r.ruleId,
          r.trigger), fun _ => rfl, fun _ => rfl⟩) (by dsimp only [Fields.congr, Fields.and, Fields.one]; decide)

def UpdateRuleRequest.format : Format Value UpdateRuleRequest :=
  record (((Fields.one "actions" (vec Action.format)).and <|
    (Fields.one "conditions" (vec Condition.format)).and <| (Fields.one "expected_revision" string).and <|
    (Fields.one "idempotency_key" string).and <| (Fields.one "name" string).and <|
    (Fields.one "organization_id" string).and <| (Fields.one "rule_id" string).and <|
    Fields.one "trigger" (Trigger.format ts)).congr
      ⟨fun (a, b, c, d, e, f, g, h) => ⟨a, b, c, d, e, f, g, h⟩,
        fun r => (r.actions, r.conditions, r.expectedRevision, r.idempotencyKey, r.name, r.organizationId,
          r.ruleId, r.trigger), fun _ => rfl, fun _ => rfl⟩)
    (by dsimp only [Fields.congr, Fields.and, Fields.one]; decide)

def SetRuleEnabledRequest.format : Format Value SetRuleEnabledRequest :=
  record (((Fields.one "enabled" bool).and <| (Fields.one "expected_revision" string).and <|
    (Fields.one "idempotency_key" string).and <| (Fields.one "organization_id" string).and <|
    Fields.one "rule_id" string).congr
      ⟨fun (a, b, c, d, e) => ⟨a, b, c, d, e⟩,
        fun r => (r.enabled, r.expectedRevision, r.idempotencyKey, r.organizationId, r.ruleId),
        fun _ => rfl, fun _ => rfl⟩) (by decide)

def DeleteRuleRequest.format : Format Value DeleteRuleRequest :=
  record (((Fields.one "expected_revision" string).and <| (Fields.one "idempotency_key" string).and <|
    (Fields.one "organization_id" string).and <| Fields.one "rule_id" string).congr
      ⟨fun (a, b, c, d) => ⟨a, b, c, d⟩,
        fun r => (r.expectedRevision, r.idempotencyKey, r.organizationId, r.ruleId), fun _ => rfl, fun _ => rfl⟩)
    (by decide)

def GetRuleRequest.format : Format Value GetRuleRequest :=
  record (((Fields.one "organization_id" string).and <| Fields.one "rule_id" string).congr
    ⟨fun (a, b) => ⟨a, b⟩, fun r => (r.organizationId, r.ruleId), fun _ => rfl, fun _ => rfl⟩) (by decide)

def ListRulesRequest.format : Format Value ListRulesRequest :=
  record (((Fields.one "after" optString).and <| (Fields.one "enabled" (option bool nonNull_bool)).and <|
    (Fields.one "limit" i64).and <| Fields.one "organization_id" string).congr
      ⟨fun (a, b, c, d) => ⟨a, b, c, d⟩, fun r => (r.after, r.enabled, r.limit, r.organizationId),
        fun _ => rfl, fun _ => rfl⟩) (by decide)

def InspectExecutionRequest.format : Format Value InspectExecutionRequest :=
  record (((Fields.one "attempt_after" optString).and <| (Fields.one "attempt_limit" i64).and <|
    (Fields.one "execution_id" string).and <| Fields.one "organization_id" string).congr
      ⟨fun (a, b, c, d) => ⟨a, b, c, d⟩,
        fun r => (r.attemptAfter, r.attemptLimit, r.executionId, r.organizationId), fun _ => rfl, fun _ => rfl⟩)
    (by decide)

/-- `ReceiveEventRequestEntityKind`. -/
def EntityKind.format : Format Value EntityKind :=
  enum [.issue, .project] EntityKind.name (fun a => by cases a <;> decide) (by decide)

def ReceiveEventRequest.format : Format Value ReceiveEventRequest :=
  record (((Fields.one "dedupe_key" string).and <| (Fields.one "entity_id" string).and <|
    (Fields.one "entity_kind" EntityKind.format).and <| (Fields.one "event_type" EventType.format).and <|
    (Fields.one "label_ids" (vec string)).and <| (Fields.one "occurred_at" (timestamp ts)).and <|
    (Fields.one "organization_id" string).and <|
    (Fields.one "priority" (option Priority.format nonNull_enum)).and <|
    (Fields.one "project_id" optString).and <| (Fields.one "status_id" optString).and <|
    (Fields.one "team_id" optString).and <| Fields.one "workflow_state_id" optString).congr
      ⟨fun (a, b, c, d, e, f, g, h, i, j, k, l) => ⟨a, b, c, d, e, f, g, h, i, j, k, l⟩,
        fun r => (r.dedupeKey, r.entityId, r.entityKind, r.eventType, r.labelIds, r.occurredAt,
          r.organizationId, r.priority, r.projectId, r.statusId, r.teamId, r.workflowStateId),
        fun _ => rfl, fun _ => rfl⟩) (by dsimp only [Fields.congr, Fields.and, Fields.one]; decide)

def ReceiveTimerRequest.format : Format Value ReceiveTimerRequest :=
  record (((Fields.one "dedupe_key" string).and <| (Fields.one "organization_id" string).and <|
    (Fields.one "rule_id" string).and <| Fields.one "scheduled_for" (timestamp ts)).congr
      ⟨fun (a, b, c, d) => ⟨a, b, c, d⟩, fun r => (r.dedupeKey, r.organizationId, r.ruleId, r.scheduledFor),
        fun _ => rfl, fun _ => rfl⟩) (by dsimp only [Fields.congr, Fields.and, Fields.one]; decide)

def ReconcileRequest.format : Format Value ReconcileRequest :=
  record (((Fields.one "limit" i64).and <| Fields.one "organization_id" string).congr
    ⟨fun (a, b) => ⟨a, b⟩, fun r => (r.limit, r.organizationId), fun _ => rfl, fun _ => rfl⟩) (by decide)

/-! ### Operations -/

namespace Request

/-- The constant `…_OPERATION` a client names. -/
def operation : Request → String
  | createRule _ => "create_rule"
  | getRule _ => "get_rule"
  | listRules _ => "list_rules"
  | updateRule _ => "update_rule"
  | setRuleEnabled _ => "set_rule_enabled"
  | deleteRule _ => "delete_rule"
  | receiveEvent _ => "receive_event"
  | receiveTimer _ => "receive_timer"
  | inspectExecution _ => "inspect_execution"
  | reconcile _ => "reconcile"

/-- `encode_…_request`. -/
def toValue : Request → Value
  | createRule r => (CreateRuleRequest.format ts).write r
  | getRule r => GetRuleRequest.format.write r
  | listRules r => ListRulesRequest.format.write r
  | updateRule r => (UpdateRuleRequest.format ts).write r
  | setRuleEnabled r => SetRuleEnabledRequest.format.write r
  | deleteRule r => DeleteRuleRequest.format.write r
  | receiveEvent r => (ReceiveEventRequest.format ts).write r
  | receiveTimer r => (ReceiveTimerRequest.format ts).write r
  | inspectExecution r => InspectExecutionRequest.format.write r
  | reconcile r => ReconcileRequest.format.write r

/-- `decode_…_request` of an operation. -/
def fromValue (operation : String) (v : Value) : Option Request :=
  match operation with
  | "create_rule" => ((CreateRuleRequest.format ts).read v).map createRule
  | "get_rule" => (GetRuleRequest.format.read v).map getRule
  | "list_rules" => (ListRulesRequest.format.read v).map listRules
  | "update_rule" => ((UpdateRuleRequest.format ts).read v).map updateRule
  | "set_rule_enabled" => (SetRuleEnabledRequest.format.read v).map setRuleEnabled
  | "delete_rule" => (DeleteRuleRequest.format.read v).map deleteRule
  | "receive_event" => ((ReceiveEventRequest.format ts).read v).map receiveEvent
  | "receive_timer" => ((ReceiveTimerRequest.format ts).read v).map receiveTimer
  | "inspect_execution" => (InspectExecutionRequest.format.read v).map inspectExecution
  | "reconcile" => (ReconcileRequest.format.read v).map reconcile
  | _ => none

end Request

/-! ## Responses -/

/-- `CreateRuleResponse`, `GetRuleResponse`, `UpdateRuleResponse`, `SetRuleEnabledResponse` and
`ListRulesResponseItemsItem`. -/
structure RuleResponse where
  actions : List Action
  conditions : List Condition
  createdAt : String
  enabled : Bool
  name : String
  nextFireAt : Option String
  organizationId : String
  revision : String
  ruleId : String
  trigger : Trigger
  updatedAt : String
deriving DecidableEq

def RuleResponse.format : Format Value RuleResponse :=
  record (((Fields.one "actions" (vec Action.format)).and <|
    (Fields.one "conditions" (vec Condition.format)).and <| (Fields.one "created_at" (timestamp ts)).and <|
    (Fields.one "enabled" bool).and <| (Fields.one "name" string).and <|
    (Fields.one "next_fire_at" (option (timestamp ts) (nonNull_timestamp ts))).and <|
    (Fields.one "organization_id" string).and <| (Fields.one "revision" string).and <|
    (Fields.one "rule_id" string).and <| (Fields.one "trigger" (Trigger.format ts)).and <|
    Fields.one "updated_at" (timestamp ts)).congr
      ⟨fun (a, b, c, d, e, f, g, h, i, j, k) => ⟨a, b, c, d, e, f, g, h, i, j, k⟩,
        fun r => (r.actions, r.conditions, r.createdAt, r.enabled, r.name, r.nextFireAt, r.organizationId,
          r.revision, r.ruleId, r.trigger, r.updatedAt), fun _ => rfl, fun _ => rfl⟩)
    (by dsimp only [Fields.congr, Fields.and, Fields.one]; decide)

/-- `DeleteRuleResponse`. -/
structure DeleteRuleResponse where
  deleted : Bool
deriving DecidableEq

def DeleteRuleResponse.format : Format Value DeleteRuleResponse :=
  record ((Fields.one "deleted" bool).congr ⟨fun a => ⟨a⟩, fun r => r.deleted, fun _ => rfl, fun _ => rfl⟩)
    (by decide)

/-- `ListRulesResponse`. -/
structure ListRulesResponse where
  items : List RuleResponse
  nextCursor : Option String
deriving DecidableEq

def ListRulesResponse.format : Format Value ListRulesResponse :=
  record (((Fields.one "items" (vec (RuleResponse.format ts))).and <| Fields.one "next_cursor" optString).congr
    ⟨fun (a, b) => ⟨a, b⟩, fun r => (r.items, r.nextCursor), fun _ => rfl, fun _ => rfl⟩)
    (by dsimp only [Fields.congr, Fields.and, Fields.one]; decide)

/-- `ActionReceiptStatus`. -/
def ReceiptStatus.format : Format Value ReceiptStatus :=
  enum [.pending, .succeeded, .failed] ReceiptStatus.name (fun a => by cases a <;> decide) (by decide)

/-- `AttemptReceiptStatus`. -/
def AttemptStatus.format : Format Value AttemptStatus :=
  enum [.running, .succeeded, .failed, .retryable] AttemptStatus.name (fun a => by cases a <;> decide)
    (by decide)

/-- `InspectExecutionResponseStatus`. -/
def ExecutionStatus.format : Format Value ExecutionStatus :=
  enum [.pending, .running, .succeeded, .failed] ExecutionStatus.name (fun a => by cases a <;> decide)
    (by decide)

/-- `ActionReceipt`. -/
structure ActionReceipt where
  actionIndex : ℤ
  attempts : ℤ
  idempotencyKey : String
  kind : String
  lastFailure : Option String
  status : ReceiptStatus
  updatedAt : String
deriving DecidableEq

def ActionReceipt.format : Format Value ActionReceipt :=
  record (((Fields.one "action_index" i64).and <| (Fields.one "attempts" i64).and <|
    (Fields.one "idempotency_key" string).and <| (Fields.one "kind" string).and <|
    (Fields.one "last_failure" optString).and <| (Fields.one "status" ReceiptStatus.format).and <|
    Fields.one "updated_at" (timestamp ts)).congr
      ⟨fun (a, b, c, d, e, f, g) => ⟨a, b, c, d, e, f, g⟩,
        fun r => (r.actionIndex, r.attempts, r.idempotencyKey, r.kind, r.lastFailure, r.status, r.updatedAt),
        fun _ => rfl, fun _ => rfl⟩) (by dsimp only [Fields.congr, Fields.and, Fields.one]; decide)

/-- `AttemptReceipt`. -/
structure AttemptReceipt where
  attempt : ℤ
  completedAt : Option String
  failure : Option String
  startedAt : String
  status : AttemptStatus
  workerInstance : String
deriving DecidableEq

def AttemptReceipt.format : Format Value AttemptReceipt :=
  record (((Fields.one "attempt" i64).and <|
    (Fields.one "completed_at" (option (timestamp ts) (nonNull_timestamp ts))).and <|
    (Fields.one "failure" optString).and <| (Fields.one "started_at" (timestamp ts)).and <|
    (Fields.one "status" AttemptStatus.format).and <| Fields.one "worker_instance" string).congr
      ⟨fun (a, b, c, d, e, f) => ⟨a, b, c, d, e, f⟩,
        fun r => (r.attempt, r.completedAt, r.failure, r.startedAt, r.status, r.workerInstance),
        fun _ => rfl, fun _ => rfl⟩) (by dsimp only [Fields.congr, Fields.and, Fields.one]; decide)

/-- `InspectExecutionResponse`. -/
structure InspectExecutionResponse where
  actions : List ActionReceipt
  attemptReceipts : List AttemptReceipt
  attempts : ℤ
  createdAt : String
  executionId : String
  lastFailure : Option String
  nextAttemptCursor : Option String
  ruleId : String
  status : ExecutionStatus
  triggerId : String
  updatedAt : String
deriving DecidableEq

def InspectExecutionResponse.format : Format Value InspectExecutionResponse :=
  record (((Fields.one "actions" (vec (ActionReceipt.format ts))).and <|
    (Fields.one "attempt_receipts" (vec (AttemptReceipt.format ts))).and <| (Fields.one "attempts" i64).and <|
    (Fields.one "created_at" (timestamp ts)).and <| (Fields.one "execution_id" string).and <|
    (Fields.one "last_failure" optString).and <| (Fields.one "next_attempt_cursor" optString).and <|
    (Fields.one "rule_id" string).and <| (Fields.one "status" ExecutionStatus.format).and <|
    (Fields.one "trigger_id" string).and <| Fields.one "updated_at" (timestamp ts)).congr
      ⟨fun (a, b, c, d, e, f, g, h, i, j, k) => ⟨a, b, c, d, e, f, g, h, i, j, k⟩,
        fun r => (r.actions, r.attemptReceipts, r.attempts, r.createdAt, r.executionId, r.lastFailure,
          r.nextAttemptCursor, r.ruleId, r.status, r.triggerId, r.updatedAt), fun _ => rfl, fun _ => rfl⟩)
    (by dsimp only [Fields.congr, Fields.and, Fields.one]; decide)

/-- `ReceiveEventResponse`, `ReceiveTimerResponse`. -/
def TriggerReceipt.format : Format Value TriggerReceipt :=
  record (((Fields.one "accepted" bool).and <| (Fields.one "duplicate" bool).and <|
    Fields.one "execution_ids" (vec string)).congr
      ⟨fun (a, b, c) => ⟨a, b, c⟩, fun r => (r.accepted, r.duplicate, r.executionIds), fun _ => rfl, fun _ => rfl⟩)
    (by decide)

/-- `ReconcileResponse`, as it is written. -/
def ReconcileResponse.toValue (r : ReconcileResponse) : Value :=
  .object [("claimed", .number r.claimed), ("failed", .number r.failed),
    ("schedule_enqueued", .number r.scheduleEnqueued), ("schedule_pending", .number r.schedulePending),
    ("succeeded", .number r.succeeded)]

/-- `encode_…_response`. -/
def Response.toValue : Response → Value
  | .value v => v
  | .receipt r => TriggerReceipt.format.write r
  | .reconciled r => r.toValue

/-- Whether `decode` reads a stored response of an operation. -/
def decodes (operation : String) (v : Value) : Bool :=
  match operation with
  | "create_rule" | "get_rule" | "update_rule" | "set_rule_enabled" => ((RuleResponse.format ts).read v).isSome
  | "delete_rule" => (DeleteRuleResponse.format.read v).isSome
  | "list_rules" => ((ListRulesResponse.format ts).read v).isSome
  | "inspect_execution" => ((InspectExecutionResponse.format ts).read v).isSome
  | _ => false

/-! ## Domain errors -/

/-- The text a domain error has on the wire. -/
def AutomationError.name : AutomationError → String
  | .unauthenticated => "unauthenticated"
  | .forbidden => "forbidden"
  | .invalidRequest => "invalid_request"
  | .notFound => "not_found"
  | .revisionConflict => "revision_conflict"
  | .idempotencyConflict => "idempotency_conflict"
  | .ruleIdConflict => "rule_id_conflict"
  | .ruleNameConflict => "rule_name_conflict"

/-- The error of a text, if it is one of the eight. -/
def AutomationError.ofName? (code : String) : Option AutomationError :=
  [.unauthenticated, .forbidden, .invalidRequest, .notFound, .revisionConflict, .idempotencyConflict,
    .ruleIdConflict, .ruleNameConflict].find? (·.name = code)

/-- `CreateRuleError` and its nine kin, `Unknown` included; `extra` is a `BTreeMap`, in the order of its
keys. -/
inductive WireError where
  | known (error : AutomationError)
  | unknown (code : String) (payload : Option Value) (extra : List (String × Value))

namespace WireError

/-- The entries of an unknown error. -/
def entries (code : String) (payload : Option Value) (extra : List (String × Value)) : List (String × Value) :=
  ("code", .string code) :: (payload.toList.map ("payload", ·) ++ extra)

/-- `Serialize`. -/
def toValue : WireError → Value
  | known error => .string error.name
  | unknown code payload extra => .object (entries code payload extra)

/-- The entries left when `name` is removed. -/
def without (name : String) (fields : List (String × Value)) : List (String × Value) :=
  fields.filter (·.1 ≠ name)

/-- `object.into_iter().collect::<BTreeMap<_, _>>()`. -/
def sorted (fields : List (String × Value)) : List (String × Value) :=
  fields.insertionSort (fun a b => a.1 ≤ b.1)

/-- `Deserialize`. A `Value::Object` has each key once. -/
def fromValue : Value → Option WireError
  | .string code => some (match AutomationError.ofName? code with
    | some error => known error
    | none => unknown code none [])
  | .object fields =>
    if (fields.map Prod.fst).Nodup then
      match (lookup fields "code").bind Value.asStr with
      | some code =>
        let rest := without "code" fields
        some (unknown code (lookup rest "payload") (sorted (without "payload" rest)))
      | none => none
    else none
  | _ => none

end WireError

end ProjectAutomation

import ProjectAutomation.Codec.Format
import ProjectAutomation.Spec.Value
import ProjectAutomation.Text.Rfc3339

/-!
# The published schemas

`schemas/*.json` of the capability, each as what conforms to it, with `format` asserted.
The schemas use a fragment of JSON Schema in which every property is required and no
other is allowed. `requestSchema` and `responseSchema` are the table of
`capability.json`.
-/

namespace ProjectAutomation

/-- A JSON Schema. -/
abbrev Schema := Value → Bool

namespace Schema

/-! ## The fragment -/

def string : Schema
  | .string _ => true
  | _ => false

def boolean : Schema
  | .bool _ => true
  | _ => false

/-- A number without a fractional part, however it is written. -/
def integer : Schema
  | .number _ => true
  | .decimal q => q.isInt
  | _ => false

/-- An `integer` with `minimum` and `maximum`. -/
def between (minimum maximum : ℤ) : Schema
  | .number n => minimum ≤ n && n ≤ maximum
  | .decimal q => q.isInt && minimum ≤ q && q ≤ maximum
  | _ => false

/-- `"format":"date-time"`. -/
def dateTime : Schema
  | .string s => Text.Rfc3339.dateTime s.toList
  | _ => false

/-- `^[1-9][0-9]*$`. -/
def positiveText (s : String) : Bool :=
  match s.toList with
  | c :: rest => c != '0' && (c :: rest).all Char.isDigit
  | [] => false

/-- `"pattern":"^[1-9][0-9]*$"`. -/
def positive : Schema
  | .string s => positiveText s
  | _ => false

def enum (texts : List String) : Schema
  | .string s => texts.contains s
  | _ => false

/-- `"type":[…,"null"]`. -/
def nullable (schema : Schema) : Schema
  | .null => true
  | v => schema v

def array (items : Schema) : Schema
  | .array vs => vs.all items
  | _ => false

/-- An object with all of these properties and no others. -/
def object (properties : List (String × Schema)) : Schema
  | .object fields =>
    (fields.map Prod.fst).Nodup && fields.all (fun f => (Codec.lookup properties f.1).any (· f.2)) &&
      properties.all (fun p => (Codec.lookup fields p.1).isSome)
  | _ => false

/-! ## Rules -/

/-- The texts of `event_types` and `event_type`. -/
def eventType : Schema :=
  enum ["issue_created", "issue_updated", "issue_moved", "issue_archived", "comment_added", "project_created",
    "project_updated", "project_archived"]

def priority : Schema := enum ["none", "urgent", "high", "medium", "low"]

/-- `#/$defs/Trigger`. -/
def trigger : Schema :=
  object [("kind", enum ["event", "schedule"]), ("event_types", array eventType),
    ("interval_seconds", nullable (between 60 31536000)), ("start_at", nullable dateTime)]

/-- `#/$defs/Condition`. -/
def condition : Schema :=
  object [("field", enum ["event_type", "entity_kind", "team_id", "project_id", "workflow_state_id", "priority",
      "status_id", "label_id"]),
    ("operator", enum ["equals", "not_equals", "contains"]), ("value", string)]

/-- `#/$defs/Action`. -/
def action : Schema :=
  object [("kind", enum ["assign_issue_to_team", "update_issue", "move_issue", "add_comment", "update_project"]),
    ("issue_id", nullable string), ("project_id", nullable string), ("team_id", nullable string),
    ("workflow_state_id", nullable string), ("title", nullable string), ("description", nullable string),
    ("priority", nullable priority), ("replace_labels", boolean), ("label_ids", array string),
    ("comment_body", nullable string), ("project_name", nullable string), ("project_summary", nullable string),
    ("status_id", nullable string)]

/-! ## Requests -/

def createRuleRequest : Schema :=
  object [("idempotency_key", string), ("organization_id", string), ("rule_id", string), ("name", string),
    ("enabled", boolean), ("trigger", trigger), ("conditions", array condition), ("actions", array action)]

def updateRuleRequest : Schema :=
  object [("idempotency_key", string), ("organization_id", string), ("rule_id", string),
    ("expected_revision", positive), ("name", string), ("trigger", trigger), ("conditions", array condition),
    ("actions", array action)]

def setRuleEnabledRequest : Schema :=
  object [("idempotency_key", string), ("organization_id", string), ("rule_id", string),
    ("expected_revision", positive), ("enabled", boolean)]

def deleteRuleRequest : Schema :=
  object [("idempotency_key", string), ("organization_id", string), ("rule_id", string),
    ("expected_revision", positive)]

def getRuleRequest : Schema := object [("organization_id", string), ("rule_id", string)]

def listRulesRequest : Schema :=
  object [("organization_id", string), ("enabled", nullable boolean), ("limit", between 1 100),
    ("after", nullable string)]

def inspectExecutionRequest : Schema :=
  object [("organization_id", string), ("execution_id", string), ("attempt_limit", between 1 100),
    ("attempt_after", nullable positive)]

def receiveEventRequest : Schema :=
  object [("organization_id", string), ("dedupe_key", string), ("event_type", eventType),
    ("entity_kind", enum ["issue", "project"]), ("entity_id", string), ("project_id", nullable string),
    ("team_id", nullable string), ("workflow_state_id", nullable string), ("priority", nullable priority),
    ("status_id", nullable string), ("label_ids", array string), ("occurred_at", dateTime)]

def receiveTimerRequest : Schema :=
  object [("organization_id", string), ("rule_id", string), ("dedupe_key", string), ("scheduled_for", dateTime)]

def reconcileRequest : Schema := object [("organization_id", string), ("limit", between 1 100)]

/-! ## Responses -/

def ruleResponse : Schema :=
  object [("rule_id", string), ("organization_id", string), ("name", string), ("enabled", boolean),
    ("trigger", trigger), ("conditions", array condition), ("actions", array action), ("revision", positive),
    ("next_fire_at", nullable dateTime), ("created_at", dateTime), ("updated_at", dateTime)]

def deleteRuleResponse : Schema := object [("deleted", boolean)]

def listRulesResponse : Schema := object [("items", array ruleResponse), ("next_cursor", nullable string)]

/-! The schemas of counts, in which `integer` says what an integer is. -/

section Counts

variable (integer : Schema)

/-- `#/$defs/AttemptReceipt`. -/
def attemptReceipt : Schema :=
  object [("attempt", integer), ("worker_instance", string),
    ("status", enum ["running", "succeeded", "failed", "retryable"]), ("failure", nullable string),
    ("started_at", dateTime), ("completed_at", nullable dateTime)]

/-- `#/$defs/ActionReceipt`. -/
def actionReceipt : Schema :=
  object [("action_index", integer), ("kind", string), ("status", enum ["pending", "succeeded", "failed"]),
    ("attempts", integer), ("idempotency_key", string), ("last_failure", nullable string),
    ("updated_at", dateTime)]

def inspectExecutionResponse : Schema :=
  object [("execution_id", string), ("rule_id", string), ("trigger_id", string),
    ("status", enum ["pending", "running", "succeeded", "failed"]), ("attempts", integer),
    ("last_failure", nullable string), ("created_at", dateTime), ("updated_at", dateTime),
    ("attempt_receipts", array (attemptReceipt integer)), ("next_attempt_cursor", nullable positive),
    ("actions", array (actionReceipt integer))]

end Counts

def triggerReceiptResponse : Schema :=
  object [("accepted", boolean), ("duplicate", boolean), ("execution_ids", array string)]

def reconcileResponse : Schema :=
  object [("claimed", integer), ("succeeded", integer), ("failed", integer), ("schedule_enqueued", integer),
    ("schedule_pending", integer)]

end Schema

/-! ## Operations -/

/-- `request_schema` of an operation. -/
def requestSchema (operation : String) : Schema :=
  match operation with
  | "create_rule" => Schema.createRuleRequest
  | "get_rule" => Schema.getRuleRequest
  | "list_rules" => Schema.listRulesRequest
  | "update_rule" => Schema.updateRuleRequest
  | "set_rule_enabled" => Schema.setRuleEnabledRequest
  | "delete_rule" => Schema.deleteRuleRequest
  | "receive_event" => Schema.receiveEventRequest
  | "receive_timer" => Schema.receiveTimerRequest
  | "inspect_execution" => Schema.inspectExecutionRequest
  | "reconcile" => Schema.reconcileRequest
  | _ => fun _ => false

/-- `response_schema` of an operation. -/
def responseSchema (operation : String) : Schema :=
  match operation with
  | "create_rule" | "get_rule" | "update_rule" | "set_rule_enabled" => Schema.ruleResponse
  | "list_rules" => Schema.listRulesResponse
  | "delete_rule" => Schema.deleteRuleResponse
  | "receive_event" | "receive_timer" => Schema.triggerReceiptResponse
  | "inspect_execution" => Schema.inspectExecutionResponse Schema.integer
  | "reconcile" => Schema.reconcileResponse
  | _ => fun _ => false

end ProjectAutomation

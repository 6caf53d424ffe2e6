import ProjectAutomation.Spec.Value

/-!
# The `lenso.project-automation@1` contract

The request types of the capability, and how serde writes them as JSON (fields in
alphabetical order, an absent option as `null`). `Action.fromValue` is serde's
reading of a stored action.
-/

namespace ProjectAutomation

/-! ## Rules -/

/-- `TriggerEventTypesItem`, `ReceiveEventRequestEventType`. -/
inductive EventType where
  | issueCreated | issueUpdated | issueMoved | issueArchived | commentAdded
  | projectCreated | projectUpdated | projectArchived
deriving DecidableEq

def EventType.name : EventType → String
  | .issueCreated => "issue_created"
  | .issueUpdated => "issue_updated"
  | .issueMoved => "issue_moved"
  | .issueArchived => "issue_archived"
  | .commentAdded => "comment_added"
  | .projectCreated => "project_created"
  | .projectUpdated => "project_updated"
  | .projectArchived => "project_archived"

/-- `TriggerKind`. -/
inductive TriggerKind where
  | event | schedule
deriving DecidableEq

def TriggerKind.name : TriggerKind → String
  | .event => "event"
  | .schedule => "schedule"

/-- `Trigger`. -/
structure Trigger where
  eventTypes : List EventType
  intervalSeconds : Option ℤ
  kind : TriggerKind
  startAt : Option String
deriving DecidableEq

def Trigger.toValue (t : Trigger) : Value :=
  .object [("event_types", .array (t.eventTypes.map (fun e => .string e.name))),
    ("interval_seconds", .ofOption .number t.intervalSeconds), ("kind", .string t.kind.name),
    ("start_at", .ofOption .string t.startAt)]

/-- `ConditionField`. -/
inductive ConditionField where
  | eventType | entityKind | teamId | projectId | workflowStateId | priority | statusId | labelId
deriving DecidableEq

def ConditionField.name : ConditionField → String
  | .eventType => "event_type"
  | .entityKind => "entity_kind"
  | .teamId => "team_id"
  | .projectId => "project_id"
  | .workflowStateId => "workflow_state_id"
  | .priority => "priority"
  | .statusId => "status_id"
  | .labelId => "label_id"

/-- `ConditionOperator`. -/
inductive ConditionOperator where
  | equals | notEquals | contains
deriving DecidableEq

def ConditionOperator.name : ConditionOperator → String
  | .equals => "equals"
  | .notEquals => "not_equals"
  | .contains => "contains"

/-- `Condition`. -/
structure Condition where
  field : ConditionField
  operator : ConditionOperator
  value : String
deriving DecidableEq

def Condition.toValue (c : Condition) : Value :=
  .object [("field", .string c.field.name), ("operator", .string c.operator.name),
    ("value", .string c.value)]

/-- `ActionKind`. -/
inductive ActionKind where
  | assignIssueToTeam | updateIssue | moveIssue | addComment | updateProject
deriving DecidableEq

def ActionKind.name : ActionKind → String
  | .assignIssueToTeam => "assign_issue_to_team"
  | .updateIssue => "update_issue"
  | .moveIssue => "move_issue"
  | .addComment => "add_comment"
  | .updateProject => "update_project"

/-- `ActionKind` as serde reads it. -/
def ActionKind.ofName? (s : String) : Option ActionKind :=
  [.assignIssueToTeam, .updateIssue, .moveIssue, .addComment, .updateProject].find? (·.name = s)

/-- `ActionPriority`, `ReceiveEventRequestPriority` and the Projects capability's `Priority`. -/
inductive Priority where
  | none | urgent | high | medium | low
deriving DecidableEq

def Priority.name : Priority → String
  | .none => "none"
  | .urgent => "urgent"
  | .high => "high"
  | .medium => "medium"
  | .low => "low"

def Priority.ofName? (s : String) : Option Priority :=
  [.none, .urgent, .high, .medium, .low].find? (·.name = s)

/-- `Action`. -/
structure Action where
  commentBody : Option String
  description : Option String
  issueId : Option String
  kind : ActionKind
  labelIds : List String
  priority : Option Priority
  projectId : Option String
  projectName : Option String
  projectSummary : Option String
  replaceLabels : Bool
  statusId : Option String
  teamId : Option String
  title : Option String
  workflowStateId : Option String
deriving DecidableEq

namespace Action

def toValue (a : Action) : Value :=
  .object [("comment_body", .ofOption .string a.commentBody),
    ("description", .ofOption .string a.description), ("issue_id", .ofOption .string a.issueId),
    ("kind", .string a.kind.name), ("label_ids", .array (a.labelIds.map .string)),
    ("priority", .ofOption (fun p => .string p.name) a.priority),
    ("project_id", .ofOption .string a.projectId),
    ("project_name", .ofOption .string a.projectName),
    ("project_summary", .ofOption .string a.projectSummary),
    ("replace_labels", .bool a.replaceLabels), ("status_id", .ofOption .string a.statusId),
    ("team_id", .ofOption .string a.teamId), ("title", .ofOption .string a.title),
    ("workflow_state_id", .ofOption .string a.workflowStateId)]

/-- A required field of type `Option<String>`. -/
def optStringField (v : Value) (name : String) : Option (Option String) :=
  match v.get name with
  | some .null => some none
  | some (.string s) => some (some s)
  | _ => none

/-- A required field of type `Option<ActionPriority>`. -/
def optPriorityField (v : Value) (name : String) : Option (Option Priority) :=
  match v.get name with
  | some .null => some none
  | some (.string s) => (Priority.ofName? s).map some
  | _ => none

/-- A required field of type `Vec<String>`. -/
def stringsField (v : Value) (name : String) : Option (List String) :=
  match v.get name with
  | some (.array items) => items.mapM Value.asStr
  | _ => none

/-- A required field of type `bool`. -/
def boolField (v : Value) (name : String) : Option Bool :=
  match v.get name with
  | some (.bool b) => some b
  | _ => none

/-- `serde_json::from_value::<Action>`. -/
def fromValue (v : Value) : Option Action := do
  let commentBody ← optStringField v "comment_body"
  let description ← optStringField v "description"
  let issueId ← optStringField v "issue_id"
  let kind ← (v.getStr "kind").bind ActionKind.ofName?
  let labelIds ← stringsField v "label_ids"
  let priority ← optPriorityField v "priority"
  let projectId ← optStringField v "project_id"
  let projectName ← optStringField v "project_name"
  let projectSummary ← optStringField v "project_summary"
  let replaceLabels ← boolField v "replace_labels"
  let statusId ← optStringField v "status_id"
  let teamId ← optStringField v "team_id"
  let title ← optStringField v "title"
  let workflowStateId ← optStringField v "workflow_state_id"
  return ⟨commentBody, description, issueId, kind, labelIds, priority, projectId, projectName,
    projectSummary, replaceLabels, statusId, teamId, title, workflowStateId⟩

end Action

/-! ## Requests -/

/-- `CreateRuleRequest`. -/
structure CreateRuleRequest where
  actions : List Action
  conditions : List Condition
  enabled : Bool
  idempotencyKey : String
  name : String
  organizationId : String
  ruleId : String
  trigger : Trigger
deriving DecidableEq

/-- `UpdateRuleRequest`. -/
structure UpdateRuleRequest where
  actions : List Action
  conditions : List Condition
  expectedRevision : String
  idempotencyKey : String
  name : String
  organizationId : String
  ruleId : String
  trigger : Trigger
deriving DecidableEq

/-- `SetRuleEnabledRequest`. -/
structure SetRuleEnabledRequest where
  enabled : Bool
  expectedRevision : String
  idempotencyKey : String
  organizationId : String
  ruleId : String
deriving DecidableEq

/-- `DeleteRuleRequest`. -/
structure DeleteRuleRequest where
  expectedRevision : String
  idempotencyKey : String
  organizationId : String
  ruleId : String
deriving DecidableEq

/-- A request of one of the four rule commands. -/
inductive CommandRequest where
  | create (request : CreateRuleRequest)
  | update (request : UpdateRuleRequest)
  | setEnabled (request : SetRuleEnabledRequest)
  | delete (request : DeleteRuleRequest)
deriving DecidableEq

namespace CommandRequest

/-- The operation name the endpoint passes on: `CREATE_RULE_OPERATION` and its kin. -/
def operation : CommandRequest → String
  | .create _ => "create_rule"
  | .update _ => "update_rule"
  | .setEnabled _ => "set_rule_enabled"
  | .delete _ => "delete_rule"

def idempotencyKey : CommandRequest → String
  | .create r => r.idempotencyKey
  | .update r => r.idempotencyKey
  | .setEnabled r => r.idempotencyKey
  | .delete r => r.idempotencyKey

def organizationId : CommandRequest → String
  | .create r => r.organizationId
  | .update r => r.organizationId
  | .setEnabled r => r.organizationId
  | .delete r => r.organizationId

def ruleId : CommandRequest → String
  | .create r => r.ruleId
  | .update r => r.ruleId
  | .setEnabled r => r.ruleId
  | .delete r => r.ruleId

end CommandRequest

/-- `ReceiveEventRequestEntityKind`. -/
inductive EntityKind where
  | issue | project
deriving DecidableEq

def EntityKind.name : EntityKind → String
  | .issue => "issue"
  | .project => "project"

/-- `ReceiveEventRequest`. -/
structure ReceiveEventRequest where
  dedupeKey : String
  entityId : String
  entityKind : EntityKind
  eventType : EventType
  labelIds : List String
  occurredAt : String
  organizationId : String
  priority : Option Priority
  projectId : Option String
  statusId : Option String
  teamId : Option String
  workflowStateId : Option String
deriving DecidableEq

def ReceiveEventRequest.toValue (r : ReceiveEventRequest) : Value :=
  .object [("dedupe_key", .string r.dedupeKey), ("entity_id", .string r.entityId),
    ("entity_kind", .string r.entityKind.name), ("event_type", .string r.eventType.name),
    ("label_ids", .array (r.labelIds.map .string)), ("occurred_at", .string r.occurredAt),
    ("organization_id", .string r.organizationId),
    ("priority", .ofOption (fun p => .string p.name) r.priority),
    ("project_id", .ofOption .string r.projectId), ("status_id", .ofOption .string r.statusId),
    ("team_id", .ofOption .string r.teamId),
    ("workflow_state_id", .ofOption .string r.workflowStateId)]

/-- `ReceiveTimerRequest`. -/
structure ReceiveTimerRequest where
  dedupeKey : String
  organizationId : String
  ruleId : String
  scheduledFor : String
deriving DecidableEq

def ReceiveTimerRequest.toValue (r : ReceiveTimerRequest) : Value :=
  .object [("dedupe_key", .string r.dedupeKey), ("organization_id", .string r.organizationId),
    ("rule_id", .string r.ruleId), ("scheduled_for", .string r.scheduledFor)]

/-- `ReceiveEventResponse`, `ReceiveTimerResponse`. -/
structure TriggerReceipt where
  accepted : Bool
  duplicate : Bool
  executionIds : List String
deriving DecidableEq

/-- Reading a field of a written request. -/
@[simp] theorem ReceiveTimerRequest.toValue_getStr_scheduledFor (r : ReceiveTimerRequest) :
    r.toValue.getStr "scheduled_for" = some r.scheduledFor := rfl

end ProjectAutomation

import ProjectAutomation.Spec.Contract
import Mathlib.Algebra.Group.Nat.Defs
import Mathlib.Data.List.Dedup

/-!
# Request validation

What the endpoints check before a request reaches the storage layer.
`RFC 3339` parsing belongs to the `time` crate and is a parameter.
-/

namespace ProjectAutomation

def maxRuleActions : ℕ := 32
def maxRuleConditions : ℕ := 32

/-- `values.iter().collect::<BTreeSet<_>>().len() == values.len()`. -/
def distinct (values : List String) : Bool := values.dedup.length == values.length

/-- A byte `valid_id` admits; every byte of a character outside ASCII is refused. -/
def validIdChar (c : Char) : Bool :=
  c.isAlphanum || c == '.' || c == '_' || c == '-' || c == ':' || c == '/'

def validId (value : String) : Bool :=
  !value.toList.isEmpty && value.utf8ByteSize ≤ 256 && value.toList.all validIdChar

/-- `char::is_whitespace`: the Unicode property White_Space. -/
def isWhitespace (c : Char) : Bool :=
  let n := c.toNat
  (9 ≤ n && n ≤ 13) || n == 0x20 || n == 0x85 || n == 0xA0 || n == 0x1680 ||
    (0x2000 ≤ n && n ≤ 0x200A) || n == 0x2028 || n == 0x2029 || n == 0x202F || n == 0x205F ||
    n == 0x3000

/-- `valid_text`; a text trims to the empty one when it is all whitespace. -/
def validText (value : String) (max : ℕ) : Bool :=
  !value.toList.all isWhitespace && value.utf8ByteSize ≤ max && !value.toList.contains '\x00'

def validOptionalText (value : Option String) (max : ℕ) : Bool :=
  value.all (validText · max)

def validOptionalId (value : Option String) : Bool := value.all validId

def validCommandIdentity (organizationId ruleId idempotencyKey : String) : Bool :=
  [organizationId, ruleId, idempotencyKey].all validId

/-- A non-empty run of decimal digits as a number. -/
def digits? (cs : List Char) : Option ℕ :=
  if cs.isEmpty || !cs.all Char.isDigit then none
  else some (cs.foldl (fun n c => 10 * n + (c.toNat - '0'.toNat)) 0)

/-- `parse_revision`: the canonical decimal text of a positive `i64`. The texts with a
sign or leading zeros that `str::parse` also reads are not canonical. -/
def parseRevision? (value : String) : Option ℤ :=
  match digits? value.toList with
  | some n => if 0 < n ∧ n < 2 ^ 63 ∧ toString n = value then some n else none
  | none => none

def validTrigger (parses : String → Bool) (t : Trigger) : Bool :=
  match t.kind with
  | .event =>
    !t.eventTypes.isEmpty && t.eventTypes.length ≤ 16 && t.intervalSeconds.isNone && t.startAt.isNone
  | .schedule =>
    t.eventTypes.isEmpty && t.intervalSeconds.any (fun v => 60 ≤ v && v ≤ 31536000) &&
      t.startAt.all parses

def validConditions (conditions : List Condition) : Bool :=
  conditions.length ≤ maxRuleConditions &&
    conditions.all (fun c =>
      validText c.value 256 && (c.operator ≠ .contains || c.field = .labelId))

def projectUpdateFieldsEmpty (a : Action) : Bool :=
  a.projectName.isNone && a.projectSummary.isNone && a.statusId.isNone

def issueUpdateFieldsEmpty (a : Action) : Bool :=
  a.title.isNone && a.description.isNone && a.priority.isNone && !a.replaceLabels &&
    a.labelIds.isEmpty && a.commentBody.isNone && projectUpdateFieldsEmpty a

def validAction (a : Action) : Bool :=
  let idsValid :=
    [a.issueId, a.projectId, a.teamId, a.workflowStateId, a.statusId].all validOptionalId &&
      a.labelIds.length ≤ 64 && a.labelIds.all validId && distinct a.labelIds
  if !idsValid || !validOptionalText a.title 1000 || !validOptionalText a.description 20000 ||
      !validOptionalText a.commentBody 20000 || !validOptionalText a.projectName 300 ||
      !validOptionalText a.projectSummary 4000 then false
  else match a.kind with
  | .assignIssueToTeam =>
    a.teamId.isSome && a.projectId.isNone && a.workflowStateId.isNone && issueUpdateFieldsEmpty a
  | .moveIssue =>
    (a.teamId.isSome || a.workflowStateId.isSome) && a.projectId.isNone && issueUpdateFieldsEmpty a
  | .updateIssue =>
    a.teamId.isNone && a.workflowStateId.isNone && a.projectId.isNone &&
      (a.title.isSome || a.description.isSome || a.priority.isSome || a.replaceLabels) &&
      a.commentBody.isNone && projectUpdateFieldsEmpty a
  | .addComment =>
    a.commentBody.isSome && a.projectId.isNone && a.teamId.isNone && a.workflowStateId.isNone &&
      a.title.isNone && a.description.isNone && a.priority.isNone && !a.replaceLabels &&
      a.labelIds.isEmpty && projectUpdateFieldsEmpty a
  | .updateProject =>
    (a.projectName.isSome || a.projectSummary.isSome || a.statusId.isSome) && a.issueId.isNone &&
      a.teamId.isNone && a.workflowStateId.isNone && a.title.isNone && a.description.isNone &&
      a.priority.isNone && !a.replaceLabels && a.labelIds.isEmpty && a.commentBody.isNone

def validActions (actions : List Action) : Bool :=
  !actions.isEmpty && actions.length ≤ maxRuleActions && actions.all validAction

def validActionsForTrigger (t : Trigger) (actions : List Action) : Bool :=
  validActions actions &&
    (t.kind ≠ .schedule || actions.all (fun a =>
      match a.kind with
      | .assignIssueToTeam | .updateIssue | .moveIssue | .addComment => a.issueId.isSome
      | .updateProject => a.projectId.isSome))

def validCreateRule (parses : String → Bool) (r : CreateRuleRequest) : Bool :=
  validCommandIdentity r.organizationId r.ruleId r.idempotencyKey && validText r.name 300 &&
    validTrigger parses r.trigger && validConditions r.conditions &&
    validActionsForTrigger r.trigger r.actions

def validUpdateRule (parses : String → Bool) (r : UpdateRuleRequest) : Bool :=
  validCommandIdentity r.organizationId r.ruleId r.idempotencyKey &&
    (parseRevision? r.expectedRevision).isSome && validText r.name 300 &&
    validTrigger parses r.trigger && validConditions r.conditions &&
    validActionsForTrigger r.trigger r.actions

def validEvent (parses : String → Bool) (r : ReceiveEventRequest) : Bool :=
  [r.organizationId, r.dedupeKey, r.entityId].all validId &&
    [r.projectId, r.teamId, r.workflowStateId, r.statusId].all validOptionalId &&
    r.labelIds.length ≤ 64 && r.labelIds.all validId && distinct r.labelIds &&
    parses r.occurredAt &&
    (match r.entityKind, r.eventType with
      | .issue, .issueCreated | .issue, .issueUpdated | .issue, .issueMoved
      | .issue, .issueArchived | .issue, .commentAdded => true
      | .project, .projectCreated | .project, .projectUpdated | .project, .projectArchived => true
      | _, _ => false)

end ProjectAutomation

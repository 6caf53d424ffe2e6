import ProjectAutomation.Spec.Schema

/-!
# Carrying an action out

`execute_action` turns one stored action into calls of the Projects and
Collaboration capabilities: it reads the target, fills the fields the action leaves
open from what it read, and sends one mutation. The capabilities answer through
`Providers`; the calls made, with their answers, are returned beside the result.
-/

namespace ProjectAutomation

/-- `projects::GetIssueResponse`, the fields a mutation is built from. -/
structure Issue where
  cycleId : Option String
  description : Option String
  issueId : String
  labelIds : List String
  milestoneId : Option String
  parentIssueId : Option String
  priority : Priority
  revision : String
  teamId : String
  title : String
  workflowStateId : String
deriving DecidableEq

/-- `projects::GetProjectResponse`, the fields a mutation is built from. -/
structure Project where
  leadTeamId : Option String
  milestoneId : Option String
  name : String
  projectId : String
  revision : String
  startDate : Option String
  statusId : String
  summary : Option String
  targetDate : Option String
  teamIds : List String
deriving DecidableEq

/-- A request that changes something: `projects::MoveIssueRequest`, `UpdateIssueRequest`,
`UpdateProjectRequest` and `collaboration::AddCommentRequest`. -/
inductive Mutation where
  | moveIssue (organizationId issueId expectedRevision teamId workflowStateId idempotencyKey : String)
  | updateIssue (organizationId issueId expectedRevision title : String) (description : Option String)
      (priority : Priority) (workflowStateId : String) (cycleId milestoneId parentIssueId : Option String)
      (labelIds : List String) (idempotencyKey : String)
  | updateProject (organizationId projectId expectedRevision name : String)
      (summary leadTeamId : Option String) (teamIds : List String) (statusId : String)
      (milestoneId startDate targetDate : Option String) (idempotencyKey : String)
  | addComment (organizationId issueId commentId body idempotencyKey : String)
deriving DecidableEq

def Mutation.idempotencyKey : Mutation → String
  | .moveIssue _ _ _ _ _ key => key
  | .updateIssue _ _ _ _ _ _ _ _ _ _ _ key => key
  | .updateProject _ _ _ _ _ _ _ _ _ _ _ key => key
  | .addComment _ _ _ _ key => key

def Mutation.organizationId : Mutation → String
  | .moveIssue organizationId _ _ _ _ _ => organizationId
  | .updateIssue organizationId _ _ _ _ _ _ _ _ _ _ _ => organizationId
  | .updateProject organizationId _ _ _ _ _ _ _ _ _ _ _ => organizationId
  | .addComment organizationId _ _ _ _ => organizationId

/-- `ActionFailure`. -/
inductive ActionFailure where
  | domain (detail : String)
  | runtime (failure : RuntimeFailure)
deriving DecidableEq

/-- What Projects and Collaboration answer during one action; an error is already the
`ActionFailure` that `dependency_failure_mapper!` makes of it. -/
structure Providers where
  getIssue : (organizationId issueRef : String) → Except ActionFailure Issue
  getProject : (organizationId projectId : String) → Except ActionFailure Project
  mutate : Mutation → Except ActionFailure Value

/-- What an action reads before its mutation. -/
inductive Snapshot where
  | issue (issue : Issue)
  | project (project : Project)
  | nothing
deriving DecidableEq

/-- One call of a capability. A mutation is kept with what was read for it. -/
inductive Call where
  | getIssue (organizationId issueRef : String)
  | getProject (organizationId projectId : String)
  | mutate (read : Snapshot) (request : Mutation)
deriving DecidableEq

/-- `payload.get("entity_kind")…unwrap_or("schedule")`. -/
def entityKind (payload : Value) : String := (payload.getStr "entity_kind").getD "schedule"

/-- The entity of the event, when it is of the given kind. -/
def eventEntity (payload : Value) (kind : String) : Option String :=
  if entityKind payload = kind then payload.getStr "entity_id" else none

/-- The target of the four issue actions. -/
def issueTarget (payload : Value) (action : Action) : Option String :=
  action.issueId.or (eventEntity payload "issue")

/-- The target of `update_project`. -/
def projectTarget (payload : Value) (action : Action) : Option String :=
  (action.projectId.or (eventEntity payload "project")).or (payload.getStr "project_id")

/-- The `MoveIssueRequest` of `assign_issue_to_team` and `move_issue`. -/
def moveIssueRequest (organizationId key : String) (action : Action) (issue : Issue) : Mutation :=
  .moveIssue organizationId issue.issueId issue.revision (action.teamId.getD issue.teamId)
    (action.workflowStateId.getD issue.workflowStateId) key

/-- The `UpdateIssueRequest` of `update_issue`. -/
def updateIssueRequest (organizationId key : String) (action : Action) (issue : Issue) : Mutation :=
  .updateIssue organizationId issue.issueId issue.revision (action.title.getD issue.title)
    (action.description.or issue.description) (action.priority.getD issue.priority)
    issue.workflowStateId issue.cycleId issue.milestoneId issue.parentIssueId
    (if action.replaceLabels then action.labelIds else issue.labelIds) key

/-- The `UpdateProjectRequest` of `update_project`. -/
def updateProjectRequest (organizationId key : String) (action : Action) (project : Project) : Mutation :=
  .updateProject organizationId project.projectId project.revision
    (action.projectName.getD project.name) (action.projectSummary.or project.summary)
    project.leadTeamId project.teamIds (action.statusId.getD project.statusId) project.milestoneId
    project.startDate project.targetDate key

/-- The `AddCommentRequest` of `add_comment`. -/
def addCommentRequest (organizationId key issueId body : String) (executionId : Uuid) (index : ℕ) :
    Mutation :=
  .addComment organizationId issueId
    ("automation-comment-" ++ executionId.text ++ "-" ++ toString index) body key

/-- The calls an action made, and how it ended. -/
abbrev ActionOutcome := List Call × Except ActionFailure Value

/-- `get_issue`, then the mutation made of its answer. -/
def onIssue (p : Providers) (organizationId issueId : String) (request : Issue → Mutation) :
    ActionOutcome :=
  let read := Call.getIssue organizationId issueId
  match p.getIssue organizationId issueId with
  | .error e => ([read], .error e)
  | .ok issue => ([read, .mutate (.issue issue) (request issue)], p.mutate (request issue))

/-- `get_project`, then the mutation made of its answer. -/
def onProject (p : Providers) (organizationId projectId : String) (request : Project → Mutation) :
    ActionOutcome :=
  let read := Call.getProject organizationId projectId
  match p.getProject organizationId projectId with
  | .error e => ([read], .error e)
  | .ok project => ([read, .mutate (.project project) (request project)], p.mutate (request project))

/-- A failure before any call. -/
def rejected (detail : String) : ActionOutcome := ([], .error (.domain detail))

/-- `execute_action`. -/
def executeAction (p : Providers) (executionId : Uuid) (index : ℕ) (key : String) (payload : Value)
    (action : Action) : ActionOutcome :=
  match payload.getStr "organization_id" with
  | none => rejected "invalid_trigger_payload"
  | some organizationId =>
    match action.kind with
    | .assignIssueToTeam | .moveIssue =>
      match issueTarget payload action with
      | none => rejected "issue_target_required"
      | some issueId => onIssue p organizationId issueId (moveIssueRequest organizationId key action)
    | .updateIssue =>
      match issueTarget payload action with
      | none => rejected "issue_target_required"
      | some issueId => onIssue p organizationId issueId (updateIssueRequest organizationId key action)
    | .addComment =>
      match issueTarget payload action with
      | none => rejected "issue_target_required"
      | some issueId =>
        match action.commentBody with
        | none => rejected "comment_body_required"
        | some body =>
          let request := addCommentRequest organizationId key issueId body executionId index
          ([.mutate .nothing request], p.mutate request)
    | .updateProject =>
      match projectTarget payload action with
      | none => rejected "project_target_required"
      | some projectId =>
        onProject p organizationId projectId (updateProjectRequest organizationId key action)

end ProjectAutomation

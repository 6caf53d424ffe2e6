import ProjectAutomation.Spec.Schemas
import ProjectAutomation.Spec.Wire

/-!
# Agent tools

`lenso-project-automation-agent-tools-plugin`: the catalogue of tools an agent is offered,
and `execute`, which decodes a tool's arguments, calls the operation of the bound
capability and writes its answer as text. A JSON text the plugin makes itself is given by
its value.

`agents` is the machine in which agents call tools while everything else goes on.
-/

namespace ProjectAutomation

/-! ## The contract of a tool provider -/

/-- `ToolExecutionClass`. -/
inductive ToolExecutionClass where
  | parallelSafe | exclusive
deriving DecidableEq

/-- `ToolDefinition`; `input_schema_json` is what conforms to it. -/
structure ToolDefinition where
  name : String
  description : String
  inputSchema : Schema
  execution : ToolExecutionClass

/-- `ExecuteRequest`. -/
structure ExecuteRequest where
  name : String
  argumentsJson : String
deriving DecidableEq

/-- `ExecutionFailedPayload`. -/
structure ExecutionFailedPayload where
  reasonCode : String
  message : String
  detailsJson : Value

/-- `ExecuteError`. -/
inductive ExecuteError where
  | invalidArguments | notFound | permissionDenied
  | executionFailed (payload : ExecutionFailedPayload)

/-- `PluginError` of `execute`. -/
inductive ToolError where
  | domain (error : ExecuteError)
  | runtime (failure : RuntimeFailure)

/-- `ContentType`. -/
inductive ContentType where
  | text
deriving DecidableEq

/-- `ExecuteResponse`; its content blocks are none. -/
structure ExecuteResponse where
  content : String
  contentType : ContentType
  metadataJson : Value

/-! ## The tools -/

@[match_pattern] def createRuleTool : String := "project_automation_create_rule"
@[match_pattern] def getRuleTool : String := "project_automation_get_rule"
@[match_pattern] def listRulesTool : String := "project_automation_list_rules"
@[match_pattern] def updateRuleTool : String := "project_automation_update_rule"
@[match_pattern] def setRuleEnabledTool : String := "project_automation_set_rule_enabled"
@[match_pattern] def deleteRuleTool : String := "project_automation_delete_rule"
@[match_pattern] def inspectExecutionTool : String := "project_automation_inspect_execution"

/-- `tool` and `rule_tool`: the schema of a rule tool has the definitions it refers to in it. -/
def tool (name description : String) (schema : Schema) (execution : ToolExecutionClass) : ToolDefinition :=
  ⟨name, description, schema, execution⟩

/-- `tool_definitions`. -/
def toolDefinitions : List ToolDefinition :=
  [tool getRuleTool "Get one automation rule and its current revision." Schema.getRuleRequest .parallelSafe,
    tool listRulesTool
      "List automation rule summaries with an optional enabled filter and bounded cursor pagination."
      Schema.listRulesRequest .parallelSafe,
    tool inspectExecutionTool
      "Inspect one durable execution and a bounded cursor page of its attempts and action receipts."
      Schema.inspectExecutionRequest .parallelSafe,
    tool createRuleTool
      "Create a bounded automation rule. Reuse the same idempotency_key when retrying the same intent."
      Schema.createRuleRequest .exclusive,
    tool updateRuleTool
      "Replace a rule definition using its current expected_revision. Reuse the same idempotency_key for retries."
      Schema.updateRuleRequest .exclusive,
    tool setRuleEnabledTool
      "Enable or disable a rule using its current expected_revision. Reuse the same idempotency_key for retries."
      Schema.setRuleEnabledRequest .exclusive,
    tool deleteRuleTool
      "Delete a rule using its current expected_revision. Reuse the same idempotency_key for retries."
      Schema.deleteRuleRequest .exclusive]

/-- The operation `execute` calls for a tool. -/
def toolOperation : String → Option String
  | getRuleTool => some "get_rule"
  | listRulesTool => some "list_rules"
  | inspectExecutionTool => some "inspect_execution"
  | createRuleTool => some "create_rule"
  | updateRuleTool => some "update_rule"
  | setRuleEnabledTool => some "set_rule_enabled"
  | deleteRuleTool => some "delete_rule"
  | _ => none

/-! ## The bound capability -/

/-- `ProjectAutomation…InvocationError`. -/
inductive ClientError where
  | domain (error : WireError)
  | runtime (failure : RuntimeFailure)

/-- What a call of the client came to. -/
structure Invoked where
  result : Except ClientError Response
  sent : List EnqueueRequest
  world : World

/-- The plugin's error, as it arrives. -/
def PluginError.toClient : PluginError → ClientError
  | .domain error => .domain (.known error)
  | .runtime failure => .runtime failure

/-- A `ProjectAutomationClient` bound to the plugin. -/
def ProjectAutomationPlugin.client (plugin : ProjectAutomationPlugin) (env : Env) (host : Host) (around : CallAround)
    (context : Ctx) (request : Request) (w : World) : Invoked :=
  let done := plugin.invoke env host around context request w
  ⟨done.result.mapError PluginError.toClient, done.sent, done.world⟩

/-! ## Executing a tool -/

/-- `serde_json` and `Timestamp`, as far as the tools use them. -/
structure Serializer where
  fromStr : String → Option Value
  /-- a text, or the text of the error -/
  toStringPretty : Value → Except String String
  timestamp : String → Bool

/-- What a call of a tool came to. -/
structure ToolCalled where
  result : Except ToolError ExecuteResponse
  sent : List EnqueueRequest
  world : World

/-- The value of a type, written; `decode` has read it. -/
def rewritten {α : Type} (F : Codec.Format Value α) (v : Value) : Value := (F.read v).elim v F.write

/-- The typed response of an operation, written. -/
def typedResponse (ts : String → Bool) (operation : String) (response : Response) : Value :=
  match operation with
  | "create_rule" | "get_rule" | "update_rule" | "set_rule_enabled" =>
    rewritten (RuleResponse.format ts) response.toValue
  | "delete_rule" => rewritten DeleteRuleResponse.format response.toValue
  | "list_rules" => rewritten (ListRulesResponse.format ts) response.toValue
  | "inspect_execution" => rewritten (InspectExecutionResponse.format ts) response.toValue
  | _ => response.toValue

namespace Tools

/-- `rejected`. -/
def rejected (reasonCode : String) : ExecuteError :=
  .executionFailed ⟨reasonCode, "Project Automation rejected the requested operation.",
    .object [("domain_error", .string reasonCode)]⟩

/-- `map_domain_error`. -/
def mapDomainError : WireError → ExecuteError
  | .known .invalidRequest => .invalidArguments
  | .known .notFound => .notFound
  | .known .forbidden | .known .unauthenticated => .permissionDenied
  | .known .idempotencyConflict => rejected "idempotency_conflict"
  | .known .revisionConflict => rejected "revision_conflict"
  | .known .ruleIdConflict => rejected "rule_id_conflict"
  | .known .ruleNameConflict => rejected "rule_name_conflict"
  | .unknown _ _ _ => rejected "unknown_domain_error"

variable (serializer : Serializer)

/-- `decode`, of the request of an operation. -/
def decode (operation : String) (request : ExecuteRequest) : Option Request :=
  (serializer.fromStr request.argumentsJson).bind (Request.fromValue serializer.timestamp operation)

/-- `success`. -/
def success (toolName : String) (response : Value) : Except ToolError ExecuteResponse :=
  match serializer.toStringPretty response with
  | .ok content => .ok ⟨content, .text, .object [("tool", .string toolName)]⟩
  | .error error => .error (.runtime (.pluginFailure
      ("Project Automation Tool could not serialize its typed response: " ++ error)))

/-- The macro `invoke!`: what becomes of the answer to the operation. -/
def answer (toolName operation : String) : Except ClientError Response → Except ToolError ExecuteResponse
  | .ok response => success serializer toolName (typedResponse serializer.timestamp operation response)
  | .error (.domain error) => .error (.domain (mapDomainError error))
  | .error (.runtime failure) => .error (.runtime failure)

/-- `execute`. -/
def execute (client : Request → World → Invoked) (request : ExecuteRequest) (w : World) : ToolCalled :=
  match toolOperation request.name with
  | none => ⟨.error (.domain .notFound), [], w⟩
  | some operation =>
    match decode serializer operation request with
    | none => ⟨.error (.domain .invalidArguments), [], w⟩
    | some arguments =>
      let done := client arguments w
      ⟨answer serializer request.name operation done.result, done.sent, done.world⟩

end Tools

/-! ## Agents at work -/

/-- A call of a tool, and what the operation meets. -/
structure ToolCall where
  host : Host
  around : CallAround
  context : Ctx
  request : ExecuteRequest

/-- What comes next: something at the plugin, or a call of a tool. -/
inductive AgentInput where
  | event (event : Event)
  | call (call : ToolCall)

/-- What an agent is told, and what its call asked of Jobs. -/
inductive AgentReply where
  | event (reply : Reply)
  | answer (result : Except ToolError ExecuteResponse) (sent : List EnqueueRequest)

variable (serializer : Serializer) (plugin : ProjectAutomationPlugin) (env : Env)

/-- `execute`, with the client bound to the plugin. -/
def ToolCall.run (call : ToolCall) : World → ToolCalled :=
  Tools.execute serializer (plugin.client env call.host call.around call.context) call.request

/-- The plugin, everyone around it, and agents that call tools. -/
def agents : Transition.Machine World AgentInput AgentReply where
  init := .init
  step w
    | .event event =>
      let done := w.step (ProjectAutomationPlugin.invoke.queued plugin env) event
      (done.1, .event done.2)
    | .call call =>
      let done := call.run serializer plugin env w
      (done.world, .answer done.result done.sent)

end ProjectAutomation

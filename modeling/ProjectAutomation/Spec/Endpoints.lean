import ProjectAutomation.Spec.Authority
import ProjectAutomation.Spec.Calls

/-!
# The ten operations

Each operation of the capability from its authorization to its answer, as a `Plugin`
call: authorize, check the request, ask whether the plugin is prepared, go to the
storage layer, flush what a rule write left to flush, and decode the response. `invoke`
hands a request to its operation.
-/

namespace ProjectAutomation

/-! ## Parts of an operation -/

/-- The error `auth_result` makes of a failure. -/
def AuthorizationFailure.toError : AuthorizationFailure → PluginError
  | .unauthenticated => .domain .unauthenticated
  | .forbidden => .domain .forbidden
  | .runtime failure => .runtime failure

namespace Plugin

/-- `if !holds { return Err(error) }`. -/
def check (error : PluginError) (holds : Bool) : Plugin Unit := if holds then pure () else fail error

/-- `ok_or(error)?`. -/
def okOr {α : Type} (error : PluginError) : Option α → Plugin α
  | some a => pure a
  | none => fail error

/-- `auth_result` of an authorization that reads `UtcClock`. -/
def authResult (result : OffsetDateTime → Except AuthorizationFailure Authorized) : Plugin Authorized := fun w =>
  ⟨(result ⟨w.clock, 0⟩).mapError AuthorizationFailure.toError, [], w⟩

/-- `decode`. -/
def decode (host : Host) (operation : String) (value : Value) : Plugin Value :=
  match host.decodeError operation value with
  | none => pure value
  | some error => fail (.runtime (.pluginFailure
      ("Project Automation `" ++ operation ++ "` projection failed: " ++ error)))

end Plugin

/-! ## Requests -/

/-- `ReconcileRequest`. -/
structure ReconcileRequest where
  limit : ℤ
  organizationId : String
deriving DecidableEq

/-- A request of one of the ten operations. -/
inductive Request where
  | createRule (request : CreateRuleRequest)
  | getRule (request : GetRuleRequest)
  | listRules (request : ListRulesRequest)
  | updateRule (request : UpdateRuleRequest)
  | setRuleEnabled (request : SetRuleEnabledRequest)
  | deleteRule (request : DeleteRuleRequest)
  | receiveEvent (request : ReceiveEventRequest)
  | receiveTimer (request : ReceiveTimerRequest)
  | inspectExecution (request : InspectExecutionRequest)
  | reconcile (request : ReconcileRequest)
deriving DecidableEq

/-- What an operation answers. -/
inductive Response where
  | value (value : Value)
  | receipt (receipt : TriggerReceipt)
  | reconciled (response : ReconcileResponse)

/-! ## The plugin -/

/-- `ProjectAutomationPlugin`: its configuration, and whether `activate` has prepared it. -/
structure ProjectAutomationPlugin where
  config : ProjectAutomationConfig
  prepared : Bool

/-- What one operation meets once it is past its checks. -/
structure CallAround where
  storage : Connection
  flush : FlushAround
  reconcile : Around

namespace ProjectAutomationPlugin

variable (plugin : ProjectAutomationPlugin) (env : Env) (host : Host) (around : CallAround) (context : Ctx)

/-- `prepared`. -/
def isPrepared : Plugin Unit :=
  Plugin.check (.runtime (.pluginFailure "Project Automation Plugin is not prepared")) plugin.prepared

def manage (operation organizationId permission : String) : Plugin Authorized :=
  Plugin.authResult fun now =>
    plugin.config.authorizeManagement host context now operation organizationId permission

/-! ### Rule commands -/

/-- The body of the four rule commands; all but `delete_rule` flush the schedules. -/
def ruleCommand (operation permission : String) (flushes : Bool) (request : CommandRequest) : Plugin Value := do
  let auth ← plugin.manage host context operation request.organizationId permission
  Plugin.check (.domain .invalidRequest) (request.valid env)
  plugin.isPrepared
  let value ← Plugin.storage env around.storage mapStorage (storeCommand · auth request)
  if flushes then
    let _ ← flushSchedules env around.flush request.organizationId plugin.config.maxReconcileItems.toNat
    Plugin.decode host operation value
  else
    Plugin.decode host operation value

def createRule (request : CreateRuleRequest) : Plugin Value :=
  plugin.ruleCommand env host around context "create_rule" "projects.automation.manage" true (.create request)

def updateRule (request : UpdateRuleRequest) : Plugin Value :=
  plugin.ruleCommand env host around context "update_rule" "projects.automation.manage" true (.update request)

def setRuleEnabled (request : SetRuleEnabledRequest) : Plugin Value :=
  plugin.ruleCommand env host around context "set_rule_enabled" "projects.automation.manage" true
    (.setEnabled request)

def deleteRule (request : DeleteRuleRequest) : Plugin Value :=
  plugin.ruleCommand env host around context "delete_rule" "projects.automation.manage" false (.delete request)

/-! ### Reads -/

def getRule (request : GetRuleRequest) : Plugin Value := do
  let _ ← plugin.manage host context "get_rule" request.organizationId "projects.automation.read"
  Plugin.check (.domain .invalidRequest) (validId request.organizationId && validId request.ruleId)
  plugin.isPrepared
  let value ← Plugin.storage env around.storage mapStorage
    (ProjectAutomation.getRule · request.organizationId request.ruleId)
  Plugin.decode host "get_rule" value

def listRules (request : ListRulesRequest) : Plugin Value := do
  let _ ← plugin.manage host context "list_rules" request.organizationId "projects.automation.read"
  Plugin.check (.domain .invalidRequest)
    (validId request.organizationId && (1 ≤ request.limit && request.limit ≤ 100) &&
      request.after.all fun after => (parseRevision? after).isSome)
  plugin.isPrepared
  let value ← Plugin.storage env around.storage mapStorage
    (ProjectAutomation.listRules · request.organizationId request.enabled request.limit.toNat request.after)
  Plugin.decode host "list_rules" value

/-- `storage::inspect_execution`; its three statements find the same schema. -/
def inspectStored (organizationId : String) (executionId : Uuid) (attemptLimit : ℕ) (attemptAfter : Option String) :
    Plugin Value := fun w =>
  ⟨(ProjectAutomation.inspectExecution (w.session env around.storage) w.db w.db w.db organizationId executionId
    attemptLimit attemptAfter).mapError mapStorage, [], w⟩

def inspectExecution (request : InspectExecutionRequest) : Plugin Value := do
  let _ ← plugin.manage host context "inspect_execution" request.organizationId "projects.automation.read"
  let executionId ← Plugin.okOr (.domain .invalidRequest) (host.parseUuid request.executionId)
  Plugin.check (.domain .invalidRequest)
    (validId request.organizationId && (1 ≤ request.attemptLimit && request.attemptLimit ≤ 100) &&
      request.attemptAfter.all fun after => (parseRevision? after).isSome)
  plugin.isPrepared
  let value ← inspectStored env around request.organizationId executionId request.attemptLimit.toNat
    request.attemptAfter
  Plugin.decode host "inspect_execution" value

/-! ### Intake -/

def receiveEvent (request : ReceiveEventRequest) : Plugin TriggerReceipt := do
  Plugin.check (.domain .forbidden) (allowedCaller context plugin.config.eventCallers).isSome
  Plugin.check (.domain .invalidRequest) (validEvent (fun text => (env.parseRfc3339 text).isSome) request)
  let occurredAt ← Plugin.okOr (.domain .invalidRequest) (env.parseRfc3339 request.occurredAt)
  plugin.isPrepared
  Plugin.storage env around.storage mapStorage
    (ProjectAutomation.receiveEvent · request.organizationId request.dedupeKey occurredAt request.toValue)

def receiveTimer (request : ReceiveTimerRequest) : Plugin TriggerReceipt := do
  Plugin.check (.domain .forbidden) (allowedCaller context plugin.config.timerCallers).isSome
  Plugin.check (.domain .invalidRequest)
    (validId request.organizationId && validId request.ruleId && validId request.dedupeKey)
  let scheduledFor ← Plugin.okOr (.domain .invalidRequest) (env.parseRfc3339 request.scheduledFor)
  plugin.isPrepared
  Plugin.storage env around.storage mapStorage
    (ProjectAutomation.receiveTimer · request.organizationId request.ruleId request.dedupeKey scheduledFor
      request.toValue)

/-! ### Execution -/

def reconcile (request : ReconcileRequest) : Plugin ReconcileResponse := do
  let auth ← Plugin.authResult fun now => plugin.config.authorizeExecution host context now
  Plugin.check (.domain .invalidRequest)
    (validId request.organizationId && (1 ≤ request.limit && request.limit ≤ plugin.config.maxReconcileItems))
  plugin.isPrepared
  ProjectAutomation.reconcile env around.reconcile request.organizationId auth.caller request.limit.toNat
    plugin.config.executionLeaseSeconds

/-! ### Dispatch -/

/-- The operation of a request; Jobs is asked for the configured queue. -/
def invoke : Request → Plugin Response
  | .createRule request => do return .value (← plugin.createRule (queued env) host around context request)
  | .getRule request => do return .value (← plugin.getRule (queued env) host around context request)
  | .listRules request => do return .value (← plugin.listRules (queued env) host around context request)
  | .updateRule request => do return .value (← plugin.updateRule (queued env) host around context request)
  | .setRuleEnabled request => do return .value (← plugin.setRuleEnabled (queued env) host around context request)
  | .deleteRule request => do return .value (← plugin.deleteRule (queued env) host around context request)
  | .receiveEvent request => do return .receipt (← plugin.receiveEvent (queued env) around context request)
  | .receiveTimer request => do return .receipt (← plugin.receiveTimer (queued env) around context request)
  | .inspectExecution request => do
    return .value (← plugin.inspectExecution (queued env) host around context request)
  | .reconcile request => do return .reconciled (← plugin.reconcile (queued env) host around context request)
where
  queued (env : Env) : Env :=
    { env with jobsQueue := plugin.config.jobsQueue, jobMaxAttempts := plugin.config.jobMaxAttempts }

end ProjectAutomationPlugin

/-! ## Checks -/

def GetRuleRequest.valid (request : GetRuleRequest) : Bool :=
  validId request.organizationId && validId request.ruleId

def ListRulesRequest.valid (request : ListRulesRequest) : Bool :=
  validId request.organizationId && (1 ≤ request.limit && request.limit ≤ 100) &&
    request.after.all fun after => (parseRevision? after).isSome

def InspectExecutionRequest.valid (request : InspectExecutionRequest) : Bool :=
  validId request.organizationId && (1 ≤ request.attemptLimit && request.attemptLimit ≤ 100) &&
    request.attemptAfter.all fun after => (parseRevision? after).isSome

def ReceiveTimerRequest.valid (request : ReceiveTimerRequest) : Bool :=
  validId request.organizationId && validId request.ruleId && validId request.dedupeKey

def ReconcileRequest.valid (config : ProjectAutomationConfig) (request : ReconcileRequest) : Bool :=
  validId request.organizationId && (1 ≤ request.limit && request.limit ≤ config.maxReconcileItems)

/-- What an operation checks of its request, once the caller is allowed to make it. -/
def Request.valid (plugin : ProjectAutomationPlugin) (env : Env) (host : Host) : Request → Bool
  | .createRule r => (CommandRequest.create r).valid env
  | .getRule r => r.valid
  | .listRules r => r.valid
  | .updateRule r => (CommandRequest.update r).valid env
  | .setRuleEnabled r => (CommandRequest.setEnabled r).valid env
  | .deleteRule r => (CommandRequest.delete r).valid env
  | .receiveEvent r => validEvent (fun text => (env.parseRfc3339 text).isSome) r
  | .receiveTimer r => r.valid && (env.parseRfc3339 r.scheduledFor).isSome
  | .inspectExecution r => (host.parseUuid r.executionId).isSome && r.valid
  | .reconcile r => r.valid plugin.config

end ProjectAutomation

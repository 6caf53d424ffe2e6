import ProjectAutomation.Proof.Calls
import ProjectAutomation.Spec.Endpoints
import ProjectAutomation.Spec.Sample
import Mathlib.Data.List.Dedup
import Mathlib.Data.List.Pairwise

/-!
# Separation of authority

What the ten operations ask of their callers is one table, `Entitled`. The first statement of
each operation (`authorization`) lets through none but the entitled, and an operation it does
not let through has no effect and sees nothing of the state.

* `validate_disjoint`: an accepted configuration names no caller twice; `role_unique` gives each
  caller one class of operations.
* `entitled_of_authorization`: what the first statement lets through is entitled.
* `invoke_of_refused`: what it does not let through ends there.
* `authority_separated`: the three together.
-/

namespace ProjectAutomation

/-! ## Counting -/

/-- Lists whose distinct entries are as many as their entries share none. -/
theorem pairwise_disjoint_of_count {α : Type} [DecidableEq α] {lists : List (List α)}
    (h : lists.flatten.dedup.length = (lists.map List.length).sum) : lists.Pairwise List.Disjoint := by
  have hlength : lists.flatten.dedup.length = lists.flatten.length := by rw [h, List.length_flatten]
  have hsame : lists.flatten.dedup = lists.flatten := (List.dedup_sublist _).eq_of_length hlength
  exact (List.nodup_flatten.1 (List.dedup_eq_self.1 hsame)).2

/-! ## Classes of operations -/

/-- The four classes of operations, one for each list of callers. -/
inductive Role where
  | admin | event | timer | execution
deriving DecidableEq

def Role.all : List Role := [.admin, .event, .timer, .execution]

theorem Role.mem_all (role : Role) : role ∈ Role.all := by cases role <;> decide

def Request.role : Request → Role
  | .createRule _ | .getRule _ | .listRules _ | .updateRule _ | .setRuleEnabled _ | .deleteRule _
  | .inspectExecution _ => .admin
  | .receiveEvent _ => .event
  | .receiveTimer _ => .timer
  | .reconcile _ => .execution

namespace ProjectAutomationConfig

variable (host : Host) (config : ProjectAutomationConfig) (context : Ctx) (now : OffsetDateTime)

/-- The list of callers of a class. -/
def callers : Role → List String
  | .admin => config.adminCallers
  | .event => config.eventCallers
  | .timer => config.timerCallers
  | .execution => config.executionCallers

/-- The calling instance is on the list of a class. -/
def Listed (role : Role) : Prop := ∃ caller ∈ config.callers role, context.callerInstance = some caller

/-- The assertion is verified for an operation, with this subject. -/
def Verified (operation actor : String) : Prop :=
  ∃ verifier, host.verifier config.authIssuer config.authAssertionPublicKey = some verifier ∧
    verifier context "lenso.project-automation@1" operation now = some actor

/-- A listed caller whose actor is verified for the operation, is an active member of the organization and
has the permission there. -/
def Manages (operation organizationId permission : String) : Prop :=
  config.Listed context .admin ∧ ∃ actor, config.Verified host context now operation actor ∧
    host.checkMembership context ⟨organizationId, actor⟩ = .ok true ∧
    host.checkPermission context ⟨permission, ⟨organizationId, "organization"⟩, actor⟩ = .ok true

/-- **What each operation asks of its caller.** -/
def Entitled : Request → Prop
  | .createRule r => config.Manages host context now "create_rule" r.organizationId "projects.automation.manage"
  | .getRule r => config.Manages host context now "get_rule" r.organizationId "projects.automation.read"
  | .listRules r => config.Manages host context now "list_rules" r.organizationId "projects.automation.read"
  | .updateRule r => config.Manages host context now "update_rule" r.organizationId "projects.automation.manage"
  | .setRuleEnabled r =>
    config.Manages host context now "set_rule_enabled" r.organizationId "projects.automation.manage"
  | .deleteRule r => config.Manages host context now "delete_rule" r.organizationId "projects.automation.manage"
  | .inspectExecution r =>
    config.Manages host context now "inspect_execution" r.organizationId "projects.automation.read"
  | .receiveEvent _ => config.Listed context .event
  | .receiveTimer _ => config.Listed context .timer
  | .reconcile _ => config.Listed context .execution ∧ ∃ actor, config.Verified host context now "reconcile" actor

/-! ## One class for each caller -/

variable {host config context now}

/-- An accepted configuration names no caller in two lists. -/
theorem validate_disjoint (h : config.validate host = .ok ()) {role role' : Role} (hne : role ≠ role') :
    (config.callers role).Disjoint (config.callers role') := by
  unfold validate at h
  simp only [except_bind_eq_ok, require_eq_ok] at h
  obtain ⟨-, -, -, -, -, -, -, -, -, -, -, hcount, -⟩ := h
  have hsum : config.roles.flatten.dedup.length = (config.roles.map List.length).sum := by
    rw [beq_iff_eq] at hcount
    rw [hcount]
    simp only [roles, List.map_cons, List.map_nil, List.sum_cons, List.sum_nil]
    omega
  have hpairs : (Role.all.map config.callers).Pairwise List.Disjoint := pairwise_disjoint_of_count hsum
  rw [List.pairwise_map] at hpairs
  have : Std.Symm fun a b => (config.callers a).Disjoint (config.callers b) := ⟨fun _ _ hd => hd.symm⟩
  exact hpairs.forall role.mem_all role'.mem_all hne

/-- A caller an accepted configuration lists has one class. -/
theorem role_unique (h : config.validate host = .ok ()) {context context' : Ctx}
    (hsame : context.callerInstance = context'.callerInstance) {role role' : Role}
    (hlisted : config.Listed context role) (hlisted' : config.Listed context' role') : role = role' := by
  obtain ⟨caller, hmem, hcaller⟩ := hlisted
  obtain ⟨caller', hmem', hcaller'⟩ := hlisted'
  have heq : caller = caller' := by
    rw [hsame, hcaller'] at hcaller
    exact (Option.some.inj hcaller).symm
  by_contra hne
  exact validate_disjoint h hne hmem (heq ▸ hmem')

theorem Entitled.listed {request : Request} (h : config.Entitled host context now request) :
    config.Listed context request.role := by
  cases request with
  | receiveEvent _ => exact h
  | receiveTimer _ => exact h
  | createRule _ | getRule _ | listRules _ | updateRule _ | setRuleEnabled _ | deleteRule _ | inspectExecution _
  | reconcile _ => exact h.1

/-! ## The first statement of an operation -/

theorem verified_ok {operation actor : String} (h : config.verified host context now operation = .ok actor) :
    config.Verified host context now operation actor := by
  unfold verified at h
  obtain ⟨verifier, hverifier, hsubject⟩ := except_bind_eq_ok.1 h
  exact ⟨verifier, okOr_eq_ok.1 hverifier, okOr_eq_ok.1 hsubject⟩

theorem listed_of_allowedCaller (role : Role) {caller : String}
    (h : allowedCaller context (config.callers role) = some caller) : config.Listed context role := by
  obtain ⟨hcaller, hmem⟩ := allowedCaller_eq_some.1 h
  exact ⟨caller, hmem, hcaller⟩

/-- `authorize_management` lets through those who manage. -/
theorem authorizeManagement_ok {operation organizationId permission : String} {auth : Authorized}
    (h : config.authorizeManagement host context now operation organizationId permission = .ok auth) :
    config.Manages host context now operation organizationId permission := by
  unfold authorizeManagement at h
  simp only [except_bind_eq_ok, okOr_eq_ok, require_eq_ok, mapError_eq_ok] at h
  obtain ⟨caller, hcaller, actor, hactor, -, -, active, hmember, -, rfl, allowed, hallowed, -, rfl, -⟩ := h
  exact ⟨listed_of_allowedCaller .admin hcaller, actor, verified_ok hactor, hmember, hallowed⟩

/-- `authorize_execution` lets through those who execute. -/
theorem authorizeExecution_ok {auth : Authorized} (h : config.authorizeExecution host context now = .ok auth) :
    config.Listed context .execution ∧ ∃ actor, config.Verified host context now "reconcile" actor := by
  unfold authorizeExecution at h
  simp only [except_bind_eq_ok, okOr_eq_ok, require_eq_ok] at h
  obtain ⟨caller, hcaller, actor, hactor, -⟩ := h
  exact ⟨listed_of_allowedCaller .execution hcaller, actor, verified_ok hactor⟩

variable (host config context now) in
/-- **The first statement of each operation.** -/
def authorization : Request → Except AuthorizationFailure Unit
  | .createRule r => manage "create_rule" r.organizationId "projects.automation.manage"
  | .getRule r => manage "get_rule" r.organizationId "projects.automation.read"
  | .listRules r => manage "list_rules" r.organizationId "projects.automation.read"
  | .updateRule r => manage "update_rule" r.organizationId "projects.automation.manage"
  | .setRuleEnabled r => manage "set_rule_enabled" r.organizationId "projects.automation.manage"
  | .deleteRule r => manage "delete_rule" r.organizationId "projects.automation.manage"
  | .inspectExecution r => manage "inspect_execution" r.organizationId "projects.automation.read"
  | .receiveEvent _ => require .forbidden (allowedCaller context config.eventCallers).isSome
  | .receiveTimer _ => require .forbidden (allowedCaller context config.timerCallers).isSome
  | .reconcile _ => (config.authorizeExecution host context now).map fun _ => ()
where
  manage (operation organizationId permission : String) : Except AuthorizationFailure Unit :=
    (config.authorizeManagement host context now operation organizationId permission).map fun _ => ()

theorem map_eq_ok {ε α β : Type} {x : Except ε α} {f : α → β} {b : β} :
    x.map f = .ok b ↔ ∃ a, x = .ok a ∧ f a = b := by
  cases x <;> simp [Except.map]

theorem map_eq_error {ε α β : Type} {x : Except ε α} {f : α → β} {e : ε} :
    x.map f = .error e ↔ x = .error e := by
  cases x <;> simp [Except.map]

/-- **What the first statement lets through is entitled.** -/
theorem entitled_of_authorization {request : Request}
    (h : config.authorization host context now request = .ok ()) : config.Entitled host context now request := by
  have hmanage : ∀ {operation organizationId permission : String},
      authorization.manage host config context now operation organizationId permission = .ok () →
      config.Manages host context now operation organizationId permission := by
    intro operation organizationId permission hm
    obtain ⟨auth, hauth, -⟩ := map_eq_ok.1 hm
    exact authorizeManagement_ok hauth
  have hlisted : ∀ role, require AuthorizationFailure.forbidden
      (allowedCaller context (config.callers role)).isSome = .ok () → config.Listed context role := by
    intro role hr
    obtain ⟨caller, hcaller⟩ := Option.isSome_iff_exists.1 (require_eq_ok.1 hr)
    exact listed_of_allowedCaller role hcaller
  cases request with
  | createRule r | getRule r | listRules r | updateRule r | setRuleEnabled r | deleteRule r
  | inspectExecution r => exact hmanage h
  | receiveEvent r => exact hlisted .event h
  | receiveTimer r => exact hlisted .timer h
  | reconcile r =>
    obtain ⟨auth, hauth, -⟩ := map_eq_ok.1 h
    exact authorizeExecution_ok hauth

end ProjectAutomationConfig

/-! ## Refused requests -/

section Refused

variable {plugin : ProjectAutomationPlugin} {env : Env} {host : Host} {around : CallAround} {context : Ctx} {w : World}

theorem authResult_of_error {result : OffsetDateTime → Except AuthorizationFailure Authorized}
    {e : AuthorizationFailure} (h : result ⟨w.clock, 0⟩ = .error e) :
    Plugin.authResult result w = ⟨.error e.toError, [], w⟩ := by
  unfold Plugin.authResult
  rw [h]
  rfl

theorem authResult_of_ok {result : OffsetDateTime → Except AuthorizationFailure Authorized} {auth : Authorized}
    (h : result ⟨w.clock, 0⟩ = .ok auth) : Plugin.authResult result w = ⟨.ok auth, [], w⟩ := by
  unfold Plugin.authResult
  rw [h]
  rfl

theorem check_of_refused {holds : Bool} {e : AuthorizationFailure} (h : require .forbidden holds = .error e) :
    Plugin.check (.domain .forbidden) holds w = ⟨.error e.toError, [], w⟩ := by
  cases holds with
  | true => cases h
  | false => cases h; rfl

/-- **What the first statement refuses ends there**: nothing is done, and the answer is the refusal. -/
theorem invoke_of_refused {request : Request} {e : AuthorizationFailure}
    (h : plugin.config.authorization host context ⟨w.clock, 0⟩ request = .error e) :
    plugin.invoke env host around context request w = ⟨.error e.toError, [], w⟩ := by
  cases request with
  | createRule r | getRule r | listRules r | updateRule r | setRuleEnabled r | deleteRule r | inspectExecution r
  | reconcile r =>
    have hresult := ProjectAutomationConfig.map_eq_error.1 h
    exact Plugin.bind_of_error (Plugin.bind_of_error (authResult_of_error hresult))
  | receiveEvent r | receiveTimer r => exact Plugin.bind_of_error (Plugin.bind_of_error (check_of_refused h))

end Refused

/-- **Separation of authority.** An accepted configuration gives each calling instance at most one class of
operations. What authorization refuses ends there; so an operation changes the world or asks something of
Jobs only for a caller entitled to it, and a refusal does not depend on the state. -/
theorem authority_separated {host : Host} {config : ProjectAutomationConfig}
    (hconfig : config.validate host = .ok ()) :
    (∀ caller, ∃ role, ∀ (host' : Host) (context : Ctx) (now : OffsetDateTime) (request : Request),
        context.callerInstance = some caller → config.authorization host' context now request = .ok () →
          request.role = role) ∧
      ∀ (prepared : Bool) (env : Env) (host' : Host) (around : CallAround) (context : Ctx) (request : Request),
        let call := ProjectAutomationPlugin.invoke ⟨config, prepared⟩ env host' around context request
        (∀ w e, config.authorization host' context ⟨w.clock, 0⟩ request = .error e →
            call w = ⟨.error e.toError, [], w⟩) ∧
          (∀ w, ¬ config.Entitled host' context ⟨w.clock, 0⟩ request → (call w).world = w ∧ (call w).sent = []) ∧
          ∀ w w', w.clock = w'.clock → config.authorization host' context ⟨w.clock, 0⟩ request ≠ .ok () →
            (call w).result = (call w').result := by
  refine ⟨fun caller => ?_, fun prepared env host' around context request => ?_⟩
  · by_cases hany : ∃ host' context now request, context.callerInstance = some caller ∧
        config.authorization host' context now request = .ok ()
    · obtain ⟨host₀, context₀, now₀, request₀, hcaller₀, hpast₀⟩ := hany
      refine ⟨request₀.role, fun host' context now request hcaller hpast => ?_⟩
      have hlisted := (ProjectAutomationConfig.entitled_of_authorization hpast).listed
      have hlisted₀ := (ProjectAutomationConfig.entitled_of_authorization hpast₀).listed
      exact ProjectAutomationConfig.role_unique hconfig (hcaller.trans hcaller₀.symm) hlisted hlisted₀
    · refine ⟨.admin, fun host' context now request hcaller hpast => ?_⟩
      exact absurd ⟨host', context, now, request, hcaller, hpast⟩ hany
  · intro call
    have hrefused : ∀ (w : World) (e : AuthorizationFailure),
        config.authorization host' context ⟨w.clock, 0⟩ request = .error e → call w = ⟨.error e.toError, [], w⟩ :=
      fun w e h => invoke_of_refused h
    refine ⟨hrefused, fun w hnot => ?_, fun w w' hclock hnot => ?_⟩
    · cases hauth : config.authorization host' context ⟨w.clock, 0⟩ request with
      | ok u => exact absurd (ProjectAutomationConfig.entitled_of_authorization hauth) hnot
      | error e =>
        rw [hrefused w e hauth]
        exact ⟨rfl, rfl⟩
    · cases hauth : config.authorization host' context ⟨w.clock, 0⟩ request with
      | ok u => exact absurd hauth hnot
      | error e => rw [hrefused w e hauth, hrefused w' e (hclock ▸ hauth)]

section Sample

open Sample

/-- A host whose verifier finds the actor in an assertion made out to the operation. -/
def openHost : Host where
  schemaPlan := fun _ => true
  verifier := fun _ _ => some fun context _ operation _ =>
    if context.assertion = some operation then some "user-1" else none
  checkMembership := fun _ _ => .ok true
  checkPermission := fun _ _ => .ok true
  parseUuid := fun text => some ⟨text⟩
  decodeError := fun _ _ => none

/-- One caller on each list. -/
def fourCallers : ProjectAutomationConfig where
  schema := "project_automation"
  databaseUrlSecret := "automation/database"
  authIssuer := "auth"
  authAssertionPublicKey := "key"
  adminCallers := ["host"]
  eventCallers := ["projects"]
  timerCallers := ["jobs"]
  executionCallers := ["worker-1"]
  jobsQueue := "automation"
  executionLeaseSeconds := 60
  jobMaxAttempts := 5
  maxReconcileItems := 10

/-- The worker may reconcile, and so nothing else. -/
theorem worker_only_reconciles :
    let context : Ctx := ⟨some "worker-1", some "reconcile"⟩
    fourCallers.authorization openHost context ⟨start, 0⟩ (.reconcile ⟨10, "org-1"⟩) = .ok () ∧
      ∃ role, ∀ (host : Host) (context : Ctx) (now : OffsetDateTime) (request : Request),
        context.callerInstance = some "worker-1" → fourCallers.authorization host context now request = .ok () →
          request.role = role :=
  ⟨rfl, (authority_separated (show fourCallers.validate openHost = .ok () from rfl)).1 "worker-1"⟩

end Sample

end ProjectAutomation

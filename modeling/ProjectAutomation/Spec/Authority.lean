import ProjectAutomation.Spec.Queries

/-!
# Configuration and authorization

`ProjectAutomationConfig` with its `validate`, and what an operation checks before it
does anything: `allowed_caller`, `authorize_management` and `authorize_execution`. The
assertion verifier, organization membership and access control are code outside the
repository (`Host`), so their answers are whatever a host makes them.
-/

namespace ProjectAutomation

/-! ## The host -/

/-- What the kernel hands an operation with its request. -/
structure Ctx where
  /-- `caller_instance()` -/
  callerInstance : Option String
  /-- the actor assertion the verifier reads -/
  assertion : Option String
deriving DecidableEq

/-- `ActorAssertionVerifier`: the subject `project_context` finds for a capability and an operation,
at the instant the clock shows. -/
abbrev Verifier := Ctx → String → String → OffsetDateTime → Option String

/-- `CheckMembershipRequest`. -/
structure CheckMembershipRequest where
  organizationId : String
  subject : String
deriving DecidableEq

/-- `CheckPermissionRequestScope`. -/
structure CheckPermissionRequestScope where
  id : String
  kind : String
deriving DecidableEq

/-- `CheckPermissionRequest`. -/
structure CheckPermissionRequest where
  permission : String
  scope : CheckPermissionRequestScope
  subject : String
deriving DecidableEq

/-- `OrganizationMembershipInvocationError`, `AccessControlInvocationError`. -/
inductive InvocationError where
  | runtime (failure : RuntimeFailure)
  | domain
deriving DecidableEq

/-- Code outside the repository that an operation meets on its way to the storage layer. -/
structure Host where
  /-- whether `SchemaPlan::new` takes the schema name -/
  schemaPlan : String → Bool
  /-- `ActorAssertionVerifier::from_public_key_base64`, of the issuer and the key -/
  verifier : String → String → Option Verifier
  /-- `active` of the answer to `check_membership_with_context` -/
  checkMembership : Ctx → CheckMembershipRequest → Except InvocationError Bool
  /-- `allowed` of the answer to `check_permission_with_context` -/
  checkPermission : Ctx → CheckPermissionRequest → Except InvocationError Bool
  /-- `Uuid::parse_str` -/
  parseUuid : String → Option Uuid
  /-- the error of `serde_json::from_value` on a response, if there is one -/
  decodeError : String → Value → Option String

/-! ## Checks -/

/-- `ok_or`. -/
def okOr {ε α : Type} (error : ε) : Option α → Except ε α
  | some a => .ok a
  | none => .error error

/-- `if !holds { return Err(error) }`. -/
def require {ε : Type} (error : ε) (holds : Bool) : Except ε Unit := if holds then .ok () else .error error

section Checks

variable {ε ε' α : Type} {error : ε}

@[simp] theorem okOr_eq_ok {o : Option α} {a : α} : okOr error o = .ok a ↔ o = some a := by
  cases o <;> simp [okOr]

@[simp] theorem require_eq_ok {holds : Bool} {u : Unit} : require error holds = .ok u ↔ holds = true := by
  cases holds <;> simp [require]

theorem require_eq_error {holds : Bool} {e : ε} :
    require error holds = .error e ↔ holds = false ∧ error = e := by
  cases holds <;> simp [require]

theorem mapError_eq_ok {x : Except ε' α} {f : ε' → ε} {a : α} : x.mapError f = .ok a ↔ x = .ok a := by
  cases x <;> simp [Except.mapError]

end Checks

/-! ## Callers -/

def maxCallers : ℕ := 64

/-- `valid_callers`. -/
def validCallers (values : List String) : Bool :=
  !values.isEmpty && values.length ≤ maxCallers && values.all validId && distinct values

/-- `allowed_caller`. -/
def allowedCaller (context : Ctx) (allowed : List String) : Option String :=
  context.callerInstance.bind fun caller => if allowed.contains caller then some caller else none

theorem allowedCaller_eq_some {context : Ctx} {allowed : List String} {caller : String} :
    allowedCaller context allowed = some caller ↔ context.callerInstance = some caller ∧ caller ∈ allowed := by
  unfold allowedCaller
  constructor
  · intro h
    obtain ⟨x, hx, hif⟩ := Option.bind_eq_some_iff.1 h
    split at hif
    · rename_i hmem
      cases hif
      exact ⟨hx, List.contains_iff_mem.1 hmem⟩
    · cases hif
  · rintro ⟨hx, hmem⟩
    rw [hx, Option.bind_some, if_pos (List.contains_iff_mem.2 hmem)]

/-! ## Configuration -/

/-- `valid_secret_reference`. -/
def validSecretReference (value : String) : Bool :=
  validId value && value.toList.head? ≠ some '/' && value.toList.getLast? ≠ some '/' &&
    !value.toList.tails.any (fun rest => "//".toList.isPrefixOf rest)

/-- `ProjectAutomationConfig`. -/
structure ProjectAutomationConfig where
  schema : String
  databaseUrlSecret : String
  authIssuer : String
  authAssertionPublicKey : String
  adminCallers : List String
  eventCallers : List String
  timerCallers : List String
  executionCallers : List String
  jobsQueue : String
  executionLeaseSeconds : ℤ
  jobMaxAttempts : ℤ
  maxReconcileItems : ℤ

/-- `ProjectAutomationConfigError`. -/
inductive ProjectAutomationConfigError where
  | invalidSchema | invalidSecretReference | invalidAuthIssuer | invalidAuthPublicKey | invalidCallers
  | overlappingCallers | invalidJobsQueue | invalidLease | invalidJobAttempts | invalidReconcileLimit
deriving DecidableEq

namespace ProjectAutomationConfig

/-- The four lists, in the order `validate` chains them. -/
def roles (config : ProjectAutomationConfig) : List (List String) :=
  [config.adminCallers, config.eventCallers, config.timerCallers, config.executionCallers]

/-- `validate`. -/
def validate (host : Host) (config : ProjectAutomationConfig) : Except ProjectAutomationConfigError Unit := do
  require .invalidSchema (host.schemaPlan config.schema)
  require .invalidSecretReference (validSecretReference config.databaseUrlSecret)
  require .invalidAuthIssuer (validId config.authIssuer)
  require .invalidAuthPublicKey (host.verifier config.authIssuer config.authAssertionPublicKey).isSome
  require .invalidCallers (config.roles.all validCallers)
  let total := config.adminCallers.length + config.eventCallers.length + config.timerCallers.length +
    config.executionCallers.length
  require .overlappingCallers (config.roles.flatten.dedup.length == total)
  require .invalidJobsQueue (validId config.jobsQueue)
  require .invalidLease (30 ≤ config.executionLeaseSeconds && config.executionLeaseSeconds ≤ 3600)
  require .invalidJobAttempts (1 ≤ config.jobMaxAttempts && config.jobMaxAttempts ≤ 100)
  require .invalidReconcileLimit (1 ≤ config.maxReconcileItems && config.maxReconcileItems ≤ 100)

end ProjectAutomationConfig

/-! ## Authorization -/

/-- `AuthorizationFailure`. -/
inductive AuthorizationFailure where
  | unauthenticated | forbidden
  | runtime (failure : RuntimeFailure)
deriving DecidableEq

/-- `map_err` of a dependency's error: its domain errors break its protocol. -/
def dependencyFailure (capability : String) : InvocationError → AuthorizationFailure
  | .runtime failure => .runtime failure
  | .domain => .runtime (.protocolViolation capability)

namespace ProjectAutomationConfig

/-- `verifier`, and `project_context` for an operation of the capability. -/
def verified (host : Host) (config : ProjectAutomationConfig) (context : Ctx) (now : OffsetDateTime)
    (operation : String) : Except AuthorizationFailure String := do
  let verifier ← okOr (.runtime (.invalidResolvedPlan "Project Automation Auth verification key is invalid"))
    (host.verifier config.authIssuer config.authAssertionPublicKey)
  okOr .unauthenticated (verifier context "lenso.project-automation@1" operation now)

/-- `authorize_management`. -/
def authorizeManagement (host : Host) (config : ProjectAutomationConfig) (context : Ctx) (now : OffsetDateTime)
    (operation organizationId permission : String) : Except AuthorizationFailure Authorized := do
  let caller ← okOr .forbidden (allowedCaller context config.adminCallers)
  let actor ← config.verified host context now operation
  require .forbidden (validId organizationId && validId actor)
  let active ← (host.checkMembership context ⟨organizationId, actor⟩).mapError
    (dependencyFailure "lenso.organization-membership@1")
  require .forbidden active
  let allowed ← (host.checkPermission context ⟨permission, ⟨organizationId, "organization"⟩, actor⟩).mapError
    (dependencyFailure "lenso.access-control@1")
  require .forbidden allowed
  return ⟨caller, actor⟩

/-- `authorize_execution`. -/
def authorizeExecution (host : Host) (config : ProjectAutomationConfig) (context : Ctx) (now : OffsetDateTime) :
    Except AuthorizationFailure Authorized := do
  let caller ← okOr .forbidden (allowedCaller context config.executionCallers)
  let actor ← config.verified host context now "reconcile"
  require .forbidden (validId actor)
  return ⟨caller, actor⟩

end ProjectAutomationConfig

end ProjectAutomation

import ProjectAutomation.Spec.Queries
import ProjectAutomation.Spec.World

/-!
# Whole calls

The loops of `execute_actions`, `flush_schedules` and `reconcile` from their first
statement to their last, as they run when no other event comes between. The connections
and the answers they meet are given by place: one `Turn` for each action of an execution,
one `BatchTurn` for each execution of a batch, one `FlushTurn` for each dispatch.
-/

namespace ProjectAutomation

open Relational

/-! ## Carrying out the actions -/

/-- What one turn of the loop of `execute_actions` meets. -/
structure Turn where
  /-- the connection of `action_status` -/
  status : Connection
  providers : Providers
  /-- the connection of `complete_action` -/
  complete : Connection

/-- What `execute_actions` did: its result, the outcomes `complete_action` wrote and the calls it
made, in order, and the schema it left. -/
structure Performed where
  result : Except ActionFailure Unit
  recorded : List (ℕ × Except String Value)
  calls : List CallRecord
  db : Database

/-- The end of the loop body of `execute_actions`, after `execute_action` came to `result`. -/
def recordAction (s : Session) (claim : ClaimedExecution) (index : ℕ) (calls : List CallRecord)
    (result : Except ActionFailure Value) (db : Database) : Performed :=
  match result with
  | .ok response =>
    match transact (completeAction s claim.executionId index true (some response) none) db with
    | (.error e, db) => ⟨.error (storageActionFailure e), [], calls, db⟩
    | (.ok (), db) => ⟨.ok (), [(index, .ok response)], calls, db⟩
  | .error (.domain detail) =>
    match transact (completeAction s claim.executionId index false none (some detail)) db with
    | (.error e, db) => ⟨.error (storageActionFailure e), [], calls, db⟩
    | (.ok (), db) => ⟨.error (.domain detail), [(index, .error detail)], calls, db⟩
  | .error (.runtime failure) => ⟨.error (.runtime failure), [], calls, db⟩

/-- The loop body of `execute_actions`; a session is made of each connection. -/
def performAction (session : Connection → Session) (turn : Turn) (claim : ClaimedExecution) (index : ℕ)
    (value : Value) (db : Database) : Performed :=
  if i32Max < index then ⟨.error (.domain "too_many_actions"), [], [], db⟩
  else
    match transact (actionStatus (session turn.status) claim.executionId index) db with
    | (.error e, db) => ⟨.error (storageActionFailure e), [], [], db⟩
    | (.ok (.succeeded, _), db) => ⟨.ok (), [], [], db⟩
    | (.ok (_, key), db) =>
      match Action.fromValue value with
      | none => ⟨.error (.runtime (.protocolViolation "lenso.project-automation@1")), [], [], db⟩
      | some action =>
        let (calls, result) := executeAction turn.providers claim.executionId index key claim.payload action
        let records := calls.map (⟨claim.executionId, claim.attempt, index, action, ·⟩)
        recordAction (session turn.complete) claim index records result db

/-- `execute_actions`, over the actions from `index` on. -/
def executeActions (session : Connection → Session) (turns : ℕ → Turn) (claim : ClaimedExecution) :
    ℕ → List Value → Database → Performed
  | _, [], db => ⟨.ok (), [], [], db⟩
  | index, value :: rest, db =>
    let done := performAction session (turns index) claim index value db
    match done.result with
    | .error _ => done
    | .ok () =>
      let next := executeActions session turns claim (index + 1) rest done.db
      ⟨next.result, done.recorded ++ next.recorded, done.calls ++ next.calls, next.db⟩

/-! ## Calls -/

/-- The domain errors of the ten operations; `trait AutomationError`. -/
inductive AutomationError where
  | unauthenticated | forbidden | invalidRequest | notFound | revisionConflict | idempotencyConflict
  | ruleIdConflict | ruleNameConflict
deriving DecidableEq

/-- `PluginError`. -/
inductive PluginError where
  | domain (error : AutomationError)
  | runtime (failure : RuntimeFailure)
deriving DecidableEq

/-- The domain error a `DomainFailure` becomes. -/
def DomainFailure.toError : DomainFailure → AutomationError
  | .invalidRequest => .invalidRequest
  | .notFound => .notFound
  | .revisionConflict => .revisionConflict
  | .idempotencyConflict => .idempotencyConflict
  | .ruleIdConflict => .ruleIdConflict
  | .ruleNameConflict => .ruleNameConflict

/-- `map_storage`. A panic ends the call as a failure of the plugin. -/
def mapStorage : StorageError → PluginError
  | .domain failure => .domain failure.toError
  | .runtime failure => .runtime failure
  | .panic detail => .runtime (.pluginFailure detail)

/-- `storage_runtime`. -/
def storageRuntime : StorageError → RuntimeFailure
  | .runtime failure => failure
  | .domain failure => .pluginFailure ("Project Automation state invariant failed: " ++ failure.debug)
  | .panic detail => .pluginFailure detail

/-- What a call came to: its result, the requests it made of Jobs, and the world it left. -/
structure Called (α : Type) where
  result : Except PluginError α
  sent : List EnqueueRequest
  world : World

/-- A call of the plugin, or a part of one. -/
def Plugin (α : Type) := World → Called α

namespace Plugin

instance : Monad Plugin where
  pure a := fun w => ⟨.ok a, [], w⟩
  bind x f := fun w =>
    let done := x w
    match done.result with
    | .error e => ⟨.error e, done.sent, done.world⟩
    | .ok a =>
      let next := f a done.world
      ⟨next.result, done.sent ++ next.sent, next.world⟩

/-- `return Err(error)`. -/
def fail {α : Type} (error : PluginError) : Plugin α := fun w => ⟨.error error, [], w⟩

/-- A call of the storage layer; `f` is what the caller makes of its error. -/
def storage {α : Type} (env : Env) (conn : Connection) (f : StorageError → PluginError)
    (body : Session → Tx (Ending α)) : Plugin α := fun w =>
  let done := w.transact (body (w.session env conn))
  ⟨done.1.mapError f, [], done.2⟩

section Bind

variable {α β : Type} {x : Plugin α} {f : α → Plugin β} {w w' : World} {sent : List EnqueueRequest}

theorem bind_of_ok {a : α} (h : x w = ⟨.ok a, sent, w'⟩) :
    (x >>= f) w = ⟨(f a w').result, sent ++ (f a w').sent, (f a w').world⟩ := by
  simp only [bind, h]

/-- A part that asks nothing of Jobs. -/
theorem bind_of_silent {a : α} (h : x w = ⟨.ok a, [], w'⟩) : (x >>= f) w = f a w' := by
  rw [bind_of_ok h]
  rfl

theorem bind_of_error {e : PluginError} (h : x w = ⟨.error e, sent, w'⟩) :
    (x >>= f) w = ⟨.error e, sent, w'⟩ := by
  simp only [bind, h]

/-- A call of the storage layer, and what follows it. -/
theorem storage_bind {env : Env} {conn : Connection} {map : StorageError → PluginError}
    {body : Session → Tx (Ending α)} {r : Except StorageError α}
    (h : w.transact (body (w.session env conn)) = (r, w')) :
    (storage env conn map body >>= f) w = match r with
      | .error e => ⟨.error (map e), [], w'⟩
      | .ok a => f a w' := by
  have hstorage : storage env conn map body w = ⟨r.mapError map, [], w'⟩ := by
    unfold storage
    rw [h]
  cases r with
  | error e => rw [bind_of_error hstorage]
  | ok a => rw [bind_of_silent hstorage]

/-- A part, and whatever follows it, by how the part went. -/
theorem bind_world : ((x >>= f) w).world = match (x w).result with
    | .error _ => (x w).world
    | .ok a => (f a (x w).world).world := by
  simp only [bind]
  cases (x w).result <;> rfl

end Bind

end Plugin

/-! ## Flushing -/

/-- How one call of `jobs.enqueue` went. `lost` took the job, but its answer was a failure. -/
inductive JobsAnswer where
  | ok (jobId : String)
  | lost (jobId : String) (failure : RuntimeFailure)
  | runtime (failure : RuntimeFailure)
  | domain

/-- What one turn of the loop of `flush_schedules` meets: the answer of Jobs, and the connections of
the writes that follow. -/
structure FlushTurn where
  answer : JobsAnswer
  mark : Connection
  note : Connection

/-- What a call of `flush_schedules` meets. -/
structure FlushAround where
  pending : Connection
  turns : ℕ → FlushTurn

/-- `jobs.enqueue`: the job id, or what `flush_schedules` notes of the failure and what it returns. -/
def enqueue (request : EnqueueRequest) (answer : JobsAnswer) : Plugin (Except (String × RuntimeFailure) String) :=
  fun w =>
  match answer with
  | .ok jobId =>
    let (job, jobs) := takeJob w.jobs request jobId
    ⟨.ok (.ok job.jobId), [request], { w with jobs, acknowledged := job :: w.acknowledged }⟩
  | .lost jobId failure =>
    let (_, jobs) := takeJob w.jobs request jobId
    ⟨.ok (.error ("jobs_runtime_failure", failure)), [request], { w with jobs }⟩
  | .runtime failure => ⟨.ok (.error ("jobs_runtime_failure", failure)), [request], w⟩
  | .domain => ⟨.ok (.error ("jobs_contract_rejected", .protocolViolation "lenso.jobs@1")), [request], w⟩

/-- The storage calls of `flush_schedules`. -/
def flushStorage {α : Type} (env : Env) (conn : Connection) (body : Session → Tx (Ending α)) : Plugin α :=
  Plugin.storage env conn (.runtime ∘ storageRuntime) body

/-- `mark_dispatch_enqueued`: its first statement, and its second when the first found no row. -/
def markEnqueued (env : Env) (turn : FlushTurn) (c : ScheduleDispatch) (jobId : String) : Plugin Bool := do
  let recorded ← flushStorage env turn.mark (markDispatchEnqueued · c jobId)
  if recorded then
    return true
  else
    flushStorage env turn.note (recordCancelledEnqueue · c jobId)
    return false

/-- A failed call of Jobs is noted on its dispatch, and ends the flush. -/
def abandonFlush (env : Env) (turn : FlushTurn) (c : ScheduleDispatch) (noted : String)
    (failure : RuntimeFailure) : Plugin Bool := do
  flushStorage env turn.mark (recordDispatchFailure · c noted)
  Plugin.fail (.runtime failure)

/-- The loop body of `flush_schedules`; whether the dispatch counts as enqueued. -/
def flushDispatch (env : Env) (turn : FlushTurn) (c : ScheduleDispatch) : Plugin Bool :=
  match env.formatRfc3339 c.scheduledFor with
  | none => Plugin.fail (.runtime (.pluginFailure "Project Automation schedule time cannot be formatted"))
  | some availableAt => do
    match ← enqueue (enqueueRequest env c availableAt) turn.answer with
    | .ok jobId => markEnqueued env turn c jobId
    | .error (noted, failure) => abandonFlush env turn c noted failure

/-- The loop of `flush_schedules` from the dispatch at `index` on. -/
def flushDispatches (env : Env) (turns : ℕ → FlushTurn) : ℕ → List ScheduleDispatch → Plugin ℕ
  | _, [] => pure 0
  | index, c :: rest => do
    let recorded ← flushDispatch env (turns index) c
    let count ← flushDispatches env turns (index + 1) rest
    return if recorded then count + 1 else count

/-- `flush_schedules`. -/
def flushSchedules (env : Env) (around : FlushAround) (organizationId : String) (limit : ℕ) : Plugin ℕ := do
  let copies ← flushStorage env around.pending (pendingDispatches · organizationId limit)
  flushDispatches env around.turns 0 copies

/-! ## Reconciling -/

/-- What one execution of a batch meets. -/
structure BatchTurn where
  actions : ℕ → Turn
  /-- the connection of `complete_execution` or `release_execution_for_retry` -/
  finish : Connection

/-- What a call of `reconcile` meets. -/
structure Around where
  before : FlushAround
  claim : Connection
  /-- the rows other transactions have locked -/
  locked : Uuid → Bool
  batch : ℕ → BatchTurn
  after : FlushAround
  count : Connection

/-- `execute_actions` within `reconcile`. -/
def runActions (env : Env) (turns : ℕ → Turn) (claim : ClaimedExecution) :
    Plugin (Except ActionFailure Unit) := fun w =>
  let done := executeActions (w.session env) turns claim 0 claim.actions w.db
  ⟨.ok done.result, [], { w with db := done.db, calls := w.calls ++ done.calls }⟩

/-- The loop body of `reconcile`; whether the execution succeeded. -/
def settleExecution (env : Env) (turn : BatchTurn) (claim : ClaimedExecution) : Plugin Bool := do
  match ← runActions env turn.actions claim with
  | .ok () =>
    Plugin.storage env turn.finish mapStorage (completeExecution · claim true none)
    return true
  | .error (.domain detail) =>
    Plugin.storage env turn.finish mapStorage (completeExecution · claim false (some detail))
    return false
  | .error (.runtime failure) =>
    Plugin.storage env turn.finish mapStorage
      (releaseExecutionForRetry · claim "dependency_runtime_failure")
    Plugin.fail (.runtime failure)

/-- The loop of `reconcile` from the execution at `index` on: how many succeeded, and how many failed. -/
def settleBatch (env : Env) (turns : ℕ → BatchTurn) : ℕ → List ClaimedExecution → Plugin (ℕ × ℕ)
  | _, [] => pure (0, 0)
  | index, claim :: rest => do
    let succeeded ← settleExecution env (turns index) claim
    let (successes, failures) ← settleBatch env turns (index + 1) rest
    return if succeeded then (successes + 1, failures) else (successes, failures + 1)

/-- `ReconcileResponse`. -/
structure ReconcileResponse where
  claimed : ℕ
  failed : ℕ
  scheduleEnqueued : ℕ
  schedulePending : ℕ
  succeeded : ℕ
deriving DecidableEq

/-- `reconcile`, past its checks. -/
def reconcile (env : Env) (around : Around) (organizationId worker : String) (limit : ℕ) (leaseSeconds : ℤ) :
    Plugin ReconcileResponse := do
  let before ← flushSchedules env around.before organizationId limit
  let executions ← Plugin.storage env around.claim mapStorage
    (claimExecutions · organizationId worker limit leaseSeconds around.locked)
  let (succeeded, failed) ← settleBatch env around.batch 0 executions
  let after ← flushSchedules env around.after organizationId limit
  let schedulePending ← Plugin.storage env around.count mapStorage (pendingDispatchCount · organizationId)
  return ⟨executions.length, failed, before + after, schedulePending, succeeded⟩

end ProjectAutomation

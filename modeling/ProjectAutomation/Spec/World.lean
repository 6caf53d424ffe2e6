import ProjectAutomation.Transition.Run
import ProjectAutomation.Spec.Actions
import ProjectAutomation.Spec.Execution

/-!
# The plugin at work

The world is the schema together with what is under way around it: the clock, the
jobs the Jobs capability has taken, the flushes of `flush_schedules`, the workers
inside `reconcile`, and the calls they have made. An event is one transaction of an
endpoint, or one step of a flush or of a worker, so every interleaving of any number
of callers and workers is a list of events. A flush or a worker that no later event
moves is one that stopped.

`automation env` is the machine these make.
-/

namespace ProjectAutomation

open Relational

/-! ## Jobs -/

/-- `jobs::EnqueueRequest`; its payload is a timer request, field by field. -/
structure EnqueueRequest where
  availableAt : String
  idempotencyKey : String
  kind : String
  maxAttempts : ℤ
  payload : ReceiveTimerRequest
  queue : String
deriving DecidableEq

/-- A job the Jobs capability has taken. -/
structure Job where
  jobId : String
  request : EnqueueRequest
deriving DecidableEq

/-- How one call of `jobs.enqueue` went. `lost` took the job, but its answer was a failure. -/
inductive EnqueueAnswer where
  | ok (jobId : String)
  | lost (jobId : String)
  | runtime
  | domain
deriving DecidableEq

/-- Jobs is idempotent by key: the job already taken for the key, else a new one; and the jobs
taken afterwards. -/
def takeJob (jobs : List Job) (request : EnqueueRequest) (jobId : String) : Job × List Job :=
  match jobs.find? (fun j => j.request.idempotencyKey = request.idempotencyKey) with
  | some job => (job, jobs)
  | none => (⟨jobId, request⟩, jobs ++ [⟨jobId, request⟩])

/-- The request `flush_schedules` makes of a copy. -/
def enqueueRequest (env : Env) (c : ScheduleDispatch) (availableAt : String) : EnqueueRequest where
  availableAt
  idempotencyKey := c.idempotencyKey
  kind := "lenso.project-automation.timer"
  maxAttempts := env.jobMaxAttempts
  payload := ⟨c.idempotencyKey, c.organizationId, c.ruleId, availableAt⟩
  queue := env.jobsQueue

/-- Where a flush stands with one of its copies. -/
inductive FlushPhase where
  | enqueue
  | mark (jobId : String)
  | noteCancelled (jobId : String)
  | noteFailure (failure : String)
  | closed
deriving DecidableEq

structure Flush where
  copy : ScheduleDispatch
  phase : FlushPhase
deriving DecidableEq

/-! ## Workers -/

/-- Where `execute_actions` and the end of `reconcile`'s loop body stand. -/
inductive Phase where
  /-- before `action_status` of the action at `index`, or past the last one -/
  | status (index : ℕ)
  /-- before `execute_action` -/
  | call (index : ℕ) (key : String)
  /-- before `complete_action`; the outcome is a response or a domain failure -/
  | record (index : ℕ) (outcome : Except String Value)
  /-- before `complete_execution` or `release_execution_for_retry` -/
  | finish (result : Except ActionFailure Unit)
  | closed

/-- A worker on one execution it claimed. -/
structure Task where
  claim : ClaimedExecution
  phase : Phase

def Task.key (t : Task) : Uuid × ℕ := (t.claim.executionId, t.claim.attempt)

/-- A call of Projects or Collaboration, and the action it was made for. -/
structure CallRecord where
  executionId : Uuid
  attempt : ℕ
  index : ℕ
  action : Action
  call : Call
deriving DecidableEq

/-- `storage_action_failure`. -/
def storageActionFailure : StorageError → ActionFailure
  | .runtime failure => .runtime failure
  | .domain failure =>
    .runtime (.pluginFailure ("Project Automation receipt invariant failed: " ++ failure.debug))
  | .panic detail => .runtime (.pluginFailure detail)

/-! ## The world -/

structure World where
  /-- `OffsetDateTime::now_utc()`, in nanoseconds -/
  clock : ℤ
  db : Database
  jobs : List Job
  /-- the jobs a call of `jobs.enqueue` has answered `Ok` with -/
  acknowledged : List Job
  flushes : List Flush
  /-- the worker that holds attempt `n` of an execution -/
  tasks : Uuid × ℕ → Option Task
  calls : List CallRecord

def World.init : World := ⟨0, .init, [], [], [], fun _ => none, []⟩

namespace World

/-- What a storage function called now finds around it. -/
def session (env : Env) (conn : Connection) (w : World) : Session :=
  { conn with env, nowUtc := ⟨w.clock, 0⟩ }

/-- Run one transaction. -/
def transact {α : Type} (w : World) (body : Tx (Ending α)) : Except StorageError α × World :=
  let done := Relational.transact body w.db
  (done.1, { w with db := done.2 })

/-- Time passes. -/
def tick (nanos : ℕ) (w : World) : World := { w with clock := w.clock + nanos }

/-- A rule command, from the validation on. The flush that follows it is events of its own. -/
def command (env : Env) (conn : Connection) (auth : Authorized) (request : CommandRequest) (w : World) :
    Except StorageError Value × World :=
  if request.valid env then w.transact (storeCommand (w.session env conn) auth request)
  else (.error (.domain .invalidRequest), w)

/-! ### Flushes -/

/-- `flush_schedules` begins: it reads its copies. -/
def pendingDispatches (env : Env) (conn : Connection) (organizationId : String) (limit : ℕ) (w : World) :
    World :=
  match w.transact (ProjectAutomation.pendingDispatches (w.session env conn) organizationId limit) with
  | (.ok copies, w') => { w' with flushes := w'.flushes ++ copies.map (⟨·, .enqueue⟩) }
  | (.error _, w') => w'

def setFlush (index : ℕ) (copy : ScheduleDispatch) (phase : FlushPhase) (w : World) : World :=
  { w with flushes := w.flushes.set index ⟨copy, phase⟩ }

/-- `jobs.enqueue` for a copy. -/
def enqueue (env : Env) (index : ℕ) (c : ScheduleDispatch) (answer : EnqueueAnswer) (w : World) : World :=
  match env.formatRfc3339 c.scheduledFor with
  | none => w.setFlush index c .closed
  | some availableAt =>
    let request := enqueueRequest env c availableAt
    match answer with
    | .ok jobId =>
      let (job, jobs) := takeJob w.jobs request jobId
      { w.setFlush index c (.mark job.jobId) with jobs, acknowledged := job :: w.acknowledged }
    | .lost jobId =>
      let (_, jobs) := takeJob w.jobs request jobId
      { w.setFlush index c (.noteFailure "jobs_runtime_failure") with jobs }
    | .runtime => w.setFlush index c (.noteFailure "jobs_runtime_failure")
    | .domain => w.setFlush index c (.noteFailure "jobs_contract_rejected")

/-- The next step of a flush with the copy at `index`. -/
def flush (env : Env) (conn : Connection) (index : ℕ) (answer : EnqueueAnswer) (w : World) : World :=
  let s := w.session env conn
  match w.flushes[index]? with
  | none => w
  | some ⟨c, .enqueue⟩ => w.enqueue env index c answer
  | some ⟨c, .mark jobId⟩ =>
    let done := w.transact (markDispatchEnqueued s c jobId)
    done.2.setFlush index c (match done.1 with | .ok false => .noteCancelled jobId | _ => .closed)
  | some ⟨c, .noteCancelled jobId⟩ =>
    (w.transact (recordCancelledEnqueue s c jobId)).2.setFlush index c .closed
  | some ⟨c, .noteFailure failure⟩ =>
    (w.transact (recordDispatchFailure s c failure)).2.setFlush index c .closed
  | some ⟨_, .closed⟩ => w

/-! ### Workers -/

/-- `reconcile` claims a batch; every claim becomes a task. -/
def claimExecutions (env : Env) (conn : Connection) (organizationId worker : String) (limit : ℕ)
    (leaseSeconds : ℤ) (locked : Uuid → Bool) (w : World) : World :=
  let body := ProjectAutomation.claimExecutions (w.session env conn) organizationId worker limit
    leaseSeconds locked
  match w.transact body with
  | (.ok claims, w') =>
    let tasks := fun k => match claims.find? (fun c => Task.key ⟨c, .status 0⟩ = k) with
      | some claim => some ⟨claim, .status 0⟩
      | none => w'.tasks k
    { w' with tasks }
  | (.error _, w') => w'

def setTask (claim : ClaimedExecution) (phase : Phase) (w : World) : World :=
  { w with tasks := fun k => if k = Task.key ⟨claim, phase⟩ then some ⟨claim, phase⟩ else w.tasks k }

/-- `action_status`, and whether the loop of `execute_actions` skips the action. -/
def readStatus (s : Session) (claim : ClaimedExecution) (index : ℕ) (w : World) : World :=
  if claim.actions.length ≤ index then w.setTask claim (.finish (.ok ()))
  else if i32Max < index then w.setTask claim (.finish (.error (.domain "too_many_actions")))
  else
    let done := w.transact (actionStatus s claim.executionId index)
    done.2.setTask claim (match done.1 with
      | .error e => .finish (.error (storageActionFailure e))
      | .ok (.succeeded, _) => .status (index + 1)
      | .ok (_, key) => .call index key)

/-- The action is decoded and carried out. -/
def carryOut (providers : Providers) (claim : ClaimedExecution) (index : ℕ) (key : String) (w : World) :
    World :=
  match claim.actions[index]?.bind Action.fromValue with
  | none =>
    w.setTask claim (.finish (.error (.runtime (.protocolViolation "lenso.project-automation@1"))))
  | some action =>
    let (calls, result) := executeAction providers claim.executionId index key claim.payload action
    let records := calls.map (⟨claim.executionId, claim.attempt, index, action, ·⟩)
    { w.setTask claim (match result with
        | .ok response => .record index (.ok response)
        | .error (.domain detail) => .record index (.error detail)
        | .error (.runtime failure) => .finish (.error (.runtime failure))) with
      calls := w.calls ++ records }

/-- `complete_action`, and how the loop of `execute_actions` goes on. -/
def recordOutcome (s : Session) (claim : ClaimedExecution) (index : ℕ) (outcome : Except String Value)
    (w : World) : World :=
  let done := w.transact (match outcome with
    | .ok response => completeAction s claim.executionId index true (some response) none
    | .error detail => completeAction s claim.executionId index false none (some detail))
  done.2.setTask claim (match done.1, outcome with
    | .error e, _ => .finish (.error (storageActionFailure e))
    | .ok _, .ok _ => .status (index + 1)
    | .ok _, .error detail => .finish (.error (.domain detail)))

/-- The end of the loop body of `reconcile`. -/
def finish (s : Session) (claim : ClaimedExecution) (result : Except ActionFailure Unit) (w : World) :
    World :=
  let done := w.transact (match result with
    | .ok () => completeExecution s claim true none
    | .error (.domain detail) => completeExecution s claim false (some detail)
    | .error (.runtime _) => releaseExecutionForRetry s claim "dependency_runtime_failure")
  done.2.setTask claim .closed

/-- The next step of the worker that holds an attempt. -/
def work (env : Env) (conn : Connection) (executionId : Uuid) (attempt : ℕ) (providers : Providers)
    (w : World) : World :=
  let s := w.session env conn
  match w.tasks (executionId, attempt) with
  | none => w
  | some ⟨claim, .status index⟩ => w.readStatus s claim index
  | some ⟨claim, .call index key⟩ => w.carryOut providers claim index key
  | some ⟨claim, .record index outcome⟩ => w.recordOutcome s claim index outcome
  | some ⟨claim, .finish result⟩ => w.finish s claim result
  | some ⟨_, .closed⟩ => w

end World

/-! ## Events -/

inductive Event where
  | tick (nanos : ℕ)
  | command (conn : Connection) (auth : Authorized) (request : CommandRequest)
  | receiveEvent (conn : Connection) (request : ReceiveEventRequest)
  | receiveTimer (conn : Connection) (request : ReceiveTimerRequest)
  | pendingDispatches (conn : Connection) (organizationId : String) (limit : ℕ)
  | flush (conn : Connection) (index : ℕ) (answer : EnqueueAnswer)
  | claimExecutions (conn : Connection) (organizationId worker : String) (limit : ℕ) (leaseSeconds : ℤ)
      (locked : Uuid → Bool)
  | work (conn : Connection) (executionId : Uuid) (attempt : ℕ) (providers : Providers)

/-- What a caller outside the plugin is told. -/
inductive Reply where
  | silent
  | command (result : Except StorageError Value)
  | receipt (result : Except StorageError TriggerReceipt)

instance (result : Except StorageError TriggerReceipt) : (reply : Reply) → Decidable (reply = .receipt result)
  | .receipt result' => decidable_of_iff (result' = result) (by rw [Reply.receipt.injEq])
  | .silent | .command _ => isFalse (fun h => by cases h)

/-- One event. -/
def World.step (env : Env) (w : World) : Event → World × Reply
  | .tick nanos => (w.tick nanos, .silent)
  | .command conn auth request =>
    let done := w.command env conn auth request
    (done.2, .command done.1)
  | .receiveEvent conn request =>
    let done := w.transact (takeEvent (w.session env conn) request)
    (done.2, .receipt done.1)
  | .receiveTimer conn request =>
    let done := w.transact (takeTimer (w.session env conn) request)
    (done.2, .receipt done.1)
  | .pendingDispatches conn organizationId limit =>
    (w.pendingDispatches env conn organizationId limit, .silent)
  | .flush conn index answer => (w.flush env conn index answer, .silent)
  | .claimExecutions conn organizationId worker limit leaseSeconds locked =>
    (w.claimExecutions env conn organizationId worker limit leaseSeconds locked, .silent)
  | .work conn executionId attempt providers => (w.work env conn executionId attempt providers, .silent)

/-- The plugin, its callers and its workers. -/
def automation (env : Env) : Transition.Machine World Event Reply := ⟨.init, World.step env⟩

end ProjectAutomation

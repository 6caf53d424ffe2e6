import ProjectAutomation.Spec.World
import ProjectAutomation.Proof.Intake
import ProjectAutomation.Proof.Lease

/-!
# What one event can do

`Step env w e w'` lists every way an event can change the world, with what is known
of each; `step_cases` shows that the machine does nothing else. The invariants of the
later files are proved from it, one case each.
-/

namespace ProjectAutomation

open Relational

variable {env : Env} {w : World}

/-- The copies a flush takes. -/
def CopiesOf (db : Database) (copies : List ScheduleDispatch) : Prop :=
  ∀ c ∈ copies, ∃ d ∈ db.dispatches, d.state = .pending ∧ d.copy = c

/-- How a flush goes on after its call of Jobs failed, or after its last statement. -/
def Flush.Ends : FlushPhase → Prop
  | .noteFailure _ | .closed => True
  | .enqueue | .mark _ | .noteCancelled _ => False

/-- How a worker gives an action up without touching the schema. -/
inductive GivesUp (claim : ClaimedExecution) : Phase → Except ActionFailure Unit → Prop
  | done {index : ℕ} : claim.actions.length ≤ index → GivesUp claim (.status index) (.ok ())
  | tooMany {index : ℕ} : index < claim.actions.length → i32Max < index →
      GivesUp claim (.status index) (.error (.domain "too_many_actions"))
  | runtime {phase : Phase} {failure : RuntimeFailure} : (∀ result, phase ≠ .finish result) →
      GivesUp claim phase (.error (.runtime failure))

/-- How a worker goes on after an action was carried out. -/
def afterCall (index : ℕ) : Except ActionFailure Value → Phase
  | .ok response => .record index (.ok response)
  | .error (.domain detail) => .record index (.error detail)
  | .error (.runtime failure) => .finish (.error (.runtime failure))

/-- How a worker goes on after an outcome was recorded. -/
def afterRecord (index : ℕ) : Except String Value → Phase
  | .ok _ => .status (index + 1)
  | .error detail => .finish (.error (.domain detail))

/-- The receipt row an outcome leaves. -/
def recordedRow (now : ℤ) (row : ActionReceiptRow) : Except String Value → ActionReceiptRow
  | .ok response => row.complete .succeeded (some response) none now
  | .error detail => row.complete .failed none (some detail) now

/-- How the end of the loop body settles an execution. -/
def finalOf : Except ActionFailure Unit → Option Bool
  | .ok () => some true
  | .error (.domain _) => some false
  | .error (.runtime _) => none

/-- The tasks after a batch was claimed. -/
def openTasks (claims : List ClaimedExecution) (tasks : Uuid × ℕ → Option Task) : Uuid × ℕ → Option Task :=
  fun k => match claims.find? (fun c => Task.key ⟨c, .status 0⟩ = k) with
    | some claim => some ⟨claim, .status 0⟩
    | none => tasks k

/-- **The ways an event can change the world.** -/
inductive Step (env : Env) (w : World) : Event → World → Prop
  | idle (e : Event) : Step env w e w
  | tick (nanos : ℕ) : Step env w (.tick nanos) { w with clock := w.clock + nanos }
  | command {conn : Connection} {auth : Authorized} {request : CommandRequest} {response : Value}
      {db' : Database} : request.valid env = true →
      Worked (w.session env conn) request response w.db { db' with commands := w.db.commands } →
      Answered (w.session env conn) (request.scope auth) request response w.db.commands db'.commands →
      Step env w (.command conn auth request) { w with db := db' }
  | receiveEvent {conn : Connection} {request : ReceiveEventRequest} {occurredAt : OffsetDateTime}
      {es : List ExecutionRow} {db' : Database} :
      validEvent (fun text => (env.parseRfc3339 text).isSome) request = true →
      Intake (w.session env conn) (newTrigger (w.session env conn) request.organizationId .event
        request.dedupeKey none request.toValue (encodeTimestamptz occurredAt)) es w.db db' →
      List.Forall₂ (OpenedFor (w.session env conn) request.organizationId (conn.newV4 0))
        ((w.db.rules.rows.filter (RuleRow.takesEvents request.organizationId)).filter
          (RuleRow.fires request.eventType.name request.toValue)) es →
      Step env w (.receiveEvent conn request) { w with db := db' }
  | receiveTimer {conn : Connection} {request : ReceiveTimerRequest} {scheduledFor : OffsetDateTime}
      {receipt : TriggerReceipt} {es : List ExecutionRow} {db' : Database} :
      env.parseRfc3339 request.scheduledFor = some scheduledFor →
      request.dedupeKey = scheduleKey env request.ruleId scheduledFor →
      TimerOutcome (w.session env conn) request.organizationId request.ruleId scheduledFor w.db receipt es →
      Intake (w.session env conn) (newTrigger (w.session env conn) request.organizationId .timer
        request.dedupeKey (some request.ruleId) request.toValue (encodeTimestamptz scheduledFor)) es w.db db' →
      Step env w (.receiveTimer conn request) { w with db := db' }
  | pendingDispatches {conn : Connection} {organizationId : String} {limit : ℕ}
      {copies : List ScheduleDispatch} : CopiesOf w.db copies →
      Step env w (.pendingDispatches conn organizationId limit)
        { w with flushes := w.flushes ++ copies.map (⟨·, .enqueue⟩) }
  | enqueued {conn : Connection} {index : ℕ} {c : ScheduleDispatch} {jobId availableAt : String} :
      w.flushes[index]? = some ⟨c, .enqueue⟩ → env.formatRfc3339 c.scheduledFor = some availableAt →
      Step env w (.flush conn index (.ok jobId))
        { w.setFlush index c (.mark (takeJob w.jobs (enqueueRequest env c availableAt) jobId).1.jobId) with
          jobs := (takeJob w.jobs (enqueueRequest env c availableAt) jobId).2
          acknowledged := (takeJob w.jobs (enqueueRequest env c availableAt) jobId).1 :: w.acknowledged }
  | lost {conn : Connection} {index : ℕ} {c : ScheduleDispatch} {jobId availableAt failure : String} :
      w.flushes[index]? = some ⟨c, .enqueue⟩ → env.formatRfc3339 c.scheduledFor = some availableAt →
      Step env w (.flush conn index (.lost jobId))
        { w.setFlush index c (.noteFailure failure) with
          jobs := (takeJob w.jobs (enqueueRequest env c availableAt) jobId).2 }
  | flushEnds {conn : Connection} {index : ℕ} {answer : EnqueueAnswer} {c : ScheduleDispatch}
      {phase phase' : FlushPhase} : w.flushes[index]? = some ⟨c, phase⟩ → Flush.Ends phase' →
      Step env w (.flush conn index answer) (w.setFlush index c phase')
  | marked {conn : Connection} {index : ℕ} {answer : EnqueueAnswer} {c : ScheduleDispatch} {jobId : String}
      {phase' : FlushPhase} : w.flushes[index]? = some ⟨c, .mark jobId⟩ →
      phase' = .closed ∨ phase' = .noteCancelled jobId → conn.faults "complete schedule dispatch" = none →
      Step env w (.flush conn index answer)
        (World.setFlush index c phase' { w with db := { w.db with
          dispatches := w.db.dispatches.update (c.selects .pending) (DispatchRow.enqueue jobId)
            ⟨fun _ => rfl⟩ } })
  | noted {conn : Connection} {index : ℕ} {answer : EnqueueAnswer} {c : ScheduleDispatch} {jobId : String} :
      w.flushes[index]? = some ⟨c, .noteCancelled jobId⟩ →
      conn.faults "record cancelled schedule enqueue" = none →
      Step env w (.flush conn index answer)
        (World.setFlush index c .closed { w with db := { w.db with
          dispatches := w.db.dispatches.update (c.selects .cancelled) (DispatchRow.noteEnqueue jobId)
            ⟨fun _ => rfl⟩ } })
  | failed {conn : Connection} {index : ℕ} {answer : EnqueueAnswer} {c : ScheduleDispatch}
      {failure : String} : w.flushes[index]? = some ⟨c, .noteFailure failure⟩ →
      conn.faults "record schedule dispatch failure" = none →
      Step env w (.flush conn index answer)
        (World.setFlush index c .closed { w with db := { w.db with
          dispatches := w.db.dispatches.update (c.selects .pending) (DispatchRow.noteFailure failure)
            ⟨fun _ => rfl⟩ } })
  | claimed {conn : Connection} {organizationId worker : String} {limit : ℕ} {leaseSeconds : ℤ}
      {locked : Uuid → Bool} {rows : List (ExecutionRow × Value)} {claims told : List ClaimedExecution}
      {db' : Database} : Candidates w.db organizationId conn.transactionTimestamp rows →
      LeasedAll (w.session env conn) worker leaseSeconds rows claims w.db db' →
      told = claims ∨ told = [] →
      Step env w (.claimExecutions conn organizationId worker limit leaseSeconds locked)
        { w with db := db', tasks := openTasks told w.tasks }
  | givesUp {conn : Connection} {executionId : Uuid} {attempt : ℕ} {providers : Providers}
      {claim : ClaimedExecution} {phase : Phase} {result : Except ActionFailure Unit} :
      w.tasks (executionId, attempt) = some ⟨claim, phase⟩ → GivesUp claim phase result →
      Step env w (.work conn executionId attempt providers) (w.setTask claim (.finish result))
  | statusRead {conn : Connection} {executionId : Uuid} {attempt index : ℕ} {providers : Providers}
      {claim : ClaimedExecution} {row : ActionReceiptRow} {receipts : Table ActionReceiptRow.key} :
      w.tasks (executionId, attempt) = some ⟨claim, .status index⟩ → index < claim.actions.length →
      row ∈ w.db.receipts → row.key = (claim.executionId, index) →
      w.db.receipts.Put (row.attempt conn.transactionTimestamp) receipts →
      conn.faults "begin action attempt" = none →
      Step env w (.work conn executionId attempt providers)
        (World.setTask claim
          (if row.status = .succeeded then .status (index + 1) else .call index row.idempotencyKey)
          { w with db := { w.db with receipts } })
  | called {conn : Connection} {executionId : Uuid} {attempt index : ℕ} {key : String}
      {providers : Providers} {claim : ClaimedExecution} {action : Action} :
      w.tasks (executionId, attempt) = some ⟨claim, .call index key⟩ →
      claim.actions[index]?.bind Action.fromValue = some action →
      Step env w (.work conn executionId attempt providers)
        { w.setTask claim (afterCall index
            (executeAction providers claim.executionId index key claim.payload action).2) with
          calls := w.calls ++
            (executeAction providers claim.executionId index key claim.payload action).1.map
              (⟨claim.executionId, claim.attempt, index, action, ·⟩) }
  | recorded {conn : Connection} {executionId : Uuid} {attempt index : ℕ} {providers : Providers}
      {claim : ClaimedExecution} {outcome : Except String Value} {receipts : Table ActionReceiptRow.key} :
      w.tasks (executionId, attempt) = some ⟨claim, .record index outcome⟩ →
      ((∀ x ∈ w.db.receipts, x.key ≠ (claim.executionId, index)) ∧ receipts = w.db.receipts ∨
        ∃ row ∈ w.db.receipts, row.key = (claim.executionId, index) ∧
          w.db.receipts.Put (recordedRow conn.transactionTimestamp row outcome) receipts) →
      conn.faults "complete action" = none →
      Step env w (.work conn executionId attempt providers)
        (World.setTask claim (afterRecord index outcome) { w with db := { w.db with receipts } })
  | released {conn : Connection} {executionId : Uuid} {attempt : ℕ} {providers : Providers}
      {claim : ClaimedExecution} {failure : RuntimeFailure} {e : ExecutionRow} {db' : Database} :
      w.tasks (executionId, attempt) = some ⟨claim, .finish (.error (.runtime failure))⟩ →
      Left (w.session env conn) claim .pending .retryable (some "dependency_runtime_failure") e w.db db' →
      Step env w (.work conn executionId attempt providers) (World.setTask claim .closed { w with db := db' })
  | completed {conn : Connection} {executionId : Uuid} {attempt : ℕ} {providers : Providers}
      {claim : ClaimedExecution} {result : Except ActionFailure Unit} {succeeded : Bool}
      {failure : Option String} {e : ExecutionRow} {trigger : TriggerRow} {db₁ db' : Database} :
      w.tasks (executionId, attempt) = some ⟨claim, .finish result⟩ → finalOf result = some succeeded →
      Left (w.session env conn) claim (finalStatus succeeded) (finalAttempt succeeded) failure e w.db db₁ →
      trigger ∈ w.db.triggers → trigger.triggerId = claim.triggerId →
      Settled (w.session env conn) claim trigger db₁ db' → conn.ServesAll completeStatements →
      Step env w (.work conn executionId attempt providers) (World.setTask claim .closed { w with db := db' })
  | closes {conn : Connection} {executionId : Uuid} {attempt : ℕ} {providers : Providers}
      {claim : ClaimedExecution} {result : Except ActionFailure Unit} :
      w.tasks (executionId, attempt) = some ⟨claim, .finish result⟩ →
      Step env w (.work conn executionId attempt providers) (w.setTask claim .closed)

/-- A worker is told of executions the batch claimed. -/
theorem mem_of_told {claims told : List ClaimedExecution} (htold : told = claims ∨ told = [])
    {claim : ClaimedExecution} (h : claim ∈ told) : claim ∈ claims := by
  rcases htold with rfl | rfl
  · exact h
  · cases h

/-! ## The machine takes no other step -/

theorem World.transact_cases {α : Type} (w : World) (body : Tx (Ending α)) :
    (∃ e, body w.db = .error e ∧ w.transact body = (.error e, w)) ∨
      (∃ a db', body w.db = .ok (.drop a, db') ∧ w.transact body = (.ok a, w)) ∨
      ∃ ending a db', body w.db = .ok (ending, db') ∧ ending.committed = some a ∧
        w.transact body = (ending.answer, { w with db := db' }) := by
  unfold World.transact
  cases h : body w.db with
  | error e =>
    left
    exact ⟨e, rfl, by rw [transact_of_error h]⟩
  | ok r =>
    obtain ⟨ending, db'⟩ := r
    cases hc : ending.committed with
    | none =>
      right; left
      cases ending with
      | drop a => exact ⟨a, db', rfl, by rw [transact_of_drop h]⟩
      | commit a => cases hc
      | lost a e => cases hc
    | some a =>
      right; right
      exact ⟨ending, a, db', rfl, hc, by rw [transact_of_committed h hc]⟩

/-- A transaction commits, or leaves the world as it was. -/
theorem World.transact_snd_cases {α : Type} (w : World) (body : Tx (Ending α)) :
    (w.transact body).2 = w ∨
      ∃ ending a db', body w.db = .ok (ending, db') ∧ ending.committed = some a ∧
        (w.transact body).2 = { w with db := db' } := by
  rcases w.transact_cases body with ⟨e, -, h⟩ | ⟨a, db', -, h⟩ | ⟨ending, a, db', hb, hc, h⟩
  · rw [h]; exact Or.inl rfl
  · rw [h]; exact Or.inl rfl
  · rw [h]; exact Or.inr ⟨ending, a, db', hb, hc, rfl⟩

theorem flush_cases (conn : Connection) (index : ℕ) (answer : EnqueueAnswer) :
    Step env w (.flush conn index answer) (w.flush env conn index answer) := by
  unfold World.flush
  simp only
  cases hf : w.flushes[index]? with
  | none => exact .idle _
  | some f =>
    obtain ⟨c, phase⟩ := f
    cases phase with
    | enqueue =>
      simp only [World.enqueue]
      cases ht : env.formatRfc3339 c.scheduledFor with
      | none => exact .flushEnds hf trivial
      | some availableAt =>
        cases answer with
        | ok jobId => exact .enqueued hf ht
        | lost jobId => exact .lost hf ht
        | runtime => exact .flushEnds hf trivial
        | domain => exact .flushEnds hf trivial
    | mark jobId =>
      simp only
      rcases w.transact_cases (markDispatchEnqueued (w.session env conn) c jobId) with
        ⟨e, -, h⟩ | ⟨a, db', hb, h⟩ | ⟨ending, a, db', hb, -, h⟩
      · rw [h]; exact .flushEnds hf trivial
      · unfold markDispatchEnqueued at hb
        rw [statement_bind_eq_ok, Txn.get_bind, Txn.set_bind, Txn.pure_eq_ok] at hb
        cases hb.2
      · unfold markDispatchEnqueued at hb
        rw [statement_bind_eq_ok, Txn.get_bind, Txn.set_bind, Txn.pure_eq_ok] at hb
        rw [h]
        obtain ⟨hserved, hb⟩ := hb
        cases hb
        -- the answer counts the rows that were still pending
        refine .marked hf ?_ hserved
        split
        · exact Or.inr rfl
        · exact Or.inl rfl
    | noteCancelled jobId =>
      simp only
      rcases w.transact_snd_cases (recordCancelledEnqueue (w.session env conn) c jobId) with
        h | ⟨ending, a, db', hb, -, h⟩
      · rw [h]; exact .flushEnds hf trivial
      · unfold recordCancelledEnqueue at hb
        rw [statement_bind_eq_ok, Txn.get_bind, Txn.set_bind, Txn.pure_eq_ok] at hb
        rw [h]
        obtain ⟨hserved, hb⟩ := hb
        cases hb
        exact .noted hf hserved
    | noteFailure failure =>
      simp only
      rcases w.transact_snd_cases (recordDispatchFailure (w.session env conn) c failure) with
        h | ⟨ending, a, db', hb, -, h⟩
      · rw [h]; exact .flushEnds hf trivial
      · unfold recordDispatchFailure at hb
        rw [statement_bind_eq_ok, Txn.get_bind, Txn.set_bind, Txn.pure_eq_ok] at hb
        rw [h]
        obtain ⟨hserved, hb⟩ := hb
        cases hb
        exact .failed hf hserved
    | closed => exact .idle _

/-- A receipt the storage did not answer for ends the worker's loop. -/
theorem GivesUp.storage {claim : ClaimedExecution} {phase : Phase}
    (h : ∀ result, phase ≠ .finish result) (e : StorageError) :
    GivesUp claim phase (.error (storageActionFailure e)) := by
  cases e with
  | domain _ => exact .runtime h
  | runtime _ => exact .runtime h
  | panic _ => exact .runtime h

theorem readStatus_cases {conn : Connection} {executionId : Uuid} {attempt index : ℕ} {providers : Providers}
    {claim : ClaimedExecution} (ht : w.tasks (executionId, attempt) = some ⟨claim, .status index⟩) :
    Step env w (.work conn executionId attempt providers)
      (w.readStatus (w.session env conn) claim index) := by
  unfold World.readStatus
  split
  · rename_i hle
    exact .givesUp ht (.done hle)
  split
  · rename_i hle hmax
    exact .givesUp ht (.tooMany (by omega) hmax)
  · rename_i hle _
    simp only
    rcases w.transact_cases (actionStatus (w.session env conn) claim.executionId index) with
      ⟨e, -, h⟩ | ⟨a, db', hb, h⟩ | ⟨ending, a, db', hb, -, h⟩
    · rw [h]; exact .givesUp ht (.storage (by simp) e)
    · obtain ⟨-, row, receipts, -, -, -, he⟩ := actionStatus_ok hb
      cases he
    · rw [h]
      obtain ⟨hserved, row, receipts, hm, hk, hput, he⟩ := actionStatus_ok hb
      cases he
      have hstep : Step env w (.work conn executionId attempt providers) _ :=
        .statusRead ht (by omega) hm hk hput hserved
      cases hs : row.status with
      | succeeded => rw [hs, if_pos rfl] at hstep; exact hstep
      | pending => rw [hs, if_neg (by decide)] at hstep; exact hstep
      | failed => rw [hs, if_neg (by decide)] at hstep; exact hstep

theorem carryOut_cases {conn : Connection} {executionId : Uuid} {attempt index : ℕ} {key : String}
    {providers : Providers} {claim : ClaimedExecution}
    (ht : w.tasks (executionId, attempt) = some ⟨claim, .call index key⟩) :
    Step env w (.work conn executionId attempt providers) (w.carryOut providers claim index key) := by
  unfold World.carryOut
  cases ha : claim.actions[index]?.bind Action.fromValue with
  | none => exact .givesUp ht (.runtime (by simp))
  | some action =>
    simp only
    have hstep : Step env w (.work conn executionId attempt providers) _ := .called ht ha
    -- both sides match on the result of the call
    generalize executeAction providers claim.executionId index key claim.payload action = out at hstep ⊢
    obtain ⟨calls, result⟩ := out
    cases result with
    | ok response => exact hstep
    | error e =>
      cases e with
      | domain detail => exact hstep
      | runtime failure => exact hstep

/-- `complete_action` fails, or writes the receipt if there is one. -/
theorem completeAction_cases (s : Session) (executionId : Uuid) (index : ℕ) (succeeded : Bool)
    (response : Option Value) (failure : Option String) :
    let done := w.transact (completeAction s executionId index succeeded response failure)
    (∃ e, done = (.error e, w)) ∨
      s.faults "complete action" = none ∧ ∃ receipts, done = (.ok (), { w with db := { w.db with receipts } }) ∧
        ((∀ x ∈ w.db.receipts, x.key ≠ (executionId, index)) ∧ receipts = w.db.receipts ∨
          ∃ row ∈ w.db.receipts, row.key = (executionId, index) ∧
            w.db.receipts.Put (row.complete (outcomeStatus succeeded) response failure
              s.transactionTimestamp) receipts) := by
  intro done
  rcases w.transact_cases (completeAction s executionId index succeeded response failure) with
    ⟨e, -, h⟩ | ⟨_, _, hb, -⟩ | ⟨_, _, _, hb, -, h⟩
  · exact Or.inl ⟨e, h⟩
  · obtain ⟨-, _, he, -⟩ := completeAction_ok hb
    cases he
  · obtain ⟨hserved, receipts, he, hr⟩ := completeAction_ok hb
    cases he
    exact Or.inr ⟨hserved, receipts, h, hr⟩

theorem recordOutcome_cases {conn : Connection} {executionId : Uuid} {attempt index : ℕ}
    {providers : Providers} {claim : ClaimedExecution} {outcome : Except String Value}
    (ht : w.tasks (executionId, attempt) = some ⟨claim, .record index outcome⟩) :
    Step env w (.work conn executionId attempt providers)
      (w.recordOutcome (w.session env conn) claim index outcome) := by
  unfold World.recordOutcome
  simp only
  cases outcome with
  | ok response =>
    simp only
    rcases completeAction_cases (w.session env conn) claim.executionId index true (some response) none with
      ⟨e, h⟩ | ⟨hserved, receipts, h, hr⟩
    · rw [h]; exact .givesUp ht (.storage (by simp) e)
    · rw [h]; exact .recorded ht hr hserved
  | error detail =>
    simp only
    rcases completeAction_cases (w.session env conn) claim.executionId index false none (some detail) with
      ⟨e, h⟩ | ⟨hserved, receipts, h, hr⟩
    · rw [h]; exact .givesUp ht (.storage (by simp) e)
    · rw [h]; exact .recorded ht hr hserved

theorem finish_completes {conn : Connection} {executionId : Uuid} {attempt : ℕ} {providers : Providers}
    {claim : ClaimedExecution} {result : Except ActionFailure Unit} {succeeded : Bool}
    {failure : Option String} (ht : w.tasks (executionId, attempt) = some ⟨claim, .finish result⟩)
    (hres : finalOf result = some succeeded) :
    Step env w (.work conn executionId attempt providers)
      ((w.transact (completeExecution (w.session env conn) claim succeeded failure)).2.setTask claim
        .closed) := by
  rcases w.transact_snd_cases (completeExecution (w.session env conn) claim succeeded failure) with
    h | ⟨ending, a, db', hb, -, h⟩
  · rw [h]; exact .closes ht
  · rw [h]
    obtain ⟨-, hserved, e, db₁, trigger, hleft, hm, hk, hrest⟩ := completeExecution_ok hb
    exact .completed ht hres hleft hm hk hrest hserved

theorem finish_cases {conn : Connection} {executionId : Uuid} {attempt : ℕ} {providers : Providers}
    {claim : ClaimedExecution} {result : Except ActionFailure Unit}
    (ht : w.tasks (executionId, attempt) = some ⟨claim, .finish result⟩) :
    Step env w (.work conn executionId attempt providers)
      (w.finish (w.session env conn) claim result) := by
  unfold World.finish
  simp only
  cases result with
  | ok _ => exact finish_completes ht rfl
  | error e =>
    cases e with
    | domain detail => exact finish_completes ht rfl
    | runtime failure =>
      simp only
      rcases w.transact_snd_cases (releaseExecutionForRetry (w.session env conn) claim
          "dependency_runtime_failure") with h | ⟨ending, a, db', hb, -, h⟩
      · rw [h]; exact .closes ht
      · rw [h]
        obtain ⟨-, e, hleft⟩ := releaseExecutionForRetry_ok hb
        exact .released ht hleft

theorem work_cases (conn : Connection) (executionId : Uuid) (attempt : ℕ) (providers : Providers) :
    Step env w (.work conn executionId attempt providers)
      (w.work env conn executionId attempt providers) := by
  unfold World.work
  simp only
  cases ht : w.tasks (executionId, attempt) with
  | none => exact .idle _
  | some task =>
    obtain ⟨claim, phase⟩ := task
    cases phase with
    | status index => exact readStatus_cases ht
    | call index key => exact carryOut_cases ht
    | record index outcome => exact recordOutcome_cases ht
    | finish result => exact finish_cases ht
    | closed => exact .idle _

theorem command_cases (conn : Connection) (auth : Authorized) (request : CommandRequest) :
    Step env w (.command conn auth request) (w.command env conn auth request).2 := by
  unfold World.command
  split
  · rename_i hv
    rcases w.transact_snd_cases (storeCommand (w.session env conn) auth request) with
      h | ⟨ending, a, db', hb, hc, h⟩
    · rw [h]; exact .idle _
    · rw [h]
      rcases storeCommand_ok hb with ⟨response, he, -⟩ | ⟨response, -, hw, ha⟩
      · cases he; cases hc
      · exact .command hv hw ha
  · exact .idle _

theorem receiveEvent_cases (hlink : Linked w.db) (conn : Connection) (request : ReceiveEventRequest) :
    Step env w (.receiveEvent conn request) (w.transact (takeEvent (w.session env conn) request)).2 := by
  rcases w.transact_snd_cases (takeEvent (w.session env conn) request) with h | ⟨ending, a, db', hb, hc, h⟩
  · rw [h]; exact .idle _
  · rw [h]
    obtain ⟨hv, occurredAt, -, hr⟩ := takeEvent_ok hb
    rcases receiveEvent_ok hlink hr with ⟨he, -⟩ | ⟨eventType, es, het, -, hin, hall⟩
    · cases he; cases hc
    · have : eventType = request.eventType.name := (Option.some.inj het).symm
      subst this
      exact .receiveEvent hv hin hall

theorem receiveTimer_cases (hlink : Linked w.db) (conn : Connection) (request : ReceiveTimerRequest) :
    Step env w (.receiveTimer conn request) (w.transact (takeTimer (w.session env conn) request)).2 := by
  rcases w.transact_snd_cases (takeTimer (w.session env conn) request) with h | ⟨ending, a, db', hb, hc, h⟩
  · rw [h]; exact .idle _
  · rw [h]
    obtain ⟨-, scheduledFor, hp, hr⟩ := takeTimer_ok hb
    obtain ⟨hkey, hr⟩ := receiveTimer_ok hlink hr
    rcases hr with ⟨he, -⟩ | ⟨receipt, es, -, hout, hin⟩
    · cases he; cases hc
    · exact .receiveTimer hp hkey hout hin

/-- The copies a flush reads are of pending dispatches of the organization. -/
theorem pendingDispatches_ok {s : Session} {organizationId : String} {limit : ℕ} {db : Database}
    {r : Ending (List ScheduleDispatch) × Database} (h : pendingDispatches s organizationId limit db = .ok r) :
    ∃ copies, r = (.commit copies, db) ∧ ∀ c ∈ copies, ∃ d ∈ db.dispatches,
      d.organizationId = organizationId ∧ d.state = .pending ∧ d.copy = c := by
  unfold pendingDispatches at h
  rw [statement_bind_eq_ok, Txn.get_bind, Txn.pure_eq_ok] at h
  refine ⟨_, h.2, fun c hc => ?_⟩
  -- sorting and cutting the copies adds none
  obtain ⟨d, hd, rfl⟩ := List.mem_map.1 hc
  have hm := (List.mem_insertionSort _).1 (List.mem_of_mem_take hd)
  rw [List.mem_filter, Bool.and_eq_true, decide_eq_true_eq, decide_eq_true_eq] at hm
  exact ⟨d, hm.1, hm.2.1, hm.2.2, rfl⟩

theorem pendingDispatches_cases (conn : Connection) (organizationId : String) (limit : ℕ) :
    Step env w (.pendingDispatches conn organizationId limit)
      (w.pendingDispatches env conn organizationId limit) := by
  unfold World.pendingDispatches
  rcases w.transact_cases (pendingDispatches (w.session env conn) organizationId limit) with
    ⟨e, -, h⟩ | ⟨a, db', hb, h⟩ | ⟨ending, a, db', hb, -, h⟩
  · rw [h]; exact .idle _
  · obtain ⟨copies, he, -⟩ := pendingDispatches_ok hb
    cases he
  · obtain ⟨copies, he, hcopies⟩ := pendingDispatches_ok hb
    cases he
    rw [h]
    refine .pendingDispatches fun c hc => ?_
    obtain ⟨d, hd, -, hpending, hcopy⟩ := hcopies c hc
    exact ⟨d, hd, hpending, hcopy⟩

theorem claimExecutions_cases (conn : Connection) (organizationId worker : String) (limit : ℕ)
    (leaseSeconds : ℤ) (locked : Uuid → Bool) :
    Step env w (.claimExecutions conn organizationId worker limit leaseSeconds locked)
      (w.claimExecutions env conn organizationId worker limit leaseSeconds locked) := by
  unfold World.claimExecutions
  simp only
  rcases w.transact_cases (claimExecutions (w.session env conn) organizationId worker limit leaseSeconds
      locked) with ⟨e, -, h⟩ | ⟨a, db', hb, h⟩ | ⟨ending, a, db', hb, -, h⟩
  · rw [h]; exact .idle _
  · obtain ⟨rows, claims, he, -, -⟩ := claimExecutions_ok hb
    cases he.value
  · rw [h]
    obtain ⟨rows, claims, he, hl, hc⟩ := claimExecutions_ok hb
    -- the caller works on the claims it is told of: all, or none where the answer is lost
    rcases he with rfl | ⟨_, _, -, rfl⟩
    · exact .claimed hc hl (Or.inl rfl)
    · exact .claimed hc hl (Or.inr rfl)

/-- **Every step of the machine is one of `Step`.** -/
theorem step_cases (hlink : Linked w.db) (e : Event) : Step env w e ((automation env).next w e) := by
  cases e with
  | tick nanos => exact .tick nanos
  | command conn auth request => exact command_cases conn auth request
  | receiveEvent conn request => exact receiveEvent_cases hlink conn request
  | receiveTimer conn request => exact receiveTimer_cases hlink conn request
  | pendingDispatches conn organizationId limit => exact pendingDispatches_cases conn organizationId limit
  | flush conn index answer => exact flush_cases conn index answer
  | claimExecutions conn organizationId worker limit leaseSeconds locked =>
    exact claimExecutions_cases conn organizationId worker limit leaseSeconds locked
  | work conn executionId attempt providers => exact work_cases conn executionId attempt providers

end ProjectAutomation

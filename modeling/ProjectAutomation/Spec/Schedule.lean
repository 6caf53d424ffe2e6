import ProjectAutomation.Spec.Schema

/-!
# Schedules and the dispatch ledger

`initialNextFire` chooses the first fire time of a rule write, `scheduleKey` the key
a timer must carry, and `replacePendingSchedule` brings the dispatch table in line
with the new `next_fire_at`. The last section is the dispatch side of a flush.
-/

namespace ProjectAutomation

open Relational

/-- `trigger_kind`. -/
def triggerKind (trigger : Value) : Option String := trigger.getStr "kind"

/-- `interval_seconds`. -/
def intervalSeconds (trigger : Value) : Option ℤ := (trigger.get "interval_seconds").bind Value.asI64

def i64Min : ℤ := -2 ^ 63
def i64Max : ℤ := 2 ^ 63 - 1

/-- `i64::saturating_add(1)`. -/
def saturatingSucc (n : ℤ) : ℤ := min (n + 1) i64Max

/-- `i64::checked_mul`. -/
def checkedMul (a b : ℤ) : Option ℤ := if i64Min ≤ a * b ∧ a * b ≤ i64Max then some (a * b) else none

/-- `ok_or(DomainFailure::InvalidRequest)`. -/
def orInvalid {α : Type} : Option α → Except StorageError α
  | some a => .ok a
  | none => .error (.domain .invalidRequest)

/-- The start of a trigger, when it has one. -/
def startAt (env : Env) (trigger : Value) : Except StorageError (Option OffsetDateTime) :=
  match trigger.getStr "start_at" with
  | none => .ok none
  | some text => (parseTime env text).map some

/-- The first grid point after `now` of a start that is not after it. The division panics
on a zero interval and on the one quotient `i64` cannot hold. -/
def nextGridPoint (start now : OffsetDateTime) (interval : ℤ) : Except StorageError OffsetDateTime :=
  let elapsed := now.wholeSecondsSince start
  if interval = 0 ∨ (elapsed = i64Min ∧ interval = -1) then .error (.panic "attempt to divide")
  else do
    let elapsedIntervals := elapsed.tdiv interval
    let seconds ← orInvalid (checkedMul interval (saturatingSucc elapsedIntervals))
    orInvalid (start.checkedAdd seconds)

/-- `initial_next_fire`. -/
def initialNextFire (env : Env) (now : OffsetDateTime) (trigger : Value) (enabled : Bool) :
    Except StorageError (Option OffsetDateTime) :=
  if !enabled || triggerKind trigger ≠ some "schedule" then .ok none
  else do
    let interval ← orInvalid (intervalSeconds trigger)
    match ← startAt env trigger with
    | some start =>
      if start.unixNanos > now.unixNanos then return some start
      else return some (← nextGridPoint start now interval)
    | none => return some (← orInvalid (now.checkedAdd interval))

/-- `schedule_key`. -/
def scheduleKey (env : Env) (ruleId : String) (scheduledFor : OffsetDateTime) : String :=
  "pa-schedule-" ++ (env.newV5 .oid (ruleId ++ ":" ++ toString scheduledFor.unixNanos)).text

/-- The pending dispatches of a rule other than the one at `keep` become cancelled. -/
def cancelPending (ruleId : String) (keep : Option ℤ) (t : Table DispatchRow.key) :
    Table DispatchRow.key :=
  t.update (fun d => d.ruleId = ruleId && d.state = .pending && some d.scheduledFor ≠ keep)
    (fun d => { d with state := .cancelled }) ⟨fun _ => rfl⟩

/-- `ON CONFLICT(rule_id,scheduled_for) DO UPDATE … WHERE state='cancelled'`. -/
def reopenCancelled (ruleId : String) (scheduledFor : ℤ) (t : Table DispatchRow.key) :
    Table DispatchRow.key :=
  t.update (fun d => d.ruleId = ruleId && d.scheduledFor = scheduledFor && d.state = .cancelled)
    (fun d => { d with state := .pending, lastFailure := none }) ⟨fun _ => rfl⟩

/-- The dispatch a rule write asks for. -/
def newDispatch (env : Env) (organizationId ruleId : String) (scheduledFor : OffsetDateTime) :
    DispatchRow where
  ruleId
  organizationId
  scheduledFor := encodeTimestamptz scheduledFor
  state := .pending
  attempts := 0
  idempotencyKey := scheduleKey env ruleId scheduledFor
  jobId := none
  lastFailure := none

/-- `INSERT INTO automation_schedule_dispatches … ON CONFLICT …`. A row at another time
with the same key violates `UNIQUE (idempotency_key)`. -/
def upsertDispatch (s : Session) (row : DispatchRow) : Tx Unit := do
  s.statement "create schedule dispatch"
  let db ← get
  if (db.dispatches.find? row.key).isSome then
    set { db with dispatches := reopenCancelled row.ruleId row.scheduledFor db.dispatches }
  else if db.dispatches.rows.any (fun d => d.idempotencyKey = row.idempotencyKey) then
    throw (runtime "create schedule dispatch" "duplicate idempotency_key")
  else match db.dispatches.insert? row with
    | some dispatches => set { db with dispatches }
    | none => throw (runtime "create schedule dispatch" "duplicate primary key")

/-- `replace_pending_schedule`. -/
def replacePendingSchedule (s : Session) (organizationId ruleId : String)
    (nextFireAt : Option OffsetDateTime) : Tx Unit := do
  match nextFireAt with
  | some scheduledFor =>
    let column ← ofExcept (bindTimestamptz scheduledFor)
    s.statement "cancel superseded schedule"
    modify (fun db => { db with dispatches := cancelPending ruleId (some column) db.dispatches })
    upsertDispatch s (newDispatch s.env organizationId ruleId scheduledFor)
  | none =>
    s.statement "cancel pending schedule"
    modify (fun db => { db with dispatches := cancelPending ruleId none db.dispatches })

/-! ## Flushing -/

/-- `ScheduleDispatch`, the copy a flush works on. -/
structure ScheduleDispatch where
  ruleId : String
  organizationId : String
  scheduledFor : OffsetDateTime
  idempotencyKey : String
deriving DecidableEq

def DispatchRow.copy (d : DispatchRow) : ScheduleDispatch :=
  ⟨d.ruleId, d.organizationId, decodeTimestamptz d.scheduledFor, d.idempotencyKey⟩

/-- `ORDER BY scheduled_for,rule_id`. -/
def DispatchRow.before (a b : DispatchRow) : Prop :=
  a.scheduledFor < b.scheduledFor ∨ (a.scheduledFor = b.scheduledFor ∧ a.ruleId ≤ b.ruleId)

instance : DecidableRel DispatchRow.before := fun _ _ =>
  inferInstanceAs (Decidable (_ ∨ (_ ∧ _)))

/-- `pending_dispatches`. -/
def pendingDispatches (s : Session) (organizationId : String) (limit : ℕ) :
    Tx (Ending (List ScheduleDispatch)) := do
  s.statement "list schedule dispatches"
  let db ← get
  let rows := db.dispatches.rows.filter (fun d => d.organizationId = organizationId && d.state = .pending)
  return .commit (((rows.insertionSort DispatchRow.before).take limit).map DispatchRow.copy)

/-- The rows a flush statement about a copy selects. The time was read from a column, so it can be bound. -/
def ScheduleDispatch.selects (c : ScheduleDispatch) (state : DispatchState) (d : DispatchRow) : Bool :=
  d.ruleId = c.ruleId && d.scheduledFor = encodeTimestamptz c.scheduledFor && d.state = state

/-- `SET state='enqueued',attempts=attempts+1,job_id=$3,last_failure=NULL`. -/
def DispatchRow.enqueue (jobId : String) (d : DispatchRow) : DispatchRow :=
  { d with state := .enqueued, attempts := d.attempts + 1, jobId := some jobId, lastFailure := none }

/-- `SET attempts=attempts+1,job_id=$3,last_failure='cancelled_after_enqueue'`. -/
def DispatchRow.noteEnqueue (jobId : String) (d : DispatchRow) : DispatchRow :=
  { d with attempts := d.attempts + 1, jobId := some jobId, lastFailure := some "cancelled_after_enqueue" }

/-- `SET attempts=attempts+1,last_failure=$3`. -/
def DispatchRow.noteFailure (failure : String) (d : DispatchRow) : DispatchRow :=
  { d with attempts := d.attempts + 1, lastFailure := some failure }

/-- `mark_dispatch_enqueued`, its first statement; whether a row was pending. -/
def markDispatchEnqueued (s : Session) (c : ScheduleDispatch) (jobId : String) : Tx (Ending Bool) := do
  s.statement "complete schedule dispatch"
  let db ← get
  let dispatches := db.dispatches.update (c.selects .pending) (DispatchRow.enqueue jobId) ⟨fun _ => rfl⟩
  set { db with dispatches }
  return .commit (db.dispatches.affected (c.selects .pending) = 1)

/-- `mark_dispatch_enqueued`, its second statement, reached when the first found no row. -/
def recordCancelledEnqueue (s : Session) (c : ScheduleDispatch) (jobId : String) : Tx (Ending Unit) := do
  s.statement "record cancelled schedule enqueue"
  let db ← get
  let dispatches :=
    db.dispatches.update (c.selects .cancelled) (DispatchRow.noteEnqueue jobId) ⟨fun _ => rfl⟩
  set { db with dispatches }
  return .commit ()

/-- `record_dispatch_failure`. -/
def recordDispatchFailure (s : Session) (c : ScheduleDispatch) (failure : String) : Tx (Ending Unit) := do
  s.statement "record schedule dispatch failure"
  let db ← get
  let dispatches :=
    db.dispatches.update (c.selects .pending) (DispatchRow.noteFailure failure) ⟨fun _ => rfl⟩
  set { db with dispatches }
  return .commit ()

end ProjectAutomation

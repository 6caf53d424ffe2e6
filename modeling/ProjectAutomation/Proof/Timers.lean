import ProjectAutomation.Proof.Keys

/-!
# Timers and the executions they open

* `FireStep`: what a step does to the rules, the triggers and the executions taken
  together. A rule is written, a trigger is recorded, an execution ends, with or
  without moving its schedule on, or nothing of the kind happens.
* `TimersOK`: a recorded timer carries the key of its rule and instant, an instant the
  clock has reached, and its executions belong to that rule.
* `fireTimes`: the instants the executions of a rule were fired for, in the order they
  were accepted; only an accepted timer adds to it (`step_fireTimes`).
-/

namespace ProjectAutomation

open Relational

variable {env : Env} {w w' : World} {event : Event} {s : Session}

/-! ## Steps -/

/-- Executions are leased or released at most: none is opened, and none ends. -/
structure Keeps (db db' : Database) : Prop where
  links : db'.executions.rows.map ExecutionRow.link = db.executions.rows.map ExecutionRow.link
  status : ∀ e' ∈ db'.executions, ∃ e ∈ db.executions, e.Continues e' ∧ e'.status.terminal = e.status.terminal

theorem Keeps.of_eq {db db' : Database} (h : db'.executions = db.executions) : Keeps db db' := by
  refine ⟨by rw [h], ?_⟩
  rw [h]
  exact fun e he => ⟨e, he, .refl e, rfl⟩

/-- The execution `e` ends as `e'`, and no other changes. -/
structure Ends (e e' : ExecutionRow) (db db' : Database) : Prop where
  there : e ∈ db.executions
  running : e.status = .running
  continues : e.Continues e'
  terminal : e'.status.terminal = true
  executions : db.executions.Put e' db'.executions
  links : db'.executions.rows.map ExecutionRow.link = db.executions.rows.map ExecutionRow.link

/-- The event is the `complete_execution` of the worker that holds `e`. -/
def Completes (w : World) (event : Event) (e : ExecutionRow) : Prop :=
  ∃ conn providers claim result succeeded, event = .work conn e.executionId e.attempts providers ∧
    w.tasks (e.executionId, e.attempts) = some ⟨claim, .finish result⟩ ∧
    finalOf result = some succeeded ∧ e.heldBy claim conn.transactionTimestamp = true

/-- The database serves every statement that moves a rule on. -/
def ServesAdvance (event : Event) : Prop :=
  ∀ conn executionId attempt providers, event = .work conn executionId attempt providers →
    conn.ServesAll (completeStatements ++ advanceStatements)

/-- A timer trigger delivered for a rule and an instant. -/
structure TimerOf (env : Env) (t : TriggerRow) (ruleId : String) (scheduledFor : OffsetDateTime) : Prop where
  source : t.source = .timer
  rule : t.ruleId = some ruleId
  dedupeKey : t.dedupeKey = scheduleKey env ruleId scheduledFor
  payload : payloadScheduledFor env t.payload = .ok (some scheduledFor)

/-- **What a step does to the rules, the triggers and the executions.** -/
inductive FireStep (env : Env) (w : World) (event : Event) (w' : World) : Prop
  | still : w'.db.rules = w.db.rules → w'.db.triggers = w.db.triggers → Keeps w.db w'.db →
      FireStep env w event w'
  | written {conn : Connection} {auth : Authorized} {request : CommandRequest} {old : Option RuleRow}
      {new : RuleRow} {next : Option OffsetDateTime} : event = .command conn auth request →
      request.valid env = true → Written (w.session env conn) request old new next →
      Writes env old new next w w' → w'.db.triggers = w.db.triggers → w'.db.executions = w.db.executions →
      FireStep env w event w'
  | event {s : Session} {trigger : TriggerRow} {es : List ExecutionRow} : trigger.source = .event →
      Intake s trigger es w.db w'.db → FireStep env w event w'
  | timer {conn : Connection} {request : ReceiveTimerRequest} {scheduledFor : OffsetDateTime}
      {receipt : TriggerReceipt} {trigger : TriggerRow} {es : List ExecutionRow} :
      event = .receiveTimer conn request → env.parseRfc3339 request.scheduledFor = some scheduledFor →
      trigger.organizationId = request.organizationId → TimerOf env trigger request.ruleId scheduledFor →
      TimerOutcome (w.session env conn) request.organizationId request.ruleId scheduledFor w.db receipt es →
      Intake (w.session env conn) trigger es w.db w'.db → FireStep env w event w'
  | ended {e e' : ExecutionRow} : Ends e e' w.db w'.db → w'.db.rules = w.db.rules →
      w'.db.triggers = w.db.triggers →
      (∀ t ∈ w.db.triggers, t.triggerId = e.triggerId → t.source = .timer → ∀ rule ∈ w.db.rules,
        rule.ruleId = e.ruleId → rule.live = true → ∀ scheduledFor,
        payloadScheduledFor env t.payload = .ok scheduledFor → rule.awaits scheduledFor = false) →
      FireStep env w event w'
  | advanced {e e' : ExecutionRow} {t : TriggerRow} {rule : RuleRow} {scheduledFor next : OffsetDateTime}
      {interval now : ℤ} : Completes w event e → Ends e e' w.db w'.db → t ∈ w.db.triggers →
      t.triggerId = e.triggerId → t.source = .timer →
      payloadScheduledFor env t.payload = .ok (some scheduledFor) → rule.ruleId = e.ruleId →
      rule.live = true → rule.awaits (some scheduledFor) = true → intervalSeconds rule.trigger = some interval →
      scheduledFor.checkedAdd interval = some next →
      Writes env (some rule) (rule.advance (encodeTimestamptz next) now) (some next) w w' →
      w'.db.triggers = w.db.triggers → ServesAdvance event → FireStep env w event w'

theorem keeps_left {claim : ClaimedExecution} {status : ExecutionStatus} {attemptStatus : AttemptStatus}
    {failure : Option String} {e : ExecutionRow} {db db' : Database}
    (h : Left s claim status attemptStatus failure e db db') (hopen : status.terminal = false) :
    Keeps db db' := by
  refine ⟨h.links, fun x hx => ?_⟩
  rcases h.executions.cases hx with rfl | ⟨hx, -⟩
  · refine ⟨e, h.there, continues_leave h.held _ _, ?_⟩
    show status.terminal = _
    rw [hopen, (heldBy_iff.1 h.held).2.2.1]; rfl
  · exact ⟨x, hx, .refl x, rfl⟩

theorem keeps_leased {organizationId worker : String} {leaseSeconds now : ℤ}
    {rows : List (ExecutionRow × Value)} {claims : List ClaimedExecution} {db db' : Database}
    (hcand : Candidates db organizationId now rows)
    (h : LeasedAll s worker leaseSeconds rows claims db db') : Keeps db db' := by
  refine ⟨h.links, fun x hx => ?_⟩
  rcases h.executions_cases hx with ⟨hx, -⟩ | ⟨c, hc, rfl⟩
  · exact ⟨x, hx, .refl x, rfl⟩
  · obtain ⟨hm, -, hcl, -⟩ := hcand.there c hc
    refine ⟨c.1, hm, continues_lease hcl _ _ _, ?_⟩
    rw [not_terminal_of_claimable hcl]; rfl

theorem ends_left {claim : ClaimedExecution} {succeeded : Bool} {failure : Option String} {e : ExecutionRow}
    {db db₁ db' : Database}
    (h : Left s claim (finalStatus succeeded) (finalAttempt succeeded) failure e db db₁)
    (he : db'.executions = db₁.executions) :
    Ends e (e.leave (finalStatus succeeded) failure s.transactionTimestamp) db db' := by
  refine ⟨h.there, (heldBy_iff.1 h.held).2.2.1, continues_leave h.held _ _, ?_, ?_, ?_⟩
  · cases succeeded <;> rfl
  · rw [he]; exact h.executions
  · rw [he]; exact h.links

/-- A claim names its execution and its trigger. -/
theorem ClaimOK.held {claim : ClaimedExecution} {e : ExecutionRow} {trigger : TriggerRow} {now : ℤ}
    {db : Database} (hc : ClaimOK db claim) (he : e ∈ db.executions) (hheld : e.heldBy claim now = true)
    (ht : trigger ∈ db.triggers) (hk : trigger.triggerId = claim.triggerId) :
    claim.ruleId = e.ruleId ∧ claim.triggerId = e.triggerId ∧ claim.payload = trigger.payload := by
  obtain ⟨x, hx, hid, hrule, htrig, -, -⟩ := hc.execution
  obtain ⟨t, htm, htk, htp⟩ := hc.trigger
  have hxe : x = e := Table.eq_of_key hx he (hid.trans (heldBy_iff.1 hheld).1.symm)
  have htt : t = trigger := Table.eq_of_key htm ht (htk.trans hk.symm)
  subst hxe htt
  exact ⟨hrule.symm, htrig.symm, htp.symm⟩

theorem payloadScheduledFor_timer {request : ReceiveTimerRequest} {scheduledFor : OffsetDateTime}
    (hp : env.parseRfc3339 request.scheduledFor = some scheduledFor) :
    payloadScheduledFor env request.toValue = .ok (some scheduledFor) := by
  unfold payloadScheduledFor
  rw [ReceiveTimerRequest.toValue_getStr_scheduledFor]
  simp only [parseTime_eq_ok.2 hp]
  rfl

theorem step_fire (h : Step env w event w') (hr : RefsOK env w) : FireStep env w event w' := by
  cases h with
  | idle | tick | pendingDispatches | enqueued | lost | flushEnds | marked | noted | failed | givesUp
  | statusRead | called | recorded | closes => exact .still rfl rfl (.of_eq rfl)
  | command hv hw _ =>
    obtain ⟨old, new, next, hwr, hws, -⟩ := command_writes hw
    exact .written rfl hv hwr hws hw.frame.1 hw.frame.2.1
  | receiveEvent _ hin _ => exact .event rfl hin
  | receiveTimer hp hkey hout hin =>
    exact .timer rfl hp rfl ⟨rfl, rfl, hkey, payloadScheduledFor_timer hp⟩ hout hin
  | claimed hcand hl => exact .still hl.frame.2.1 hl.frame.2.2.1 (keeps_leased hcand hl)
  | released _ hleft => exact .still hleft.rules hleft.triggers (keeps_left hleft rfl)
  | @completed conn executionId attempt providers claim result succeeded failure e trigger db₁ db' ht hfin hleft
      htm htk hsettled hserved =>
    obtain ⟨hkey, hclaim⟩ := hr.tasks _ _ ht
    obtain ⟨hrule, htrig, hpay⟩ := hclaim.held hleft.there hleft.held htm htk
    have hends : Ends e _ w.db db' := ends_left hleft hsettled.frame.2.2.1
    have htriggers : db'.triggers = w.db.triggers := hsettled.frame.2.1.trans hleft.triggers
    -- the trigger the claim names is the one its execution was opened by
    have hone : ∀ t ∈ w.db.triggers, t.triggerId = e.triggerId → t = trigger := fun t hm hk =>
      Table.eq_of_key hm htm (hk.trans (htrig.symm.trans htk.symm))
    -- the rule was not moved on: it does not wait for the instant that fired
    have hkept : db'.rules = w.db.rules → (trigger.source = .timer → ∀ rule ∈ w.db.rules,
        rule.ruleId = claim.ruleId → rule.live = true →
        ∃ scheduledFor, payloadScheduledFor env claim.payload = .ok scheduledFor ∧
          rule.awaits scheduledFor = false) → FireStep env w (.work conn executionId attempt providers)
        (World.setTask claim .closed { w with db := db' }) := by
      intro hrules hno
      refine .ended hends hrules htriggers ?_
      intro t hm hk hsrc rule hrm hrid hlive scheduledFor hsf
      rw [hone t hm hk] at hsrc hsf
      obtain ⟨x, hx, hawait⟩ := hno hsrc rule hrm (hrid.trans hrule.symm) hlive
      rw [hpay, hsf] at hx
      cases hx
      exact hawait
    cases hsettled with
    | event hsrc he =>
      refine hkept (by rw [he]; exact hleft.rules) (fun hs => ?_)
      rw [hsrc] at hs; cases hs
    | timer hsrc ha =>
      cases ha with
      | kept he hno =>
        refine hkept (by rw [he]; exact hleft.rules) (fun _ rule hm => hno rule (hleft.rules ▸ hm))
      | moved hrm hrid hlive hsf hawait hi hadd hw hserved' =>
        obtain ⟨hid, hatt, -⟩ := heldBy_iff.1 hleft.held
        obtain ⟨rfl, rfl⟩ := Prod.mk.inj hkey
        refine .advanced ⟨conn, providers, claim, result, succeeded, ?_, ?_, hfin, hleft.held⟩ hends htm
          (htk.trans htrig) hsrc (hpay ▸ hsf) (hrid.trans hrule) hlive hawait hi hadd
          (moved_writes hleft.rules hleft.dispatches hlive hawait hw) htriggers ?_
        · rw [hid, hatt]
        · rw [hid, hatt]; exact ht
        · rintro _ _ _ _ ⟨⟩ operation hop
          exact (List.mem_append.1 hop).elim (hserved operation) (hserved' operation)

/-! ## Recorded timers -/

/-- Time does not go back. -/
theorem step_clock (h : Step env w event w') : w.clock ≤ w'.clock := by
  cases h with
  | tick nanos => exact Int.le_add_of_nonneg_right (Int.natCast_nonneg nanos)
  | _ => exact le_refl _

/-- The instant of a timer that comes in. -/
def arriving (env : Env) : Event → Option OffsetDateTime
  | .receiveTimer _ request => env.parseRfc3339 request.scheduledFor
  | _ => none

/-- A timer comes no earlier than its time. -/
def TimersDue (env : Env) (w : World) (event : Event) : Prop :=
  ∀ t ∈ arriving env event, t.unixNanos ≤ w.clock

instance (env : Env) (w : World) (event : Event) : Decidable (TimersDue env w event) :=
  inferInstanceAs (Decidable (∀ t ∈ arriving env event, t.unixNanos ≤ w.clock))

/-- What is known of the timers that were recorded. -/
structure TimersOK (env : Env) (w : World) : Prop where
  triggers : ∀ t ∈ w.db.triggers, t.source = .timer →
    ∃ ruleId scheduledFor, TimerOf env t ruleId scheduledFor ∧ scheduledFor.unixNanos ≤ w.clock
  executions : ∀ e ∈ w.db.executions, ∀ t ∈ w.db.triggers, t.triggerId = e.triggerId → t.source = .timer →
    t.ruleId = some e.ruleId ∧ ∃ r ∈ w.db.rules, r.ruleId = e.ruleId ∧ r.organizationId = t.organizationId

theorem TimersOK.init : TimersOK env World.init :=
  ⟨fun t ht => absurd ht (Table.not_mem_empty t), fun e he => absurd he (Table.not_mem_empty e)⟩

/-- Rules are never dropped, and never change hands. -/
theorem step_rule (h : Step env w event w') {r : RuleRow} (hr : r ∈ w.db.rules) :
    ∃ r' ∈ w'.db.rules, r'.ruleId = r.ruleId ∧ r'.organizationId = r.organizationId := by
  cases step_schedule h with
  | same he _ => rw [he]; exact ⟨r, hr, rfl, rfl⟩
  | write hw => exact hw.rule_of hr
  | mark _ he _ => rw [he]; exact ⟨r, hr, rfl, rfl⟩
  | note _ he _ => rw [he]; exact ⟨r, hr, rfl, rfl⟩

/-- The one execution of a timer that fired. -/
theorem TimerOutcome.cases {organizationId ruleId : String} {scheduledFor : OffsetDateTime} {db : Database}
    {receipt : TriggerReceipt} {es : List ExecutionRow}
    (h : TimerOutcome s organizationId ruleId scheduledFor db receipt es) :
    (es = [] ∧ ∀ rule ∈ db.rules, rule.liveAt organizationId ruleId = true → rule.firesAt scheduledFor = false) ∨
      ∃ rule e, es = [e] ∧ rule ∈ db.rules ∧ rule.liveAt organizationId ruleId = true ∧
        rule.firesAt scheduledFor = true ∧ e.ruleId = ruleId ∧ e.status = .pending := by
  cases h with
  | ignored hno => exact Or.inl ⟨rfl, hno⟩
  | @fired rule e hm hl hf ho =>
    refine Or.inr ⟨rule, e, rfl, hm, hl, hf, ?_, ?_⟩
    · rw [ho.row]; exact (liveAt_iff.1 hl).2.1
    · rw [ho.row]; rfl

/-- **A step that brings no timer early keeps what is known of them.** -/
theorem step_timers (h : Step env w event w') (hr : RefsOK env w) (hdue : TimersDue env w event)
    (hi : TimersOK env w) : TimersOK env w' := by
  have hclock := step_clock h
  -- what was recorded before
  have hold : ∀ t ∈ w.db.triggers, t.source = .timer →
      ∃ ruleId scheduledFor, TimerOf env t ruleId scheduledFor ∧ scheduledFor.unixNanos ≤ w'.clock := by
    intro t ht hs
    obtain ⟨ruleId, T, hT, hle⟩ := hi.triggers t ht hs
    exact ⟨ruleId, T, hT, hle.trans hclock⟩
  -- and who belongs to it
  have hold' : ∀ e' ∈ w'.db.executions, ∀ t ∈ w.db.triggers, t.triggerId = e'.triggerId → t.source = .timer →
      t.ruleId = some e'.ruleId ∧
        ∃ r ∈ w'.db.rules, r.ruleId = e'.ruleId ∧ r.organizationId = t.organizationId := by
    intro e' he' t ht hk hs
    cases step_origin h he' with
    | old he hc =>
      obtain ⟨hrid, r, hrm, hid, horg⟩ := hi.executions _ he t ht (hk.trans hc.triggerId) hs
      obtain ⟨r', hr', hid', horg'⟩ := step_rule h hrm
      exact ⟨hc.ruleId ▸ hrid, r', hr', hid'.trans (hid.trans hc.ruleId.symm), horg'.trans horg⟩
    | opened _ hin hm => exact absurd (hk.trans (hin.triggerId_eq hm)) (hin.newId t ht)
  cases step_fire h hr with
  | still _ ht _ => exact ⟨fun t hm => hold t (ht ▸ hm), fun e he t hm => hold' e he t (ht ▸ hm)⟩
  | written _ _ _ _ ht _ => exact ⟨fun t hm => hold t (ht ▸ hm), fun e he t hm => hold' e he t (ht ▸ hm)⟩
  | ended _ _ ht _ => exact ⟨fun t hm => hold t (ht ▸ hm), fun e he t hm => hold' e he t (ht ▸ hm)⟩
  | advanced _ _ _ _ _ _ _ _ _ _ _ _ ht =>
    exact ⟨fun t hm => hold t (ht ▸ hm), fun e he t hm => hold' e he t (ht ▸ hm)⟩
  | event hsrc hin =>
    constructor
    · intro t ht hs
      rcases hin.mem_triggers.1 ht with ht | rfl
      · exact hold t ht hs
      · rw [hsrc] at hs; cases hs
    · intro e he t ht hk hs
      rcases hin.mem_triggers.1 ht with ht | rfl
      · exact hold' e he t ht hk hs
      · rw [hsrc] at hs; cases hs
  | @timer conn request scheduledFor receipt trigger es hev hp horg hof hout hin =>
    subst hev
    constructor
    · intro t ht hs
      rcases hin.mem_triggers.1 ht with ht | rfl
      · exact hold t ht hs
      · exact ⟨_, _, hof, (hdue scheduledFor hp).trans hclock⟩
    · intro e he t ht hk hs
      rcases hin.mem_triggers.1 ht with ht | rfl
      · exact hold' e he t ht hk hs
      rcases hin.mem_executions.1 he with he | he
      · -- no execution that was there belongs to the new trigger
        obtain ⟨t₀, ht₀, hk₀⟩ := hr.linked e he
        exact absurd (hk₀.trans hk.symm) (hin.newId t₀ ht₀)
      rcases hout.cases with ⟨rfl, -⟩ | ⟨rule, e₁, rfl, hm, hl, -, hrid, -⟩
      · cases he
      · cases List.mem_singleton.1 he
        obtain ⟨ho, hid, -⟩ := liveAt_iff.1 hl
        refine ⟨hrid ▸ hof.rule, rule, hin.rules ▸ hm, hid.trans hrid.symm, ho.trans horg.symm⟩

/-! ## What an execution was fired for -/

/-- The instant a timer trigger was delivered for. -/
def TriggerRow.firesFor (env : Env) (t : TriggerRow) : Option ℤ :=
  match t.source, payloadScheduledFor env t.payload with
  | .timer, .ok (some scheduledFor) => some scheduledFor.unixNanos
  | _, _ => none

/-- The instant an execution was fired for, when a timer opened it. -/
def firedFor (env : Env) (db : Database) (e : ExecutionRow) : Option ℤ :=
  (db.triggers.find? e.triggerId).bind (TriggerRow.firesFor env)

theorem firesFor_eq_some {t : TriggerRow} {n : ℤ} : t.firesFor env = some n ↔
    t.source = .timer ∧ ∃ scheduledFor, payloadScheduledFor env t.payload = .ok (some scheduledFor) ∧
      scheduledFor.unixNanos = n := by
  unfold TriggerRow.firesFor
  cases t.source with
  | event => simp
  | timer =>
    cases payloadScheduledFor env t.payload with
    | error e => simp
    | ok o => cases o <;> simp

theorem firedFor_of_mem {db : Database} {t : TriggerRow} {e : ExecutionRow} (ht : t ∈ db.triggers)
    (hk : t.triggerId = e.triggerId) : firedFor env db e = t.firesFor env := by
  unfold firedFor
  rw [Table.find?_eq_some.2 ⟨ht, hk⟩]
  rfl

theorem firedFor_eq_some {db : Database} {e : ExecutionRow} {n : ℤ} : firedFor env db e = some n ↔
    ∃ t ∈ db.triggers, t.triggerId = e.triggerId ∧ t.source = .timer ∧ ∃ scheduledFor,
      payloadScheduledFor env t.payload = .ok (some scheduledFor) ∧ scheduledFor.unixNanos = n := by
  constructor
  · intro h
    obtain ⟨t, hf, hn⟩ := Option.bind_eq_some_iff.1 h
    obtain ⟨ht, hk⟩ := Table.find?_eq_some.1 hf
    exact ⟨t, ht, hk, firesFor_eq_some.1 hn⟩
  · rintro ⟨t, ht, hk, hn⟩
    rw [firedFor_of_mem ht hk]
    exact firesFor_eq_some.2 hn

/-- An execution stays fired for the same instant. -/
theorem step_firedFor (h : Step env w event w') (hlink : Linked w.db) {e e' : ExecutionRow}
    (he : e ∈ w.db.executions) (hc : e.Continues e') : firedFor env w'.db e' = firedFor env w.db e := by
  obtain ⟨t, ht, hk⟩ := hlink e he
  rw [firedFor_of_mem ht hk, firedFor_of_mem (step_triggers h ht) (hk.trans hc.triggerId.symm)]

/-- The instants the executions of a rule were fired for, in the order they were opened. -/
def fireTimes (env : Env) (db : Database) (ruleId : String) : List ℤ :=
  db.executions.rows.filterMap (fun e => if e.ruleId = ruleId then firedFor env db e else none)

theorem mem_fireTimes {db : Database} {ruleId : String} {n : ℤ} : n ∈ fireTimes env db ruleId ↔
    ∃ e ∈ db.executions, e.ruleId = ruleId ∧ firedFor env db e = some n := by
  unfold fireTimes
  rw [List.mem_filterMap]
  refine exists_congr fun e => and_congr_right fun _ => ?_
  split
  · rename_i h; simp [h]
  · rename_i h; simp [h]

/-- The fire times are read off the links of the executions. -/
theorem fireTimes_of_links {db db' : Database} (ht : db'.triggers = db.triggers)
    (hl : db'.executions.rows.map ExecutionRow.link = db.executions.rows.map ExecutionRow.link)
    (ruleId : String) : fireTimes env db' ruleId = fireTimes env db ruleId := by
  have h : ∀ db : Database, fireTimes env db ruleId = (db.executions.rows.map ExecutionRow.link).filterMap
      (fun l => if l.1 = ruleId then (db.triggers.find? l.2).bind (TriggerRow.firesFor env) else none) := by
    intro db
    rw [List.filterMap_map]
    rfl
  rw [h, h, hl, ht]

/-- An intake adds the times of the executions it opens. -/
theorem fireTimes_intake {trigger : TriggerRow} {es : List ExecutionRow} {db db' : Database}
    (hlink : Linked db) (h : Intake s trigger es db db') (ruleId : String) :
    fireTimes env db' ruleId = fireTimes env db ruleId ++
      es.filterMap (fun e => if e.ruleId = ruleId then trigger.firesFor env else none) := by
  unfold fireTimes
  rw [h.executions, List.filterMap_append]
  congr 1
  · refine List.filterMap_congr fun e he => ?_
    obtain ⟨t, ht, hk⟩ := hlink e he
    rw [firedFor_of_mem (h.mem_triggers.2 (Or.inl ht)) hk, firedFor_of_mem ht hk]
  · refine List.filterMap_congr fun e he => ?_
    rw [firedFor_of_mem (h.mem_triggers.2 (Or.inr rfl)) (h.triggerId_eq he).symm]

/-- What an execution was fired for has been recorded. -/
theorem TimersOK.recorded (hi : TimersOK env w) {e : ExecutionRow} {r : RuleRow} {t : OffsetDateTime}
    (he : e ∈ w.db.executions) (hr : r ∈ w.db.rules) (hid : r.ruleId = e.ruleId)
    (hfor : firedFor env w.db e = some t.unixNanos) :
    Recorded w.db r.organizationId .timer (scheduleKey env r.ruleId t) := by
  obtain ⟨tr, htr, hk, hsrc, T, hT, heq⟩ := firedFor_eq_some.1 hfor
  obtain ⟨ruleId, T', hof, -⟩ := hi.triggers tr htr hsrc
  obtain ⟨hrule, r', hr', hid', horg⟩ := hi.executions e he tr htr hk hsrc
  have hsame : r' = r := Table.eq_of_key hr' hr (hid'.trans hid.symm)
  rw [hof.rule] at hrule
  rw [hof.payload] at hT
  cases hrule; cases hT; cases hsame
  -- the key is made of the instant, not of the text it was written in
  refine ⟨tr, htr, ?_⟩
  simp [TriggerRow.sameKey, horg, hsrc, hof.dedupeKey, hid, scheduleKey_congr heq]

/-- An instant fires a rule once. -/
def FiredOnce (env : Env) (db : Database) : Prop :=
  ∀ e ∈ db.executions, ∀ e' ∈ db.executions, e.ruleId = e'.ruleId → ∀ n,
    firedFor env db e = some n → firedFor env db e' = some n → e = e'

theorem Ends.origin {e e' x' : ExecutionRow} {db db' : Database} (h : Ends e e' db db')
    (hx : x' ∈ db'.executions) : ∃ x ∈ db.executions, x.Continues x' := by
  rcases h.executions.cases hx with rfl | ⟨hx, -⟩
  · exact ⟨e, h.there, h.continues⟩
  · exact ⟨x', hx, .refl x'⟩

/-- **Every step keeps the fires single**: a second timer for the instant finds its key recorded. -/
theorem step_once (h : Step env w event w') (hr : RefsOK env w) (hti : TimersOK env w)
    (hi : FiredOnce env w.db) : FiredOnce env w'.db := by
  -- two executions that were there are fired for what they were fired for
  have hold : ∀ {x y x' y' : ExecutionRow}, x ∈ w.db.executions → y ∈ w.db.executions → x.Continues x' →
      y.Continues y' → x' ∈ w'.db.executions → y' ∈ w'.db.executions → x'.ruleId = y'.ruleId →
      ∀ n, firedFor env w'.db x' = some n → firedFor env w'.db y' = some n → x' = y' := by
    intro x y x' y' hx hy hcx hcy hx' hy' hrule n hxn hyn
    rw [step_firedFor h hr.linked hx hcx] at hxn
    rw [step_firedFor h hr.linked hy hcy] at hyn
    have hxy := hi x hx y hy (hcx.ruleId.symm.trans (hrule.trans hcy.ruleId)) n hxn hyn
    exact Table.eq_of_key hx' hy' (hcx.executionId.trans ((congrArg _ hxy).trans hcy.executionId.symm))
  have hall : (∀ x' ∈ w'.db.executions, ∃ x ∈ w.db.executions, x.Continues x') → FiredOnce env w'.db := by
    intro hfrom x' hx' y' hy'
    obtain ⟨x, hx, hcx⟩ := hfrom x' hx'
    obtain ⟨y, hy, hcy⟩ := hfrom y' hy'
    exact hold hx hy hcx hcy hx' hy'
  cases step_fire h hr with
  | still _ _ hk => exact hall fun x' hx' => by obtain ⟨x, hx, hc, -⟩ := hk.status x' hx'; exact ⟨x, hx, hc⟩
  | written _ _ _ _ _ he => exact hall fun x' hx' => ⟨x', he ▸ hx', .refl x'⟩
  | ended hends _ _ _ => exact hall fun x' hx' => hends.origin hx'
  | advanced _ hends => exact hall fun x' hx' => hends.origin hx'
  | event hsrc hin =>
    -- what an event opens is fired for no instant
    have hnone : ∀ x' ∈ w'.db.executions, ∀ n, firedFor env w'.db x' = some n → x' ∈ w.db.executions := by
      intro x' hx' n hn
      rcases hin.mem_executions.1 hx' with hx | hx
      · exact hx
      · rw [firedFor_of_mem (hin.mem_triggers.2 (Or.inr rfl)) (hin.triggerId_eq hx).symm] at hn
        have := (firesFor_eq_some.1 hn).1
        rw [hsrc] at this; cases this
    intro x hx y hy hrule n hxn hyn
    exact hold (hnone x hx n hxn) (hnone y hy n hyn) (.refl x) (.refl y) hx hy hrule n hxn hyn
  | @timer _ _ scheduledFor _ trigger es _ _ horg hof hout hin =>
    -- the new execution, against one that was there
    have hnew : ∀ x ∈ w.db.executions, ∀ y ∈ es, x.ruleId = y.ruleId → ∀ n, firedFor env w'.db x = some n →
        firedFor env w'.db y = some n → False := by
      intro x hx y hy hrule n hxn hyn
      rcases hout.cases with ⟨rfl, -⟩ | ⟨rule, e, rfl, hm, hl, -, hrid, -⟩
      · cases hy
      cases List.mem_singleton.1 hy
      obtain ⟨ho, hid, -⟩ := liveAt_iff.1 hl
      rw [firedFor_of_mem (hin.mem_triggers.2 (Or.inr rfl)) (hin.triggerId_eq hy).symm] at hyn
      obtain ⟨-, T, hT, rfl⟩ := firesFor_eq_some.1 hyn
      rw [hof.payload] at hT
      cases hT
      rw [step_firedFor h hr.linked hx (.refl x)] at hxn
      obtain ⟨t, ht, hk⟩ := hti.recorded hx hm (hid.trans (hrid.symm.trans hrule.symm)) hxn
      have hfree := hin.newKey t ht
      rw [horg, hof.source, hof.dedupeKey, ← ho, ← hid, hk] at hfree
      cases hfree
    intro x hx y hy hrule n hxn hyn
    rcases hin.mem_executions.1 hx with hx₀ | hx₀ <;> rcases hin.mem_executions.1 hy with hy₀ | hy₀
    · exact hold hx₀ hy₀ (.refl x) (.refl y) hx hy hrule n hxn hyn
    · exact (hnew x hx₀ y hy₀ hrule n hxn hyn).elim
    · exact (hnew y hy₀ x hx₀ hrule.symm n hyn hxn).elim
    · rcases hout.cases with ⟨rfl, -⟩ | ⟨_, e, rfl, -⟩
      · cases hx₀
      · rw [List.mem_singleton.1 hx₀, List.mem_singleton.1 hy₀]

/-- Timers that never come early are always known, and fire once. -/
theorem run_timers {is : List Event} (ha : (automation env).Along (TimersDue env) World.init is) :
    TimersOK env ((automation env).run is) ∧ FiredOnce env ((automation env).run is).db :=
  inv_along (I := fun w => TimersOK env w ∧ FiredOnce env w.db)
    ⟨.init, fun e he => absurd he (Table.not_mem_empty e)⟩
    (fun hr hdue hstep hi => ⟨step_timers hstep hr hdue hi.1, step_once hstep hr hi.1 hi.2⟩) ha

end ProjectAutomation

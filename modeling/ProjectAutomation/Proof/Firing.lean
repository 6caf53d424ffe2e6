import ProjectAutomation.Proof.Drain
import ProjectAutomation.Proof.Isolation
import ProjectAutomation.Proof.Recurring
import ProjectAutomation.Proof.Served

/-!
# An undisturbed schedule keeps firing

A beat of a schedule is its timer, delivered by Jobs, and a call of `reconcile` after it. While nothing
disturbs them, every beat opens one execution for the instant the rule waits for, ends it, and leaves the
rule waiting for the instant one interval on.

* `Steady`: a rule that waits, and of which no execution is open.
* `Steady.beat`: what one beat makes of it.
* `schedule_keeps_firing`: so a schedule fires at every instant of its grid, once, however many beats
  follow.
-/

namespace ProjectAutomation

open Relational Table Progress Recurrence

variable {env : Env} {w w' : World} {s : Session} {db db' : Database} {rule : RuleRow} {interval n : ℤ}

/-! ## What a batch does to one rule -/

section Batch

variable {claim : ClaimedExecution} {claims earlier later : List ClaimedExecution} {r : RuleRow}

theorem ConcludedAll.split (h : ConcludedAll env (earlier ++ later) db db') :
    ∃ db₁, ConcludedAll env earlier db db₁ ∧ ConcludedAll env later db₁ db' := by
  induction earlier generalizing db with
  | nil => exact ⟨db, .nil, h⟩
  | cons claim earlier ih =>
    cases h with
    | cons hfirst hrest =>
      obtain ⟨db₁, hearlier, hlater⟩ := ih hrest
      exact ⟨db₁, .cons hfirst hearlier, hlater⟩

/-- A rule that the claim is not of stays as it is. -/
theorem Concluded.rule_stays (h : Concluded env claim db db') (hr : r ∈ db.rules) (hne : r.ruleId ≠ claim.ruleId) :
    r ∈ db'.rules := by
  obtain ⟨s, trigger, db₁, rfl, -, -, hrules, hsettled⟩ := h.settled
  rw [← hrules] at hr
  cases hsettled with
  | event _ he => exact he ▸ hr
  | timer _ ha =>
    cases ha with
    | kept he _ => exact he ▸ hr
    | moved _ hid _ _ _ _ _ hwrite => exact hwrite.rules.of_ne hr fun h => hne (h.trans hid)

theorem ConcludedAll.rule_stays (h : ConcludedAll env claims db db') (hr : r ∈ db.rules)
    (hne : ∀ c ∈ claims, r.ruleId ≠ c.ruleId) : r ∈ db'.rules := by
  induction h with
  | nil => exact hr
  | cons hfirst _ ih =>
    exact ih (hfirst.rule_stays hr (hne _ List.mem_cons_self)) fun c hc => hne c (List.mem_cons_of_mem _ hc)

/-- **The rule of a timer it waits for** moves on by its interval. -/
theorem Concluded.rule_advances (h : Concluded env claim db db') (hr : r ∈ db.rules) (hid : r.ruleId = claim.ruleId)
    (hlive : r.live = true) {t : TriggerRow} (ht : t ∈ db.triggers) (htid : t.triggerId = claim.triggerId)
    (hsource : t.source = .timer) {scheduledFor : OffsetDateTime}
    (hread : payloadScheduledFor env claim.payload = .ok (some scheduledFor))
    (hawaits : r.awaits (some scheduledFor) = true) (hinterval : intervalSeconds r.trigger = some interval) :
    ∃ next now, scheduledFor.checkedAdd interval = some next ∧
      r.advance (encodeTimestamptz next) now ∈ db'.rules := by
  obtain ⟨s, trigger, db₁, rfl, htrigger, htriggerId, hrules, hsettled⟩ := h.settled
  obtain rfl : t = trigger := eq_of_key ht htrigger (htid.trans htriggerId.symm)
  rw [← hrules] at hr
  cases hsettled with
  | event hevent _ => rw [hsource] at hevent; cases hevent
  | timer _ ha =>
    cases ha with
    | kept _ hno =>
      obtain ⟨scheduledFor', hread', hno⟩ := hno r hr hid hlive
      rw [hread] at hread'
      cases hread'
      rw [hawaits] at hno
      cases hno
    | @moved rule scheduledFor' next interval' hm hmid _ hread' _ hinterval' hadd hwrite =>
      obtain rfl : r = rule := eq_of_key hr hm (hid.trans hmid.symm)
      rw [hread] at hread'
      cases hread'
      rw [hinterval] at hinterval'
      cases hinterval'
      exact ⟨next, _, hadd, hwrite.rules.mem⟩

end Batch

/-! ## One beat -/

/-- Jobs delivers a timer, and a worker calls `reconcile` after it. -/
structure Beat where
  intake : Connection
  request : ReceiveTimerRequest
  call : ReconcileCall

def Beat.delivered (env : Env) (beat : Beat) (w : World) : World :=
  (automation env).next w (.receiveTimer beat.intake beat.request)

/-- An organization, one beat at a time. -/
def beats (env : Env) (organizationId : String) : Transition.Machine World Beat Unit where
  init := .init
  step w beat := ((beat.call.run env organizationId (beat.delivered env w)).world, ())

/-- The timer is the one the rule waits for, delivered for the first time, and nothing disturbs its delivery
or the call, whose limit has room for it. -/
structure OnTime (env : Env) (rule : RuleRow) (horizon : ℤ) (w : World) (beat : Beat) : Prop where
  intake : beat.intake.Serves
  fresh : beat.intake.FreshIds w.db
  organizationId : beat.request.organizationId = rule.organizationId
  ruleId : beat.request.ruleId = rule.ruleId
  ids : [beat.request.organizationId, beat.request.ruleId, beat.request.dedupeKey].all validId = true
  due : ∃ scheduledFor, env.parseRfc3339 beat.request.scheduledFor = some scheduledFor ∧
    beat.request.dedupeKey = scheduleKey env rule.ruleId scheduledFor ∧
    (scheduledFor.Datable ∧ (scheduledFor.plus yearSeconds).Datable) ∧
    ∃ r ∈ w.db.rules, r.ruleId = rule.ruleId ∧
      r.nextFireAt.map (fun t => (decodeTimestamptz t).unixNanos) = some scheduledFor.unixNanos
  once : ¬ Recorded w.db rule.organizationId .timer beat.request.dedupeKey
  call : beat.call.Undisturbed horizon
  room : (openRows w.db rule.organizationId).length < beat.call.limit

/-- The rule waits for instant `k` of its grid, and none of its executions is open. -/
structure Steady (env : Env) (rule : RuleRow) (horizon n interval : ℤ) (k : ℕ) (w : World) : Prop where
  ready : Ready env rule.organizationId horizon w
  row : ∃ r ∈ w.db.rules, r.ruleId = rule.ruleId ∧ r.organizationId = rule.organizationId ∧
    r.trigger = rule.trigger ∧ r.nextFireAt = some (roundMicros n interval k)
  idle : ∀ e ∈ w.db.executions, e.ruleId = rule.ruleId → e.status.terminal = true

/-- What delivering the timer comes to: one execution is opened for the instant the rule waits for. -/
structure TimerOpens (env : Env) (rule : RuleRow) (horizon n interval : ℤ) (k : ℕ) (w w₁ : World)
    (e : ExecutionRow) (trigger : TriggerRow) (scheduledFor : OffsetDateTime) (r : RuleRow) : Prop where
  intake : ∃ s, Intake s trigger [e] w.db w₁.db
  ready : Ready env rule.organizationId horizon w₁
  opened : e ∈ openRows w₁.db rule.organizationId
  length : (openRows w₁.db rule.organizationId).length = (openRows w.db rule.organizationId).length + 1
  only : ∀ x ∈ openRows w₁.db rule.organizationId, x.ruleId = rule.ruleId → x = e
  ruleId : e.ruleId = rule.ruleId
  triggerId : e.triggerId = trigger.triggerId
  source : trigger.source = .timer
  read : payloadScheduledFor env trigger.payload = .ok (some scheduledFor)
  instant : scheduledFor.unixNanos = roundNanos n interval k
  fires : fireTimes env w₁.db rule.ruleId = fireTimes env w.db rule.ruleId ++ [roundNanos n interval k]
  row : r ∈ w₁.db.rules ∧ r.ruleId = rule.ruleId ∧ r.organizationId = rule.organizationId ∧ r.trigger = rule.trigger
  live : r.live = true
  awaits : r.awaits (some scheduledFor) = true

theorem openRows_length_append {e : ExecutionRow} {organizationId : String}
    (h : db'.executions.rows = db.executions.rows ++ [e]) (hopen : e.openIn organizationId = true) :
    (openRows db' organizationId).length = (openRows db organizationId).length + 1 := by
  unfold openRows select
  rw [List.length_insertionSort, List.length_insertionSort, h, List.filter_append, List.length_append,
    List.filter_cons_of_pos hopen]
  rfl

/-- The trigger that a timer is recorded as. -/
def Beat.trigger (env : Env) (beat : Beat) (w : World) (scheduledFor : OffsetDateTime) : TriggerRow :=
  newTrigger (w.session env beat.intake) beat.request.organizationId .timer beat.request.dedupeKey
    (some beat.request.ruleId) beat.request.toValue (encodeTimestamptz scheduledFor)

/-- The timer for instant `k` is taken, and fires the rule. -/
structure TimerTaken (env : Env) (rule : RuleRow) (n interval : ℤ) (k : ℕ) (w : World) (beat : Beat)
    (e : ExecutionRow) (scheduledFor : OffsetDateTime) (r : RuleRow) : Prop where
  delivered : beat.delivered env w = { w with db := (beat.delivered env w).db }
  intake : Intake (w.session env beat.intake) (beat.trigger env w scheduledFor) [e] w.db (beat.delivered env w).db
  opened : OpenedFor (w.session env beat.intake) rule.organizationId (beat.intake.newV4 0) r e
  read : payloadScheduledFor env beat.request.toValue = .ok (some scheduledFor)
  inRange : scheduledFor.Datable ∧ (scheduledFor.plus yearSeconds).Datable
  instant : scheduledFor.unixNanos = roundNanos n interval k
  row : r ∈ w.db.rules ∧ r.ruleId = rule.ruleId ∧ r.organizationId = rule.organizationId ∧ r.trigger = rule.trigger
  live : r.live = true
  awaits : r.awaits (some scheduledFor) = true

/-- **The timer the rule waits for fires it.** -/
theorem Steady.taken (huuid : env.UuidOK) {horizon : ℤ} {k : ℕ} (h : Steady env rule horizon n interval k w)
    {beat : Beat} (hb : OnTime env rule horizon w beat) : ∃ e scheduledFor r,
      TimerTaken env rule n interval k w beat e scheduledFor r := by
  obtain ⟨events, flushes, tasks, hrun⟩ := h.ready.reachable
  obtain ⟨r, hr, hid, horg, htrigger, hnext⟩ := h.row
  obtain ⟨scheduledFor, hparse, hkey, hdates, r', hr', hid', hinstant⟩ := hb.due
  obtain rfl : r = r' := eq_of_key hr hr' (hid.trans hid'.symm)
  have hrefs : RefsOK env (w.amid flushes tasks) := hrun ▸ run_refs events
  have hadmitted : ∀ r ∈ w.db.rules, Admitted r := db_of_amid hrun ▸ run_admitted events
  have hledger : DispatchLedger w.db := db_of_amid hrun ▸ (run_ledger events).1
  have hscheduled : r.scheduled := (hledger.fireTime r hr).1 (by rw [hnext]; rfl)
  have hawaits : r.awaits (some scheduledFor) = true :=
    awaits_iff.2 ⟨hscheduled.1, hscheduled.2.2, hinstant⟩
  rw [hnext, Option.map_some, Option.some.injEq] at hinstant
  -- the database takes it
  have hfree : ¬ Recorded w.db beat.request.organizationId .timer beat.request.dedupeKey := by
    rw [hb.organizationId]
    exact hb.once
  have hkey' : beat.request.dedupeKey = scheduleKey env beat.request.ruleId scheduledFor := by
    rw [hb.ruleId]
    exact hkey
  have hd : FreeDelivery (w.session env beat.intake) w.db (.timer beat.request) :=
    freeDelivery_of_fresh huuid hrefs hadmitted hb.intake hb.fresh hfree
  obtain ⟨out, hout⟩ := take_serves hd ⟨hb.ids, scheduledFor, hparse, hkey', hdates.1.bindable⟩
    (by rintro _ ⟨⟩; exact ⟨r, hr, hid.trans hb.ruleId.symm⟩)
  obtain ⟨-, scheduledFor', hparse', hreceived⟩ := takeTimer_ok hout
  obtain rfl : scheduledFor = scheduledFor' := Option.some.inj (hparse.symm.trans hparse')
  obtain ⟨-, ⟨-, hrec⟩ | ⟨receipt, es, hcommit, houtcome, hin⟩⟩ := receiveTimer_ok hrefs.linked hreceived
  · exact absurd hrec hfree
  obtain ⟨ending, db₁⟩ := out
  have hdelivered : beat.delivered env w = { w with db := db₁ } :=
    (sent_commits (d := .timer beat.request) hout hcommit.value).2
  cases houtcome with
  | ignored hno =>
    have hfires := hno r hr (liveAt_iff.2
      ⟨horg.trans hb.organizationId.symm, hid.trans hb.ruleId.symm, hscheduled.2.1⟩)
    have hfires' : r.firesAt scheduledFor = true := by
      simp [RuleRow.firesAt, hscheduled.1, hscheduled.2.2, hnext, hinstant]
    rw [hfires'] at hfires
    cases hfires
  | @fired rule' e hm hlive hfires ho =>
    obtain ⟨-, hid'', -⟩ := liveAt_iff.1 hlive
    obtain rfl : r = rule' := eq_of_key hr hm (hid.trans (hb.ruleId.symm.trans hid''.symm))
    have hinstant' : scheduledFor.unixNanos = roundNanos n interval k := by
      rw [decode_roundMicros] at hinstant
      exact hinstant.symm
    exact ⟨e, scheduledFor, r, by rw [hdelivered], by rw [hdelivered]; exact hin, hb.organizationId ▸ ho,
      payloadScheduledFor_timer hparse, hdates, hinstant', ⟨hr, hid, horg, htrigger⟩, hscheduled.2.1, hawaits⟩

section Taken

variable {beat : Beat} {e : ExecutionRow} {scheduledFor : OffsetDateTime} {r : RuleRow} {k : ℕ} {horizon : ℤ}

theorem TimerTaken.openIn (h : TimerTaken env rule n interval k w beat e scheduledFor r) :
    e.openIn rule.organizationId = true := by
  rw [h.opened.row]
  exact openIn_iff.2 ⟨rfl, rfl⟩

/-- The queue grows by its execution. -/
theorem TimerTaken.openRows_cases (h : TimerTaken env rule n interval k w beat e scheduledFor r) {x : ExecutionRow}
    (hx : x ∈ openRows (beat.delivered env w).db rule.organizationId) :
    x ∈ openRows w.db rule.organizationId ∨ x = e := by
  obtain ⟨hx, hxorg, hxopen⟩ := mem_openRows.1 hx
  rcases h.intake.mem_executions.1 hx with hx | hx
  · exact Or.inl (mem_openRows.2 ⟨hx, hxorg, hxopen⟩)
  · exact Or.inr (List.mem_singleton.1 hx)

/-- The call after it finds every execution as it can claim it. -/
theorem TimerTaken.ready (h : TimerTaken env rule n interval k w beat e scheduledFor r)
    (hready : Ready env rule.organizationId horizon w) :
    Ready env rule.organizationId horizon (beat.delivered env w) := by
  obtain ⟨events, flushes, tasks, hrun⟩ := hready.reachable
  refine ⟨?_, ⟨?_, ?_⟩, fun x hx => ?_, fun x hx t ht => ?_⟩
  · refine ⟨events ++ [.receiveTimer beat.intake beat.request], flushes, tasks, ?_⟩
    rw [Transition.Machine.run_append, hrun, h.delivered]
    rfl
  · rw [h.intake.dispatches]
    exact hready.inRange.dispatches
  · intro t ht hsource scheduledFor' hread'
    rcases h.intake.mem_triggers.1 ht with ht | rfl
    · exact hready.inRange.timers t ht hsource scheduledFor' hread'
    · cases h.read.symm.trans hread'
      exact h.inRange
  · rcases h.openRows_cases hx with hx | rfl
    · exact hready.attempts x hx
    · rw [h.opened.row]
      show 0 < i32Max
      decide
  · rcases h.openRows_cases hx with hx | rfl
    · exact hready.leases x hx t ht
    · rw [h.opened.row] at ht
      cases ht

end Taken

theorem Steady.delivered (huuid : env.UuidOK) {horizon : ℤ} {k : ℕ} (h : Steady env rule horizon n interval k w)
    {beat : Beat} (hb : OnTime env rule horizon w beat) : ∃ e trigger scheduledFor r,
      TimerOpens env rule horizon n interval k w (beat.delivered env w) e trigger scheduledFor r := by
  obtain ⟨events, flushes, tasks, hrun⟩ := h.ready.reachable
  have hrefs : RefsOK env (w.amid flushes tasks) := hrun ▸ run_refs events
  obtain ⟨e, scheduledFor, r, ht⟩ := h.taken huuid hb
  have hruleId : e.ruleId = rule.ruleId := by
    rw [ht.opened.row]
    exact ht.row.2.1
  have htriggerId : e.triggerId = (beat.trigger env w scheduledFor).triggerId := by
    rw [ht.opened.row]
    rfl
  refine ⟨e, beat.trigger env w scheduledFor, scheduledFor, r, ⟨_, ht.intake⟩, ht.ready h.ready, ?_,
    openRows_length_append ht.intake.executions ht.openIn, fun x hx hrule => ?_, hruleId, htriggerId, rfl, ht.read,
    ht.instant, ?_, ht.intake.rules ▸ ht.row, ht.live, ht.awaits⟩
  · exact mem_openRows.2 ⟨ht.intake.mem_executions.2 (Or.inr List.mem_cons_self), openIn_iff.1 ht.openIn⟩
  · rcases ht.openRows_cases hx with hx | rfl
    · -- the executions of the rule that were there have ended
      obtain ⟨hx, -, hxopen⟩ := mem_openRows.1 hx
      rw [h.idle x hx hrule] at hxopen
      cases hxopen
    · rfl
  · have hfires : (beat.trigger env w scheduledFor).firesFor env = some (roundNanos n interval k) :=
      firesFor_eq_some.2 ⟨rfl, scheduledFor, ht.read, ht.instant⟩
    rw [fireTimes_intake hrefs.linked ht.intake, List.filterMap_cons, if_pos hruleId, hfires]
    rfl

/-- **One beat** fires the rule for the instant it waits for, and leaves it waiting for the next. -/
theorem Steady.beat (huuid : env.UuidOK) (hformat : env.FormatOK)
    (hinterval : intervalSeconds rule.trigger = some interval) {horizon : ℤ} {k : ℕ}
    (h : Steady env rule horizon n interval k w) {beat : Beat} (hb : OnTime env rule horizon w beat) :
    let w' := (beats env rule.organizationId).next w beat
    Steady env rule horizon n interval (k + 1) w' ∧
      fireTimes env w'.db rule.ruleId = fireTimes env w.db rule.ruleId ++ [roundNanos n interval k] := by
  intro w'
  obtain ⟨e, trigger, scheduledFor, r, hdelivered⟩ := h.delivered huuid hb
  obtain ⟨s, hin⟩ := hdelivered.intake
  obtain ⟨response, -, hserved⟩ := reconcile_serves huuid hformat hb.call hdelivered.ready
  have hserved : ReconcileServed env rule.organizationId horizon beat.call.limit (beat.delivered env w) w' response :=
    hserved
  have hroom : (openRows (beat.delivered env w).db rule.organizationId).length ≤ beat.call.limit := by
    rw [hdelivered.length]
    exact hb.room
  have hdrained : openRows w'.db rule.organizationId = [] := by
    rw [hserved.rest, List.drop_eq_nil_of_le hroom]
  obtain ⟨claims, db₁, db₂, hids, hfrom, hrules₁, htriggers₁, hlinks₁, hconcluded, hflushed⟩ := hserved.concluded
  rw [List.take_of_length_le hroom] at hids hfrom
  obtain ⟨-, hrules₂, htriggers₂, hexecutions₂, -⟩ := Database.mk.inj hflushed
  have hrules₂ : w'.db.rules = db₂.rules := hrules₂
  -- exactly one claim is of the rule, the one of the new execution
  have hnodup : (claims.map ClaimedExecution.executionId).Nodup := by
    rw [hids]
    exact openRows_ids _ _
  have hof : ∀ c ∈ claims, c.ruleId = rule.ruleId → c.executionId = e.executionId := by
    intro c hc hrule
    obtain ⟨x, hx, hxid, hxrule, -⟩ := hfrom c hc
    rw [hxid, hdelivered.only x hx (hxrule.symm.trans hrule)]
  obtain ⟨claim, hclaim, hclaimId⟩ : ∃ c ∈ claims, c.executionId = e.executionId := by
    have hmem : e.executionId ∈ claims.map ClaimedExecution.executionId :=
      hids ▸ List.mem_map_of_mem hdelivered.opened
    exact List.mem_map.1 hmem
  obtain ⟨x, hx, hxid, hxrule, hxtrigger, t, ht, htid, hpayload⟩ := hfrom claim hclaim
  obtain rfl : x = e := eq_of_key (mem_openRows.1 hx).1 (mem_openRows.1 hdelivered.opened).1 (hxid.symm.trans hclaimId)
  obtain rfl : t = trigger := eq_of_key ht (hin.mem_triggers.2 (Or.inr rfl)) (htid.trans hdelivered.triggerId)
  obtain ⟨hr, hid, horg, htrigger⟩ := hdelivered.row
  obtain ⟨earlier, later, rfl⟩ := List.append_of_mem hclaim
  have hothers : ∀ c, c ∈ earlier ∨ c ∈ later → r.ruleId ≠ c.ruleId := by
    intro c hc hrule
    have hmem : c ∈ earlier ++ claim :: later := by
      rcases hc with hc | hc
      · exact List.mem_append_left _ hc
      · exact List.mem_append_right _ (List.mem_cons_of_mem _ hc)
    have hsame := (hof c hmem (hrule.symm.trans hid)).trans hclaimId.symm
    rw [List.map_append, List.map_cons, List.nodup_middle] at hnodup
    refine (List.nodup_cons.1 hnodup).1 ?_
    rw [← hsame, ← List.map_append]
    exact List.mem_map_of_mem (List.mem_append.2 hc)
  -- so the rule moves on once
  obtain ⟨db₃, hearlier, hrest⟩ := hconcluded.split
  cases hrest with
  | @cons _ _ _ db₄ _ hconclude hlater =>
    have hr₃ : r ∈ db₃.rules := hearlier.rule_stays (hrules₁ ▸ hr) fun c hc => hothers c (Or.inl hc)
    have htriggers₃ : db₃.triggers = (beat.delivered env w).db.triggers := hearlier.frame.1.trans htriggers₁
    obtain ⟨next, now, hadd, hr₄⟩ := hconclude.rule_advances hr₃ (hid.trans (hdelivered.ruleId.symm.trans hxrule.symm))
      hdelivered.live (htriggers₃ ▸ ht) (htid.trans hxtrigger.symm) hdelivered.source (hpayload ▸ hdelivered.read)
      hdelivered.awaits (htrigger ▸ hinterval)
    have hr' : r.advance (encodeTimestamptz next) now ∈ w'.db.rules :=
      hrules₂ ▸ hlater.rule_stays hr₄ fun c hc => hothers c (Or.inr hc)
    refine ⟨⟨hserved.ready, ⟨_, hr', hid, horg, htrigger, ?_⟩, fun e' he' hrule => ?_⟩, ?_⟩
    · rw [← encode_next hadd hdelivered.instant]
      rfl
    · -- what is open is in the queue
      obtain ⟨events, flushes, tasks, hrun⟩ := hserved.ready.reachable
      have htenancy : TenancyOK w'.db := db_of_amid hrun ▸ run_tenancy events
      obtain ⟨r', hrm, hrid, hrorg⟩ := htenancy e' he'
      have hsame : r' = r.advance (encodeTimestamptz next) now :=
        eq_of_key hrm hr' (hrid.trans (hrule.trans hid.symm))
      have horg' : e'.organizationId = rule.organizationId := by
        rw [← hrorg, hsame]
        exact horg
      by_contra hopen
      have hmem : e' ∈ openRows w'.db rule.organizationId :=
        mem_openRows.2 ⟨he', horg', Bool.eq_false_iff.2 hopen⟩
      rw [hdrained] at hmem
      cases hmem
    · have hlinks : w'.db.executions.rows.map ExecutionRow.link =
          (beat.delivered env w).db.executions.rows.map ExecutionRow.link := by
        rw [show w'.db.executions = db₂.executions from hexecutions₂, hconcluded.frame.2, hlinks₁]
      have htriggers : w'.db.triggers = (beat.delivered env w).db.triggers := by
        rw [show w'.db.triggers = db₂.triggers from htriggers₂, hconcluded.frame.1, htriggers₁]
      rw [fireTimes_of_links htriggers hlinks, hdelivered.fires]

/-! ## Beat after beat -/

/-- Beats on time, from instant `k` of the grid on. -/
theorem Steady.run (huuid : env.UuidOK) (hformat : env.FormatOK)
    (hinterval : intervalSeconds rule.trigger = some interval) {horizon : ℤ} {k : ℕ}
    (h : Steady env rule horizon n interval k w) {done : List Beat}
    (hdone : (beats env rule.organizationId).Along (OnTime env rule horizon) w done) :
    let w' := (beats env rule.organizationId).runFrom w done
    Steady env rule horizon n interval (k + done.length) w' ∧ fireTimes env w'.db rule.ruleId =
      fireTimes env w.db rule.ruleId ++ (List.range' k done.length).map (roundNanos n interval) := by
  induction done generalizing w k with
  | nil => exact ⟨h, by simp⟩
  | cons beat done ih =>
    obtain ⟨hnext, hfires⟩ := h.beat huuid hformat hinterval hdone.1
    obtain ⟨hsteady, hall⟩ := ih hnext hdone.2
    rw [List.length_cons, List.range'_succ, List.map_cons, ← Nat.succ_add_eq_add_succ]
    refine ⟨hsteady, ?_⟩
    rw [Transition.Machine.runFrom_cons, hall, hfires, List.append_assoc]
    rfl

/-- **An undisturbed schedule keeps firing.** From any state a run has come to, in which the rule waits for an
instant and none of its executions is open, each beat on time fires it once, for the next instant of
its grid, and ends what it fired; so after `m` beats it waits for instant `m`. -/
theorem schedule_keeps_firing (huuid : env.UuidOK) (hformat : env.FormatOK) (events : List Event)
    (hrule : rule ∈ ((automation env).run events).db.rules) (hn : rule.nextFireAt = some n)
    (hinterval : intervalSeconds rule.trigger = some interval)
    (hidle : ∀ e ∈ ((automation env).run events).db.executions, e.ruleId = rule.ruleId → e.status.terminal = true)
    (horizon : ℤ) (hrange : InRange env ((automation env).run events).db)
    (hattempts : ∀ e ∈ openRows ((automation env).run events).db rule.organizationId, e.attempts < i32Max)
    (hleases : ∀ e ∈ openRows ((automation env).run events).db rule.organizationId, ∀ t,
      e.leaseUntil = some t → t ≤ horizon)
    {done : List Beat}
    (hdone : (beats env rule.organizationId).Along (OnTime env rule horizon) ((automation env).run events) done) :
    let w := (automation env).run events
    let w' := (beats env rule.organizationId).runFrom w done
    (∃ r ∈ w'.db.rules, r.ruleId = rule.ruleId ∧ r.trigger = rule.trigger ∧
        r.nextFireAt = some (point n (interval * microsPerSecond) done.length)) ∧
      fireTimes env w'.db rule.ruleId = fireTimes env w.db rule.ruleId ++
        points (decodeTimestamptz n).unixNanos (interval * nanosPerSecond) done.length ∧
      ∀ e ∈ w'.db.executions, e.ruleId = rule.ruleId → e.status.terminal = true := by
  intro w w'
  have hsteady : Steady env rule horizon n interval 0 w := by
    refine ⟨⟨⟨events, w.flushes, w.tasks, rfl⟩, hrange, hattempts, hleases⟩, ⟨rule, hrule, rfl, rfl, rfl, ?_⟩, hidle⟩
    rw [hn, roundMicros, point_zero]
  obtain ⟨hend, hfires⟩ := hsteady.run huuid hformat hinterval hdone
  rw [Nat.zero_add] at hend
  obtain ⟨r, hr, hid, -, htrigger, hnext⟩ := hend.row
  refine ⟨⟨r, hr, hid, htrigger, hnext⟩, ?_, hend.idle⟩
  rw [hfires, points, List.range_eq_range']
  rfl

section Sample

open Sample

/-- A schedule of a minute is written, and the minute passes. -/
noncomputable def minuteRun : List Event := [atStart, .command (conn 0 0) auth (nightly 60 none), wait 60]

/-- The row of the schedule. -/
def minuteRule : RuleRow where
  ruleId := "nightly"
  organizationId := "org-1"
  name := "Nightly"
  enabled := true
  trigger := (every 60 none).toValue
  conditions := storedConditions []
  actions := storedActions [comment (some "issue-1")]
  revision := 1
  nextFireAt := some (micros 60)
  rowSeq := 0
  createdAt := micros 0
  updatedAt := micros 0
  deletedAt := none

/-- Its timer comes, and a worker. -/
noncomputable def minuteBeat : Beat := ⟨conn 1 60, timer 60 "2030-01-01T00:01:00Z", takesOne served⟩

theorem minuteBeat_onTime (hmem : minuteRule ∈ ((automation datedEnv).run minuteRun).db.rules.rows) :
    OnTime datedEnv minuteRule 0 ((automation datedEnv).run minuteRun) minuteBeat where
  intake := conn_serves 1 60
  fresh := conn_freshIds [] (by simp) (by decide) (by decide)
  organizationId := rfl
  ruleId := rfl
  ids := by decide
  due := ⟨⟨start + 60 * nanosPerSecond, 0⟩, by decide, rfl, by decide, minuteRule, hmem, rfl, by decide⟩
  once := by decide
  call := takesOne_undisturbed served_answered
  room := by decide

/-- After one beat the schedule has fired once, and waits for the next minute. -/
theorem minute_keeps_firing :
    let w := (automation datedEnv).run minuteRun
    let w' := (beats datedEnv "org-1").runFrom w [minuteBeat]
    (∃ r ∈ w'.db.rules, r.ruleId = "nightly" ∧ r.trigger = minuteRule.trigger ∧
        r.nextFireAt = some (point (micros 60) (60 * microsPerSecond) 1)) ∧
      fireTimes datedEnv w'.db "nightly" = fireTimes datedEnv w.db "nightly" ++
        points (decodeTimestamptz (micros 60)).unixNanos (60 * nanosPerSecond) 1 ∧
      ∀ e ∈ w'.db.executions, e.ruleId = "nightly" → e.status.terminal = true := by
  have hmem : minuteRule ∈ ((automation datedEnv).run minuteRun).db.rules.rows := by
    have hrows : ((automation datedEnv).run minuteRun).db.rules.rows = [minuteRule] := by rfl
    rw [hrows]
    exact List.mem_singleton.2 rfl
  have hrange : InRange datedEnv ((automation datedEnv).run minuteRun).db := by
    have htriggers : ((automation datedEnv).run minuteRun).db.triggers.rows = [] := by rfl
    exact ⟨by decide, fun t ht => absurd (htriggers ▸ ht : t ∈ ([] : List TriggerRow)) List.not_mem_nil⟩
  exact schedule_keeps_firing datedEnv_uuidOK datedEnv_formatOK minuteRun hmem rfl rfl (by decide) 0 hrange
    (by decide) (by decide) ⟨minuteBeat_onTime hmem, trivial⟩

end Sample

end ProjectAutomation

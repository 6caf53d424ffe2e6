import ProjectAutomation.Proof.Redelivery
import ProjectAutomation.Proof.Timers
import ProjectAutomation.Spec.Sample

/-!
# Schedules that can still fire

* `CanFire`: the dispatch of a rule's fire time is under way and its timer not yet
  recorded, or an execution fired for that time is not over.
* `AdvancesOpen`: no completion moves a rule on to a time that has come and gone.
* `Pursued`: a recorded fire time has an execution that is not over. Every step that
  advances so keeps it, and so
* `no_stall`: every enabled schedule can fire.
-/

namespace ProjectAutomation

open Relational

variable {env : Env} {w w' : World} {event : Event} {s : Session}

/-- A rule that waits for `n` has a way to fire. -/
def CanFire (env : Env) (db : Database) (r : RuleRow) (n : ℤ) : Prop :=
  (∃ d ∈ db.dispatches, d.key = (r.ruleId, n) ∧ (d.state = .pending ∨ d.state = .enqueued) ∧
    ¬ Recorded db r.organizationId .timer (scheduleKey env r.ruleId (decodeTimestamptz n))) ∨
  ∃ e ∈ db.executions, e.ruleId = r.ruleId ∧ e.status.terminal = false ∧
    firedFor env db e = some (decodeTimestamptz n).unixNanos

instance (env : Env) (db : Database) (r : RuleRow) (n : ℤ) : Decidable (CanFire env db r n) :=
  inferInstanceAs (Decidable ((∃ d ∈ db.dispatches.rows, d.key = (r.ruleId, n) ∧
      (d.state = .pending ∨ d.state = .enqueued) ∧
      ¬ Recorded db r.organizationId .timer (scheduleKey env r.ruleId (decodeTimestamptz n))) ∨
    ∃ e ∈ db.executions.rows, e.ruleId = r.ruleId ∧ e.status.terminal = false ∧
      firedFor env db e = some (decodeTimestamptz n).unixNanos))

/-! ## Where a schedule moves on to -/

/-- The claim an event completes, when the claim holds its lease and the database serves it. -/
def completing (w : World) : Event → Option ClaimedExecution
  | .work conn executionId attempt _ =>
    match w.tasks (executionId, attempt) with
    | some ⟨claim, .finish result⟩ =>
      if (finalOf result).isSome ∧ w.db.executions.rows.any (·.heldBy claim conn.transactionTimestamp) ∧
          conn.ServesAll (completeStatements ++ advanceStatements) then
        some claim
      else none
    | _ => none
  | _ => none

/-- The instant that completing a claim moves a rule on to, when the driver can bind it. -/
def RuleRow.movesTo (env : Env) (claim : ClaimedExecution) (r : RuleRow) : Option OffsetDateTime :=
  match payloadScheduledFor env claim.payload with
  | .ok (some scheduledFor) =>
    if r.ruleId = claim.ruleId && r.live && r.awaits (some scheduledFor) then
      ((intervalSeconds r.trigger).bind scheduledFor.checkedAdd).filter (·.Bindable)
    else none
  | _ => none

/-- A completion moves its rule on to a time whose timer has not been recorded, or has an execution
that is not over. -/
def AdvancesOpen (env : Env) (w : World) (event : Event) : Prop :=
  ∀ claim ∈ completing w event, ∀ r ∈ w.db.rules.rows, ∀ next ∈ r.movesTo env claim,
    Recorded w.db r.organizationId .timer (scheduleKey env r.ruleId next) →
    ∃ e ∈ w.db.executions.rows, e.ruleId = r.ruleId ∧ e.status.terminal = false ∧
      firedFor env w.db e = some next.unixNanos

instance (env : Env) (w : World) (event : Event) : Decidable (AdvancesOpen env w event) :=
  inferInstanceAs (Decidable (∀ claim ∈ completing w event, ∀ r ∈ w.db.rules.rows,
    ∀ next ∈ r.movesTo env claim, Recorded w.db r.organizationId .timer (scheduleKey env r.ruleId next) →
    ∃ e ∈ w.db.executions.rows, e.ruleId = r.ruleId ∧ e.status.terminal = false ∧
      firedFor env w.db e = some next.unixNanos))

theorem Completes.completing {e : ExecutionRow} (h : Completes w event e) (he : e ∈ w.db.executions)
    (hs : ServesAdvance event) : ∃ claim, claim ∈ completing w event ∧ (∃ k phase, w.tasks k = some ⟨claim, phase⟩) ∧
      ∃ now, e.heldBy claim now = true := by
  obtain ⟨conn, providers, claim, result, succeeded, rfl, ht, hfin, hheld⟩ := h
  refine ⟨claim, ?_, ⟨_, _, ht⟩, _, hheld⟩
  have hany : w.db.executions.rows.any (·.heldBy claim conn.transactionTimestamp) = true :=
    List.any_eq_true.2 ⟨e, he, hheld⟩
  simp only [ProjectAutomation.completing, ht, hfin, Option.isSome_some, hany, hs _ _ _ _ rfl, and_self, if_true,
    Option.mem_def]

/-- If what a guarded advance moves on to has been recorded, it is being executed. -/
theorem AdvancesOpen.pursued {e : ExecutionRow} {t : TriggerRow} {rule : RuleRow}
    {scheduledFor next : OffsetDateTime} {interval : ℤ} (h : AdvancesOpen env w event) (hr : RefsOK env w)
    (hc : Completes w event e) (hs : ServesAdvance event) (he : e ∈ w.db.executions) (ht : t ∈ w.db.triggers)
    (hk : t.triggerId = e.triggerId) (hsf : payloadScheduledFor env t.payload = .ok (some scheduledFor))
    (hm : rule ∈ w.db.rules) (hid : rule.ruleId = e.ruleId) (hlive : rule.live = true)
    (hawait : rule.awaits (some scheduledFor) = true) (hi : intervalSeconds rule.trigger = some interval)
    (hadd : scheduledFor.checkedAdd interval = some next) (hbind : next.Bindable)
    (hrec : Recorded w.db rule.organizationId .timer (scheduleKey env rule.ruleId next)) :
    ∃ x ∈ w.db.executions, x.ruleId = rule.ruleId ∧ x.status.terminal = false ∧
      firedFor env w.db x = some next.unixNanos := by
  obtain ⟨claim, hcl, ⟨k, phase, htask⟩, now, hheld⟩ := hc.completing he hs
  -- the claim is a copy of its execution and of its trigger
  have hok : ClaimOK w.db claim := (hr.tasks _ _ htask).2
  obtain ⟨x, hx, hxid, -, hxt, -⟩ := hok.execution
  have hxe : x = e := Table.eq_of_key hx he (hxid.trans (heldBy_iff.1 hheld).1.symm)
  obtain ⟨hrule, -, hpay⟩ := hok.held he hheld ht (hk.trans (hxe ▸ hxt))
  have hmoves : next ∈ rule.movesTo env claim := by
    simp [RuleRow.movesTo, hpay, hsf, hid, hrule, hlive, hawait, hi, hadd, hbind]
  exact h claim hcl rule hm next hmoves hrec

/-! ## Recorded fire times -/

/-- A rule whose fire time has been recorded has an execution for it that is not over. -/
def Pursued (env : Env) (db : Database) : Prop :=
  ∀ r ∈ db.rules, ∀ n, r.nextFireAt = some n →
    Recorded db r.organizationId .timer (scheduleKey env r.ruleId (decodeTimestamptz n)) →
    ∃ e ∈ db.executions, e.ruleId = r.ruleId ∧ e.status.terminal = false ∧
      firedFor env db e = some (decodeTimestamptz n).unixNanos

/-- **A rule write sets a time no timer has come for.** -/
theorem Written.not_recorded {conn : Connection} {auth : Authorized} {request : CommandRequest}
    {old : Option RuleRow} {new : RuleRow} {n : OffsetDateTime} (huuid : env.UuidOK)
    (h : Written (w.session env conn) request old new (some n)) (hok : RuleOK env new)
    (hfound : w.db.rules.find? new.ruleId = old) (hw : WholeWrite env w (.command conn auth request))
    (hi : TimersOK env w) (organizationId : String) :
    ¬ Recorded w.db organizationId .timer
      (scheduleKey env new.ruleId (decodeTimestamptz (encodeTimestamptz n))) := by
  rintro ⟨t, ht, hk⟩
  obtain ⟨-, hk⟩ := Prod.mk.inj (sameKey_iff.1 hk)
  obtain ⟨hsrc, hk⟩ := Prod.mk.inj hk
  obtain ⟨ruleId, T, hT, hle⟩ := hi.triggers t ht hsrc
  rw [hT.dedupeKey] at hk
  -- the recorded instant is the new one, which the clock has not reached
  have heq : T.unixNanos = n.unixNanos := by
    rw [(scheduleKey_inj huuid hk).2]
    exact decode_encode_iff.2 ((h.whole hok hfound).2 hw)
  have hlt : w.clock < n.unixNanos := (initialNextFire_some hok.trigger h.initialNextFire_eq).1
  omega

/-- The timer of the very time a rule waits for fires the rule. -/
theorem timer_pursues (huuid : env.UuidOK) (hledger : DispatchLedger w.db) {request : ReceiveTimerRequest}
    {scheduledFor : OffsetDateTime} {receipt : TriggerReceipt} {trigger : TriggerRow} {es : List ExecutionRow}
    (horg : trigger.organizationId = request.organizationId) (hof : TimerOf env trigger request.ruleId scheduledFor)
    (hout : TimerOutcome s request.organizationId request.ruleId scheduledFor w.db receipt es)
    (hin : Intake s trigger es w.db w'.db) {r : RuleRow} (hrm : r ∈ w.db.rules) {n : ℤ} (hn : r.nextFireAt = some n)
    (ht : trigger ∈ w'.db.triggers)
    (hk : trigger.sameKey r.organizationId .timer (scheduleKey env r.ruleId (decodeTimestamptz n)) = true) :
    ∃ e ∈ w'.db.executions, e.ruleId = r.ruleId ∧ e.status.terminal = false ∧
      firedFor env w'.db e = some (decodeTimestamptz n).unixNanos := by
  obtain ⟨ho, hk⟩ := Prod.mk.inj (sameKey_iff.1 hk)
  rw [hof.dedupeKey] at hk
  obtain ⟨hid, heq⟩ := scheduleKey_inj huuid (Prod.mk.inj hk).2
  obtain ⟨hen, hlive, hkind⟩ := (hledger.fireTime r hrm).1 (by rw [hn]; rfl)
  rcases hout.cases with ⟨-, hno⟩ | ⟨rule, e, rfl, -, -, -, hrid, hpend⟩
  · have hfalse := hno r hrm (liveAt_iff.2 ⟨ho.symm.trans horg, hid.symm, hlive⟩)
    have htrue := firesAt_iff.2 ⟨hen, hkind, n, hn, heq.symm⟩
    rw [htrue] at hfalse
    cases hfalse
  · refine ⟨e, hin.mem_executions.2 (Or.inr List.mem_cons_self), hrid.trans hid, by rw [hpend]; rfl, ?_⟩
    rw [firedFor_of_mem ht (hin.triggerId_eq List.mem_cons_self).symm]
    exact firesFor_eq_some.2 ⟨hof.source, scheduledFor, hof.payload, heq⟩

/-- An execution that ends, and whose rule waits for another time, pursued no time that is waited for. -/
theorem Ends.ne_of_pursued (hledger : DispatchLedger w.db) {e e' x : ExecutionRow} (h : Ends e e' w.db w'.db)
    (hno : ∀ t ∈ w.db.triggers, t.triggerId = e.triggerId → t.source = .timer → ∀ rule ∈ w.db.rules,
      rule.ruleId = e.ruleId → rule.live = true → ∀ scheduledFor,
      payloadScheduledFor env t.payload = .ok scheduledFor → rule.awaits scheduledFor = false)
    (hx : x ∈ w.db.executions) {r : RuleRow} (hrm : r ∈ w.db.rules) (hid : x.ruleId = r.ruleId) {n : ℤ}
    (hn : r.nextFireAt = some n) (hfor : firedFor env w.db x = some (decodeTimestamptz n).unixNanos) :
    x.executionId ≠ e'.executionId := by
  intro hk
  -- had it been the execution that ended, its rule would have moved on
  have hxe := Table.eq_of_key hx h.there (hk.trans h.continues.executionId)
  obtain ⟨t, htm, htk, hsrc, T, hT, hTn⟩ := firedFor_eq_some.1 hfor
  obtain ⟨hen, hlive, hkind⟩ := (hledger.fireTime r hrm).1 (by rw [hn]; rfl)
  have hfalse := hno t htm (htk.trans (congrArg _ hxe)) hsrc r hrm (hid.symm.trans (congrArg _ hxe)) hlive _ hT
  have htrue : r.awaits (some T) = true :=
    awaits_iff.2 ⟨hen, hkind, by rw [hn]; exact congrArg some hTn.symm⟩
  rw [htrue] at hfalse
  cases hfalse

/-- **A recorded fire time stays pursued.** -/
theorem step_pursued (huuid : env.UuidOK) (h : Step env w event w') (hr : RefsOK env w)
    (hrules : ∀ r ∈ w.db.rules, RuleOK env r) (hledger : DispatchLedger w.db) (hti : TimersOK env w)
    (hw : WholeWrite env w event) (hopen : AdvancesOpen env w event) (hi : Pursued env w.db) :
    Pursued env w'.db := by
  intro r hrm n hn hrec
  -- an execution that goes on unended keeps pursuing
  have hgo : ∀ {e : ExecutionRow}, e ∈ w.db.executions → e.ruleId = r.ruleId → e.status.terminal = false →
      firedFor env w.db e = some (decodeTimestamptz n).unixNanos → e ∈ w'.db.executions →
      ∃ e ∈ w'.db.executions, e.ruleId = r.ruleId ∧ e.status.terminal = false ∧
        firedFor env w'.db e = some (decodeTimestamptz n).unixNanos := by
    intro e he hid hopen hfor he'
    exact ⟨e, he', hid, hopen, (step_firedFor h hr.linked he (.refl e)).trans hfor⟩
  cases step_fire h hr with
  | still hrl ht hk =>
    rw [hrl] at hrm
    unfold Recorded at hrec
    rw [ht] at hrec
    obtain ⟨e, he, hid, hopen, hfor⟩ := hi r hrm n hn hrec
    obtain ⟨e', he', hc⟩ := step_continues h he
    obtain ⟨e₀, he₀, hc₀, hst⟩ := hk.status e' he'
    have : e₀ = e := Table.eq_of_key he₀ he (hc₀.executionId.symm.trans hc.executionId)
    subst this
    exact ⟨e', he', hc.ruleId.trans hid, hst.trans hopen, (step_firedFor h hr.linked he hc).trans hfor⟩
  | @written _ _ _ _ _ next hev hv hwr hws ht he =>
    subst hev
    unfold Recorded at hrec
    rw [ht] at hrec
    rcases hws.rules.cases hrm with rfl | ⟨hrm, -⟩
    · rw [hws.nextFireAt] at hn
      obtain ⟨N, rfl, rfl⟩ := Option.map_eq_some_iff.1 hn
      have hok : RuleOK env r := hwr.ruleOK hv (by
        rintro o rfl; exact hrules o (Table.find?_eq_some.1 hws.found).1)
      exact absurd hrec (hwr.not_recorded huuid hok hws.found hw hti _)
    · obtain ⟨e, hem, hid, hopen, hfor⟩ := hi r hrm n hn hrec
      exact hgo hem hid hopen hfor (he ▸ hem)
  | event hsrc hin =>
    obtain ⟨t, ht, hk⟩ := hrec
    rcases hin.mem_triggers.1 ht with ht | rfl
    · obtain ⟨e, hem, hid, hopen, hfor⟩ := hi r (hin.rules ▸ hrm) n hn ⟨t, ht, hk⟩
      exact hgo hem hid hopen hfor (hin.mem_executions.2 (Or.inl hem))
    · have := congrArg (·.2.1) (sameKey_iff.1 hk)
      simp only [hsrc] at this
      cases this
  | timer _ _ horg hof hout hin =>
    rw [hin.rules] at hrm
    obtain ⟨t, ht, hk⟩ := hrec
    rcases hin.mem_triggers.1 ht with ht | rfl
    · obtain ⟨e, hem, hid, hopen, hfor⟩ := hi r hrm n hn ⟨t, ht, hk⟩
      exact hgo hem hid hopen hfor (hin.mem_executions.2 (Or.inl hem))
    · exact timer_pursues huuid hledger horg hof hout hin hrm hn ht hk
  | ended hends hrl ht hno =>
    rw [hrl] at hrm
    unfold Recorded at hrec
    rw [ht] at hrec
    obtain ⟨x, hx, hid, hopen, hfor⟩ := hi r hrm n hn hrec
    exact hgo hx hid hopen hfor
      (hends.executions.of_ne hx (hends.ne_of_pursued hledger hno hx hrm hid hn hfor))
  | @advanced e e' t rule scheduledFor next interval now hcomp hends htm htk hsrc hsf hid hlive hawait hint hadd
      hws ht hserved =>
    unfold Recorded at hrec
    rw [ht] at hrec
    have hrule := (Table.find?_eq_some.1 hws.found).1
    rcases hws.rules.cases hrm with rfl | ⟨hrm, hne⟩
    · cases hn
      have hnanos := OffsetDateTime.checkedAdd_eq_some hadd
      have hback : (decodeTimestamptz (encodeTimestamptz next)).unixNanos = next.unixNanos :=
        decode_encode_iff.2 ((wholeMicros_add_seconds hnanos).2 (awaits_whole hawait))
      rw [scheduleKey_congr hback] at hrec
      obtain ⟨x, hx, hxid, hxopen, hfor⟩ :=
        hopen.pursued hr hcomp hserved hends.there htm htk hsf hrule hid hlive hawait hint hadd
          (hws.dispatches.bindable _ rfl) hrec
      refine hgo hx hxid hxopen (hback ▸ hfor) (hends.executions.of_ne hx fun hk => ?_)
      -- the execution that ended was fired one interval before
      have hxe : x = e := Table.eq_of_key hx hends.there (hk.trans hends.continues.executionId)
      have hcur : firedFor env w.db e = some scheduledFor.unixNanos :=
        firedFor_eq_some.2 ⟨t, htm, htk, hsrc, scheduledFor, hsf, rfl⟩
      obtain ⟨i, hi', hge, -⟩ := (hrules rule hrule).trigger.interval (awaits_iff.1 hawait).2.1
      rw [hint] at hi'
      cases hi'
      rw [hxe, hcur, Option.some.injEq, hnanos] at hfor
      unfold nanosPerSecond at hfor
      omega
    · obtain ⟨x, hx, hxid, hopen, hfor⟩ := hi r hrm n hn hrec
      refine hgo hx hxid hopen hfor (hends.executions.of_ne hx fun hk => hne ?_)
      -- the execution that ended belongs to the rule that moved on
      have hxe := Table.eq_of_key hx hends.there (hk.trans hends.continues.executionId)
      exact hxid.symm.trans ((congrArg _ hxe).trans hid.symm)

/-! ## Runs -/

/-- **No stalled schedule.** In a run whose rule writes count from whole microseconds, whose timers
come no earlier than their times, and whose completions move no rule on to a time that has come and gone,
every enabled schedule has a fire time and a way to fire for it, in every state reached. -/
theorem no_stall (huuid : env.UuidOK) {is : List Event}
    (ha : (automation env).Along (fun w event => WholeWrite env w event ∧ TimersDue env w event ∧
      AdvancesOpen env w event) World.init is) :
    let w := (automation env).run is
    ∀ r ∈ w.db.rules, r.live = true → r.enabled = true → triggerKind r.trigger = some "schedule" →
      ∃ n, r.nextFireAt = some n ∧ CanFire env w.db r n := by
  intro w r hr hlive hen hkind
  obtain ⟨-, -, -, hi⟩ : (∀ r ∈ w.db.rules, RuleOK env r) ∧ DispatchLedger w.db ∧ TimersOK env w ∧
      Pursued env w.db := by
    refine inv_along (I := fun w => (∀ r ∈ w.db.rules, RuleOK env r) ∧ DispatchLedger w.db ∧
      TimersOK env w ∧ Pursued env w.db) ⟨?_, .init, .init, ?_⟩ ?_ ha
    · exact fun r hr => absurd hr (Table.not_mem_empty r)
    · exact fun r hr => absurd hr (Table.not_mem_empty r)
    · rintro w event w' hrefs ⟨hw, hdue, hopen⟩ hstep ⟨hrules, hledger, hti, hp⟩
      exact ⟨step_rules hstep hrules, step_ledger hstep hledger, step_timers hstep hrefs hdue hti,
        step_pursued huuid hstep hrefs hrules hledger hti hw hopen hp⟩
  have hledger : DispatchLedger w.db := (run_ledger is).1
  obtain ⟨n, hn⟩ := Option.isSome_iff_exists.1 ((hledger.fireTime r hr).2 ⟨hen, hlive, hkind⟩)
  refine ⟨n, hn, ?_⟩
  by_cases hrec : Recorded w.db r.organizationId .timer (scheduleKey env r.ruleId (decodeTimestamptz n))
  · exact Or.inr (hi r hr n hn hrec)
  · obtain ⟨d, hd, hid, htime, hst⟩ := hledger.current r hr n hn
    refine Or.inl ⟨d, hd, Prod.ext hid htime, ?_, hrec⟩
    cases hs : d.state with
    | pending => exact Or.inl rfl
    | enqueued => exact Or.inr rfl
    | cancelled => exact absurd hs hst

section Sample

open Sample

/-- The schedule fires for its first minute and moves on to the second. -/
noncomputable def nightlyRun : List Event :=
  atStart :: sendsOut (nightly 60 none) 0 "job-1" ++
    [wait 60, .receiveTimer (conn 1 60) (timer 60 "2030-01-01T00:01:00Z"), claims 60] ++ works 60 1 served 5

theorem no_stall_nightly :
    let db := ((automation Sample.env).run nightlyRun).db
    ∃ r ∈ db.rules, r.nextFireAt = some (micros 120) ∧ CanFire Sample.env db r (micros 120) := by
  intro db
  obtain ⟨r, hr, hlive, hen, hkind, hn⟩ : ∃ r ∈ db.rules.rows, r.live = true ∧ r.enabled = true ∧
      triggerKind r.trigger = some "schedule" ∧ r.nextFireAt = some (micros 120) := by
    decide
  have ha : (automation Sample.env).Along (fun w event => WholeWrite Sample.env w event ∧
      TimersDue Sample.env w event ∧ AdvancesOpen Sample.env w event) World.init nightlyRun := by
    decide
  obtain ⟨n, hn', hcan⟩ := no_stall uuidOK ha r hr hlive hen hkind
  cases hn.symm.trans hn'
  exact ⟨r, hr, hn, hcan⟩

/-- A timer comes from a job that has been taken. -/
def FromJobs (w : World) : Event → Prop
  | .receiveTimer _ request => ∃ job ∈ w.jobs, job.request.payload = request
  | _ => True

instance (w : World) (event : Event) : Decidable (FromJobs w event) :=
  match event with
  | .receiveTimer _ request => inferInstanceAs (Decidable (∃ job ∈ w.jobs, job.request.payload = request))
  | .tick _ | .receiveEvent _ _ | .command _ _ _ | .pendingDispatches _ _ _ | .flush _ _ _
  | .claimExecutions _ _ _ _ _ _ | .work _ _ _ _ => isTrue trivial

/-- The timer for the second minute was sent out before the schedule was sped up, and comes before the
execution of the first minute is over: it is ignored, but recorded. -/
noncomputable def staleRun : List Event :=
  atStart :: sendsOut (nightly 120 none) 0 "job-1" ++ sendsOut speedUp 1 "job-2" ++
    [wait 60, .receiveTimer (conn 1 60) (timer 60 "2030-01-01T00:01:00Z"),
      wait 60, .receiveTimer (conn 2 120) (timer 120 "2030-01-01T00:02:00Z"), claims 120] ++ works 120 1 served 5

/-- **The recorded timer stalls the schedule** once the first execution moves it on to the second minute. -/
theorem stale_timer_stalls :
    (automation Sample.env).Along (fun w event => WholeWrite Sample.env w event ∧
      TimersDue Sample.env w event ∧ FromJobs w event) World.init staleRun ∧
    ∃ r ∈ ((automation Sample.env).run staleRun).db.rules.rows, r.live = true ∧ r.enabled = true ∧
      triggerKind r.trigger = some "schedule" ∧ ∃ n ∈ r.nextFireAt,
        ¬ CanFire Sample.env ((automation Sample.env).run staleRun).db r n := by
  constructor <;> decide

end Sample

end ProjectAutomation

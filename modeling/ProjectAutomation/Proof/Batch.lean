import ProjectAutomation.Proof.Calls
import ProjectAutomation.Proof.NoStall
import ProjectAutomation.Proof.Resume

/-!
# A batch of executions

`reconcile` claims its batch at once and settles it one by one. With a database that serves
and leases that last, only its own early returns keep it from giving every lease up.

* `Interrupted`: an action still to be done meets a runtime failure; `Stopped.interrupted_iff`
  reads it off the loop.
* `completeExecution_serves`, `releaseExecutionForRetry_serves`: what ends a loop body goes
  through, but for a schedule that has no next instant (`rulesAfter`).
* `settleExecution_settles`: what one loop body leaves of its execution, and what it leaves alone.
* `reconcile_releases_claims`: which batches are given up whole (`Clears`).
-/

namespace ProjectAutomation

open Relational

variable {env : Env} {w w' : World} {s : Session} {db : Database}

/-! ## Reachable dispatches and timers -/

/-- The dispatches carry the keys of the instants they were stored for. -/
def DispatchesKeyed (env : Env) (db : Database) : Prop :=
  ∀ d ∈ db.dispatches, ∃ n, d.scheduledFor = encodeTimestamptz n ∧ d.idempotencyKey = scheduleKey env d.ruleId n

theorem run_dispatchesKeyed (is : List Event) : DispatchesKeyed env ((automation env).run is).db := by
  have h := inv_always (I := fun w => (∀ r ∈ w.db.rules, RuleOK env r) ∧ ∀ d ∈ w.db.dispatches, ∃ n,
      encodeTimestamptz n = d.scheduledFor ∧ d.idempotencyKey = scheduleKey env d.ruleId n)
    ⟨fun r hr => absurd hr (Table.not_mem_empty r), fun d hd => absurd hd (Table.not_mem_empty d)⟩
    (fun _ hstep hi => ⟨step_rules hstep hi.1, fun d' hd' => ?_⟩) is
  · intro d hd
    obtain ⟨n, hn, hk⟩ := h.2 d hd
    exact ⟨n, hn.symm, hk⟩
  · rcases step_dispatch hstep hi.1 hd' with ⟨d, hd, hcopy⟩ | ⟨n, hs⟩
    · obtain ⟨n, hn, hk⟩ := hi.2 d hd
      obtain ⟨hrule, -, -, hkey⟩ := ScheduleDispatch.mk.inj hcopy
      have htime : d.scheduledFor = d'.scheduledFor := congrArg Prod.snd
        ((copy_key hcopy).trans (copy_key (rfl : d'.copy = d'.copy)).symm)
      exact ⟨n, hn.trans htime, by rw [← hkey, ← hrule, hk]⟩
    · exact ⟨n, hs.scheduledFor.symm, hs.idempotencyKey⟩

/-- The instant of a timer can be read. -/
def TimersRead (env : Env) (db : Database) : Prop :=
  ∀ t ∈ db.triggers, t.source = .timer →
    ∃ scheduledFor, payloadScheduledFor env t.payload = .ok (some scheduledFor)

theorem run_timersRead (is : List Event) : TimersRead env ((automation env).run is).db := by
  refine inv_always (I := fun w => TimersRead env w.db) (fun t ht => absurd ht (Table.not_mem_empty t)) ?_ is
  intro w event w' hrefs hstep hi
  cases step_fire hstep hrefs with
  | still _ ht _ | written _ _ _ _ ht _ | ended _ _ ht _ | advanced _ _ _ _ _ _ _ _ _ _ _ _ ht =>
    exact fun t hm => hi t (ht ▸ hm)
  | event hsrc hin =>
    intro t ht hs
    rcases hin.mem_triggers.1 ht with ht | rfl
    · exact hi t ht hs
    · rw [hsrc] at hs; cases hs
  | timer _ _ _ hof _ hin =>
    intro t ht hs
    rcases hin.mem_triggers.1 ht with ht | rfl
    · exact hi t ht hs
    · exact ⟨_, hof.payload⟩

/-! ## Interrupted loops -/

/-- An action still to be done meets a runtime failure, and the ones before it are done. -/
def Interrupted (turns : ℕ → Turn) (claim : ClaimedExecution) (db : Database) : Prop :=
  ∃ i < claim.actions.length, todo db claim i = true ∧
    (∃ failure, (attempted (turns i).providers claim i (keyAt db.receipts claim.executionId i)).2 =
      .error (.runtime failure)) ∧
    ∀ j < i, todo db claim j = true →
      ∃ response, (attempted (turns j).providers claim j (keyAt db.receipts claim.executionId j)).2 = .ok response

/-- The database serves what the loop asks of it. -/
def LoopServes (turns : ℕ → Turn) : Prop := ∀ i, (turns i).status.Serves ∧ (turns i).complete.Serves

section Interrupted

variable {turns : ℕ → Turn} {claim : ClaimedExecution} {out : Performed} {stop : ℕ}

/-- What the loop meets at an action it went past, or stopped at. -/
theorem Stopped.passed_attempt (h : Stopped turns claim 0 db out stop) {i : ℕ} (hi : i < stop)
    (htodo : todo db claim i = true) : ∃ response,
      (attempted (turns i).providers claim i (keyAt db.receipts claim.executionId i)).2 = .ok response := by
  obtain ⟨row, row', hrow, -, hp⟩ := h.passed i (Nat.zero_le _) hi
  rw [todo_of_find? hrow, decide_eq_true_eq] at htodo
  obtain ⟨response, hr, -⟩ := hp.response htodo
  exact ⟨response, by rw [keyAt_of_find? hrow]; exact hr⟩

theorem Stopped.halted_attempt (h : Stopped turns claim 0 db out stop) (hserves : LoopServes turns)
    (hlt : stop < claim.actions.length) : todo db claim stop = true ∧ ∃ e, out.result = .error e ∧
      (attempted (turns stop).providers claim stop (keyAt db.receipts claim.executionId stop)).2 = .error e := by
  obtain ⟨row, row', e, hrow, -, hres, hh⟩ := h.halted hlt
  rw [todo_of_find? hrow, decide_eq_true_eq, keyAt_of_find? hrow]
  cases hh with
  | refused hne hr _ _ => exact ⟨hne, _, hres, hr⟩
  | interrupted _ _ hr =>
    rcases hr with ⟨hne, hr | hr⟩ | hr
    · exact ⟨hne, _, hres, hr⟩
    · exact absurd (hserves stop).2 hr
    · exact absurd (hserves stop).1 hr

/-- **A run ends with a runtime failure** exactly when it is interrupted. -/
theorem Stopped.interrupted_iff (h : Stopped turns claim 0 db out stop) (hserves : LoopServes turns) :
    (∃ failure, out.result = .error (.runtime failure)) ↔ Interrupted turns claim db := by
  constructor
  · rintro ⟨failure, hres⟩
    have hlt : stop < claim.actions.length := by
      have hne : stop ≠ claim.actions.length := by
        intro he
        rw [h.ok_iff.2 he] at hres
        cases hres
      have := h.within
      omega
    obtain ⟨htodo, e, he, hr⟩ := h.halted_attempt hserves hlt
    rw [he] at hres
    cases hres
    exact ⟨stop, hlt, htodo, ⟨failure, hr⟩, fun j hj => h.passed_attempt hj⟩
  · rintro ⟨i, hi, htodo, ⟨failure, hr⟩, hbefore⟩
    rcases Nat.lt_trichotomy stop i with hlt | rfl | hgt
    · obtain ⟨htodo', e, -, he⟩ := h.halted_attempt hserves (by omega)
      obtain ⟨response, hok⟩ := hbefore stop hlt htodo'
      rw [he] at hok
      cases hok
    · obtain ⟨-, e, hres, he⟩ := h.halted_attempt hserves hi
      rw [hr] at he
      cases he
      exact ⟨failure, hres⟩
    · obtain ⟨response, hok⟩ := h.passed_attempt hgt htodo
      rw [hr] at hok
      cases hok

end Interrupted

/-! ## Giving a lease up -/

/-- The execution a claim holds until an instant. -/
def Held (db : Database) (claim : ClaimedExecution) (expiry : ℤ) : Prop :=
  ∃ e ∈ db.executions, e.executionId = claim.executionId ∧ e.attempts = claim.attempt ∧ e.status = .running ∧
    e.leaseOwner = some claim.worker ∧ e.leaseUntil = some expiry

/-- The execution of a claim is no longer running under its attempt. -/
def Released (db : Database) (claim : ClaimedExecution) : Prop :=
  ∃ e ∈ db.executions.rows, e.executionId = claim.executionId ∧ e.attempts = claim.attempt ∧ e.status ≠ .running

instance (db : Database) (claim : ClaimedExecution) : Decidable (Released db claim) :=
  inferInstanceAs (Decidable (∃ e ∈ db.executions.rows, _))

theorem Held.not_released {claim : ClaimedExecution} {expiry : ℤ} (h : Held db claim expiry) :
    ¬ Released db claim := by
  rintro ⟨x, hx, hxid, -, hne⟩
  obtain ⟨e, he, hid, -, hrun, -⟩ := h
  rw [Table.eq_of_key hx he (hxid.trans hid.symm)] at hne
  exact hne hrun

theorem leaveExecution_serves (operation attemptOperation : String) {claim : ClaimedExecution}
    (status : ExecutionStatus) (attemptStatus : AttemptStatus) (failure : Option String) (hserves : s.Serves)
    {expiry : ℤ} (hheld : Held db claim expiry) (hlease : s.transactionTimestamp ≤ expiry) :
    ∃ e db', leaveExecution s operation attemptOperation claim status attemptStatus failure db = .ok ((), db') ∧
      Left s claim status attemptStatus failure e db db' := by
  obtain ⟨e, he, hid, hatt, hrun, howner, hlu⟩ := hheld
  have hheldBy : e.heldBy claim s.transactionTimestamp = true :=
    heldBy_iff.2 ⟨hid, hatt, hrun, howner, expiry, hlu, hlease⟩
  have hone : db.executions.affected (ExecutionRow.heldBy claim s.transactionTimestamp) = 1 :=
    (Table.affected_eq_one fun x _ hx => (heldBy_iff.1 hx).1).2 ⟨e, he, hheldBy⟩
  obtain ⟨db', hok⟩ : ∃ db', leaveExecution s operation attemptOperation claim status attemptStatus failure db =
      .ok ((), db') := by
    unfold leaveExecution
    rw [statement_bind_serves (hserves _), Txn.get_bind]
    simp only
    rw [if_neg (not_ne_iff.2 hone), statement_bind_serves (hserves _)]
    exact ⟨_, rfl⟩
  obtain ⟨-, e', hleft⟩ := leaveExecution_ok hok
  exact ⟨e', db', hok, hleft⟩

/-- An execution that was left is released, when it is not left running. -/
theorem Left.released {claim : ClaimedExecution} {status : ExecutionStatus} {attemptStatus : AttemptStatus}
    {failure : Option String} {e : ExecutionRow} {db' : Database}
    (h : Left s claim status attemptStatus failure e db db') (hne : status ≠ .running) : Released db' claim := by
  obtain ⟨hid, hatt, -⟩ := heldBy_iff.1 h.held
  exact ⟨_, h.executions.mem, hid, hatt, hne⟩

/-- `release_execution_for_retry` goes through while the lease lasts. -/
theorem releaseExecutionForRetry_serves {claim : ClaimedExecution} (failure : String) (hserves : s.Serves)
    (hanswers : s.Answers) {expiry : ℤ} (hheld : Held db claim expiry) (hlease : s.transactionTimestamp ≤ expiry) :
    ∃ e db', releaseExecutionForRetry s claim failure db = .ok (.commit (), db') ∧
      Left s claim .pending .retryable (some failure) e db db' := by
  obtain ⟨e, db', hok, hleft⟩ := leaveExecution_serves "release execution" "complete retryable attempt" .pending
    .retryable (some failure) hserves hheld hlease
  refine ⟨e, db', ?_, hleft⟩
  unfold releaseExecutionForRetry
  rw [statement_bind_serves (hserves _), Txn.bind_of_ok hok, commit_serves hserves hanswers]

/-! ## Moving a schedule on -/

/-- The instant a rule waits for after `scheduledFor`: none when it is out of range at the offset of
`scheduledFor`, or at UTC, where the driver binds it. -/
def nextInstant (rule : RuleRow) (scheduledFor : OffsetDateTime) : Option OffsetDateTime :=
  ((intervalSeconds rule.trigger).bind scheduledFor.checkedAdd).filter fun next => next.Bindable

/-- The rules once the schedule advance of a claim ran at `now`: a rule that still waits for the claim waits
for the next instant. None when there is no such instant. -/
def advancedRules (env : Env) (claim : ClaimedExecution) (now : ℤ) (rules : Table RuleRow.ruleId) :
    Option (Table RuleRow.ruleId) :=
  match rules.rows.find? (fun r => r.ruleId = claim.ruleId && r.live), payloadScheduledFor env claim.payload with
  | some rule, .ok (some scheduledFor) =>
    if rule.awaits (some scheduledFor) then
      (nextInstant rule scheduledFor).map fun next =>
        rules.update (fun r => r.ruleId = claim.ruleId) (RuleRow.advance (encodeTimestamptz next) now)
          ⟨fun _ => rfl⟩
    else some rules
  | _, _ => some rules

/-- The rules once `claim` is completed at `now`; only a timer moves its rule on. -/
def rulesAfter (env : Env) (triggers : Table TriggerRow.triggerId) (claim : ClaimedExecution) (now : ℤ)
    (rules : Table RuleRow.ruleId) : Option (Table RuleRow.ruleId) :=
  if (triggers.find? claim.triggerId).any (·.source = .timer) then advancedRules env claim now rules
  else some rules

/-- The keys stay what they are while superseded dispatches are cancelled. -/
theorem DispatchesKeyed.cancelPending (h : DispatchesKeyed env db) (ruleId : String) (keep : Option ℤ) :
    ∀ d ∈ ProjectAutomation.cancelPending ruleId keep db.dispatches, ∃ n,
      d.scheduledFor = encodeTimestamptz n ∧ d.idempotencyKey = scheduleKey env d.ruleId n := by
  intro d hd
  obtain ⟨d₀, hd₀, rfl⟩ := Table.mem_update.1 hd
  obtain ⟨n, hn, hk⟩ := h d₀ hd₀
  split
  · exact ⟨n, hn, hk⟩
  · exact ⟨n, hn, hk⟩

/-- A rule that waits for another instant gets its dispatch: no other rule and no other instant has its key. -/
theorem replacePendingSchedule_serves (hserves : s.Serves) (huuid : s.env.UuidOK) {db : Database}
    (hkeyed : DispatchesKeyed s.env db) (organizationId ruleId : String) {next : OffsetDateTime}
    (hbind : next.Bindable) :
    ∃ db', replacePendingSchedule s organizationId ruleId (some next) db = .ok ((), db') := by
  have hcancelled := hkeyed.cancelPending ruleId (some (encodeTimestamptz next))
  unfold replacePendingSchedule upsertDispatch
  simp only
  rw [bindTimestamptz_of_bindable hbind, ofExcept_bind, statement_bind_serves (hserves _), Txn.modify_bind,
    statement_bind_serves (hserves _), Txn.get_bind]
  simp only
  split
  · exact ⟨_, rfl⟩
  rename_i habs
  have hnone : ∀ d ∈ cancelPending ruleId (some (encodeTimestamptz next)) db.dispatches,
      d.key ≠ (newDispatch s.env organizationId ruleId next).key := by
    rw [← Table.find?_eq_none]
    exact Option.not_isSome_iff_eq_none.1 habs
  have hfree : ¬ (cancelPending ruleId (some (encodeTimestamptz next)) db.dispatches).rows.any
      (fun d => d.idempotencyKey = (newDispatch s.env organizationId ruleId next).idempotencyKey) = true := by
    intro h
    obtain ⟨d, hd, hk⟩ := List.any_eq_true.1 h
    have hk : d.idempotencyKey = scheduleKey s.env ruleId next := of_decide_eq_true hk
    obtain ⟨n, hn, hkey⟩ := hcancelled d hd
    -- the key names the rule and the instant, hence the row
    obtain ⟨hid, hnanos⟩ := scheduleKey_inj huuid (hkey.symm.trans hk)
    have hcolumn : d.scheduledFor = encodeTimestamptz next := by
      rw [hn]
      unfold encodeTimestamptz
      rw [hnanos]
    exact hnone d hd (Prod.ext hid hcolumn)
  rw [if_neg hfree]
  obtain ⟨t, hins⟩ : ∃ t, (cancelPending ruleId (some (encodeTimestamptz next)) db.dispatches).insert?
      (newDispatch s.env organizationId ruleId next) = some t := by
    rw [← Option.ne_none_iff_exists', ne_eq, Table.insert?_eq_none]
    rintro ⟨d, hd, hk⟩
    exact hnone d hd hk
  rw [hins]
  exact ⟨_, rfl⟩

theorem replacePendingSchedule_rules {organizationId ruleId : String} {next : Option OffsetDateTime}
    {r : Unit × Database} (h : replacePendingSchedule s organizationId ruleId next db = .ok r) :
    r.2.rules = db.rules := by
  obtain ⟨t, rfl, -⟩ := replacePendingSchedule_ok h
  rfl

/-- **The schedule advance** goes through, but for a next instant that is out of range. -/
theorem advanceRule_serves {claim : ClaimedExecution} {scheduledFor : OffsetDateTime} (hserves : s.Serves)
    (huuid : s.env.UuidOK) (hkeyed : DispatchesKeyed s.env db)
    (hread : payloadScheduledFor s.env claim.payload = .ok (some scheduledFor)) :
    (advancedRules s.env claim s.transactionTimestamp db.rules = none ∧ ∃ e, advanceRule s claim db = .error e) ∨
      ∃ db', advancedRules s.env claim s.transactionTimestamp db.rules = some db'.rules ∧
        advanceRule s claim db = .ok ((), db') := by
  unfold advancedRules advanceRule
  rw [statement_bind_serves (hserves _), Txn.get_bind, hread]
  cases hf : db.rules.rows.find? (fun r => r.ruleId = claim.ruleId && r.live) with
  | none => exact Or.inr ⟨db, rfl, rfl⟩
  | some rule =>
    simp only
    rw [ofExcept_bind]
    by_cases hawaits : rule.awaits (some scheduledFor) = true
    · rw [if_pos hawaits, if_pos hawaits]
      cases hi : intervalSeconds rule.trigger with
      | none => exact Or.inl ⟨by simp [nextInstant, hi], _, rfl⟩
      | some interval =>
        cases hadd : scheduledFor.checkedAdd interval with
        | none =>
          refine Or.inl ⟨by rw [nextInstant, hi, Option.bind_some, hadd]; rfl, runtime "advance recurring rule"
            "next fire is out of range", ?_⟩
          simp only [orInvalid, ofExcept_bind, hadd, orRuntime]
          rfl
        | some next =>
          by_cases hbind : next.Bindable
          swap
          · -- the date is in range at the offset of the payload, and not at UTC
            refine Or.inl ⟨by simp [nextInstant, hi, hadd, hbind], .panic "local datetime out of valid range", ?_⟩
            simp only [orInvalid, ofExcept_bind, hadd, orRuntime, bindTimestamptz, if_neg hbind]
            rfl
          let rules := db.rules.update (fun r => r.ruleId = claim.ruleId)
            (RuleRow.advance (encodeTimestamptz next) s.transactionTimestamp) ⟨fun _ => rfl⟩
          have hkeyed' : DispatchesKeyed s.env { db with rules } := hkeyed
          obtain ⟨db', hdb⟩ := replacePendingSchedule_serves hserves huuid hkeyed'
            rule.organizationId claim.ruleId hbind
          refine Or.inr ⟨db', ?_, ?_⟩
          · rw [replacePendingSchedule_rules hdb]
            simp [nextInstant, hi, hadd, hbind, rules]
          · simp only [orInvalid, ofExcept_bind, hadd, orRuntime]
            rw [bindTimestamptz_of_bindable hbind, ofExcept_bind, statement_bind_serves (hserves _), Txn.get_bind,
              Txn.set_bind]
            exact hdb
    · rw [if_neg hawaits, if_neg hawaits]
      exact Or.inr ⟨db, rfl, rfl⟩

section Finish

variable {claim : ClaimedExecution} {expiry : ℤ}

/-- **`complete_execution`** goes through while the lease lasts, but for a schedule that cannot move on. -/
theorem completeExecution_serves (succeeded : Bool) (failure : Option String) (hserves : s.Serves)
    (hanswers : s.Answers) (huuid : s.env.UuidOK) (hkeyed : DispatchesKeyed s.env db) (hread : TimersRead s.env db)
    (hheld : Held db claim expiry) (hlease : s.transactionTimestamp ≤ expiry)
    (htrigger : ∃ t ∈ db.triggers, t.triggerId = claim.triggerId ∧ t.payload = claim.payload) :
    (rulesAfter s.env db.triggers claim s.transactionTimestamp db.rules = none ∧
        ∃ e, completeExecution s claim succeeded failure db = .error e) ∨
      ∃ db', rulesAfter s.env db.triggers claim s.transactionTimestamp db.rules = some db'.rules ∧
        completeExecution s claim succeeded failure db = .ok (.commit (), db') := by
  obtain ⟨t, ht, hid, hpayload⟩ := htrigger
  have hfind : db.triggers.find? claim.triggerId = some t := Table.find?_eq_some.2 ⟨ht, hid⟩
  obtain ⟨e, db₁, hleave, hleft⟩ : ∃ e db₁, leaveExecution s "complete execution" "complete attempt" claim
      (finalStatus succeeded) (finalAttempt succeeded) failure db = .ok ((), db₁) ∧
      Left s claim (finalStatus succeeded) (finalAttempt succeeded) failure e db db₁ :=
    leaveExecution_serves _ _ _ _ _ hserves hheld hlease
  have hkeyed₁ : DispatchesKeyed s.env db₁ := by
    unfold DispatchesKeyed
    rw [hleft.dispatches]
    exact hkeyed
  unfold completeExecution rulesAfter
  rw [statement_bind_serves (hserves _)]
  simp only
  have hleave' := hleave
  unfold finalStatus finalAttempt at hleave'
  rw [Txn.bind_of_ok hleave', statement_bind_serves (hserves _), Txn.get_bind, hleft.triggers, hfind]
  cases hsource : t.source with
  | event =>
    refine Or.inr ⟨db₁, ?_, ?_⟩
    · rw [hleft.rules]
      simp [hsource]
    · simp only [hsource, reduceCtorEq, if_false]
      exact commit_serves hserves hanswers
  | timer =>
    obtain ⟨scheduledFor, hsf⟩ := hread t ht hsource
    rw [hpayload] at hsf
    have hadvance := advanceRule_serves hserves huuid hkeyed₁ hsf
    rw [hleft.rules] at hadvance
    simp only [Option.any_some, hsource, decide_true, if_true]
    rcases hadvance with ⟨hnone, e, he⟩ | ⟨db', hrules, hok⟩
    · refine Or.inl ⟨hnone, e, ?_⟩
      rw [Txn.bind_eq_error]
      exact Or.inl he
    · refine Or.inr ⟨db', hrules, ?_⟩
      rw [Txn.bind_of_ok hok]
      exact commit_serves hserves hanswers

/-- What concerns other executions is as it was. -/
structure Beside (claim : ClaimedExecution) (db db' : Database) : Prop where
  triggers : db'.triggers = db.triggers
  executions : ∀ x, x.executionId ≠ claim.executionId → (x ∈ db'.executions ↔ x ∈ db.executions)
  receipts : ∀ k, k.1 ≠ claim.executionId → db'.receipts.find? k = db.receipts.find? k

theorem Beside.trans {db₁ db₂ db₃ : Database} (h : Beside claim db₁ db₂) (h' : Beside claim db₂ db₃) :
    Beside claim db₁ db₃ :=
  ⟨h'.triggers.trans h.triggers, fun x hx => (h'.executions x hx).trans (h.executions x hx),
    fun k hk => (h'.receipts k hk).trans (h.receipts k hk)⟩

theorem Left.beside {status : ExecutionStatus} {attemptStatus : AttemptStatus} {failure : Option String}
    {e : ExecutionRow} {db' : Database} (h : Left s claim status attemptStatus failure e db db') :
    Beside claim db db' := by
  have hid : e.executionId = claim.executionId := (heldBy_iff.1 h.held).1
  refine ⟨h.triggers, fun x hx => ?_, fun k _ => by rw [h.receipts]⟩
  have hne : x.executionId ≠ (e.leave status failure s.transactionTimestamp).executionId :=
    fun he => hx (he.trans hid)
  rw [h.executions x]
  constructor
  · rintro (rfl | ⟨hm, -⟩)
    · exact absurd rfl hne
    · exact hm
  · exact fun hm => Or.inr ⟨hm, hne⟩

/-- A lease of another execution is kept. -/
theorem Beside.held {other : ClaimedExecution} {db' : Database} (h : Beside claim db db')
    (hne : other.executionId ≠ claim.executionId) (hheld : Held db other expiry) : Held db' other expiry := by
  obtain ⟨e, he, hid, hrest⟩ := hheld
  exact ⟨e, (h.executions e (hid ▸ hne)).2 he, hid, hrest⟩

/-- **What ends a loop body**: a release, a completion that cannot move its schedule on, or a completion. -/
theorem finishTx_serves (result : Except ActionFailure Unit) (hserves : s.Serves) (hanswers : s.Answers)
    (huuid : s.env.UuidOK) (hkeyed : DispatchesKeyed s.env db) (hread : TimersRead s.env db)
    (hheld : Held db claim expiry) (hlease : s.transactionTimestamp ≤ expiry)
    (htrigger : ∃ t ∈ db.triggers, t.triggerId = claim.triggerId ∧ t.payload = claim.payload) :
    ((∃ failure, result = .error (.runtime failure)) ∧ ∃ db',
        transact (finishTx s claim result) db = (.ok (), db') ∧ Released db' claim ∧ Beside claim db db') ∨
      (¬ ∃ failure, result = .error (.runtime failure)) ∧
        ((rulesAfter s.env db.triggers claim s.transactionTimestamp db.rules = none ∧
            ∃ e, transact (finishTx s claim result) db = (.error e, db)) ∨
          ∃ db', transact (finishTx s claim result) db = (.ok (), db') ∧
            rulesAfter s.env db.triggers claim s.transactionTimestamp db.rules = some db'.rules ∧
            Released db' claim ∧ Beside claim db db') := by
  have hcomplete : ∀ succeeded failure,
      (rulesAfter s.env db.triggers claim s.transactionTimestamp db.rules = none ∧
          ∃ e, transact (completeExecution s claim succeeded failure) db = (.error e, db)) ∨
        ∃ db', transact (completeExecution s claim succeeded failure) db = (.ok (), db') ∧
          rulesAfter s.env db.triggers claim s.transactionTimestamp db.rules = some db'.rules ∧
          Released db' claim ∧ Beside claim db db' := by
    intro succeeded failure
    rcases completeExecution_serves succeeded failure hserves hanswers huuid hkeyed hread hheld
      hlease htrigger with ⟨hnone, e, he⟩ | ⟨db', hrules, hok⟩
    · exact Or.inl ⟨hnone, e, transact_of_error he⟩
    · obtain ⟨-, -, e, db₁, trigger, hleft, -, -, hsettled⟩ := completeExecution_ok hok
      obtain ⟨-, htriggers, hexecutions, -, hreceipts⟩ := hsettled.frame
      have hreleased : Released db₁ claim := hleft.released (by unfold finalStatus; split <;> decide)
      refine Or.inr ⟨db', transact_of_commit hok, hrules, ?_, ?_⟩
      · unfold Released
        rw [show db'.executions = db₁.executions from hexecutions]
        exact hreleased
      · refine hleft.beside.trans ⟨htriggers, fun x _ => ?_, fun k _ => ?_⟩
        · rw [show db'.executions = db₁.executions from hexecutions]
        · rw [show db'.receipts = db₁.receipts from hreceipts]
  cases result with
  | ok u => exact Or.inr ⟨(by rintro ⟨failure, h⟩; cases h), hcomplete true none⟩
  | error e =>
    cases e with
    | domain detail => exact Or.inr ⟨(by rintro ⟨failure, h⟩; cases h), hcomplete false (some detail)⟩
    | runtime failure =>
      obtain ⟨e, db', hok, hleft⟩ :=
        releaseExecutionForRetry_serves "dependency_runtime_failure" hserves hanswers hheld hlease
      exact Or.inl ⟨⟨failure, rfl⟩, db', transact_of_commit hok, hleft.released (by decide), hleft.beside⟩

end Finish

/-! ## One execution of the batch -/

/-- The database serves what the loop body of `reconcile` asks of it, and answers its commit. -/
def BatchTurn.Serves (turn : BatchTurn) : Prop :=
  LoopServes turn.actions ∧ turn.finish.Serves ∧ turn.finish.Answers

/-- A world in the middle of a call, with the claims that are still to be settled. -/
def Working (env : Env) (w : World) (claims : List ClaimedExecution) : Prop :=
  ∃ is flushes tasks, (automation env).run is = w.amid flushes tasks ∧ OpenFor tasks claims

section Settle

variable {claim : ClaimedExecution} {claims rest : List ClaimedExecution} {expiry : ℤ}

theorem Working.dispatchesKeyed (h : Working env w claims) : DispatchesKeyed env w.db := by
  obtain ⟨is, flushes, tasks, hrun, -⟩ := h
  exact db_of_amid hrun ▸ run_dispatchesKeyed is

theorem Working.timersRead (h : Working env w claims) : TimersRead env w.db := by
  obtain ⟨is, flushes, tasks, hrun, -⟩ := h
  exact db_of_amid hrun ▸ run_timersRead is

/-- A claim of the batch finds its execution, its trigger and its receipts. -/
theorem Working.claimOK (h : Working env w claims) (hc : claim ∈ claims) :
    ClaimOK w.db claim ∧ Received w.db claim := by
  obtain ⟨is, flushes, tasks, hrun, hopens⟩ := h
  have hrefs : RefsOK env ((automation env).run is) := run_refs is
  rw [hrun] at hrefs
  have hok : ClaimOK w.db claim := (hrefs.tasks _ _ (hopens claim hc)).2
  refine ⟨hok, fun i hi => ?_⟩
  obtain ⟨e, he, hid, -, -, hsteps, -⟩ := hok.execution
  have hlt : i < e.steps.length := by rw [hsteps]; exact hi
  obtain ⟨row, hm, hk⟩ := hrefs.covered e he i hlt
  have hmax := (hrefs.executions e he).actions.count i hlt
  have hidx : row.actionIndex = i := congrArg Prod.snd hk
  exact ⟨row, hm, by rw [hk, hid], by omega⟩

/-- The rest of the batch is still to be settled after one of its executions was. -/
theorem Working.settled (h : Working env w (claim :: rest))
    (hnodup : ((claim :: rest).map ClaimedExecution.executionId).Nodup) (turn : BatchTurn) :
    Working env (settleExecution env turn claim w).world rest := by
  obtain ⟨is, flushes, tasks, hrun, hopens⟩ := h
  have hreach := settleExecution_reaches env w flushes turn (hopens claim List.mem_cons_self)
  rw [← hrun] at hreach
  obtain ⟨js, hjs⟩ := hreach.run
  exact ⟨js, flushes, _, hjs, hopens.tail hnodup⟩

/-- **How one execution of a batch is settled.** -/
inductive Settling (env : Env) (turn : BatchTurn) (claim : ClaimedExecution) (expiry : ℤ) (w w' : World) :
    Except PluginError Bool → Prop
  | released {e : PluginError} : Interrupted turn.actions claim w.db → Released w'.db claim →
      Settling env turn claim expiry w w' (.error e)
  | kept {e : PluginError} : ¬ Interrupted turn.actions claim w.db →
      rulesAfter env w.db.triggers claim turn.finish.transactionTimestamp w.db.rules = none →
      Held w'.db claim expiry → Settling env turn claim expiry w w' (.error e)
  | completed {succeeded : Bool} : ¬ Interrupted turn.actions claim w.db →
      rulesAfter env w.db.triggers claim turn.finish.transactionTimestamp w.db.rules = some w'.db.rules →
      Released w'.db claim → Settling env turn claim expiry w w' (.ok succeeded)

/-- What the loop over the actions leaves alone. -/
theorem Stopped.beside {turns : ℕ → Turn} {out : Performed} {stop : ℕ} (h : Stopped turns claim 0 db out stop) :
    Beside claim db out.db ∧ out.db.rules = db.rules ∧ out.db.executions = db.executions ∧
      out.db.dispatches = db.dispatches := by
  have hframe := h.frame
  have hreceipts : ∀ k, k.1 ≠ claim.executionId → out.db.receipts.find? k = db.receipts.find? k := by
    intro k hk
    apply h.elsewhere
    rintro i - - - rfl
    exact hk rfl
  refine ⟨⟨by rw [hframe], fun x _ => by rw [hframe], hreceipts⟩, ?_, ?_, ?_⟩
  · rw [hframe]
  · rw [hframe]
  · rw [hframe]

/-- **The loop body of `reconcile`**, on an execution the call still holds. -/
theorem settleExecution_settles (huuid : env.UuidOK) (h : Working env w (claim :: rest)) {turn : BatchTurn}
    (hserves : turn.Serves) (hheld : Held w.db claim expiry) (hlease : turn.finish.transactionTimestamp ≤ expiry) :
    let done := settleExecution env turn claim w
    Settling env turn claim expiry w done.world done.result ∧ Beside claim w.db done.world.db := by
  intro done
  obtain ⟨hclaim, hreceived⟩ := h.claimOK List.mem_cons_self
  obtain ⟨stop, hstop⟩ : ∃ stop, Stopped turn.actions claim 0 w.db
      (executeActions (w.session env) turn.actions claim 0 claim.actions w.db) stop :=
    executeActions_stopped rfl (Nat.zero_le _) hreceived
  have hdone : done = settleExecution env turn claim w := rfl
  rw [settleExecution_eq] at hdone
  generalize executeActions (w.session env) turn.actions claim 0 claim.actions w.db = out at hstop hdone
  have hinterrupted := hstop.interrupted_iff hserves.1
  obtain ⟨hbeside, hrules, hexecutions, hdispatches⟩ := hstop.beside
  -- the loop leaves the execution, the trigger and the dispatches as they were
  have hkeyed : DispatchesKeyed env out.db := by
    unfold DispatchesKeyed
    rw [hdispatches]
    exact h.dispatchesKeyed
  have hread : TimersRead env out.db := by
    unfold TimersRead
    rw [hbeside.triggers]
    exact h.timersRead
  have hheld' : Held out.db claim expiry := by
    unfold Held
    rw [hexecutions]
    exact hheld
  have htrigger : ∃ t ∈ out.db.triggers, t.triggerId = claim.triggerId ∧ t.payload = claim.payload := by
    rw [hbeside.triggers]
    exact hclaim.trigger
  have hfinishes : (w.session env turn.finish).Serves := hserves.2.1
  have hanswers : (w.session env turn.finish).Answers := hserves.2.2
  have hfinish := finishTx_serves out.result hfinishes hanswers huuid hkeyed hread hheld' hlease htrigger
  rw [hbeside.triggers, hrules] at hfinish
  have htx : (w.performed out).transact (finishTx (w.session env turn.finish) claim out.result) =
      let tx := transact (finishTx (w.session env turn.finish) claim out.result) out.db
      (tx.1, { w.performed out with db := tx.2 }) := rfl
  rw [htx] at hdone
  rcases hfinish with ⟨⟨failure, hres⟩, db', hok, hreleased, hbeside'⟩ |
    ⟨hnot, ⟨hnone, e, herr⟩ | ⟨db', hok, hsome, hreleased, hbeside'⟩⟩
  · rw [hok, hres] at hdone
    rw [hdone]
    exact ⟨.released (hinterrupted.1 ⟨failure, hres⟩) hreleased, hbeside.trans hbeside'⟩
  · have hresult : settledResult out.result (.error e) = .error (mapStorage e) := by
      unfold settledResult
      cases out.result <;> rfl
    rw [herr, hresult] at hdone
    rw [hdone]
    exact ⟨.kept (fun hi => hnot (hinterrupted.2 hi)) hnone hheld', hbeside⟩
  · obtain ⟨succeeded, hresult⟩ : ∃ succeeded, settledResult out.result (.ok ()) = .ok succeeded := by
      cases hres : out.result with
      | ok u => exact ⟨true, rfl⟩
      | error e =>
        cases e with
        | domain detail => exact ⟨false, rfl⟩
        | runtime failure => exact absurd ⟨failure, hres⟩ hnot
    rw [hok, hresult] at hdone
    rw [hdone]
    exact ⟨.completed (fun hi => hnot (hinterrupted.2 hi)) hsome hreleased, hbeside.trans hbeside'⟩

/-! ## The batch -/

/-- **The batches that are given up whole**, from the rules they find: an execution that is interrupted is the
last one, and every other, once its actions are over, finds a next instant if it moves its rule on. -/
def Clears (env : Env) (turns : ℕ → BatchTurn) (db : Database) :
    ℕ → Table RuleRow.ruleId → List ClaimedExecution → Prop
  | _, _, [] => True
  | index, rules, claim :: rest =>
    (Interrupted (turns index).actions claim db ∧ rest = []) ∨
      (¬ Interrupted (turns index).actions claim db ∧ ∃ rules',
        rulesAfter env db.triggers claim (turns index).finish.transactionTimestamp rules = some rules' ∧
          Clears env turns db (index + 1) rules' rest)

theorem interrupted_congr {turns : ℕ → Turn} {db db' : Database}
    (h : ∀ i, db'.receipts.find? (claim.executionId, i) = db.receipts.find? (claim.executionId, i)) :
    Interrupted turns claim db' ↔ Interrupted turns claim db := by
  have htodo : todo db' claim = todo db claim := by
    funext i
    unfold todo statusAt
    rw [h]
  have hkeys : keyAt db'.receipts claim.executionId = keyAt db.receipts claim.executionId := by
    funext i
    unfold keyAt
    rw [h]
  unfold Interrupted
  rw [htodo, hkeys]

/-- **The loop of `reconcile`** gives its whole batch up exactly when the batch clears, and touches no other
execution. -/
theorem settleBatch_releases (huuid : env.UuidOK) {turns : ℕ → BatchTurn} (hserves : ∀ k, (turns k).Serves)
    (hlease : ∀ k, (turns k).finish.transactionTimestamp ≤ expiry) (db₀ : Database) (index : ℕ)
    (h : Working env w claims) (hnodup : (claims.map ClaimedExecution.executionId).Nodup)
    (hheld : ∀ c ∈ claims, Held w.db c expiry) (htriggers : w.db.triggers = db₀.triggers)
    (hreceipts : ∀ c ∈ claims, ∀ i,
      w.db.receipts.find? (c.executionId, i) = db₀.receipts.find? (c.executionId, i)) :
    ((∀ c ∈ claims, Released (settleBatch env turns index claims w).world.db c) ↔
        Clears env turns db₀ index w.db.rules claims) ∧
      ∀ x, x.executionId ∉ claims.map ClaimedExecution.executionId →
        (x ∈ (settleBatch env turns index claims w).world.db.executions ↔ x ∈ w.db.executions) := by
  induction claims generalizing w index with
  | nil => exact ⟨⟨fun _ => trivial, fun _ c hc => (by cases hc)⟩, fun _ _ => Iff.rfl⟩
  | cons claim rest ih =>
    have hnotin : claim.executionId ∉ rest.map ClaimedExecution.executionId := (List.nodup_cons.1 hnodup).1
    have hne : ∀ c ∈ rest, c.executionId ≠ claim.executionId :=
      fun c hc he => hnotin (List.mem_map.2 ⟨c, hc, he⟩)
    obtain ⟨hsettling, hbeside⟩ := settleExecution_settles huuid h (hserves index)
      (hheld claim List.mem_cons_self) (hlease index)
    have hworking := h.settled hnodup (turns index)
    have hinterrupted : Interrupted (turns index).actions claim w.db ↔
        Interrupted (turns index).actions claim db₀ :=
      interrupted_congr (hreceipts claim List.mem_cons_self)
    have hothers : ∀ x, x.executionId ∉ (claim :: rest).map ClaimedExecution.executionId →
        (x ∈ (settleExecution env (turns index) claim w).world.db.executions ↔ x ∈ w.db.executions) :=
      fun x hx => hbeside.executions x fun he => hx (he ▸ List.mem_cons_self)
    have hheld' : ∀ c ∈ rest, Held (settleExecution env (turns index) claim w).world.db c expiry :=
      fun c hc => hbeside.held (hne c hc) (hheld c (List.mem_cons_of_mem _ hc))
    unfold Clears
    rw [← htriggers]
    generalize hres : (settleExecution env (turns index) claim w).result = result at hsettling
    cases hsettling with
    | released hint hreleased =>
      -- the call returns: what is left of the batch stays leased
      rw [settleBatch_cons_error hres]
      refine ⟨⟨fun hall => Or.inl ⟨hinterrupted.1 hint, ?_⟩, ?_⟩, hothers⟩
      · cases rest with
        | nil => rfl
        | cons c rest =>
          exact absurd (hall c (List.mem_cons_of_mem _ List.mem_cons_self))
            (hheld' c List.mem_cons_self).not_released
      · rintro (⟨-, rfl⟩ | ⟨hnot, -⟩)
        · intro c hc
          obtain rfl := List.mem_singleton.1 hc
          exact hreleased
        · exact absurd (hinterrupted.1 hint) hnot
    | kept hnot hnone hheldStill =>
      rw [settleBatch_cons_error hres]
      refine ⟨⟨fun hall => absurd (hall claim List.mem_cons_self) hheldStill.not_released, ?_⟩, hothers⟩
      rintro (⟨hint, -⟩ | ⟨-, rules', hsome, -⟩)
      · exact absurd (hinterrupted.2 hint) hnot
      · rw [hnone] at hsome
        cases hsome
    | completed hnot hsome hreleased =>
      rw [settleBatch_cons_ok hres]
      obtain ⟨hgo, hothers'⟩ := ih (index + 1) hworking (List.nodup_cons.1 hnodup).2 hheld'
        (hbeside.triggers.trans htriggers) (fun c hc i => (hbeside.receipts _ (hne c hc)).trans
          (hreceipts c (List.mem_cons_of_mem _ hc) i))
      refine ⟨⟨fun hall => ?_, ?_⟩, fun x hx => ?_⟩
      · refine Or.inr ⟨fun hint => hnot (hinterrupted.2 hint), _, hsome, hgo.1 fun c hc => ?_⟩
        exact hall c (List.mem_cons_of_mem _ hc)
      · rintro (⟨hint, -⟩ | ⟨-, rules', hsome', hrest⟩)
        · exact absurd (hinterrupted.2 hint) hnot
        · rw [hsome] at hsome'
          cases hsome'
          intro c hc
          rcases List.mem_cons.1 hc with rfl | hc
          · -- the rest of the batch does not touch it again
            obtain ⟨e, he, hid, hrest⟩ := hreleased
            exact ⟨e, (hothers' e (hid ▸ hnotin)).2 he, hid, hrest⟩
          · exact hgo.2 hrest c hc
      · rw [hothers' x fun hm => hx (List.mem_cons_of_mem _ hm)]
        exact hothers x hx

/-- A batch that was just claimed is leased until the leases end. -/
theorem LeasedAll.held {rows : List (ExecutionRow × Value)} {worker : String} {leaseSeconds : ℤ} {db' : Database}
    (h : LeasedAll s worker leaseSeconds rows claims db db')
    (hnodup : (rows.map (fun c => c.1.executionId)).Nodup) :
    ∀ c ∈ claims, Held db' c (leaseEnd s leaseSeconds) := by
  intro c hc
  obtain ⟨row, hrow, actions, -, rfl⟩ := h.claims_cases hc
  exact ⟨_, h.mem_lease hnodup hrow, rfl, rfl, rfl, rfl, rfl⟩

end Settle

/-! ## The call -/

/-- The end of `reconcile` leaves the executions as the batch left them. -/
theorem reconcile_after_executions (env : Env) (w : World) (around : Around) (organizationId : String) (limit : ℕ)
    (response : ℕ → ℕ → ReconcileResponse) :
    ((flushSchedules env around.after organizationId limit >>= fun after =>
      Plugin.storage env around.count mapStorage (pendingDispatchCount · organizationId) >>= fun pending =>
        pure (response after pending)) w).world.db.executions = w.db.executions := by
  have hkeeps : (flushSchedules env around.after organizationId limit >>= fun after =>
      Plugin.storage env around.count mapStorage (pendingDispatchCount · organizationId) >>= fun pending =>
        pure (response after pending)).Keeps Database.executions := by
    refine .bind (fun w₀ => ?_) fun after => .bind (.storage fun s db ending a db' h hc => ?_) fun pending => .pure _
    · have hflushed : (flushSchedules env around.after organizationId limit w₀).world.db.flushed = w₀.db.flushed :=
        flushSchedules_keeps around.after organizationId limit w₀
      exact (Database.mk.inj hflushed).2.2.2.1
    · unfold pendingDispatchCount at h
      rw [statement_bind_eq_ok, Txn.get_bind, Txn.pure_eq_ok] at h
      cases h.2
      cases hc
  exact hkeeps w

/-- **`reconcile` gives up every lease it took** exactly when none but the last execution of its batch is
interrupted, and every other finds a next instant if it moves its rule on. -/
theorem reconcile_releases_claims (huuid : env.UuidOK) (events : List Event) (around : Around)
    (organizationId worker : String) (limit : ℕ) (leaseSeconds : ℤ)
    (hanswers : around.claim.Answers) (hserves : ∀ k, (around.batch k).Serves)
    (hlease : ∀ k, (around.batch k).finish.transactionTimestamp ≤
      around.claim.transactionTimestamp + leaseSeconds * microsPerSecond) :
    let w := (automation env).run events
    let claims := claimedBy env around organizationId worker limit leaseSeconds w
    (∀ claim ∈ claims,
        Released (reconcile env around organizationId worker limit leaseSeconds w).world.db claim) ↔
      Clears env around.batch w.db 0 w.db.rules claims := by
  intro w claims
  have hclaims : claims = claimedBy env around organizationId worker limit leaseSeconds w := rfl
  unfold claimedBy at hclaims
  unfold reconcile
  rw [Plugin.bind_world]
  obtain ⟨flushes, hbefore⟩ := flushSchedules_reaches env w w.flushes w.tasks around.before organizationId limit
  have hflushed : (flushSchedules env around.before organizationId limit w).world.db.flushed = w.db.flushed :=
    flushSchedules_keeps around.before organizationId limit w
  generalize flushSchedules env around.before organizationId limit w = before at *
  obtain ⟨result, sent, w₀⟩ := before
  cases result with
  | error e =>
    rw [hclaims]
    exact ⟨fun _ => trivial, fun _ c hc => (by cases hc)⟩
  | ok count =>
    simp only at hclaims hbefore hflushed ⊢
    have hclaim := next_claim w.tasks env w₀ flushes around.claim organizationId worker limit leaseSeconds
      around.locked
    rcases hdone : w₀.transact (claimExecutions (w₀.session env around.claim) organizationId worker limit
      leaseSeconds around.locked) with ⟨e | taken, w₁⟩
    · rw [claimedOf_transact (s := w₀.session env around.claim) hanswers hdone] at hclaims
      rw [hclaims]
      exact ⟨fun _ => trivial, fun _ c hc => (by cases hc)⟩
    · rw [claimedOf_transact (s := w₀.session env around.claim) hanswers hdone] at hclaims
      rw [hdone] at hclaim
      rw [Plugin.storage_bind hdone]
      obtain rfl : claims = taken := hclaims
      obtain ⟨hnodup, rows, -, hcand, hleased⟩ := claims_nodup hdone
      obtain ⟨-, hrules, htriggers, hreceipts, -⟩ := hleased.frame
      -- the batch starts from the rules, triggers and receipts the call found
      obtain ⟨-, hr, ht, -, -, hre, -⟩ := Database.mk.inj hflushed
      have hrules₀ : w₁.db.rules = w.db.rules := hrules.trans hr
      have htriggers₀ : w₁.db.triggers = w.db.triggers := htriggers.trans ht
      have hreceipts₀ : w₁.db.receipts = w.db.receipts := hreceipts.trans hre
      have hworking : Working env w₁ claims := by
        obtain ⟨js, hjs⟩ := (hbefore.trans (.one hclaim)).run
        exact ⟨js, flushes, _, hjs, openTasks_openFor hnodup⟩
      have hheld : ∀ c ∈ claims, Held w₁.db c (leaseEnd (w₀.session env around.claim) leaseSeconds) :=
        hleased.held hcand.nodup
      obtain ⟨hbatch, -⟩ := settleBatch_releases huuid hserves hlease w.db 0 hworking hnodup hheld htriggers₀
        fun c _ i => by rw [hreceipts₀]
      rw [hrules₀] at hbatch
      rw [← hbatch]
      simp only
      rw [Plugin.bind_world]
      cases (settleBatch env around.batch 0 claims w₁).result with
      | error e => exact Iff.rfl
      | ok counts =>
        have hafter := reconcile_after_executions env (settleBatch env around.batch 0 claims w₁).world around
          organizationId limit (fun after pending => ⟨claims.length, counts.2, count + after, pending, counts.1⟩)
        unfold Released
        simp only
        rw [hafter]

section Sample

open Sample

/-- Jobs is not called: there is no dispatch. -/
def quiet : FlushAround := ⟨conn 3 0, fun _ => ⟨.domain, conn 3 0, conn 3 0⟩⟩

/-- A call whose batch is answered by `p`. -/
def answers (p : ℕ → Providers) : Around where
  before := quiet
  claim := conn 3 0
  locked := fun _ => false
  batch := fun k => ⟨turnsOf 0 (p k), conn 3 1⟩
  after := quiet
  count := conn 3 1

/-- Two executions of the event rule wait for a worker. -/
def twoWaiting : List Event :=
  [atStart, .command (conn 0 0) auth (triage (comment none)), .receiveEvent (conn 1 0) created,
    .receiveEvent (conn 2 0) { created with dedupeKey := "event-2" }]

/-- The connection to the provider breaks. -/
def broken : Providers := providers "1" (.error (.runtime (.pluginFailure "connection closed")))

theorem answers_serves (p : ℕ → Providers) (k : ℕ) : ((answers p).batch k).Serves :=
  ⟨fun _ => ⟨conn_serves 0 0, conn_serves 0 0⟩, conn_serves 3 1, conn_answers 3 1⟩

/-- A failure of the last execution leaves nothing behind. -/
theorem last_failure_releases :
    let w := (automation Sample.env).run twoWaiting
    let around := answers (fun k => if k = 0 then served else broken)
    let claims := claimedBy Sample.env around "org-1" "worker-1" 10 60 w
    claims.map ClaimedExecution.executionId = [uuid 1 1, uuid 2 1] ∧
      Clears Sample.env around.batch w.db 0 w.db.rules claims :=
  ⟨by decide, (reconcile_releases_claims uuidOK twoWaiting (answers fun k => if k = 0 then served else broken)
    "org-1" "worker-1" 10 60 (conn_answers 3 0) (answers_serves _)
    (fun _ => by show micros 1 ≤ micros 0 + _; decide)).1 (by decide)⟩

/-- **A failure of the first execution leaves the second leased.** -/
theorem first_failure_strands :
    let w := (automation Sample.env).run twoWaiting
    let around := answers (fun _ => broken)
    let claims := claimedBy Sample.env around "org-1" "worker-1" 10 60 w
    around.claim.Answers ∧ (∀ k, (around.batch k).Serves) ∧
      (∀ k, (around.batch k).finish.transactionTimestamp ≤
        around.claim.transactionTimestamp + 60 * microsPerSecond) ∧
      claims.map ClaimedExecution.executionId = [uuid 1 1, uuid 2 1] ∧
      let db := (reconcile Sample.env around "org-1" "worker-1" 10 60 w).world.db
      ∃ claim ∈ claims, ¬ Released db claim ∧ ∃ e ∈ db.executions.rows, e.executionId = claim.executionId ∧
        e.attempts = claim.attempt ∧ e.status = .running :=
  ⟨conn_answers 3 0, answers_serves _, fun _ => (by show micros 1 ≤ micros 0 + _; decide), by decide, by decide⟩

end Sample

end ProjectAutomation

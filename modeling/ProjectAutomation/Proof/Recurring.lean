import ProjectAutomation.Proof.CommandLedger
import ProjectAutomation.Proof.Timers
import ProjectAutomation.Recurrence.Rounds
import Mathlib.Tactic.Ring
import ProjectAutomation.Spec.Sample

/-!
# Recurring fires

Between two edits an enabled schedule recurs: round `k` is due at its first fire time
and `k` intervals, it begins when its timer is accepted, and it ends with its execution.

* `Recurs`: what the tables hold of a rule whose schedule stands where it does.
* `step_recurs`: every step between edits moves the schedule on as rounds go.
* `recurring_fires`: so it is along every run from the write that set the fire time.
-/

namespace ProjectAutomation

open Relational Recurrence

variable {env : Env} {w w' : World} {event : Event} {s : Session} {rule : RuleRow} {n interval : ℤ}
  {before : List ℤ} {c : Standing}

/-- The event is an `update_rule`, `set_enabled` or `delete_rule` of the rule. -/
def Event.edits (ruleId : String) : Event → Bool
  | .command _ _ (.update r) => r.ruleId = ruleId
  | .command _ _ (.setEnabled r) => r.ruleId = ruleId
  | .command _ _ (.delete r) => r.ruleId = ruleId
  | _ => false

/-- The instant of round `k`, in nanoseconds. -/
def roundNanos (n interval : ℤ) : ℕ → ℤ := point (decodeTimestamptz n).unixNanos (interval * nanosPerSecond)

/-- The fire time of round `k`, as its column holds it. -/
def roundMicros (n interval : ℤ) : ℕ → ℤ := point n (interval * microsPerSecond)

theorem decode_roundMicros (n interval : ℤ) (k : ℕ) :
    (decodeTimestamptz (roundMicros n interval k)).unixNanos = roundNanos n interval k := by
  unfold roundMicros roundNanos point decodeTimestamptz microsPerSecond nanosPerSecond
  simp only [nsmul_eq_mul]
  ring

theorem roundNanos_inj (h : 0 < interval) {j k : ℕ} : roundNanos n interval j = roundNanos n interval k ↔ j = k :=
  point_inj (Int.mul_pos h (by decide))

/-- **The schedule of `rule` stands at `c`.** It was first due at `n`, and its executions had been
fired for the instants `before` when that was written. -/
structure Recurs (env : Env) (rule : RuleRow) (n interval : ℤ) (before : List ℤ) (c : Standing) (w : World) :
    Prop where
  /-- the rule waits for the first round that has not ended -/
  waits : ∃ r ∈ w.db.rules, r.ruleId = rule.ruleId ∧ r.trigger = rule.trigger ∧
    r.nextFireAt = some (roundMicros n interval c.ended)
  /-- the rounds that have begun were accepted one after the other, each once -/
  accepted : fireTimes env w.db rule.ruleId =
    before ++ points (decodeTimestamptz n).unixNanos (interval * nanosPerSecond) c.begun
  /-- a round has ended when its execution has -/
  ended : ∀ e ∈ w.db.executions, e.ruleId = rule.ruleId → ∀ k,
    firedFor env w.db e = some (roundNanos n interval k) → (e.status.terminal = true ↔ k < c.ended)

/-- An instant not before the first round was fired for a round that has begun. -/
theorem Recurs.round (h : Recurs env rule n interval before c w)
    (hbefore : ∀ t ∈ before, t < (decodeTimestamptz n).unixNanos) {e : ExecutionRow} {t : ℤ}
    (he : e ∈ w.db.executions) (hid : e.ruleId = rule.ruleId) (hfor : firedFor env w.db e = some t)
    (hle : (decodeTimestamptz n).unixNanos ≤ t) : ∃ k < c.begun, t = roundNanos n interval k := by
  have hm : t ∈ fireTimes env w.db rule.ruleId := mem_fireTimes.2 ⟨e, he, hid, hfor⟩
  rw [h.accepted, List.mem_append] at hm
  rcases hm with hm | hm
  · have := hbefore t hm
    omega
  · obtain ⟨k, hk, rfl⟩ := List.mem_map.1 hm
    exact ⟨k, List.mem_range.1 hk, rfl⟩

/-- A time the rule waits for is that of its current round. -/
theorem Recurs.current (h : Recurs env rule n interval before c w) {r : RuleRow} (hr : r ∈ w.db.rules)
    (hid : r.ruleId = rule.ruleId) : r.trigger = rule.trigger ∧
      r.nextFireAt = some (roundMicros n interval c.ended) := by
  obtain ⟨r', hr', hid', htr, hn⟩ := h.waits
  cases Table.eq_of_key hr' hr (hid'.trans hid.symm)
  exact ⟨htr, hn⟩

/-- A step that leaves the rule, its fire times and their ends alone leaves the schedule where it stands. -/
theorem Recurs.stays (h : Recurs env rule n interval before c w)
    (hrules : ∀ r ∈ w.db.rules, r.ruleId = rule.ruleId → r ∈ w'.db.rules)
    (htimes : fireTimes env w'.db rule.ruleId = fireTimes env w.db rule.ruleId)
    (hexecs : ∀ e' ∈ w'.db.executions, e'.ruleId = rule.ruleId → ∀ t, firedFor env w'.db e' = some t →
      (decodeTimestamptz n).unixNanos ≤ t → ∃ e ∈ w.db.executions, e.ruleId = rule.ruleId ∧
        firedFor env w.db e = some t ∧ e'.status.terminal = e.status.terminal)
    (hpos : 0 < interval) : Recurs env rule n interval before c w' := by
  obtain ⟨r, hr, hid, hrest⟩ := h.waits
  refine ⟨⟨r, hrules r hr hid, hid, hrest⟩, htimes.trans h.accepted, ?_⟩
  intro e' he' hid' k hfor
  obtain ⟨e, he, hide, hfor', hst⟩ := hexecs e' he' hid' _ hfor
    (first_le_point (Int.mul_pos hpos (by decide)) k)
  rw [hst]
  exact h.ended e he hide k hfor'

/-- The event completes the execution of the round that is under way. -/
def EndsRound (env : Env) (rule : RuleRow) (n interval : ℤ) (c : Standing) (w : World) (event : Event) : Prop :=
  ∃ e ∈ w.db.executions, e.ruleId = rule.ruleId ∧ Completes w event e ∧
    firedFor env w.db e = some (roundNanos n interval c.ended)

/-- How a step moves the schedule on. -/
def GoesOn (env : Env) (rule : RuleRow) (n interval : ℤ) (before : List ℤ) (c : Standing) (w : World)
    (event : Event) (w' : World) : Prop :=
  ∃ c', c.Moves c' ∧ Recurs env rule n interval before c' w' ∧
    (c'.ended = c.ended ∨ EndsRound env rule n interval c w event)

theorem Recurs.goesOn (h : Recurs env rule n interval before c w') :
    GoesOn env rule n interval before c w event w' := ⟨c, .stays c, h, Or.inl rfl⟩

/-- **An accepted timer begins the next round.** -/
theorem recurs_timer {trigger : TriggerRow} {request : ReceiveTimerRequest} {scheduledFor : OffsetDateTime}
    {receipt : TriggerReceipt} {es : List ExecutionRow} (h : Step env w event w') (hr : RefsOK env w)
    (hti : TimersOK env w) (hpos : 0 < interval) (hs : Recurs env rule n interval before c w)
    (horg : trigger.organizationId = request.organizationId) (hof : TimerOf env trigger request.ruleId scheduledFor)
    (hout : TimerOutcome s request.organizationId request.ruleId scheduledFor w.db receipt es)
    (hin : Intake s trigger es w.db w'.db) : GoesOn env rule n interval before c w event w' := by
  have hfires : trigger.firesFor env = some scheduledFor.unixNanos :=
    firesFor_eq_some.2 ⟨hof.source, scheduledFor, hof.payload, rfl⟩
  have hmem : trigger ∈ w'.db.triggers := hin.mem_triggers.2 (Or.inr rfl)
  have htimes : fireTimes env w'.db rule.ruleId = fireTimes env w.db rule.ruleId ++
      es.filterMap (fun e => if e.ruleId = rule.ruleId then trigger.firesFor env else none) :=
    fireTimes_intake hr.linked hin rule.ruleId
  rcases hout.cases with ⟨rfl, -⟩ | ⟨r, e, rfl, hrm, hl, hf, hrid, hpend⟩
  · refine (hs.stays (fun r hm _ => hin.rules ▸ hm) (by rw [htimes]; simp) ?_ hpos).goesOn
    intro e' he' hid t hfor _
    have he : e' ∈ w.db.executions := by simpa using hin.mem_executions.1 he'
    exact ⟨e', he, hid, (step_firedFor h hr.linked he (.refl e')).symm.trans hfor, rfl⟩
  have hfor : firedFor env w'.db e = some scheduledFor.unixNanos := by
    rw [firedFor_of_mem hmem (hin.triggerId_eq List.mem_cons_self).symm, hfires]
  by_cases hid : e.ruleId = rule.ruleId
  · obtain ⟨ho, hrid', hlive⟩ := liveAt_iff.1 hl
    obtain ⟨-, -, t, ht, heq⟩ := firesAt_iff.1 hf
    have hr₁ : r.ruleId = rule.ruleId := hrid'.trans (hrid.symm.trans hid)
    -- the timer is that of the round waited for
    have hnext : some t = some (roundMicros n interval c.ended) := ht.symm.trans (hs.current hrm hr₁).2
    cases hnext
    rw [decode_roundMicros] at heq
    cases c with
    | runs k =>
      -- had that round begun, its timer would have been recorded
      exfalso
      have hbegun : roundNanos n interval k ∈ fireTimes env w.db rule.ruleId := by
        rw [hs.accepted]
        refine List.mem_append_right _ (List.mem_map.2 ⟨k, List.mem_range.2 (Nat.lt_succ_self k), rfl⟩)
      obtain ⟨x, hx, hxid, hxfor⟩ := mem_fireTimes.1 hbegun
      obtain ⟨tr, htr, hk⟩ := hti.recorded (t := scheduledFor) hx hrm (hr₁.trans hxid.symm)
        (hxfor.trans (congrArg some heq))
      have hfree := hin.newKey tr htr
      rw [horg, hof.source, hof.dedupeKey, ← ho, ← hrid', hk] at hfree
      cases hfree
    | waits k =>
      refine ⟨.runs k, .begins k, ⟨?_, ?_, ?_⟩, Or.inl rfl⟩
      · obtain ⟨r, hrm, hrest⟩ := hs.waits
        exact ⟨r, hin.rules ▸ hrm, hrest⟩
      · rw [htimes, hs.accepted, hfires]
        simp only [Standing.begun, points_succ, List.append_assoc, List.filterMap_cons, hid, if_true,
          List.filterMap_nil]
        rw [← heq]; rfl
      · intro x hx hxid j hxfor
        rcases hin.mem_executions.1 hx with hx₀ | hx₀
        · exact hs.ended x hx₀ hxid j ((step_firedFor h hr.linked hx₀ (.refl x)).symm.trans hxfor)
        · cases List.mem_singleton.1 hx₀
          rw [hfor, ← heq, Option.some.injEq, roundNanos_inj hpos] at hxfor
          subst hxfor
          rw [hpend]
          simp [ExecutionStatus.terminal, Standing.ended]
  · refine (hs.stays (fun r hm _ => hin.rules ▸ hm) (by rw [htimes]; simp [hid]) ?_ hpos).goesOn
    intro e' he' hid' t hfor' _
    rcases hin.mem_executions.1 he' with he | he
    · exact ⟨e', he, hid', (step_firedFor h hr.linked he (.refl e')).symm.trans hfor', rfl⟩
    · cases List.mem_singleton.1 he
      exact absurd hid' hid

/-- What ends and leaves its rule where it was is no round of it. -/
theorem recurs_ended {e e' : ExecutionRow} (h : Step env w event w') (hr : RefsOK env w)
    (hledger : DispatchLedger w.db) (hpos : 0 < interval)
    (hbefore : ∀ t ∈ before, t < (decodeTimestamptz n).unixNanos)
    (hs : Recurs env rule n interval before c w) (hends : Ends e e' w.db w'.db)
    (hrules : w'.db.rules = w.db.rules) (ht : w'.db.triggers = w.db.triggers)
    (hno : ∀ t ∈ w.db.triggers, t.triggerId = e.triggerId → t.source = .timer → ∀ r ∈ w.db.rules,
      r.ruleId = e.ruleId → r.live = true → ∀ scheduledFor,
      payloadScheduledFor env t.payload = .ok scheduledFor → r.awaits scheduledFor = false) :
    GoesOn env rule n interval before c w event w' := by
  refine (hs.stays (fun r hm _ => hrules ▸ hm) (fireTimes_of_links ht hends.links _) ?_ hpos).goesOn
  intro x' hx' hid t hfor hle
  rcases hends.executions.cases hx' with rfl | ⟨hx, -⟩
  · exfalso
    have hid₀ : e.ruleId = rule.ruleId := hends.continues.ruleId.symm.trans hid
    rw [step_firedFor h hr.linked hends.there hends.continues] at hfor
    obtain ⟨k, hk, rfl⟩ := hs.round hbefore hends.there hid₀ hfor hle
    -- an execution that ran was that of the round under way, which the rule waits for
    have hnot : ¬ k < c.ended := fun hlt => by
      have := (hs.ended e hends.there hid₀ k hfor).2 hlt
      rw [hends.running] at this; cases this
    have hcur : k = c.ended := by cases c <;> simp only [Standing.begun, Standing.ended] at hk hnot ⊢ <;> omega
    obtain ⟨tr, htr, htk, hsrc, T, hT, hTn⟩ := firedFor_eq_some.1 hfor
    obtain ⟨r, hrm, hrid, -, hn⟩ := hs.waits
    obtain ⟨hen, hlive, hkind⟩ := (hledger.fireTime r hrm).1 (by rw [hn]; rfl)
    have htrue : r.awaits (some T) = true := by
      refine awaits_iff.2 ⟨hen, hkind, ?_⟩
      rw [hn, Option.map_some, Option.map_some, decode_roundMicros, hTn, hcur]
    rw [hno tr htr htk hsrc r hrm (hrid.trans hid₀.symm) hlive _ hT] at htrue
    cases htrue
  · exact ⟨x', hx, hid, (step_firedFor h hr.linked hx (.refl x')).symm.trans hfor, rfl⟩

/-- The next fire time is a period after the one a rule waited for. -/
theorem encode_next {scheduledFor next : OffsetDateTime} {k : ℕ}
    (hadd : scheduledFor.checkedAdd interval = some next)
    (hcur : scheduledFor.unixNanos = roundNanos n interval k) :
    encodeTimestamptz next = roundMicros n interval (k + 1) := by
  have hnext : next.unixNanos =
      (decodeTimestamptz (roundMicros n interval k)).unixNanos + interval * nanosPerSecond := by
    rw [OffsetDateTime.checkedAdd_eq_some hadd, decode_roundMicros, hcur]
  rw [encode_add_seconds (decodeTimestamptz_wholeMicros _) hnext, encode_decode]
  exact (point_succ _ _ _).symm

/-- **A completion that moves the schedule on ends the round under way.** -/
theorem recurs_advanced {e e' : ExecutionRow} {t : TriggerRow} {r : RuleRow} {scheduledFor next : OffsetDateTime}
    {i now : ℤ} (h : Step env w event w') (hr : RefsOK env w) (honce : FiredOnce env w.db) (hpos : 0 < interval)
    (hint : intervalSeconds rule.trigger = some interval)
    (hbefore : ∀ t ∈ before, t < (decodeTimestamptz n).unixNanos)
    (hs : Recurs env rule n interval before c w) (hcomp : Completes w event e) (hends : Ends e e' w.db w'.db)
    (htm : t ∈ w.db.triggers) (htk : t.triggerId = e.triggerId) (hsrc : t.source = .timer)
    (hsf : payloadScheduledFor env t.payload = .ok (some scheduledFor)) (hrid : r.ruleId = e.ruleId)
    (hawait : r.awaits (some scheduledFor) = true) (hi : intervalSeconds r.trigger = some i)
    (hadd : scheduledFor.checkedAdd i = some next)
    (hws : Writes env (some r) (r.advance (encodeTimestamptz next) now) (some next) w w')
    (ht : w'.db.triggers = w.db.triggers) : GoesOn env rule n interval before c w event w' := by
  have hrm : r ∈ w.db.rules := (Table.find?_eq_some.1 hws.found).1
  have htimes : fireTimes env w'.db rule.ruleId = fireTimes env w.db rule.ruleId :=
    fireTimes_of_links ht hends.links rule.ruleId
  by_cases hid : r.ruleId = rule.ruleId
  · obtain ⟨htrig, hn⟩ := hs.current hrm hid
    rw [htrig, hint] at hi
    cases hi
    -- the instant the execution was fired for is the one the rule waits for
    have hcur : scheduledFor.unixNanos = roundNanos n interval c.ended := by
      have := (awaits_iff.1 hawait).2.2
      rw [hn, Option.map_some, Option.map_some, decode_roundMicros] at this
      exact (Option.some.inj this).symm
    have hide : e.ruleId = rule.ruleId := hrid.symm.trans hid
    have hfor : firedFor env w.db e = some (roundNanos n interval c.ended) :=
      firedFor_eq_some.2 ⟨t, htm, htk, hsrc, scheduledFor, hsf, hcur⟩
    obtain ⟨k, hk, hkeq⟩ := hs.round hbefore hends.there hide hfor
      (first_le_point (Int.mul_pos hpos (by decide)) _)
    rw [roundNanos_inj hpos] at hkeq
    cases c with
    | waits j => simp only [Standing.begun, Standing.ended] at hk hkeq; omega
    | runs j =>
      refine ⟨.waits (j + 1), .ends j, ⟨?_, htimes.trans hs.accepted, ?_⟩,
        Or.inr ⟨e, hends.there, hide, hcomp, hfor⟩⟩
      · exact ⟨_, hws.rules.mem, hid, htrig, congrArg some (encode_next hadd hcur)⟩
      · intro x hx hxid m hxfor
        rcases hends.executions.cases hx with rfl | ⟨hx, hne⟩
        · rw [step_firedFor h hr.linked hends.there hends.continues, hfor, Option.some.injEq,
            roundNanos_inj hpos] at hxfor
          subst hxfor
          exact iff_of_true hends.terminal (Nat.lt_succ_self _)
        · rw [step_firedFor h hr.linked hx (.refl x)] at hxfor
          rw [hs.ended x hx hxid m hxfor]
          refine ⟨fun hlt => Nat.lt_succ_of_lt hlt, fun hlt => ?_⟩
          rcases Nat.lt_or_eq_of_le (Nat.le_of_lt_succ hlt) with hlt | rfl
          · exact hlt
          · -- the other execution of this round would be the one that ended
            have := honce x hx e hends.there (hxid.trans hide.symm) _ hxfor hfor
            exact absurd ((congrArg _ this).trans hends.continues.executionId.symm) hne
  · refine (hs.stays ?_ htimes ?_ hpos).goesOn
    · exact fun r' hr' hid' => hws.rules.of_ne hr' (fun hk => hid (hk.symm.trans hid'))
    · intro x hx hxid t' hxfor _
      rcases hends.executions.cases hx with rfl | ⟨hx, -⟩
      · exact absurd (hrid.trans (hends.continues.ruleId.symm.trans hxid)) hid
      · exact ⟨x, hx, hxid, (step_firedFor h hr.linked hx (.refl x)).symm.trans hxfor, rfl⟩

/-- **Every step between edits moves the schedule on as rounds go.** -/
theorem step_recurs (h : Step env w event w') (hr : RefsOK env w) (hledger : DispatchLedger w.db)
    (hti : TimersOK env w) (honce : FiredOnce env w.db) (hpos : 0 < interval)
    (hint : intervalSeconds rule.trigger = some interval)
    (hbefore : ∀ t ∈ before, t < (decodeTimestamptz n).unixNanos) (hedit : event.edits rule.ruleId = false)
    (hs : Recurs env rule n interval before c w) : GoesOn env rule n interval before c w event w' := by
  cases step_fire h hr with
  | still hrules ht hk =>
    refine (hs.stays (fun r hm _ => hrules ▸ hm) (fireTimes_of_links ht hk.links _) ?_ hpos).goesOn
    intro x' hx' hid t hfor _
    obtain ⟨x, hx, hc, hst⟩ := hk.status x' hx'
    exact ⟨x, hx, hc.ruleId.symm.trans hid, (step_firedFor h hr.linked hx hc).symm.trans hfor, hst⟩
  | written hev _ hwr hws ht he =>
    subst hev
    refine (hs.stays ?_ (fireTimes_of_links ht (by rw [he]) _) ?_ hpos).goesOn
    · intro r hm hid
      refine hws.rules.of_ne hm fun hk => ?_
      -- only a creation may name the rule, and it finds the name taken
      have hold := Table.find?_of_mem hm
      rw [hk, hws.found] at hold
      have hreq := hwr.ruleId_eq.symm.trans (hk.symm.trans hid)
      cases hwr with
      | create _ => cases hold
      | update _ _ | setEnabled _ _ | delete _ =>
        simp only [Event.edits, decide_eq_false_iff_not] at hedit
        exact hedit hreq
    · intro x hx hid t hfor _
      have hx₀ : x ∈ w.db.executions := he ▸ hx
      exact ⟨x, hx₀, hid, (step_firedFor h hr.linked hx₀ (.refl x)).symm.trans hfor, rfl⟩
  | @event _ trigger es hsrc hin =>
    have hnone : trigger.firesFor env = none := by unfold TriggerRow.firesFor; rw [hsrc]
    refine (hs.stays (fun r hm _ => hin.rules ▸ hm) ?_ ?_ hpos).goesOn
    · rw [fireTimes_intake hr.linked hin, hnone]; simp
    · intro x hx hid t hfor _
      rcases hin.mem_executions.1 hx with hx | hx
      · exact ⟨x, hx, hid, (step_firedFor h hr.linked hx (.refl x)).symm.trans hfor, rfl⟩
      · rw [firedFor_of_mem (hin.mem_triggers.2 (Or.inr rfl)) (hin.triggerId_eq hx).symm, hnone] at hfor
        cases hfor
  | timer _ _ horg hof hout hin => exact recurs_timer h hr hti hpos hs horg hof hout hin
  | ended hends hrules ht hno => exact recurs_ended h hr hledger hpos hbefore hs hends hrules ht hno
  | advanced hcomp hends htm htk hsrc hsf hrid _ hawait hi hadd hws ht =>
    exact recurs_advanced h hr honce hpos hint hbefore hs hcomp hends htm htk hsrc hsf hrid hawait hi hadd hws ht

/-! ## Runs -/

/-- What a committed command wrote. -/
theorem commits_writes {conn : Connection} {auth : Authorized} {request : CommandRequest} {response : Value}
    (h : Commits env w conn auth request response) :
    ∃ old new next, Written (w.session env conn) request old new next ∧
      Writes env old new next w ((automation env).next w (.command conn auth request)) ∧
      ((automation env).next w (.command conn auth request)).clock = w.clock := by
  obtain ⟨db', hw, hnext⟩ := commits_worked h
  rw [hnext]
  obtain ⟨old, new, next, hwr, hws, -⟩ := command_writes hw
  exact ⟨old, new, next, hwr, hws, rfl⟩

/-- **The write that sets a fire time starts the schedule**, and every instant fired before it is
earlier. -/
theorem recurs_of_commits {conn : Connection} {auth : Authorized} {request : CommandRequest}
    {response : Value} (hrules : ∀ r ∈ w.db.rules, RuleOK env r)
    (hc : Commits env w conn auth request response) (hw : WholeWrite env w (.command conn auth request))
    (hti : TimersOK env ((automation env).next w (.command conn auth request)))
    (hr : rule ∈ ((automation env).next w (.command conn auth request)).db.rules)
    (hid : rule.ruleId = request.ruleId) (hn : rule.nextFireAt = some n) :
    let w₀ := (automation env).next w (.command conn auth request)
    (∃ interval, intervalSeconds rule.trigger = some interval ∧ 0 < interval) ∧
    (∀ t ∈ fireTimes env w₀.db rule.ruleId, t < (decodeTimestamptz n).unixNanos) ∧
    ∀ interval, 0 < interval →
      Recurs env rule n interval (fireTimes env w₀.db rule.ruleId) (.waits 0) w₀ := by
  intro w₀
  obtain ⟨old, new, next, hwr, hws, hclock⟩ := commits_writes hc
  cases Table.eq_of_key hr hws.rules.mem (hid.trans hwr.ruleId_eq.symm)
  rw [hws.nextFireAt] at hn
  obtain ⟨N, rfl, rfl⟩ := Option.map_eq_some_iff.1 hn
  have hok : RuleOK env rule := hwr.ruleOK hc.1 (by
    rintro o rfl; exact hrules o (Table.find?_eq_some.1 hws.found).1)
  have hsched := hws.scheduled.1 rfl
  obtain ⟨interval, hint, hge, -⟩ := hok.trigger.interval hsched.2.2
  -- the clock has reached every instant fired so far, but not the new one
  have hbefore : ∀ t ∈ fireTimes env w₀.db rule.ruleId, t < (decodeTimestamptz (encodeTimestamptz N)).unixNanos := by
    intro t ht
    obtain ⟨e, he, -, hfor⟩ := mem_fireTimes.1 ht
    obtain ⟨tr, htr, -, hsrc, T, hT, rfl⟩ := firedFor_eq_some.1 hfor
    obtain ⟨_, T', hof, hle⟩ := hti.triggers tr htr hsrc
    rw [hof.payload] at hT
    cases hT
    have hlt : w.clock < N.unixNanos := (initialNextFire_some hok.trigger hwr.initialNextFire_eq).1
    rw [decode_encode_iff.2 ((hwr.whole hok hws.found).2 hw)]
    omega
  refine ⟨⟨interval, hint, by omega⟩, hbefore, fun i hi => ⟨⟨rule, hr, rfl, rfl, ?_⟩, ?_, ?_⟩⟩
  · rw [hws.nextFireAt]
    show some _ = some (point _ _ 0)
    rw [point_zero]
  · exact (List.append_nil _).symm
  · intro e he hide k hfor
    have hlt := hbefore _ (mem_fireTimes.2 ⟨e, he, hide, hfor⟩)
    exact absurd (first_le_point (Int.mul_pos hi (by decide)) k) (not_le.2 hlt)

/-- **Recurring fires have no gap, repeat or overlap between edits.** After the rule write that set the
fire time `n`, and as long as no edit of the rule follows and no timer comes early, the executions accepted
since are those of the first rounds, in order and each once; a round has ended exactly when its execution
has; the rule waits for the first that has not. And the next step keeps it so: a round begins only when all
before it have ended, and the fire time moves on by one round, when the holder completes the execution of
the round under way. -/
theorem recurring_fires {is later : List Event} {conn : Connection} {auth : Authorized}
    {request : CommandRequest} {response : Value}
    (hc : Commits env ((automation env).run is) conn auth request response)
    (hw : WholeWrite env ((automation env).run is) (.command conn auth request))
    (hr : rule ∈ ((automation env).run (is ++ [.command conn auth request])).db.rules)
    (hid : rule.ruleId = request.ruleId) (hn : rule.nextFireAt = some n)
    (ha : (automation env).Along (TimersDue env) World.init (is ++ .command conn auth request :: later))
    (hedit : ∀ event ∈ later, event.edits rule.ruleId = false) :
    let w₀ := (automation env).run (is ++ [.command conn auth request])
    let w := (automation env).run (is ++ .command conn auth request :: later)
    ∃ interval, intervalSeconds rule.trigger = some interval ∧ 0 < interval ∧
      ∃ c, Recurs env rule n interval (fireTimes env w₀.db rule.ruleId) c w ∧
        ∀ event, TimersDue env w event → event.edits rule.ruleId = false → ∃ c',
          Recurs env rule n interval (fireTimes env w₀.db rule.ruleId) c' ((automation env).next w event) ∧
          (c'.begun = c.begun ∨ (c'.begun = c.begun + 1 ∧ c.ended = c.begun)) ∧
          (c'.ended = c.ended ∨ (c'.ended = c.ended + 1 ∧ EndsRound env rule n interval c w event)) := by
  intro w₀ w
  have hw₀ : w₀ = (automation env).next ((automation env).run is) (.command conn auth request) := by
    show (automation env).run (is ++ [.command conn auth request]) = _
    rw [Transition.Machine.run_append]; rfl
  obtain ⟨ha₀, ha₁⟩ : (automation env).Along (TimersDue env) World.init (is ++ [.command conn auth request]) ∧
      (automation env).Along (TimersDue env) w₀ later := by
    rw [show is ++ .command conn auth request :: later = (is ++ [.command conn auth request]) ++ later by simp,
      Transition.Machine.along_append] at ha
    exact ha
  obtain ⟨hti₀, honce₀⟩ : TimersOK env w₀ ∧ FiredOnce env w₀.db := run_timers ha₀
  obtain ⟨⟨interval, hint, hpos⟩, hbefore, hstart⟩ := recurs_of_commits (run_rules is) hc hw (hw₀ ▸ hti₀)
    (hw₀ ▸ hr) hid hn
  rw [← hw₀] at hbefore hstart
  -- the schedule stands somewhere in every state of the segment
  have hrefs₀ : RefsOK env w₀ := run_refs _
  have hguard := Transition.Machine.along_and ha₁ (Transition.Machine.along_of_mem hedit w₀)
  obtain ⟨hrefs, hledger, hti, honce, c, hs⟩ := inv_from (I := fun w => DispatchLedger w.db ∧ TimersOK env w ∧
      FiredOnce env w.db ∧ ∃ c, Recurs env rule n interval (fireTimes env w₀.db rule.ruleId) c w)
    (fun hrefs hg hstep ⟨hledger, hti, honce, c, hs⟩ => by
      obtain ⟨c', -, hs', -⟩ := step_recurs hstep hrefs hledger hti honce hpos hint hbefore hg.2 hs
      exact ⟨step_ledger hstep hledger, step_timers hstep hrefs hg.1 hti, step_once hstep hrefs hti honce, c', hs'⟩)
    hrefs₀ ⟨(run_ledger _).1, hti₀, honce₀, _, hstart interval hpos⟩ hguard
  have hrun : (automation env).runFrom w₀ later = w := by
    show _ = (automation env).run (is ++ .command conn auth request :: later)
    rw [show is ++ .command conn auth request :: later = (is ++ [.command conn auth request]) ++ later by simp,
      Transition.Machine.run_append]
  rw [hrun] at hrefs hledger hti honce hs
  refine ⟨interval, hint, hpos, c, hs, fun event hdue hedit => ?_⟩
  obtain ⟨c', hmoves, hs', hends⟩ :=
    step_recurs (step_cases hrefs.linked event) hrefs hledger hti honce hpos hint hbefore hedit hs
  refine ⟨c', hs', hmoves.begun_cases, ?_⟩
  rcases hmoves.ended_cases with h | h
  · exact Or.inl h
  · exact Or.inr ⟨h, hends.resolve_left (by omega)⟩

section Sample

open Sample

/-- What follows the creation of the schedule: its first fire, and the same timer once more. -/
noncomputable def firstRound : List Event :=
  [wait 60, .receiveTimer (conn 1 60) (timer 60 "2030-01-01T00:01:00Z"), claims 60] ++ works 60 1 served 5 ++
    [.receiveTimer (conn 2 60) (timer 60 "2030-01-01T00:01:00Z")]

theorem recurring_fires_nightly :
    let write := Event.command (conn 0 0) auth (nightly 60 none)
    let w₀ := (automation Sample.env).run ([atStart] ++ [write])
    ∃ rule ∈ w₀.db.rules, rule.nextFireAt = some (micros 60) ∧
      ∃ interval c, Recurs Sample.env rule (micros 60) interval (fireTimes Sample.env w₀.db rule.ruleId) c
        ((automation Sample.env).run ([atStart] ++ write :: firstRound)) := by
  intro write w₀
  obtain ⟨response, hc⟩ : ∃ response,
      Commits Sample.env ((automation Sample.env).run [atStart]) (conn 0 0) auth (nightly 60 none) response := by
    decide
  obtain ⟨rule, hm, hid, hn⟩ : ∃ rule ∈ w₀.db.rules.rows, rule.ruleId = "nightly" ∧
      rule.nextFireAt = some (micros 60) := by
    decide
  have hedit : ∀ event ∈ firstRound, event.edits rule.ruleId = false := by
    rw [hid]; decide
  obtain ⟨interval, -, -, c, hs, -⟩ := recurring_fires hc (by decide) hm hid hn (by decide) hedit
  exact ⟨rule, hm, hn, interval, c, hs⟩

end Sample

end ProjectAutomation

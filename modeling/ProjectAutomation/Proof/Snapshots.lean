import ProjectAutomation.Proof.Requests

/-!
# Executions and the snapshots they own

* `Opens`: how one delivery opens an execution for one rule.
* `OpenStep`: a step opens executions with the trigger it records, one for each rule, or
  none.
* `run_opened`: every execution was opened so, with the actions its rule had then.
* `snapshots_immutable`: the snapshot stays, with one receipt for each of its actions,
  each under a key of its own.
-/

namespace ProjectAutomation

open Relational

variable {env : Env} {w w' : World} {event : Event} {s : Session}

/-! ## Opening -/

/-- The delivery `event` records `trigger` and opens `e` for `rule`. -/
inductive Opens (env : Env) (w : World) : Event → TriggerRow → RuleRow → ExecutionRow → Prop
  | event {conn : Connection} {request : ReceiveEventRequest} {occurredAt : OffsetDateTime} {rule : RuleRow}
      {e : ExecutionRow} : validEvent (fun text => (env.parseRfc3339 text).isSome) request = true →
      rule ∈ w.db.rules → rule.takesEvents request.organizationId = true →
      rule.fires request.eventType.name request.toValue = true →
      OpenedFor (w.session env conn) request.organizationId (conn.newV4 0) rule e →
      Opens env w (.receiveEvent conn request)
        (newTrigger (w.session env conn) request.organizationId .event request.dedupeKey none request.toValue
          (encodeTimestamptz occurredAt)) rule e
  | timer {conn : Connection} {request : ReceiveTimerRequest} {scheduledFor : OffsetDateTime} {rule : RuleRow}
      {e : ExecutionRow} : rule ∈ w.db.rules → rule.liveAt request.organizationId request.ruleId = true →
      rule.firesAt scheduledFor = true →
      OpenedFor (w.session env conn) request.organizationId (conn.newV4 0) rule e →
      Opens env w (.receiveTimer conn request)
        (newTrigger (w.session env conn) request.organizationId .timer request.dedupeKey (some request.ruleId)
          request.toValue (encodeTimestamptz scheduledFor)) rule e

/-- An execution is opened with what its rule and its trigger hold. -/
structure Snapshotted (w : World) (trigger : TriggerRow) (rule : RuleRow) (e : ExecutionRow) : Prop where
  rule_mem : rule ∈ w.db.rules
  live : rule.live = true
  enabled : rule.enabled = true
  ruleId : e.ruleId = rule.ruleId
  actions : e.actions = rule.actions
  triggerId : e.triggerId = trigger.triggerId
  organizationId : e.organizationId = rule.organizationId
  triggerOrganization : trigger.organizationId = rule.organizationId

theorem Opens.snapshotted {trigger : TriggerRow} {rule : RuleRow} {e : ExecutionRow}
    (h : Opens env w event trigger rule e) : Snapshotted w trigger rule e := by
  cases h with
  | event _ hm ht _ ho =>
    obtain ⟨horg, hen, hl, -⟩ := takesEvents_iff.1 ht
    have hrow := ho.row
    refine ⟨hm, hl, hen, ?_, ?_, ?_, ?_, horg.symm⟩ <;> rw [hrow]
    · rfl
    · rfl
    · rfl
    · exact horg.symm
  | timer hm hlive hf ho =>
    obtain ⟨horg, -, hl⟩ := liveAt_iff.1 hlive
    have hrow := ho.row
    refine ⟨hm, hl, (firesAt_iff.1 hf).1, ?_, ?_, ?_, ?_, horg.symm⟩ <;> rw [hrow]
    · rfl
    · rfl
    · rfl
    · exact horg.symm

/-- **What a step does to the executions.** -/
inductive OpenStep (env : Env) (w : World) (event : Event) (w' : World) : Prop
  | none : (∀ e' ∈ w'.db.executions, ∃ e ∈ w.db.executions, e.Continues e') → OpenStep env w event w'
  | opened {s : Session} {trigger : TriggerRow} {es : List ExecutionRow} : Intake s trigger es w.db w'.db →
      (∀ e ∈ es, ∃ rule, Opens env w event trigger rule e) → (es.map ExecutionRow.ruleId).Nodup →
      OpenStep env w event w'

theorem step_opens (h : Step env w event w') : OpenStep env w event w' := by
  cases h with
  | idle | tick | pendingDispatches | enqueued | lost | flushEnds | marked | noted | failed | givesUp
  | statusRead | called | recorded | closes => exact .none (fun e he => ⟨e, he, .refl e⟩)
  | command _ hw _ => exact .none (fun e he => ⟨e, hw.frame.2.1 ▸ he, .refl e⟩)
  | receiveEvent hv hin hall =>
    refine .opened hin (fun e he => ?_) ?_
    · obtain ⟨rule, hr, ho⟩ := forall₂_mem_right hall he
      rw [List.mem_filter, List.mem_filter] at hr
      exact ⟨rule, .event hv hr.1.1 hr.1.2 hr.2 ho⟩
    · rw [openedFor_ruleIds hall]
      exact w.db.rules.nodup.sublist ((List.filter_sublist.trans List.filter_sublist).map _)
  | receiveTimer _ _ hout hin =>
    cases hout with
    | ignored _ => exact .opened hin (fun e he => by cases he) List.nodup_nil
    | fired hm hl hf ho =>
      refine .opened hin (fun e he => ?_) (List.nodup_singleton _)
      cases List.mem_singleton.1 he
      exact ⟨_, .timer hm hl hf ho⟩
  | claimed hcand hl =>
    refine .none (fun e' he' => ?_)
    rcases hl.executions_cases he' with ⟨he, -⟩ | ⟨c, hc, rfl⟩
    · exact ⟨e', he, .refl e'⟩
    · exact ⟨_, (hcand.there c hc).1, continues_lease (hcand.there c hc).2.2.1 _ _ _⟩
  | released _ hleft =>
    refine .none (fun e' he' => ?_)
    rcases hleft.executions.cases he' with rfl | ⟨he, -⟩
    · exact ⟨_, hleft.there, continues_leave hleft.held _ _⟩
    · exact ⟨e', he, .refl e'⟩
  | completed _ _ hleft _ _ hsettled =>
    refine .none (fun e' he' => ?_)
    simp only [World.setTask] at he'
    rw [hsettled.frame.2.2.1] at he'
    rcases hleft.executions.cases he' with rfl | ⟨he, -⟩
    · exact ⟨_, hleft.there, continues_leave hleft.held _ _⟩
    · exact ⟨e', he, .refl e'⟩

/-! ## Runs -/

/-- No execution is lost. -/
theorem run_continues {w : World} (hrefs : RefsOK env w) (later : List Event) {e : ExecutionRow}
    (he : e ∈ w.db.executions) : ∃ e' ∈ ((automation env).runFrom w later).db.executions, e.Continues e' :=
  rel_along (I := fun _ => True) (G := fun _ _ => True)
    (R := fun w w' => ∀ e ∈ w.db.executions, ∃ e' ∈ w'.db.executions, e.Continues e')
    (fun _ e he => ⟨e, he, .refl e⟩)
    (fun _ _ _ h h' e he => by
      obtain ⟨e₁, he₁, hc⟩ := h e he
      obtain ⟨e₂, he₂, hc'⟩ := h' e₁ he₁
      exact ⟨e₂, he₂, hc.trans hc'⟩)
    (fun _ _ _ _ => trivial) (fun _ _ hstep _ e he => step_continues hstep he) hrefs trivial
    (Transition.Machine.along_true _ _) e he

/-- No receipt is lost, and its key is fixed. -/
theorem run_receipt_continues {w : World} (hrefs : RefsOK env w) (later : List Event) {r : ActionReceiptRow}
    (hr : r ∈ w.db.receipts) : ∃ r' ∈ ((automation env).runFrom w later).db.receipts, r.Continues r' :=
  rel_along (I := fun _ => True) (G := fun _ _ => True)
    (R := fun w w' => ∀ r ∈ w.db.receipts, ∃ r' ∈ w'.db.receipts, r.Continues r')
    (fun _ r hr => ⟨r, hr, .refl r⟩)
    (fun _ _ _ h h' r hr => by
      obtain ⟨r₁, hr₁, hc⟩ := h r hr
      obtain ⟨r₂, hr₂, hc'⟩ := h' r₁ hr₁
      exact ⟨r₂, hr₂, hc'.key.trans hc.key, hc'.kind.trans hc.kind,
        hc'.idempotencyKey.trans hc.idempotencyKey⟩)
    (fun _ _ _ _ => trivial) (fun _ _ hstep _ r hr => step_receipt_continues hstep hr) hrefs trivial
    (Transition.Machine.along_true _ _) r hr

/-- A delivery of the run opened the execution `e` was. -/
def OpenedIn (env : Env) (events : List Event) (db : Database) (e : ExecutionRow) : Prop :=
  ∃ earlier event later trigger rule e₀, events = earlier ++ event :: later ∧
    Opens env ((automation env).run earlier) event trigger rule e₀ ∧ e₀.Continues e ∧ trigger ∈ db.triggers

/-- **Every execution was opened by a delivery**, with the actions its rule had then. -/
theorem run_opened (events : List Event) :
    ∀ e ∈ ((automation env).run events).db.executions,
      OpenedIn env events ((automation env).run events).db e := by
  refine Transition.Machine.history (m := automation env)
    (I := fun events w => ∀ e ∈ w.db.executions, OpenedIn env events w.db e) ?_ ?_ events
  · intro e he
    exact absurd he (Table.not_mem_empty e)
  intro events event hi e' he'
  have hstep : Step env ((automation env).run events) event _ := step_cases (run_refs events).linked event
  have hold : ∀ e ∈ ((automation env).run events).db.executions, e.Continues e' →
      OpenedIn env (events ++ [event]) ((automation env).next ((automation env).run events) event).db e' := by
    intro e he hc
    obtain ⟨earlier, event', later, trigger, rule, e₀, rfl, hopen, hc₀, ht⟩ := hi e he
    exact ⟨earlier, event', later ++ [event], trigger, rule, e₀, by simp, hopen, hc₀.trans hc,
      step_triggers hstep ht⟩
  cases step_opens hstep with
  | none h =>
    obtain ⟨e, he, hc⟩ := h e' he'
    exact hold e he hc
  | opened hin hopen _ =>
    rcases hin.mem_executions.1 he' with he | he
    · exact hold e' he (.refl e')
    · obtain ⟨rule, ho⟩ := hopen e' he
      exact ⟨events, event, [], _, rule, e', rfl, ho, .refl e', hin.mem_triggers.2 (Or.inr rfl)⟩

/-! ## One execution for a rule and a trigger -/

/-- The rule and the trigger of an execution name it. -/
def LinksUnique (db : Database) : Prop :=
  ∀ e ∈ db.executions, ∀ e' ∈ db.executions, e.ruleId = e'.ruleId → e.triggerId = e'.triggerId → e = e'

theorem step_links (hlink : Linked w.db) (h : Step env w event w') (hi : LinksUnique w.db) :
    LinksUnique w'.db := by
  intro e he e' he' hrule htrig
  cases step_opens h with
  | none hold =>
    obtain ⟨x, hx, hc⟩ := hold e he
    obtain ⟨x', hx', hc'⟩ := hold e' he'
    have hone := hi x hx x' hx' (hc.ruleId.symm.trans (hrule.trans hc'.ruleId))
      (hc.triggerId.symm.trans (htrig.trans hc'.triggerId))
    refine Table.eq_of_key he he' ?_
    rw [hc.executionId, hc'.executionId, hone]
  | @opened _ _ es hin _ hnodup =>
    -- an execution that was there belongs to a trigger that was there
    have hapart : ∀ x ∈ w.db.executions, ∀ y ∈ es, x.triggerId ≠ y.triggerId := by
      intro x hx y hy hk
      obtain ⟨t, ht, htk⟩ := hlink x hx
      exact hin.newId t ht (htk.trans (hk.trans (hin.triggerId_eq hy)))
    rcases hin.mem_executions.1 he with he | he <;> rcases hin.mem_executions.1 he' with he' | he'
    · exact hi e he e' he' hrule htrig
    · exact absurd htrig (hapart e he e' he')
    · exact absurd htrig.symm (hapart e' he' e he)
    · exact List.inj_on_of_nodup_map hnodup he he' hrule

theorem run_links (events : List Event) : LinksUnique ((automation env).run events).db :=
  inv_always (I := fun w => LinksUnique w.db) (fun e he => absurd he (Table.not_mem_empty e))
    (fun hrefs hstep hi => step_links hrefs.linked hstep hi) events

/-! ## Ignored triggers -/

/-- A trigger that opened no execution when it was recorded never has one. -/
theorem step_unfired (h : Step env w event w') {t : TriggerRow} (ht : t ∈ w.db.triggers)
    (hno : ∀ e ∈ w.db.executions, e.triggerId ≠ t.triggerId) :
    ∀ e ∈ w'.db.executions, e.triggerId ≠ t.triggerId := by
  intro e' he'
  cases step_opens h with
  | none hold =>
    obtain ⟨e, he, hc⟩ := hold e' he'
    rw [hc.triggerId]
    exact hno e he
  | opened hin _ _ =>
    rcases hin.mem_executions.1 he' with he | he
    · exact hno e' he
    · rw [hin.triggerId_eq he]
      exact fun hk => hin.newId t ht hk.symm

theorem run_unfired {w : World} (hrefs : RefsOK env w) {t : TriggerRow} (ht : t ∈ w.db.triggers)
    (hno : ∀ e ∈ w.db.executions, e.triggerId ≠ t.triggerId) (later : List Event) :
    ∀ e ∈ ((automation env).runFrom w later).db.executions, e.triggerId ≠ t.triggerId := by
  refine (inv_from (I := fun w => t ∈ w.db.triggers ∧ ∀ e ∈ w.db.executions, e.triggerId ≠ t.triggerId)
    (G := fun _ _ => True) ?_ hrefs ⟨ht, hno⟩ (Transition.Machine.along_true _ later)).2.2
  intro w event w' _ _ hstep hi
  exact ⟨step_triggers hstep hi.1, step_unfired hstep hi.1 hi.2⟩

/-- The delivery was answered that it is not accepted. -/
def Ignored (env : Env) (w : World) (event : Event) : Prop :=
  ∃ ids, (automation env).reply w event = .receipt (.ok ⟨false, false, ids⟩)

/-- A delivery that is ignored opens nothing for the trigger it records. -/
theorem ignored_opens_none (hrefs : RefsOK env w) (h : Ignored env w event) {t : TriggerRow}
    (ht : t ∈ ((automation env).next w event).db.triggers) (hnew : t ∉ w.db.triggers) :
    ∀ e ∈ ((automation env).next w event).db.executions, e.triggerId ≠ t.triggerId := by
  obtain ⟨ids, hreply⟩ := h
  -- no trigger is new after a delivery that changed nothing
  have hsame : (automation env).next w event ≠ w := fun he => hnew (he ▸ ht)
  cases event with
  | tick | pendingDispatches | flush | claimExecutions | work => cases hreply
  | command conn auth request => cases hreply
  | receiveEvent conn request =>
    have hreply : (w.transact (takeEvent (w.session env conn) request)).1 = .ok ⟨false, false, ids⟩ :=
      Reply.receipt.inj hreply
    have hnext : (automation env).next w (.receiveEvent conn request) =
      (w.transact (takeEvent (w.session env conn) request)).2 := rfl
    rcases w.transact_cases (takeEvent (w.session env conn) request) with
      ⟨_, -, he⟩ | ⟨_, _, -, he⟩ | ⟨ending, _, db', hb, hcommitted, he⟩
    · exact absurd (hnext.trans (congrArg Prod.snd he)) hsame
    · exact absurd (hnext.trans (congrArg Prod.snd he)) hsame
    · rw [he] at hreply
      obtain ⟨-, occurredAt, -, hr⟩ := takeEvent_ok hb
      rcases receiveEvent_ok hrefs.linked hr with ⟨hc, -⟩ | ⟨_, es, -, hc, -⟩
      · cases hc
        cases hcommitted
      · cases Ending.answer_eq_ok hc.value hreply
  | receiveTimer conn request =>
    have hreply : (w.transact (takeTimer (w.session env conn) request)).1 = .ok ⟨false, false, ids⟩ :=
      Reply.receipt.inj hreply
    have hnext : (automation env).next w (.receiveTimer conn request) =
      (w.transact (takeTimer (w.session env conn) request)).2 := rfl
    rcases w.transact_cases (takeTimer (w.session env conn) request) with
      ⟨_, -, he⟩ | ⟨_, _, -, he⟩ | ⟨ending, _, db', hb, hcommitted, he⟩
    · exact absurd (hnext.trans (congrArg Prod.snd he)) hsame
    · exact absurd (hnext.trans (congrArg Prod.snd he)) hsame
    · rw [he] at hreply
      obtain ⟨-, scheduledFor, -, hr⟩ := takeTimer_ok hb
      obtain ⟨-, hc | ⟨receipt, es, hc, hout, hin⟩⟩ := receiveTimer_ok hrefs.linked hr
      · cases hc.1
        cases hcommitted
      · cases Ending.answer_eq_ok hc.value hreply
        cases hout
        rw [hnext, he] at ht ⊢
        have htrig : t = _ := (hin.mem_triggers.1 ht).resolve_left hnew
        intro e he hk
        -- what was there belongs to older triggers
        have hold : e ∈ w.db.executions := (hin.mem_executions.1 he).resolve_right (by simp)
        obtain ⟨t', ht', hk'⟩ := hrefs.linked e hold
        refine hin.newId t' ht' ?_
        rw [hk', hk, htrig]

/-! ## Snapshots -/

theorem asArray_steps {db : Database} {e : ExecutionRow} (h : ExecutionOK db e) :
    e.actions.asArray = some e.steps := by
  obtain ⟨steps, hs⟩ := Option.isSome_iff_exists.1 h.isArray
  unfold ExecutionRow.steps
  rw [hs]; rfl

/-- The receipts of an execution are those of its actions. -/
theorem receipt_action (hrefs : RefsOK env w) {e : ExecutionRow} (he : e ∈ w.db.executions)
    {r : ActionReceiptRow} (hr : r ∈ w.db.receipts) (hid : r.executionId = e.executionId) :
    ∃ action, e.steps[r.actionIndex]? = some action ∧ action.getStr "kind" = some r.kind := by
  obtain ⟨e', he', hid', action, ha, hk⟩ := (hrefs.receipts r hr).execution
  have hone := Table.eq_of_key he' he (hid'.trans hid)
  subst hone
  exact ⟨action, ha, hk⟩

/-- **Executions own their snapshots.** Every execution was opened by one delivery for one rule, in its
organization, with the actions the rule had then, and keeps them. It has one receipt for each of
them, with the kind of that action and a key of its own for ever. A rule and a trigger have at most
one execution, an ignored trigger has none. -/
theorem snapshots_immutable (huuid : env.UuidOK) (events : List Event) :
    let w := (automation env).run events
    (∀ e ∈ w.db.executions, ∃ earlier event later trigger rule, events = earlier ++ event :: later ∧
      (∃ e₀, Opens env ((automation env).run earlier) event trigger rule e₀ ∧
        e₀.executionId = e.executionId) ∧
      rule ∈ ((automation env).run earlier).db.rules ∧ rule.ruleId = e.ruleId ∧
      rule.organizationId = e.organizationId ∧ trigger ∈ w.db.triggers ∧
      trigger.triggerId = e.triggerId ∧ trigger.organizationId = e.organizationId ∧
      e.actions = rule.actions ∧ e.actions.asArray = some e.steps) ∧
    (∀ e ∈ w.db.executions, ∀ later, ∃ e' ∈ ((automation env).runFrom w later).db.executions,
      e'.executionId = e.executionId ∧ e'.actions = e.actions ∧ e'.ruleId = e.ruleId ∧
      e'.triggerId = e.triggerId ∧ e'.organizationId = e.organizationId) ∧
    (∀ e ∈ w.db.executions, ∀ i,
      (i < e.steps.length ↔ ∃ r ∈ w.db.receipts, r.executionId = e.executionId ∧ r.actionIndex = i) ∧
      ∀ r ∈ w.db.receipts, r.executionId = e.executionId → r.actionIndex = i →
        (∃ action, e.steps[i]? = some action ∧ action.getStr "kind" = some r.kind) ∧
        ∀ r' ∈ w.db.receipts, r'.executionId = e.executionId → r'.actionIndex = i → r' = r) ∧
    (∀ r ∈ w.db.receipts,
      (∃ e ∈ w.db.executions, e.executionId = r.executionId) ∧
      (∀ r' ∈ w.db.receipts, r'.idempotencyKey = r.idempotencyKey → r' = r) ∧
      ∀ later, ∃ r' ∈ ((automation env).runFrom w later).db.receipts, r'.executionId = r.executionId ∧
        r'.actionIndex = r.actionIndex ∧ r'.kind = r.kind ∧ r'.idempotencyKey = r.idempotencyKey) ∧
    (∀ e ∈ w.db.executions, ∀ e' ∈ w.db.executions, e.ruleId = e'.ruleId → e.triggerId = e'.triggerId →
      e = e') ∧
    ∀ earlier event later, events = earlier ++ event :: later →
      Ignored env ((automation env).run earlier) event →
      ∀ t ∈ ((automation env).run (earlier ++ [event])).db.triggers,
        t ∉ ((automation env).run earlier).db.triggers →
        ∀ e ∈ w.db.executions, e.triggerId ≠ t.triggerId := by
  intro w
  have hrefs : RefsOK env w := run_refs events
  refine ⟨?_, ?_, ?_, ?_, run_links events, ?_⟩
  · intro e he
    obtain ⟨earlier, event, later, trigger, rule, e₀, heq, hopen, hc, ht⟩ := run_opened events e he
    have hs := hopen.snapshotted
    refine ⟨earlier, event, later, trigger, rule, heq, ⟨e₀, hopen, hc.executionId.symm⟩, hs.rule_mem, ?_, ?_, ht,
      ?_, ?_, hc.actions.trans hs.actions, asArray_steps (hrefs.executions e he)⟩
    · rw [hc.ruleId, hs.ruleId]
    · rw [hc.organizationId, hs.organizationId]
    · rw [hc.triggerId, hs.triggerId]
    · rw [hc.organizationId, hs.organizationId, hs.triggerOrganization]
  · intro e he later
    obtain ⟨e', he', hc⟩ := run_continues hrefs later he
    exact ⟨e', he', hc.executionId, hc.actions, hc.ruleId, hc.triggerId, hc.organizationId⟩
  · intro e he i
    refine ⟨⟨fun hlt => ?_, ?_⟩, fun r hr hid hidx => ⟨?_, fun r' hr' hid' hidx' => ?_⟩⟩
    · obtain ⟨r, hr, hk⟩ := hrefs.covered e he i hlt
      exact ⟨r, hr, congrArg Prod.fst hk, congrArg Prod.snd hk⟩
    · rintro ⟨r, hr, hid, rfl⟩
      obtain ⟨action, ha, -⟩ := receipt_action hrefs he hr hid
      exact (List.getElem?_eq_some_iff.1 ha).1
    · exact hidx ▸ receipt_action hrefs he hr hid
    · exact Table.eq_of_key hr' hr (Prod.ext (hid'.trans hid.symm) (hidx'.trans hidx.symm))
  · intro r hr
    refine ⟨?_, fun r' hr' hk => ?_, fun later => ?_⟩
    · obtain ⟨e, he, hid, -⟩ := (hrefs.receipts r hr).execution
      exact ⟨e, he, hid⟩
    · rw [(hrefs.receipts r hr).idempotencyKey, (hrefs.receipts r' hr').idempotencyKey] at hk
      obtain ⟨hid, hidx⟩ := actionKey_inj huuid hk
      exact Table.eq_of_key hr' hr (Prod.ext hid hidx)
    · obtain ⟨r', hr', hc⟩ := run_receipt_continues hrefs later hr
      exact ⟨r', hr', congrArg Prod.fst hc.key, congrArg Prod.snd hc.key, hc.kind, hc.idempotencyKey⟩
  · rintro earlier event later rfl hig t ht hnew
    rw [Transition.Machine.run_append] at ht
    have hmid : RefsOK env ((automation env).next ((automation env).run earlier) event) :=
      step_refs (run_refs earlier) (step_cases (run_refs earlier).linked event)
    have hrun := run_unfired hmid ht (ignored_opens_none (run_refs earlier) hig ht hnew) later
    rw [← Transition.Machine.runFrom_cons, ← Transition.Machine.run_append] at hrun
    exact hrun

section Sample

open Sample

/-- An event opens an execution with one comment to make. -/
theorem snapshots_immutable_triage :
    let w := (automation Sample.env).run (opening (comment none))
    (∃ e ∈ w.db.executions.rows, e.actions.asArray = some e.steps ∧
      ∃ r ∈ w.db.receipts.rows, r.executionId = e.executionId ∧ r.actionIndex = 0) ∧
    ∀ r ∈ w.db.receipts, ∀ r' ∈ w.db.receipts, r'.idempotencyKey = r.idempotencyKey → r' = r := by
  intro w
  obtain ⟨hopened, -, hcover, hkeys, -⟩ := snapshots_immutable uuidOK (opening (comment none))
  have hone : ∃ e ∈ w.db.executions.rows, e.steps.length = 1 := by decide
  obtain ⟨e, he, hlen⟩ := hone
  obtain ⟨_, _, _, _, _, -, -, -, -, -, -, -, -, -, harr⟩ := hopened e he
  exact ⟨⟨e, he, harr, (hcover e he 0).1.1 (by omega)⟩, fun r hr => (hkeys r hr).2.1⟩

end Sample

end ProjectAutomation

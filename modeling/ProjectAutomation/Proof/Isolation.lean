import ProjectAutomation.Relational.Agreement
import ProjectAutomation.Spec.Queries
import ProjectAutomation.Proof.Snapshots
import ProjectAutomation.Proof.DispatchLedger
import ProjectAutomation.Proof.Redelivery

/-!
# Organizations are kept apart

* `TenancyOK`: an execution belongs to the organization of its rule; a dispatch does by
  the ledger.
* `CarriedFor`: the organization an event is carried out for. A step of a flush or of a
  worker is carried out for the organization its copies were read, its batch claimed for.
* `step_isolated`: an event leaves the rows of every other organization alone.
* `tenants_isolated`: so it is after every run, and every read answers with rows of the
  organization it names.
-/

namespace ProjectAutomation

open Relational

variable {env : Env} {w w' : World} {event : Event} {s : Session} {organizationId other : String}

/-! ## Whose a row is -/

/-- The execution is one of the organization's; its attempts and receipts are then too. -/
def Owns (db : Database) (organizationId : String) (executionId : Uuid) : Prop :=
  ∃ e ∈ db.executions, e.executionId = executionId ∧ e.organizationId = organizationId

/-- The rows of the organization are the same in both. -/
structure Unchanged (organizationId : String) (db db' : Database) : Prop where
  rules : db.rules.Agree (fun r => r.organizationId = organizationId) db'.rules
  triggers : db.triggers.Agree (fun t => t.organizationId = organizationId) db'.triggers
  executions : db.executions.Agree (fun e => e.organizationId = organizationId) db'.executions
  attempts : db.attempts.Agree (fun a => Owns db organizationId a.executionId) db'.attempts
  receipts : db.receipts.Agree (fun r => Owns db organizationId r.executionId) db'.receipts
  dispatches : db.dispatches.Agree (fun d => d.organizationId = organizationId) db'.dispatches

theorem Unchanged.refl (organizationId : String) (db : Database) : Unchanged organizationId db db :=
  ⟨.refl _ _, .refl _ _, .refl _ _, .refl _ _, .refl _ _, .refl _ _⟩

/-- An execution has one organization. -/
theorem Owns.unique {db : Database} {executionId : Uuid} (h : Owns db organizationId executionId)
    (h' : Owns db other executionId) : organizationId = other := by
  obtain ⟨e, he, hid, rfl⟩ := h
  obtain ⟨e', he', hid', rfl⟩ := h'
  rw [Table.eq_of_key he he' (hid.trans hid'.symm)]

/-- An execution belongs to the organization of its rule. -/
def TenancyOK (db : Database) : Prop :=
  ∀ e ∈ db.executions, ∃ r ∈ db.rules, r.ruleId = e.ruleId ∧ r.organizationId = e.organizationId

/-- A rule keeps its organization. -/
theorem step_rule_organization (h : Step env w event w') {r : RuleRow} (hr : r ∈ w.db.rules) :
    ∃ r' ∈ w'.db.rules, r'.ruleId = r.ruleId ∧ r'.organizationId = r.organizationId := by
  cases step_schedule h with
  | same he _ => exact ⟨r, he ▸ hr, rfl, rfl⟩
  | write hw => exact hw.rule_of hr
  | mark _ he _ => exact ⟨r, he ▸ hr, rfl, rfl⟩
  | note _ he _ => exact ⟨r, he ▸ hr, rfl, rfl⟩

theorem step_tenancy (h : Step env w event w') (hi : TenancyOK w.db) : TenancyOK w'.db := by
  intro e' he'
  have hold : ∀ r ∈ w.db.rules, r.ruleId = e'.ruleId → r.organizationId = e'.organizationId →
      ∃ r' ∈ w'.db.rules, r'.ruleId = e'.ruleId ∧ r'.organizationId = e'.organizationId := by
    intro r hr hid horg
    obtain ⟨r', hr', hid', horg'⟩ := step_rule_organization h hr
    exact ⟨r', hr', hid'.trans hid, horg'.trans horg⟩
  cases step_opens h with
  | none hc =>
    obtain ⟨e, he, hcont⟩ := hc e' he'
    obtain ⟨r, hr, hid, horg⟩ := hi e he
    exact hold r hr (hid.trans hcont.ruleId.symm) (horg.trans hcont.organizationId.symm)
  | opened hin hopen _ =>
    rcases hin.mem_executions.1 he' with he | he
    · obtain ⟨r, hr, hid, horg⟩ := hi e' he
      exact hold r hr hid horg
    · obtain ⟨rule, ho⟩ := hopen e' he
      have hs := ho.snapshotted
      exact hold rule hs.rule_mem hs.ruleId.symm hs.organizationId.symm

theorem run_tenancy (events : List Event) : TenancyOK ((automation env).run events).db :=
  inv_always (I := fun w => TenancyOK w.db) (fun e he => absurd he (Table.not_mem_empty e))
    (fun _ hstep hi => step_tenancy hstep hi) events

/-! ## Statements -/

/-- A rule and its dispatches, written for one organization. -/
theorem ruleWrite_agree {old : Option RuleRow} {new : RuleRow} {next : Option OffsetDateTime}
    {db db' : Database} (h : RuleWrite env old new next db db')
    (howned : ∀ d ∈ db.dispatches, ∃ r ∈ db.rules, r.ruleId = d.ruleId ∧ r.organizationId = d.organizationId)
    (hne : new.organizationId ≠ other) :
    db.rules.Agree (fun r => r.organizationId = other) db'.rules ∧
      db.dispatches.Agree (fun d => d.organizationId = other) db'.dispatches := by
  have hrule : ∀ r ∈ db.rules, r.ruleId = new.ruleId → r.organizationId = new.organizationId := by
    intro r hr hk
    have hold : old = some r := by rw [← h.found, ← hk]; exact Table.find?_of_mem hr
    exact (h.live r hold).2
  have hdispatch : ∀ d ∈ db.dispatches, d.ruleId = new.ruleId → d.organizationId = new.organizationId := by
    intro d hd hk
    obtain ⟨r, hr, hid, horg⟩ := howned d hd
    rw [← horg]
    exact hrule r hr (hid.trans hk)
  refine ⟨Table.agree_of_put h.rules hne (fun r hr hk => ?_), fun d hd => ⟨fun hm => ?_, fun hm => ?_⟩⟩
  · rw [hrule r hr hk]
    exact hne
  · -- a row that was settled or made belongs to the rule
    by_contra hno
    have hk : d.ruleId = new.ruleId := by
      by_contra hk
      exact hno (h.dispatches.of_mem_of_ne hm hk)
    rcases h.dispatches.cases hm with ⟨d₀, hd₀, rfl⟩ | ⟨n, -, rfl, -⟩
    · have hkey := congrArg Prod.fst (settle_key new.ruleId (next.map encodeTimestamptz) d₀)
      have horg := hdispatch d₀ hd₀ (hkey.symm.trans hk)
      rw [settle_organizationId] at hd
      exact hne (horg.symm.trans hd)
    · exact hne hd
  · refine h.dispatches.mem_of_ne hm (fun hk => hne ?_)
    rw [← hdispatch d hm hk]
    exact hd

/-- A delivery for one organization. -/
theorem intake_unchanged {trigger : TriggerRow} {es : List ExecutionRow} {db db' : Database}
    (h : Intake s trigger es db db') (hne : trigger.organizationId ≠ other) : Unchanged other db db' := by
  have horg : ∀ e ∈ es, e.organizationId = trigger.organizationId := by
    intro e he
    obtain ⟨rule, -, -, -, -, ho⟩ := h.opened e he
    rw [ho.row]
    rfl
  refine ⟨Table.agree_of_eq h.rules, ?_, ?_, Table.agree_of_eq h.attempts, ?_, Table.agree_of_eq h.dispatches⟩
  · refine Table.agree_of_append h.triggers (fun t ht => ?_)
    rw [List.mem_singleton.1 ht]
    exact hne
  · refine Table.agree_of_append h.executions (fun e he => ?_)
    rw [horg e he]
    exact hne
  · -- the new receipts are those of new executions
    refine Table.agree_of_append h.receipts (fun r hr => ?_)
    obtain ⟨e, he, hr⟩ := List.mem_flatMap.1 hr
    obtain ⟨j, action, -, rfl⟩ := mem_openReceipts.1 hr
    rintro ⟨x, hx, hid, -⟩
    exact h.ids_nodup.2 x hx e he hid

/-- A batch claimed for one organization. -/
theorem leased_agree {worker : String} {leaseSeconds : ℤ} {rows : List (ExecutionRow × Value)}
    {claims : List ClaimedExecution} {db db' : Database} (own : Uuid → Prop)
    (h : LeasedAll s worker leaseSeconds rows claims db db') (horg : ∀ c ∈ rows, c.1.organizationId ≠ other)
    (hown : ∀ c ∈ rows, ¬ own c.1.executionId) :
    db.executions.Agree (fun e => e.organizationId = other) db'.executions ∧
      db.attempts.Agree (fun a => own a.executionId) db'.attempts := by
  -- one execution of the batch after the other
  induction h with
  | nil => exact ⟨.refl _ _, .refl _ _⟩
  | @cons e payload _ rest _ db db₁ _ he hone _ _ ih =>
    obtain ⟨hex, hat⟩ := ih (fun c hc => horg c (List.mem_cons_of_mem _ hc))
      (fun c hc => hown c (List.mem_cons_of_mem _ hc))
    have heorg : e.organizationId ≠ other := horg (e, payload) List.mem_cons_self
    have heown : ¬ own e.executionId := hown (e, payload) List.mem_cons_self
    -- an attempt that expires is one of the execution's
    have hexpire : ∀ a ∈ db.attempts, own a.executionId ∨ own (expire s e a).executionId → expire s e a = a := by
      intro a _ hp
      have hkey : (expire s e a).executionId = a.executionId := congrArg Prod.fst (expire_key e a)
      rw [hkey, or_self] at hp
      unfold expire
      rw [if_neg]
      rintro ⟨-, hid, -⟩
      exact heown (hid ▸ hp)
    refine ⟨(Table.agree_of_put hone.executions heorg (fun r hr hk => ?_)).trans hex,
      (Table.agree_of_images hone.attempts hexpire (fun a ha => ?_)).trans hat⟩
    · rw [Table.eq_of_key hr he hk]
      exact heorg
    · rw [ha]
      exact heown

/-- A worker leaves an execution of one organization. -/
theorem left_agree {claim : ClaimedExecution} {status : ExecutionStatus} {attemptStatus : AttemptStatus}
    {failure : Option String} {e : ExecutionRow} {db db' : Database}
    (h : Left s claim status attemptStatus failure e db db') (howns : Owns db organizationId claim.executionId)
    (hne : organizationId ≠ other) :
    db.executions.Agree (fun e => e.organizationId = other) db'.executions ∧
      db.attempts.Agree (fun a => Owns db other a.executionId) db'.attempts := by
  have hid : e.executionId = claim.executionId := (heldBy_iff.1 h.held).1
  have heorg : e.organizationId ≠ other := by
    rw [← howns.unique ⟨e, h.there, hid, rfl⟩]
    exact hne
  refine ⟨Table.agree_of_put h.executions heorg (fun r hr hk => ?_), ?_⟩
  · rw [Table.eq_of_key hr h.there hk]
    exact heorg
  · refine Table.agree_of_map h.attempts (fun a _ hp => if_neg (fun hk => hne ?_))
    have haid : a.executionId = claim.executionId := congrArg Prod.fst hk
    rw [if_pos hk] at hp
    rcases hp with hp | hp
    · exact howns.unique (haid ▸ hp)
    · exact howns.unique (haid ▸ hp)

/-- A receipt of an execution of one organization. -/
theorem receipt_agree {row new : ActionReceiptRow} {receipts : Table ActionReceiptRow.key} {db : Database}
    {executionId : Uuid} {index : ℕ} (hput : db.receipts.Put new receipts)
    (hkey : row.key = (executionId, index)) (hnew : new.key = row.key)
    (howns : Owns db organizationId executionId) (hne : organizationId ≠ other) :
    db.receipts.Agree (fun r => Owns db other r.executionId) receipts := by
  have hid : new.executionId = executionId := congrArg Prod.fst (hnew.trans hkey)
  refine Table.agree_of_put hput (fun ho => hne (howns.unique (hid ▸ ho))) (fun r _ hk ho => hne ?_)
  have hrid : r.executionId = executionId := (congrArg Prod.fst hk).trans hid
  exact howns.unique (hrid ▸ ho)

/-! ## For whom an event is carried out -/

/-- `flush_schedules` of the organization read the copy at `index`. -/
def FlushedFor (env : Env) (events : List Event) (index : ℕ) (organizationId : String) : Prop :=
  ∃ earlier conn limit later, events = earlier ++ .pendingDispatches conn organizationId limit :: later ∧
    let w := (automation env).run earlier
    let w' := (automation env).next w (.pendingDispatches conn organizationId limit)
    w.flushes.length ≤ index ∧ index < w'.flushes.length

/-- `reconcile` of the organization claimed the attempt. -/
def ClaimedFor (env : Env) (events : List Event) (k : Uuid × ℕ) (organizationId : String) : Prop :=
  ∃ earlier conn worker limit leaseSeconds locked later,
    events = earlier ++ .claimExecutions conn organizationId worker limit leaseSeconds locked :: later ∧
    let w := (automation env).run earlier
    let w' := (automation env).next w (.claimExecutions conn organizationId worker limit leaseSeconds locked)
    w.tasks k = none ∧ (w'.tasks k).isSome = true

/-- The organization an event is carried out for: the one its request names, or the one its flush was
begun, its attempt claimed for. -/
inductive CarriedFor (env : Env) (events : List Event) : Event → String → Prop
  | command {conn : Connection} {auth : Authorized} {request : CommandRequest} :
      CarriedFor env events (.command conn auth request) request.organizationId
  | receiveEvent {conn : Connection} {request : ReceiveEventRequest} :
      CarriedFor env events (.receiveEvent conn request) request.organizationId
  | receiveTimer {conn : Connection} {request : ReceiveTimerRequest} :
      CarriedFor env events (.receiveTimer conn request) request.organizationId
  | pendingDispatches {conn : Connection} {organizationId : String} {limit : ℕ} :
      CarriedFor env events (.pendingDispatches conn organizationId limit) organizationId
  | flush {conn : Connection} {index : ℕ} {answer : EnqueueAnswer} {organizationId : String} :
      FlushedFor env events index organizationId →
      CarriedFor env events (.flush conn index answer) organizationId
  | claimExecutions {conn : Connection} {organizationId worker : String} {limit : ℕ} {leaseSeconds : ℤ}
      {locked : Uuid → Bool} :
      CarriedFor env events (.claimExecutions conn organizationId worker limit leaseSeconds locked)
        organizationId
  | work {conn : Connection} {executionId : Uuid} {attempt : ℕ} {providers : Providers}
      {organizationId : String} : ClaimedFor env events (executionId, attempt) organizationId →
      CarriedFor env events (.work conn executionId attempt providers) organizationId

theorem FlushedFor.later {events : List Event} {index : ℕ} (h : FlushedFor env events index organizationId)
    (event : Event) : FlushedFor env (events ++ [event]) index organizationId := by
  obtain ⟨earlier, conn, limit, later, rfl, hnew⟩ := h
  exact ⟨earlier, conn, limit, later ++ [event], by simp, hnew⟩

theorem ClaimedFor.later {events : List Event} {k : Uuid × ℕ} (h : ClaimedFor env events k organizationId)
    (event : Event) : ClaimedFor env (events ++ [event]) k organizationId := by
  obtain ⟨earlier, conn, worker, limit, leaseSeconds, locked, later, rfl, hnew⟩ := h
  exact ⟨earlier, conn, worker, limit, leaseSeconds, locked, later ++ [event], by simp, hnew⟩

/-! ### Flushes -/

/-- A flush reads copies of its organization's dispatches. -/
theorem pendingDispatches_flushes (env : Env) (w : World) (conn : Connection) (organizationId : String)
    (limit : ℕ) :
    ∃ copies : List ScheduleDispatch, (∀ c ∈ copies, c.organizationId = organizationId) ∧
      ((automation env).next w (.pendingDispatches conn organizationId limit)).flushes =
        w.flushes ++ copies.map (⟨·, .enqueue⟩) := by
  show ∃ copies, _ ∧ (w.pendingDispatches env conn organizationId limit).flushes = _
  unfold World.pendingDispatches
  rcases w.transact_cases (pendingDispatches (w.session env conn) organizationId limit) with
    ⟨e, -, h⟩ | ⟨a, db', hb, h⟩ | ⟨ending, a, db', hb, -, h⟩
  · rw [h]
    exact ⟨[], by simp, by simp⟩
  · obtain ⟨copies, he, -⟩ := pendingDispatches_ok hb
    cases he
  · obtain ⟨copies, he, hcopies⟩ := pendingDispatches_ok hb
    cases he
    rw [h]
    refine ⟨_, fun c hc => ?_, rfl⟩
    obtain ⟨d, -, horg, -, rfl⟩ := hcopies c hc
    exact horg

/-- A copy stays where it is. -/
theorem step_copy (h : Step env w event w') {i : ℕ} {f : Flush} (hf : w.flushes[i]? = some f) :
    ∃ f', w'.flushes[i]? = some f' ∧ f'.copy = f.copy := by
  have hset : ∀ {index : ℕ} {c : ScheduleDispatch} {phase phase' : FlushPhase},
      w.flushes[index]? = some ⟨c, phase⟩ →
      ∃ f', (w.flushes.set index ⟨c, phase'⟩)[i]? = some f' ∧ f'.copy = f.copy := by
    intro index c phase phase' hget
    by_cases hi : index = i
    · subst hi
      rw [hf] at hget
      cases hget
      exact ⟨_, List.getElem?_set_self (List.getElem?_eq_some_iff.1 hf).1, rfl⟩
    · exact ⟨f, (List.getElem?_set_ne hi).trans hf, rfl⟩
  cases h with
  | idle | tick | command | receiveEvent | receiveTimer | claimed | givesUp | statusRead | called
  | recorded | released | completed | closes => exact ⟨f, hf, rfl⟩
  | pendingDispatches _ =>
    exact ⟨f, (List.getElem?_append_left (List.getElem?_eq_some_iff.1 hf).1).trans hf, rfl⟩
  | enqueued hget _ | lost hget _ | flushEnds hget _ | marked hget _ | noted hget | failed hget =>
    exact hset hget

theorem run_copy {w : World} (hrefs : RefsOK env w) (later : List Event) {i : ℕ} {f : Flush}
    (hf : w.flushes[i]? = some f) :
    ∃ f', ((automation env).runFrom w later).flushes[i]? = some f' ∧ f'.copy = f.copy :=
  rel_along (I := fun _ => True) (G := fun _ _ => True)
    (R := fun w w' => ∀ f, w.flushes[i]? = some f → ∃ f', w'.flushes[i]? = some f' ∧ f'.copy = f.copy)
    (fun _ f hf => ⟨f, hf, rfl⟩)
    (fun _ _ _ h h' f hf => by
      obtain ⟨f₁, hf₁, hc₁⟩ := h f hf
      obtain ⟨f₂, hf₂, hc₂⟩ := h' f₁ hf₁
      exact ⟨f₂, hf₂, hc₂.trans hc₁⟩)
    (fun _ _ _ _ => trivial) (fun _ _ hstep _ f hf => step_copy hstep hf) hrefs trivial
    (Transition.Machine.along_true _ later) f hf

/-- Only the beginning of a flush adds copies. -/
theorem step_flushes_length (h : Step env w event w')
    (hno : ∀ conn organizationId limit, event ≠ .pendingDispatches conn organizationId limit) :
    w'.flushes.length = w.flushes.length := by
  cases h with
  | idle | tick | command | receiveEvent | receiveTimer | claimed | givesUp | statusRead | called
  | recorded | released | completed | closes => rfl
  | pendingDispatches _ => exact absurd rfl (hno _ _ _)
  | enqueued | lost | flushEnds | marked | noted | failed => exact List.length_set

/-- The copy a flush was begun with, for its organization. -/
theorem FlushedFor.copy {events : List Event} {index : ℕ} (h : FlushedFor env events index organizationId) :
    ∃ f, ((automation env).run events).flushes[index]? = some f ∧ f.copy.organizationId = organizationId := by
  obtain ⟨earlier, conn, limit, later, rfl, hlo, hhi⟩ := h
  have hrefs : RefsOK env ((automation env).run earlier) := run_refs earlier
  have hmid := step_refs hrefs (step_cases hrefs.linked (.pendingDispatches conn organizationId limit))
  obtain ⟨copies, horg, heq⟩ := pendingDispatches_flushes env ((automation env).run earlier) conn
    organizationId limit
  -- the copy stands at its place when it is read
  obtain ⟨f, hf⟩ : ∃ f, ((automation env).next ((automation env).run earlier)
      (.pendingDispatches conn organizationId limit)).flushes[index]? = some f :=
    ⟨_, List.getElem?_eq_getElem hhi⟩
  have hforg : f.copy.organizationId = organizationId := by
    rw [heq, List.getElem?_append_right hlo] at hf
    obtain ⟨c, hc, rfl⟩ := List.mem_map.1 (List.mem_of_getElem? hf)
    exact horg c hc
  -- and at the same place ever after
  obtain ⟨f', hf', hcopy⟩ := run_copy hmid later hf
  refine ⟨f', ?_, hcopy ▸ hforg⟩
  rw [Transition.Machine.run_append]
  exact hf'

/-- Every copy was read for some organization. -/
theorem run_flushed (events : List Event) :
    ∀ index < ((automation env).run events).flushes.length,
      ∃ organizationId, FlushedFor env events index organizationId := by
  refine Transition.Machine.history (m := automation env)
    (I := fun events w => ∀ index < w.flushes.length, ∃ organizationId,
      FlushedFor env events index organizationId) (fun index hlt => absurd hlt (Nat.not_lt_zero index)) ?_ events
  intro events event hi index hlt
  by_cases hold : index < ((automation env).run events).flushes.length
  · obtain ⟨organizationId, h⟩ := hi index hold
    exact ⟨organizationId, h.later event⟩
  · have hstep : Step env ((automation env).run events) event _ := step_cases (run_refs events).linked event
    by_cases hno : ∀ conn organizationId limit, event ≠ .pendingDispatches conn organizationId limit
    · rw [step_flushes_length hstep hno] at hlt
      exact absurd hlt hold
    · push Not at hno
      obtain ⟨conn, organizationId, limit, rfl⟩ := hno
      exact ⟨organizationId, events, conn, limit, [], rfl, not_lt.1 hold, hlt⟩

/-! ### Workers -/

/-- Only a batch opens a task where there was none. -/
theorem step_task_opened (hrefs : RefsOK env w) (h : Step env w event w') {k : Uuid × ℕ} (hno : w.tasks k = none)
    (ht : (w'.tasks k).isSome = true) :
    ∃ conn organizationId worker limit leaseSeconds locked,
      event = .claimExecutions conn organizationId worker limit leaseSeconds locked ∧
        Owns w.db organizationId k.1 := by
  have hset : ∀ {k₀ : Uuid × ℕ} {claim : ClaimedExecution} {phase phase' : Phase},
      w.tasks k₀ = some ⟨claim, phase⟩ →
      ¬ (if k = Task.key ⟨claim, phase'⟩ then some ⟨claim, phase'⟩ else w.tasks k).isSome = true := by
    intro k₀ claim phase phase' h₀ hs
    split at hs
    · rename_i hk
      have hkey : Task.key ⟨claim, phase⟩ = k₀ := (hrefs.tasks _ _ h₀).1
      have hk₀ : k = k₀ := hk.trans hkey
      rw [hk₀, h₀] at hno
      cases hno
    · rw [hno] at hs
      cases hs
  cases h with
  | idle | tick | command | receiveEvent | receiveTimer | pendingDispatches | enqueued | lost | flushEnds
  | marked | noted | failed =>
    have hsame : (w.tasks k).isSome = true := ht
    rw [hno] at hsame
    cases hsame
  | givesUp h₀ _ | statusRead h₀ _ _ _ _ | called h₀ _ | recorded h₀ _ | released h₀ _
  | completed h₀ _ _ _ _ _ | closes h₀ => exact absurd ht (hset h₀)
  | @claimed conn organizationId worker limit leaseSeconds locked rows _ told _ hcand hl htold =>
    refine ⟨conn, organizationId, worker, limit, leaseSeconds, locked, rfl, ?_⟩
    simp only [openTasks] at ht
    cases hf : told.find? (fun c => Task.key ⟨c, .status 0⟩ = k) with
    | none =>
      rw [hf, hno] at ht
      cases ht
    | some claim =>
      have hk : Task.key ⟨claim, .status 0⟩ = k := by simpa using List.find?_some hf
      obtain ⟨c, hc, actions, -, rfl⟩ := hl.claims_cases (mem_of_told htold (List.mem_of_find?_eq_some hf))
      obtain ⟨he, horg, -⟩ := hcand.there c hc
      exact ⟨c.1, he, congrArg Prod.fst hk, horg⟩

/-- The attempt claimed for an organization is one of its executions'. -/
theorem ClaimedFor.owns {events : List Event} {k : Uuid × ℕ} (h : ClaimedFor env events k organizationId) :
    Owns ((automation env).run events).db organizationId k.1 := by
  obtain ⟨earlier, conn, worker, limit, leaseSeconds, locked, later, rfl, hnone, hsome⟩ := h
  have hrefs : RefsOK env ((automation env).run earlier) := run_refs earlier
  obtain ⟨_, _, _, _, _, _, he, hown⟩ := step_task_opened hrefs (step_cases hrefs.linked _) hnone hsome
  cases he
  obtain ⟨e, he, hid, horg⟩ := hown
  obtain ⟨e', he', hc⟩ := run_continues hrefs (.claimExecutions conn organizationId worker limit leaseSeconds
    locked :: later) he
  refine ⟨e', ?_, hc.executionId.trans hid, hc.organizationId.trans horg⟩
  rw [Transition.Machine.run_append]
  exact he'

/-- Every attempt under way was claimed for some organization. -/
theorem run_claimed (events : List Event) :
    ∀ k, (((automation env).run events).tasks k).isSome = true →
      ∃ organizationId, ClaimedFor env events k organizationId := by
  refine Transition.Machine.history (m := automation env)
    (I := fun events w => ∀ k, (w.tasks k).isSome = true → ∃ organizationId,
      ClaimedFor env events k organizationId) (fun k ht => (by cases ht)) ?_ events
  intro events event hi k ht
  cases hold : ((automation env).run events).tasks k with
  | some t =>
    obtain ⟨organizationId, h⟩ := hi k (by rw [hold]; rfl)
    exact ⟨organizationId, h.later event⟩
  | none =>
    have hrefs : RefsOK env ((automation env).run events) := run_refs events
    obtain ⟨conn, organizationId, worker, limit, leaseSeconds, locked, rfl, -⟩ :=
      step_task_opened hrefs (step_cases hrefs.linked event) hold ht
    exact ⟨organizationId, events, conn, worker, limit, leaseSeconds, locked, [], rfl, hold, ht⟩

/-! ## Steps -/

/-- What the state shows of the organization an event is carried out for. -/
inductive ActsFor (w : World) : Event → String → Prop
  | command {conn : Connection} {auth : Authorized} {request : CommandRequest} :
      ActsFor w (.command conn auth request) request.organizationId
  | receiveEvent {conn : Connection} {request : ReceiveEventRequest} :
      ActsFor w (.receiveEvent conn request) request.organizationId
  | receiveTimer {conn : Connection} {request : ReceiveTimerRequest} :
      ActsFor w (.receiveTimer conn request) request.organizationId
  | pendingDispatches {conn : Connection} {organizationId : String} {limit : ℕ} :
      ActsFor w (.pendingDispatches conn organizationId limit) organizationId
  | flush {conn : Connection} {index : ℕ} {answer : EnqueueAnswer} {f : Flush} :
      w.flushes[index]? = some f → ActsFor w (.flush conn index answer) f.copy.organizationId
  | claimExecutions {conn : Connection} {organizationId worker : String} {limit : ℕ} {leaseSeconds : ℤ}
      {locked : Uuid → Bool} :
      ActsFor w (.claimExecutions conn organizationId worker limit leaseSeconds locked) organizationId
  | work {conn : Connection} {executionId : Uuid} {attempt : ℕ} {providers : Providers}
      {organizationId : String} : Owns w.db organizationId executionId →
      ActsFor w (.work conn executionId attempt providers) organizationId

theorem CarriedFor.acts {events : List Event} (h : CarriedFor env events event organizationId) :
    ActsFor ((automation env).run events) event organizationId := by
  cases h with
  | command => exact .command
  | receiveEvent => exact .receiveEvent
  | receiveTimer => exact .receiveTimer
  | pendingDispatches => exact .pendingDispatches
  | flush hf =>
    obtain ⟨f, hget, rfl⟩ := hf.copy
    exact .flush hget
  | claimExecutions => exact .claimExecutions
  | work hc => exact .work hc.owns

/-- The rows a statement of a flush selects belong to the organization of its copy. -/
theorem flush_unchanged {c : ScheduleDispatch} (state : DispatchState) {f : DispatchRow → DispatchRow}
    (hf : Table.KeepsKey DispatchRow.key f) (horg : ∀ d, (f d).organizationId = d.organizationId)
    {db : Database} (hcopy : ∃ d ∈ db.dispatches, d.copy = c) (hne : c.organizationId ≠ other) :
    Unchanged other db { db with dispatches := db.dispatches.update (c.selects state) f hf } := by
  have hagree : db.dispatches.Agree (fun d => d.organizationId = other)
      (db.dispatches.update (c.selects state) f hf) := by
    refine Table.agree_of_update (fun d hd hs => ?_)
    obtain ⟨d₀, hd₀, rfl⟩ := hcopy
    have hsame : d = d₀ := Table.eq_of_key hd hd₀ ((selects_iff.1 hs).1.trans (copy_key rfl).symm)
    rw [horg, hsame]
    exact ⟨hne, hne⟩
  exact ⟨.refl _ _, .refl _ _, .refl _ _, .refl _ _, .refl _ _, hagree⟩

theorem claim_owns (hrefs : RefsOK env w) {executionId : Uuid} {attempt : ℕ} {claim : ClaimedExecution}
    {phase : Phase} (ht : w.tasks (executionId, attempt) = some ⟨claim, phase⟩)
    (h : Owns w.db organizationId executionId) : Owns w.db organizationId claim.executionId := by
  have hk : (claim.executionId, claim.attempt) = (executionId, attempt) := (hrefs.tasks _ _ ht).1
  have hid : claim.executionId = executionId := congrArg Prod.fst hk
  rw [hid]
  exact h

/-- The rule of a claim belongs to the organization of its execution. -/
theorem claim_rule (hrefs : RefsOK env w) (htenancy : TenancyOK w.db) {k : Uuid × ℕ} {claim : ClaimedExecution}
    {phase : Phase} (ht : w.tasks k = some ⟨claim, phase⟩) (h : Owns w.db organizationId claim.executionId)
    {rule : RuleRow} (hr : rule ∈ w.db.rules) (hid : rule.ruleId = claim.ruleId) :
    rule.organizationId = organizationId := by
  obtain ⟨e, he, heid, herule, -⟩ := (hrefs.tasks _ _ ht).2.execution
  obtain ⟨r, hr', hrid, hrorg⟩ := htenancy e he
  have hsame : rule = r := Table.eq_of_key hr hr' (hid.trans (herule.symm.trans hrid.symm))
  rw [hsame, hrorg]
  exact Owns.unique ⟨e, he, heid, rfl⟩ h

/-- **An event leaves every other organization alone.** -/
theorem step_isolated (hrefs : RefsOK env w) (htenancy : TenancyOK w.db) (hledger : DispatchLedger w.db)
    (hflushes : ∀ f ∈ w.flushes, FlushOK w f) (hstep : Step env w event w')
    (hacts : ActsFor w event organizationId) (hne : organizationId ≠ other) : Unchanged other w.db w'.db := by
  cases hstep with
  | idle | tick | pendingDispatches | enqueued | lost | flushEnds | givesUp | called | closes =>
    exact .refl _ _
  | command _ hw _ =>
    cases hacts
    have hframe := hw.frame
    obtain ⟨old, new, next, hwr, hw, -⟩ := hw
    obtain ⟨hrules, hdispatches⟩ := ruleWrite_agree hw hledger.owned (hwr.organizationId_eq ▸ hne)
    exact ⟨hrules, Table.agree_of_eq hframe.1, Table.agree_of_eq hframe.2.1, Table.agree_of_eq hframe.2.2.1,
      Table.agree_of_eq hframe.2.2.2, hdispatches⟩
  | receiveEvent _ hin _ =>
    cases hacts
    exact intake_unchanged hin hne
  | receiveTimer _ _ _ hin =>
    cases hacts
    exact intake_unchanged hin hne
  | @marked _ _ _ c jobId _ hget _ =>
    cases hacts with
    | flush hf =>
      rw [hget] at hf
      cases hf
      exact flush_unchanged .pending (f := DispatchRow.enqueue jobId) ⟨fun _ => rfl⟩ (fun _ => rfl)
        (hflushes _ (List.mem_of_getElem? hget)).copy hne
  | @noted _ _ _ c jobId hget =>
    cases hacts with
    | flush hf =>
      rw [hget] at hf
      cases hf
      exact flush_unchanged .cancelled (f := DispatchRow.noteEnqueue jobId) ⟨fun _ => rfl⟩ (fun _ => rfl)
        (hflushes _ (List.mem_of_getElem? hget)).copy hne
  | @failed _ _ _ c failure hget =>
    cases hacts with
    | flush hf =>
      rw [hget] at hf
      cases hf
      exact flush_unchanged .pending (f := DispatchRow.noteFailure failure) ⟨fun _ => rfl⟩ (fun _ => rfl)
        (hflushes _ (List.mem_of_getElem? hget)).copy hne
  | claimed hcand hl =>
    cases hacts
    obtain ⟨hexecs, hattempts⟩ := leased_agree (Owns w.db other) hl
      (fun c hc horg => hne ((hcand.there c hc).2.1.symm.trans horg))
      (fun c hc how => hne ((Owns.unique ⟨c.1, (hcand.there c hc).1, rfl, (hcand.there c hc).2.1⟩ how)))
    exact ⟨Table.agree_of_eq hl.frame.2.1, Table.agree_of_eq hl.frame.2.2.1, hexecs, hattempts,
      Table.agree_of_eq hl.frame.2.2.2.1, Table.agree_of_eq hl.frame.2.2.2.2⟩
  | statusRead ht _ _ hk hput =>
    cases hacts with
    | work hown =>
      have hagree := receipt_agree hput hk rfl (claim_owns hrefs ht hown) hne
      exact ⟨.refl _ _, .refl _ _, .refl _ _, .refl _ _, hagree, .refl _ _⟩
  | @recorded conn _ _ _ _ claim outcome _ ht hrec =>
    cases hacts with
    | work hown =>
      refine ⟨.refl _ _, .refl _ _, .refl _ _, .refl _ _, ?_, .refl _ _⟩
      rcases hrec with ⟨-, he⟩ | ⟨row, -, hk, hput⟩
      · exact Table.agree_of_eq he
      · have hkey : (recordedRow conn.transactionTimestamp row outcome).key = row.key := by cases outcome <;> rfl
        exact receipt_agree hput hk hkey (claim_owns hrefs ht hown) hne
  | released ht hleft =>
    cases hacts with
    | work hown =>
      obtain ⟨hexecs, hattempts⟩ := left_agree hleft (claim_owns hrefs ht hown) hne
      exact ⟨Table.agree_of_eq hleft.rules, Table.agree_of_eq hleft.triggers, hexecs, hattempts,
        Table.agree_of_eq hleft.receipts, Table.agree_of_eq hleft.dispatches⟩
  | completed ht _ hleft _ _ hsettled =>
    cases hacts with
    | work hown =>
      have hclaim := claim_owns hrefs ht hown
      obtain ⟨hexecs, hattempts⟩ := left_agree hleft hclaim hne
      obtain ⟨-, htriggers, hexecutions, hatts, hreceipts⟩ := hsettled.frame
      have hframe := fun (hrules : w.db.rules.Agree (fun r => r.organizationId = other) _)
          (hdispatches : w.db.dispatches.Agree (fun d => d.organizationId = other) _) =>
        Unchanged.mk hrules (Table.agree_of_eq (htriggers.trans hleft.triggers))
          (hexecutions ▸ hexecs) (hatts ▸ hattempts) (Table.agree_of_eq (hreceipts.trans hleft.receipts))
          hdispatches
      cases hsettled with
      | event _ he =>
        exact hframe (Table.agree_of_eq (he ▸ hleft.rules)) (Table.agree_of_eq (he ▸ hleft.dispatches))
      | timer _ ha =>
        cases ha with
        | kept he _ =>
          exact hframe (Table.agree_of_eq (he ▸ hleft.rules)) (Table.agree_of_eq (he ▸ hleft.dispatches))
        | moved hr hid _ _ _ _ _ hw =>
          rw [hleft.rules] at hr
          have horg := claim_rule hrefs htenancy ht hclaim hr hid
          obtain ⟨hrules, hdispatches⟩ := ruleWrite_agree hw (hleft.rules ▸ hleft.dispatches ▸ hledger.owned)
            (horg ▸ hne)
          exact hframe (hleft.rules ▸ hrules) (hleft.dispatches ▸ hdispatches)

/-- An event that is carried out for nobody changes no row. -/
theorem nobody_unchanged {events : List Event}
    (h : ∀ organizationId, ¬ CarriedFor env events event organizationId) :
    ((automation env).next ((automation env).run events) event).db = ((automation env).run events).db := by
  cases event with
  | tick => rfl
  | command => exact absurd .command (h _)
  | receiveEvent => exact absurd .receiveEvent (h _)
  | receiveTimer => exact absurd .receiveTimer (h _)
  | pendingDispatches => exact absurd .pendingDispatches (h _)
  | claimExecutions => exact absurd .claimExecutions (h _)
  | flush conn index answer =>
    show (World.flush env conn index answer _).db = _
    unfold World.flush
    cases hf : ((automation env).run events).flushes[index]? with
    | none => rfl
    | some f =>
      obtain ⟨organizationId, hfor⟩ := run_flushed events index (List.getElem?_eq_some_iff.1 hf).1
      exact absurd (.flush hfor) (h organizationId)
  | work conn executionId attempt providers =>
    show (World.work env conn executionId attempt providers _).db = _
    unfold World.work
    cases ht : ((automation env).run events).tasks (executionId, attempt) with
    | none => rfl
    | some t =>
      obtain ⟨organizationId, hfor⟩ := run_claimed events (executionId, attempt) (by rw [ht]; rfl)
      exact absurd (.work hfor) (h organizationId)

/-! ## Answers -/

/-- A body that never commits leaves the world as it is. -/
theorem transact_read {α : Type} {body : Tx (Ending α)}
    (hbody : ∀ r, body w.db = .ok r → ∃ a, r.1 = .drop a) : (w.transact body).2 = w := by
  rcases w.transact_snd_cases body with h | ⟨ending, a, db', hb, hc, -⟩
  · exact h
  · obtain ⟨_, he⟩ := hbody _ hb
    cases he
    cases hc

/-- What was answered was computed by the body. -/
theorem transact_answer {α : Type} {body : Tx (Ending α)} {a : α} (h : (w.transact body).1 = .ok a) :
    ∃ ending db', body w.db = .ok (ending, db') ∧ (ending = .drop a ∨ ending = .commit a) := by
  rcases w.transact_cases body with ⟨e, -, he⟩ | ⟨a', db', hb, he⟩ | ⟨ending, a', db', hb, hc, he⟩
  · rw [he] at h
    cases h
  · rw [he] at h
    cases h
    exact ⟨_, db', hb, Or.inl rfl⟩
  · rw [he] at h
    rcases Ending.committed_eq_some.1 hc with rfl | ⟨e, rfl⟩
    · cases h
      exact ⟨_, db', hb, Or.inr rfl⟩
    · cases h

theorem getRule_ok {ruleId : String} {db : Database} {r : Ending Value × Database}
    (h : getRule s organizationId ruleId db = .ok r) :
    ∃ rule ∈ db.rules, rule.liveAt organizationId ruleId = true ∧
      ∃ v, ruleJson s.env rule = .ok v ∧ r = (.drop v, db) := by
  unfold getRule at h
  rw [statement_bind_eq_ok, Txn.get_bind] at h
  obtain ⟨-, h⟩ := h
  cases hf : db.rules.rows.find? (RuleRow.liveAt organizationId ruleId) with
  | none =>
    rw [hf] at h
    exact absurd h Txn.throw_ne_ok
  | some rule =>
    rw [hf] at h
    simp only [ofExcept_bind_eq_ok, Txn.pure_eq_ok] at h
    obtain ⟨v, hv, he⟩ := h
    exact ⟨rule, List.mem_of_find?_eq_some hf, List.find?_some hf, v, hv, he⟩

theorem mem_listedRules {db : Database} {enabled : Option Bool} {after : ℤ} {limit : ℕ} {r : RuleRow}
    (h : r ∈ listedRules db organizationId enabled after limit) :
    r ∈ db.rules ∧ r.organizationId = organizationId := by
  have hm := (List.mem_insertionSort _).1 (List.mem_of_mem_take h)
  rw [List.mem_filter] at hm
  refine ⟨hm.1, ?_⟩
  simp only [RuleRow.listed, Bool.and_eq_true, decide_eq_true_eq] at hm
  exact hm.2.1.1.1

/-- A cursor is the number of a row, or none. -/
theorem nextCursor_cases (hasMore : Bool) (last : Option ℤ) :
    nextCursor hasMore last = .null ∨ ∃ n, last = some n ∧ nextCursor hasMore last = .string (toString n) := by
  unfold nextCursor
  cases hasMore with
  | false => exact Or.inl rfl
  | true =>
    cases last with
    | none => exact Or.inl rfl
    | some n => exact Or.inr ⟨n, rfl, rfl⟩

/-- The answer lists rules of the organization, behind a cursor at one of them. -/
def ListsRulesOf (env : Env) (db : Database) (organizationId : String) (answer : Value) : Prop :=
  ∃ (rows : List RuleRow) (items : List Value) (cursor : Value),
    (∀ r ∈ rows, r ∈ db.rules ∧ r.organizationId = organizationId) ∧ rows.mapM (ruleJson env) = .ok items ∧
    (cursor = .null ∨ ∃ r ∈ db.rules, r.organizationId = organizationId ∧ cursor = .string (toString r.rowSeq)) ∧
    answer = .object [("items", .array items), ("next_cursor", cursor)]

/-- A listing that succeeds shows the rows of its page and the cursor behind them. -/
theorem listRules_cases {enabled : Option Bool} {limit : ℕ} {after : Option String} {db : Database}
    {r : Ending Value × Database} (h : listRules s organizationId enabled limit after db = .ok r) :
    ∃ n items, afterCursor after = .ok n ∧
      let rows := listedRules db organizationId enabled n limit
      let kept := min limit rows.length
      (rows.take kept).mapM (ruleJson s.env) = .ok items ∧
        r = (.drop (.object [("items", .array items),
          ("next_cursor", nextCursor (limit < rows.length) (rows[kept - 1]?.map (·.rowSeq)))]), db) := by
  unfold listRules at h
  rw [ofExcept_bind_eq_ok] at h
  obtain ⟨n, hn, h⟩ := h
  rw [statement_bind_eq_ok, Txn.get_bind] at h
  obtain ⟨-, h⟩ := h
  simp only [ofExcept_bind_eq_ok, Txn.pure_eq_ok] at h
  obtain ⟨items, hitems, h⟩ := h
  exact ⟨n, items, hn, hitems, h⟩

theorem listRules_ok {enabled : Option Bool} {limit : ℕ} {after : Option String} {db : Database}
    {r : Ending Value × Database} (h : listRules s organizationId enabled limit after db = .ok r) :
    ∃ v, ListsRulesOf s.env db organizationId v ∧ r = (.drop v, db) := by
  obtain ⟨n, items, -, hitems, rfl⟩ := listRules_cases h
  refine ⟨_, ⟨_, items, _, fun r hr => mem_listedRules (List.mem_of_mem_take hr), hitems, ?_, rfl⟩, rfl⟩
  refine (nextCursor_cases _ _).imp id ?_
  rintro ⟨m, hm, hcursor⟩
  obtain ⟨r, hr, rfl⟩ := Option.map_eq_some_iff.1 hm
  have hrow := mem_listedRules (List.mem_of_getElem? hr)
  exact ⟨r, hrow.1, hrow.2, hcursor⟩

/-- The answer shows an execution of the organization, with its own attempts and receipts. -/
def ShowsExecutionOf (env : Env) (executionsAt attemptsAt receiptsAt : Database) (organizationId : String)
    (answer : Value) : Prop :=
  ∃ e ∈ executionsAt.executions, e.organizationId = organizationId ∧
    ∃ (attempts : List AttemptRow) (receipts : List ActionReceiptRow) (attemptReceipts actions : List Value)
      (cursor : Value),
      (∀ a ∈ attempts, a ∈ attemptsAt.attempts ∧ a.executionId = e.executionId ∧
        Owns attemptsAt organizationId a.executionId) ∧
      (∀ r ∈ receipts, r ∈ receiptsAt.receipts ∧ r.executionId = e.executionId ∧
        Owns receiptsAt organizationId r.executionId) ∧
      attempts.mapM (attemptJson env) = .ok attemptReceipts ∧ receipts.mapM (receiptJson env) = .ok actions ∧
      (cursor = .null ∨ ∃ a ∈ attempts, cursor = .string (toString (a.attempt : ℤ))) ∧
      executionJson env e attemptReceipts cursor actions = .ok answer

theorem readExecution_ok {executionId : Uuid} {db : Database} {r : ExecutionRow × Database}
    (h : readExecution s organizationId executionId db = .ok r) :
    r.1 ∈ db.executions ∧ r.1.organizationId = organizationId ∧ r.1.executionId = executionId := by
  unfold readExecution at h
  rw [statement_bind_eq_ok, Txn.get_bind] at h
  obtain ⟨-, h⟩ := h
  cases hf : db.executions.rows.find?
      (fun e => e.organizationId = organizationId && e.executionId = executionId) with
  | none =>
    rw [hf] at h
    exact absurd h Txn.throw_ne_ok
  | some e =>
    rw [hf] at h
    simp only [Txn.pure_eq_ok] at h
    subst h
    have hp : e.organizationId = organizationId ∧ e.executionId = executionId := by
      simpa using List.find?_some hf
    exact ⟨List.mem_of_find?_eq_some hf, hp⟩

theorem readAttempts_ok {executionId : Uuid} {after : ℤ} {limit : ℕ} {db : Database} {r : List AttemptRow × Database}
    (h : readAttempts s executionId after limit db = .ok r) :
    r.1 = ((db.attempts.rows.filter (fun a => a.executionId = executionId && after < a.attempt)).insertionSort
      (fun a b => a.attempt ≤ b.attempt)).take (limit + 1) := by
  unfold readAttempts at h
  rw [statement_bind_eq_ok, Txn.get_bind, Txn.pure_eq_ok] at h
  obtain ⟨-, rfl⟩ := h
  rfl

theorem readReceipts_ok {executionId : Uuid} {db : Database} {r : List ActionReceiptRow × Database}
    (h : readReceipts s executionId db = .ok r) :
    r.1 = (db.receipts.rows.filter (fun x => x.executionId = executionId)).insertionSort
      (fun a b => a.actionIndex ≤ b.actionIndex) := by
  unfold readReceipts at h
  rw [statement_bind_eq_ok, Txn.get_bind, Txn.pure_eq_ok] at h
  obtain ⟨-, rfl⟩ := h
  rfl

theorem inspectExecution_ok {executionsAt attemptsAt receiptsAt : Database} {executionId : Uuid} {limit : ℕ}
    {after : Option String} {answer : Value}
    (howns : Owns executionsAt organizationId executionId → Owns attemptsAt organizationId executionId ∧
      Owns receiptsAt organizationId executionId)
    (h : inspectExecution s executionsAt attemptsAt receiptsAt organizationId executionId limit after =
      .ok answer) :
    ShowsExecutionOf s.env executionsAt attemptsAt receiptsAt organizationId answer := by
  unfold inspectExecution at h
  rw [except_bind_eq_ok] at h
  obtain ⟨⟨e, db₁⟩, he, h⟩ := h
  simp only [except_bind_eq_ok] at h
  obtain ⟨n, -, ⟨rows, db₂⟩, hrows, attemptReceipts, hattempts, ⟨receipts, db₃⟩, hreceipts, actions, hactions, h⟩ := h
  -- the execution is the one the first statement found, and the other two select by its id
  obtain ⟨hm, horganization, hid⟩ := readExecution_ok he
  obtain ⟨howns₁, howns₂⟩ := howns ⟨e, hm, hid, horganization⟩
  cases readAttempts_ok hrows
  cases readReceipts_ok hreceipts
  refine ⟨e, hm, horganization, _, _, attemptReceipts, actions, _, fun a ha => ?_, fun r hr => ?_, hattempts, hactions,
    ?_, h⟩
  · have ha := (List.mem_insertionSort _).1 (List.mem_of_mem_take (List.mem_of_mem_take ha))
    simp only [List.mem_filter, Bool.and_eq_true, decide_eq_true_eq] at ha
    exact ⟨ha.1, ha.2.1.trans hid.symm, ha.2.1 ▸ howns₁⟩
  · have hr := (List.mem_insertionSort _).1 hr
    simp only [List.mem_filter, decide_eq_true_eq] at hr
    exact ⟨hr.1, hr.2.trans hid.symm, hr.2 ▸ howns₂⟩
  · refine (nextCursor_cases _ _).imp id ?_
    rintro ⟨m, hm, hcursor⟩
    obtain ⟨a, ha, rfl⟩ := Option.map_eq_some_iff.1 hm
    exact ⟨a, List.mem_of_getLast? ha, hcursor⟩

/-- The executions a delivery is told of are its organization's. -/
theorem receipt_owned (hrefs : RefsOK env w) {conn : Connection} {d : Delivery} {receipt : TriggerReceipt}
    (h : (automation env).reply w (d.sent conn) = .receipt (.ok receipt)) :
    ∀ id ∈ receipt.executionIds, ∃ e ∈ ((automation env).next w (d.sent conn)).db.executions,
      e.organizationId = d.organizationId ∧ e.executionId.text = id := by
  have hstep : (automation env).step w (d.sent conn) = _ := step_sent conn d
  unfold Transition.Machine.reply at h
  unfold Transition.Machine.next
  rw [hstep] at h ⊢
  simp only at h ⊢
  have hanswer := Reply.receipt.inj h
  intro id hid
  rcases w.transact_cases (d.take (w.session env conn)) with
    ⟨e, -, he⟩ | ⟨a, db', hb, he⟩ | ⟨ending, a, db', hb, hc, he⟩
  · rw [he] at hanswer
    cases hanswer
  · rw [he] at hanswer ⊢
    cases hanswer
    rcases take_cases hrefs.linked hb with ⟨heq, -⟩ | ⟨_, _, _, heq, -⟩
    · -- a duplicate lists the executions of the trigger recorded under its key
      cases heq
      obtain ⟨i, hi, rfl⟩ := List.mem_map.1 hid
      obtain ⟨t, ht, hi⟩ := List.mem_flatMap.1 hi
      rw [List.mem_filter] at ht
      unfold executionsOf at hi
      obtain ⟨e, he, rfl⟩ := List.mem_map.1 ((List.mem_insertionSort _).1 hi)
      rw [List.mem_filter, decide_eq_true_eq] at he
      obtain ⟨t', ht', htk, htorg⟩ := (hrefs.executions e he.1).trigger
      have hsame : t' = t := Table.eq_of_key ht' ht.1 (htk.trans he.2)
      have horg : t.organizationId = d.organizationId := congrArg Prod.fst (sameKey_iff.1 ht.2)
      exact ⟨e, he.1, by rw [← htorg, hsame, horg], rfl⟩
    · cases heq.value
  · rw [he] at hanswer ⊢
    rcases take_cases hrefs.linked hb with ⟨heq, -⟩ | ⟨receipt', trigger, es, heq, hfirst⟩
    · cases heq
      cases hc
    · cases Ending.answer_eq_ok heq.value hanswer
      rw [hfirst.executionIds] at hid
      obtain ⟨e, hem, rfl⟩ := List.mem_map.1 hid
      obtain ⟨rule, -, -, -, -, ho⟩ := hfirst.intake.opened e hem
      have horg : trigger.organizationId = d.organizationId := congrArg Prod.fst hfirst.key
      exact ⟨e, hfirst.intake.mem_executions.2 (Or.inr hem), by rw [ho.row]; exact horg, rfl⟩

/-- **Tenants are isolated.** Whatever an event names, it leaves the rows of every organization alone but
the one it is carried out for; and each read, and each receipt of a delivery, shows rows of the
organization it was asked for. -/
theorem tenants_isolated (events : List Event) :
    let w := (automation env).run events
    (∀ event organizationId, CarriedFor env events event organizationId → ∀ other, organizationId ≠ other →
      Unchanged other w.db ((automation env).next w event).db) ∧
    (∀ event, (∀ organizationId, ¬ CarriedFor env events event organizationId) →
      ((automation env).next w event).db = w.db) ∧
    (∀ conn organizationId ruleId,
      let done := w.transact (getRule (w.session env conn) organizationId ruleId)
      done.2 = w ∧ ∀ answer, done.1 = .ok answer →
        ∃ r ∈ w.db.rules, r.organizationId = organizationId ∧ r.ruleId = ruleId ∧ ruleJson env r = .ok answer) ∧
    (∀ conn organizationId enabled limit after,
      let done := w.transact (listRules (w.session env conn) organizationId enabled limit after)
      done.2 = w ∧ ∀ answer, done.1 = .ok answer → ListsRulesOf env w.db organizationId answer) ∧
    (∀ conn organizationId executionId limit after later later' answer,
      let w₁ := (automation env).runFrom w later
      let w₂ := (automation env).runFrom w₁ later'
      inspectExecution (w.session env conn) w.db w₁.db w₂.db organizationId executionId limit after =
        .ok answer → ShowsExecutionOf env w.db w₁.db w₂.db organizationId answer) ∧
    ∀ conn (delivery : Delivery) receipt, (automation env).reply w (delivery.sent conn) = .receipt (.ok receipt) →
      ∀ id ∈ receipt.executionIds, ∃ e ∈ ((automation env).next w (delivery.sent conn)).db.executions,
        e.organizationId = delivery.organizationId ∧ e.executionId.text = id := by
  intro w
  have hrefs : RefsOK env w := run_refs events
  obtain ⟨hledger, hflushes⟩ : DispatchLedger w.db ∧ ∀ f ∈ w.flushes, FlushOK w f := run_ledger events
  refine ⟨?_, fun event h => nobody_unchanged h, ?_, ?_, ?_, fun conn d receipt h => receipt_owned hrefs h⟩
  · intro event organizationId hc other hne
    exact step_isolated hrefs (run_tenancy events) hledger hflushes (step_cases hrefs.linked event) hc.acts hne
  · intro conn organizationId ruleId done
    refine ⟨transact_read (fun r hr => ?_), fun answer ha => ?_⟩
    · obtain ⟨_, -, -, v, -, rfl⟩ := getRule_ok hr
      exact ⟨v, rfl⟩
    · obtain ⟨ending, db', hb, he⟩ := transact_answer ha
      obtain ⟨r, hr, hl, v, hv, heq⟩ := getRule_ok hb
      cases heq
      obtain ⟨horg, hid, -⟩ := liveAt_iff.1 hl
      rcases he with he | he
      · cases he
        exact ⟨r, hr, horg, hid, hv⟩
      · cases he
  · intro conn organizationId enabled limit after done
    refine ⟨transact_read (fun r hr => ?_), fun answer ha => ?_⟩
    · obtain ⟨v, -, rfl⟩ := listRules_ok hr
      exact ⟨v, rfl⟩
    · obtain ⟨ending, db', hb, he⟩ := transact_answer ha
      obtain ⟨v, hv, heq⟩ := listRules_ok hb
      cases heq
      rcases he with he | he
      · cases he
        exact hv
      · cases he
  · intro conn organizationId executionId limit after later later' answer w₁ w₂ h
    refine inspectExecution_ok ?_ h
    have hlater : ∀ {w₀ : World} (is : List Event), RefsOK env w₀ → Owns w₀.db organizationId executionId →
        Owns ((automation env).runFrom w₀ is).db organizationId executionId := by
      rintro w₀ is hr ⟨e, he, hid, horg⟩
      obtain ⟨e', he', hc⟩ := run_continues hr is he
      exact ⟨e', he', hc.executionId.trans hid, hc.organizationId.trans horg⟩
    intro ho
    have ho₁ := hlater later hrefs ho
    have hrefs₁ : RefsOK env w₁ := by
      show RefsOK env ((automation env).runFrom w later)
      rw [show w = (automation env).run events from rfl, ← Transition.Machine.run_append]
      exact run_refs _
    exact ⟨ho₁, hlater later' hrefs₁ ho₁⟩

end ProjectAutomation

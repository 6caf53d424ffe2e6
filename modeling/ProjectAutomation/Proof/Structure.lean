import ProjectAutomation.Proof.Step

/-!
# What every step keeps

* `Continues`: an execution keeps its identity and its snapshot, its attempts only
  grow, and once it has ended it never changes.
* `step_origin`, `step_continues`: every execution comes from one that was there, or
  from the trigger the step recorded; and none is lost.
* `RefsOK`: the references between the tables, and between a worker and its execution.
-/

namespace ProjectAutomation

open Relational

variable {env : Env} {w w' : World} {event : Event} {s : Session}

/-! ## Executions -/

/-- `e'` is `e` at a later time. -/
structure ExecutionRow.Continues (e e' : ExecutionRow) : Prop where
  executionId : e'.executionId = e.executionId
  organizationId : e'.organizationId = e.organizationId
  ruleId : e'.ruleId = e.ruleId
  triggerId : e'.triggerId = e.triggerId
  actions : e'.actions = e.actions
  attempts : e.attempts ≤ e'.attempts
  terminal : e.status.terminal = true → e' = e

theorem ExecutionRow.Continues.refl (e : ExecutionRow) : e.Continues e :=
  ⟨rfl, rfl, rfl, rfl, rfl, le_refl _, fun _ => rfl⟩

theorem ExecutionRow.Continues.trans {e₁ e₂ e₃ : ExecutionRow} (h : e₁.Continues e₂) (h' : e₂.Continues e₃) :
    e₁.Continues e₃ := by
  refine ⟨h'.executionId.trans h.executionId, h'.organizationId.trans h.organizationId,
    h'.ruleId.trans h.ruleId, h'.triggerId.trans h.triggerId, h'.actions.trans h.actions,
    h.attempts.trans h'.attempts, fun ht => ?_⟩
  have h₂ := h.terminal ht
  rw [h₂] at h'
  rw [h'.terminal ht]

theorem claimable_iff {now : ℤ} {e : ExecutionRow} :
    e.claimable now = true ↔
      e.status = .pending ∨ (e.status = .running ∧ ∃ t, e.leaseUntil = some t ∧ t < now) := by
  unfold ExecutionRow.claimable
  cases e.leaseUntil <;> simp

theorem not_terminal_of_claimable {now : ℤ} {e : ExecutionRow} (h : e.claimable now = true) :
    e.status.terminal = false := by
  rcases claimable_iff.1 h with h | ⟨h, -⟩ <;> rw [h] <;> rfl

theorem continues_lease {now : ℤ} {e : ExecutionRow} (h : e.claimable now = true) (worker : String)
    (leaseUntil updatedAt : ℤ) : e.Continues (e.lease (e.attempts + 1) worker leaseUntil updatedAt) := by
  refine ⟨rfl, rfl, rfl, rfl, rfl, Nat.le_succ _, fun ht => ?_⟩
  rw [not_terminal_of_claimable h] at ht
  cases ht

theorem continues_leave {claim : ClaimedExecution} {now : ℤ} {e : ExecutionRow}
    (h : e.heldBy claim now = true) (status : ExecutionStatus) (failure : Option String) :
    e.Continues (e.leave status failure now) := by
  refine ⟨rfl, rfl, rfl, rfl, rfl, le_refl _, fun ht => ?_⟩
  rw [(heldBy_iff.1 h).2.2.1] at ht
  cases ht

/-- After a batch, an execution of the batch carries its lease. -/
theorem LeasedAll.mem_lease {worker : String} {leaseSeconds : ℤ} {rows : List (ExecutionRow × Value)}
    {claims : List ClaimedExecution} {db db' : Database}
    (h : LeasedAll s worker leaseSeconds rows claims db db')
    (hnodup : (rows.map (fun c => c.1.executionId)).Nodup) {c : ExecutionRow × Value} (hc : c ∈ rows) :
    c.1.lease (c.1.attempts + 1) worker (leaseEnd s leaseSeconds) s.transactionTimestamp ∈
      db'.executions := by
  induction h with
  | nil => cases hc
  | cons _ h₁ _ hrest ih =>
    obtain ⟨hnotin, hnodup⟩ := List.nodup_cons.1 hnodup
    rcases List.mem_cons.1 hc with rfl | hc
    · -- leased at once, and not touched again by the rest of the batch
      refine hrest.mem_of_ne h₁.executions.mem ?_
      intro c' hc' hk
      exact hnotin (List.mem_map.2 ⟨c', hc', hk⟩)
    · exact ih hnodup hc

/-- What the executions of a step come from. -/
inductive ExecutionOrigin (env : Env) (w w' : World) (x' : ExecutionRow) : Prop
  | old {x : ExecutionRow} : x ∈ w.db.executions → x.Continues x' → ExecutionOrigin env w w' x'
  | opened {s : Session} {trigger : TriggerRow} {es : List ExecutionRow} : s.env = env →
      Intake s trigger es w.db w'.db → x' ∈ es → ExecutionOrigin env w w' x'

theorem left_origin {claim : ClaimedExecution} {status : ExecutionStatus} {attemptStatus : AttemptStatus}
    {failure : Option String} {e x' : ExecutionRow} {db' : Database}
    (h : Left s claim status attemptStatus failure e w.db db') (hx : x' ∈ db'.executions) :
    ExecutionOrigin env w w' x' := by
  rcases h.executions.cases hx with rfl | ⟨hx, -⟩
  · exact .old h.there (continues_leave h.held _ _)
  · exact .old hx (.refl _)

theorem intake_origin {trigger : TriggerRow} {es : List ExecutionRow} {x' : ExecutionRow}
    (hs : s.env = env) (h : Intake s trigger es w.db w'.db) (hx : x' ∈ w'.db.executions) :
    ExecutionOrigin env w w' x' := by
  rcases h.mem_executions.1 hx with hx | hx
  · exact .old hx (.refl _)
  · exact .opened hs h hx

theorem step_origin (h : Step env w event w') {x' : ExecutionRow} (hx : x' ∈ w'.db.executions) :
    ExecutionOrigin env w w' x' := by
  cases h with
  | idle | tick | pendingDispatches | enqueued | lost | flushEnds | marked | noted | failed | givesUp
  | statusRead | called | recorded | closes => exact .old hx (.refl _)
  | command _ hw _ =>
    rw [hw.frame.2.1] at hx
    exact .old hx (.refl _)
  | receiveEvent _ hin _ => exact intake_origin rfl hin hx
  | receiveTimer _ _ _ hin => exact intake_origin rfl hin hx
  | claimed hcand hl =>
    rcases hl.executions_cases hx with ⟨hx, -⟩ | ⟨c, hc, rfl⟩
    · exact .old hx (.refl _)
    · exact .old (hcand.there c hc).1 (continues_lease (hcand.there c hc).2.2.1 _ _ _)
  | released _ hleft => exact left_origin hleft hx
  | completed _ _ hleft _ _ hsettled =>
    simp only [World.setTask] at hx
    rw [hsettled.frame.2.2.1] at hx
    exact left_origin hleft hx

theorem left_continues {claim : ClaimedExecution} {status : ExecutionStatus} {attemptStatus : AttemptStatus}
    {failure : Option String} {e x : ExecutionRow} {db' : Database}
    (h : Left s claim status attemptStatus failure e w.db db') (hx : x ∈ w.db.executions) :
    ∃ x' ∈ db'.executions, x.Continues x' := by
  by_cases hk : x.executionId = e.executionId
  · have hxe : x = e := Table.eq_of_key hx h.there hk
    subst hxe
    exact ⟨_, h.executions.mem, continues_leave h.held _ _⟩
  · exact ⟨x, h.executions.of_ne hx hk, .refl _⟩

theorem intake_continues {trigger : TriggerRow} {es : List ExecutionRow} {x : ExecutionRow} {db' : Database}
    (h : Intake s trigger es w.db db') (hx : x ∈ w.db.executions) :
    ∃ x' ∈ db'.executions, x.Continues x' := ⟨x, h.mem_executions.2 (Or.inl hx), .refl _⟩

/-- **No execution is lost**, and each continues. -/
theorem step_continues (h : Step env w event w') {x : ExecutionRow} (hx : x ∈ w.db.executions) :
    ∃ x' ∈ w'.db.executions, x.Continues x' := by
  cases h with
  | idle | tick | pendingDispatches | enqueued | lost | flushEnds | marked | noted | failed | givesUp
  | statusRead | called | recorded | closes => exact ⟨x, hx, .refl _⟩
  | command _ hw _ =>
    rw [hw.frame.2.1]
    exact ⟨x, hx, .refl _⟩
  | receiveEvent _ hin _ => exact intake_continues hin hx
  | receiveTimer _ _ _ hin => exact intake_continues hin hx
  | @claimed _ _ _ _ _ _ rows _ _ _ hcand hl =>
    by_cases hk : ∃ c ∈ rows, c.1 = x
    · obtain ⟨c, hc, rfl⟩ := hk
      exact ⟨_, hl.mem_lease hcand.nodup hc, continues_lease (hcand.there c hc).2.2.1 _ _ _⟩
    · refine ⟨x, hl.mem_of_ne hx ?_, .refl _⟩
      intro c hc hid
      exact hk ⟨c, hc, Table.eq_of_key (hcand.there c hc).1 hx hid⟩
  | released _ hleft => exact left_continues hleft hx
  | completed _ _ hleft _ _ hsettled =>
    simp only [World.setTask]
    rw [hsettled.frame.2.2.1]
    exact left_continues hleft hx

/-! ## Rules -/

/-- **What every write of a rule row gives it, and every advance keeps, all rules have.** -/
theorem step_each_rule {P : RuleRow → Prop}
    (hwrite : ∀ {conn auth request old new next}, event = .command conn auth request → request.valid env = true →
      Written (w.session env conn) request old new next → (∀ o, old = some o → P o) → P new)
    (hadvance : ∀ {r : RuleRow} (next now : ℤ), r.live = true → r.enabled = true → P r → P (r.advance next now))
    (h : Step env w event w') (hi : ∀ r ∈ w.db.rules, P r) : ∀ r ∈ w'.db.rules, P r := by
  intro r hr
  cases h with
  | idle | tick | pendingDispatches | enqueued | lost | flushEnds | marked | noted | failed | givesUp
  | statusRead | called | recorded | closes => exact hi r hr
  | command hv hw _ =>
    obtain ⟨old, new, next, hwr, hw, -⟩ := hw
    rcases hw.rules.cases hr with rfl | ⟨hr, -⟩
    · refine hwrite rfl hv hwr ?_
      rintro o rfl
      exact hi o (Table.find?_eq_some.1 hw.found).1
    · exact hi r hr
  | receiveEvent _ hin _ => exact hi r (hin.rules ▸ hr)
  | receiveTimer _ _ _ hin => exact hi r (hin.rules ▸ hr)
  | claimed _ hl => exact hi r (hl.frame.2.1 ▸ hr)
  | released _ hleft => exact hi r (hleft.rules ▸ hr)
  | completed _ _ hleft _ _ hsettled =>
    simp only [World.setTask] at hr
    cases hsettled with
    | event _ he => rw [he, hleft.rules] at hr; exact hi r hr
    | timer _ ha =>
      cases ha with
      | kept he _ => rw [he, hleft.rules] at hr; exact hi r hr
      | moved hm _ hlive _ hawait _ _ hw =>
        rw [hleft.rules] at hm
        rcases hw.rules.cases hr with rfl | ⟨hr, -⟩
        · exact hadvance _ _ hlive (awaits_iff.1 hawait).1 (hi _ hm)
        · exact hi r (hleft.rules ▸ hr)

/-! ## Triggers -/

/-- Triggers are only added. -/
theorem step_triggers (h : Step env w event w') {t : TriggerRow} (ht : t ∈ w.db.triggers) :
    t ∈ w'.db.triggers := by
  cases h with
  | idle | tick | pendingDispatches | enqueued | lost | flushEnds | marked | noted | failed | givesUp
  | statusRead | called | recorded | closes => exact ht
  | command _ hw _ => rw [hw.frame.1]; exact ht
  | receiveEvent _ hin _ => exact hin.mem_triggers.2 (Or.inl ht)
  | receiveTimer _ _ _ hin => exact hin.mem_triggers.2 (Or.inl ht)
  | claimed _ hl => simp only; rw [hl.frame.2.2.1]; exact ht
  | released _ hleft => simp only [World.setTask]; rw [hleft.triggers]; exact ht
  | completed _ _ hleft _ _ hsettled =>
    simp only [World.setTask]
    rw [hsettled.frame.2.1, hleft.triggers]
    exact ht

/-! ## Receipts -/

/-- `r'` is `r` at a later time. -/
structure ActionReceiptRow.Continues (r r' : ActionReceiptRow) : Prop where
  key : r'.key = r.key
  kind : r'.kind = r.kind
  idempotencyKey : r'.idempotencyKey = r.idempotencyKey

theorem ActionReceiptRow.Continues.refl (r : ActionReceiptRow) : r.Continues r := ⟨rfl, rfl, rfl⟩

theorem continues_attempt (now : ℤ) (r : ActionReceiptRow) : r.Continues (r.attempt now) := ⟨rfl, rfl, rfl⟩

theorem continues_recordedRow (now : ℤ) (r : ActionReceiptRow) (outcome : Except String Value) :
    r.Continues (recordedRow now r outcome) := by
  cases outcome <;> exact ⟨rfl, rfl, rfl⟩

/-- What the receipts of a step come from. -/
inductive ReceiptOrigin (env : Env) (w w' : World) (r' : ActionReceiptRow) : Prop
  | old {r : ActionReceiptRow} : r ∈ w.db.receipts → r.Continues r' → ReceiptOrigin env w w' r'
  | opened {s : Session} {trigger : TriggerRow} {es : List ExecutionRow} {e : ExecutionRow} :
      s.env = env → Intake s trigger es w.db w'.db → e ∈ es → r' ∈ openReceipts s e →
      ReceiptOrigin env w w' r'

theorem put_origin {row new r' : ActionReceiptRow} {t : Table ActionReceiptRow.key}
    (hm : row ∈ w.db.receipts) (hc : row.Continues new) (hput : w.db.receipts.Put new t) (hr : r' ∈ t) :
    ReceiptOrigin env w w' r' := by
  rcases hput.cases hr with rfl | ⟨hr, -⟩
  · exact .old hm hc
  · exact .old hr (.refl _)

theorem intake_receipt_origin {trigger : TriggerRow} {es : List ExecutionRow} {r' : ActionReceiptRow}
    (hs : s.env = env) (h : Intake s trigger es w.db w'.db) (hr : r' ∈ w'.db.receipts) :
    ReceiptOrigin env w w' r' := by
  rcases h.mem_receipts.1 hr with hr | ⟨e, he, hr⟩
  · exact .old hr (.refl _)
  · exact .opened hs h he hr

theorem step_receipt_origin (h : Step env w event w') {r' : ActionReceiptRow} (hr : r' ∈ w'.db.receipts) :
    ReceiptOrigin env w w' r' := by
  cases h with
  | idle | tick | pendingDispatches | enqueued | lost | flushEnds | marked | noted | failed | givesUp
  | called | closes => exact .old hr (.refl _)
  | command _ hw _ =>
    rw [hw.frame.2.2.2] at hr
    exact .old hr (.refl _)
  | receiveEvent _ hin _ => exact intake_receipt_origin rfl hin hr
  | receiveTimer _ _ _ hin => exact intake_receipt_origin rfl hin hr
  | claimed _ hl =>
    simp only at hr
    rw [hl.frame.2.2.2.1] at hr
    exact .old hr (.refl _)
  | statusRead _ _ hm _ hput => exact put_origin hm (continues_attempt _ _) hput hr
  | recorded _ hrec =>
    rcases hrec with ⟨-, he⟩ | ⟨row, hm, -, hput⟩
    · simp only [World.setTask] at hr
      rw [he] at hr
      exact .old hr (.refl _)
    · exact put_origin hm (continues_recordedRow _ _ _) hput hr
  | released _ hleft =>
    simp only [World.setTask] at hr
    rw [hleft.receipts] at hr
    exact .old hr (.refl _)
  | completed _ _ hleft _ _ hsettled =>
    simp only [World.setTask] at hr
    rw [hsettled.frame.2.2.2.2, hleft.receipts] at hr
    exact .old hr (.refl _)

theorem put_continues {row new r : ActionReceiptRow} {t : Table ActionReceiptRow.key}
    (hm : row ∈ w.db.receipts) (hc : row.Continues new) (hput : w.db.receipts.Put new t)
    (hr : r ∈ w.db.receipts) : ∃ r' ∈ t, r.Continues r' := by
  by_cases hk : r.key = row.key
  · have := Table.eq_of_key hr hm hk
    subst this
    exact ⟨new, hput.mem, hc⟩
  · exact ⟨r, hput.of_ne hr (fun h => hk (h.trans hc.key)), .refl _⟩

theorem step_receipt_continues (h : Step env w event w') {r : ActionReceiptRow} (hr : r ∈ w.db.receipts) :
    ∃ r' ∈ w'.db.receipts, r.Continues r' := by
  cases h with
  | idle | tick | pendingDispatches | enqueued | lost | flushEnds | marked | noted | failed | givesUp
  | called | closes => exact ⟨r, hr, .refl _⟩
  | command _ hw _ =>
    rw [hw.frame.2.2.2]
    exact ⟨r, hr, .refl _⟩
  | receiveEvent _ hin _ => exact ⟨r, hin.mem_receipts.2 (Or.inl hr), .refl _⟩
  | receiveTimer _ _ _ hin => exact ⟨r, hin.mem_receipts.2 (Or.inl hr), .refl _⟩
  | claimed _ hl => simp only; rw [hl.frame.2.2.2.1]; exact ⟨r, hr, .refl _⟩
  | statusRead _ _ hm _ hput => exact put_continues hm (continues_attempt _ _) hput hr
  | recorded _ hrec =>
    rcases hrec with ⟨-, he⟩ | ⟨row, hm, -, hput⟩
    · simp only [World.setTask]; rw [he]; exact ⟨r, hr, .refl _⟩
    · exact put_continues hm (continues_recordedRow _ _ _) hput hr
  | released _ hleft => simp only [World.setTask]; rw [hleft.receipts]; exact ⟨r, hr, .refl _⟩
  | completed _ _ hleft _ _ hsettled =>
    simp only [World.setTask]
    rw [hsettled.frame.2.2.2.2, hleft.receipts]
    exact ⟨r, hr, .refl _⟩

/-! ## References -/

/-- The actions of an execution. -/
def ExecutionRow.steps (e : ExecutionRow) : List Value := e.actions.asArray.getD []

theorem ExecutionRow.Continues.steps {e e' : ExecutionRow} (h : e.Continues e') : e'.steps = e.steps := by
  unfold ExecutionRow.steps; rw [h.actions]

/-- A worker's copy agrees with the execution and the trigger it was made of. -/
structure ClaimOK (db : Database) (c : ClaimedExecution) : Prop where
  positive : 0 < c.attempt
  execution : ∃ e ∈ db.executions, e.executionId = c.executionId ∧ e.ruleId = c.ruleId ∧
    e.triggerId = c.triggerId ∧ e.steps = c.actions ∧ c.attempt ≤ e.attempts
  trigger : ∃ t ∈ db.triggers, t.triggerId = c.triggerId ∧ t.payload = c.payload

/-- An execution agrees with its rule and its trigger, and its actions can be carried out. -/
structure ExecutionOK (db : Database) (e : ExecutionRow) : Prop where
  trigger : ∃ t ∈ db.triggers, t.triggerId = e.triggerId ∧ t.organizationId = e.organizationId
  isArray : e.actions.asArray.isSome = true
  actions : ActionsOK e.steps

/-- A receipt belongs to an action of an execution, and carries that action's key. -/
structure ReceiptOK (env : Env) (db : Database) (r : ActionReceiptRow) : Prop where
  execution : ∃ e ∈ db.executions, e.executionId = r.executionId ∧ ∃ action,
    e.steps[r.actionIndex]? = some action ∧ action.getStr "kind" = some r.kind
  idempotencyKey : r.idempotencyKey = actionKey env r.executionId r.actionIndex

/-- The references between the tables, and between a worker and its execution. -/
structure RefsOK (env : Env) (w : World) : Prop where
  executions : ∀ e ∈ w.db.executions, ExecutionOK w.db e
  receipts : ∀ r ∈ w.db.receipts, ReceiptOK env w.db r
  covered : ∀ e ∈ w.db.executions, ∀ i < e.steps.length, ∃ r ∈ w.db.receipts, r.key = (e.executionId, i)
  tasks : ∀ k t, w.tasks k = some t → t.key = k ∧ ClaimOK w.db t.claim

theorem RefsOK.linked (h : RefsOK env w) : Linked w.db := by
  intro e he
  obtain ⟨t, ht, hk, -⟩ := (h.executions e he).trigger
  exact ⟨t, ht, hk⟩

/-- A worker is found under the attempt of its claim. -/
theorem RefsOK.task_at (h : RefsOK env w) {k : Uuid × ℕ} {t : Task} (ht : w.tasks k = some t) :
    w.tasks (t.claim.executionId, t.claim.attempt) = some t := by
  have hk : (t.claim.executionId, t.claim.attempt) = k := (h.tasks _ _ ht).1
  rw [hk]; exact ht

theorem RefsOK.init : RefsOK env World.init := by
  refine ⟨?_, ?_, ?_, ?_⟩
  · intro e he; exact absurd he (Table.not_mem_empty e)
  · intro r hr; exact absurd hr (Table.not_mem_empty r)
  · intro e he; exact absurd he (Table.not_mem_empty e)
  · intro k t ht; cases ht

/-- A claim stays good while the world moves on. -/
theorem ClaimOK.step {c : ClaimedExecution} (hc : ClaimOK w.db c) (h : Step env w event w') :
    ClaimOK w'.db c := by
  obtain ⟨e, he, hid, hrule, htrig, hact, hatt⟩ := hc.execution
  obtain ⟨e', he', hcont⟩ := step_continues h he
  obtain ⟨t, ht, hk, hp⟩ := hc.trigger
  refine ⟨hc.positive, ⟨e', he', ?_⟩, ⟨t, step_triggers h ht, hk, hp⟩⟩
  exact ⟨hcont.executionId.trans hid, hcont.ruleId.trans hrule, hcont.triggerId.trans htrig,
    hcont.steps.trans hact, hatt.trans hcont.attempts⟩

/-- What the tasks of a step come from. -/
inductive TaskOrigin (env : Env) (w w' : World) (k : Uuid × ℕ) (t' : Task) : Prop
  | old {k₀ : Uuid × ℕ} {t : Task} : w.tasks k₀ = some t → t.claim = t'.claim →
      (k = k₀ ∧ t' = t ∨ k = t'.key) → TaskOrigin env w w' k t'
  | opened {s : Session} {organizationId worker : String} {leaseSeconds now : ℤ}
      {rows : List (ExecutionRow × Value)} {claims : List ClaimedExecution} {claim : ClaimedExecution} :
      Candidates w.db organizationId now rows → LeasedAll s worker leaseSeconds rows claims w.db w'.db →
      claim ∈ claims → t' = ⟨claim, .status 0⟩ → k = t'.key → TaskOrigin env w w' k t'

theorem setTask_origin {k k₀ : Uuid × ℕ} {claim : ClaimedExecution} {phase phase' : Phase} {t' : Task}
    (ht : w.tasks k₀ = some ⟨claim, phase⟩)
    (h : (if k = Task.key ⟨claim, phase'⟩ then some ⟨claim, phase'⟩ else w.tasks k) = some t') :
    TaskOrigin env w w' k t' := by
  split at h
  · rename_i hk
    cases h
    exact .old ht rfl (Or.inr hk)
  · exact .old h rfl (Or.inl ⟨rfl, rfl⟩)

theorem step_task_origin (h : Step env w event w') {k : Uuid × ℕ} {t' : Task} (ht : w'.tasks k = some t') :
    TaskOrigin env w w' k t' := by
  cases h with
  | idle | tick | command | receiveEvent | receiveTimer | pendingDispatches | enqueued | lost | flushEnds
  | marked | noted | failed => exact .old ht rfl (Or.inl ⟨rfl, rfl⟩)
  | @claimed _ _ _ _ _ _ _ _ told _ hcand hl htold =>
    simp only [openTasks] at ht
    cases hf : told.find? (fun c => Task.key ⟨c, .status 0⟩ = k) with
    | none => rw [hf] at ht; exact .old ht rfl (Or.inl ⟨rfl, rfl⟩)
    | some claim =>
      rw [hf] at ht
      cases ht
      have hk : Task.key ⟨claim, .status 0⟩ = k := by simpa using List.find?_some hf
      exact .opened hcand hl (mem_of_told htold (List.mem_of_find?_eq_some hf)) rfl hk.symm
  | givesUp h₀ _ | statusRead h₀ _ _ _ _ | called h₀ _ | recorded h₀ _ | released h₀ _
  | completed h₀ _ _ _ _ _ | closes h₀ => exact setTask_origin h₀ ht

/-- **Every step keeps the references.** -/
theorem step_refs (hi : RefsOK env w) (h : Step env w event w') : RefsOK env w' := by
  refine ⟨?_, ?_, ?_, ?_⟩
  · -- an execution was there, or carries the trigger and the actions it was opened with
    intro e' he'
    cases step_origin h he' with
    | old he hcont =>
      have hok := hi.executions _ he
      obtain ⟨t, ht, hk, ho⟩ := hok.trigger
      refine ⟨⟨t, step_triggers h ht, hk.trans hcont.triggerId.symm, ho.trans hcont.organizationId.symm⟩, ?_, ?_⟩
      · rw [hcont.actions]; exact hok.isArray
      · rw [hcont.steps]; exact hok.actions
    | @opened s trigger es _ hin hmem =>
      obtain ⟨rule, -, -, -, -, ho⟩ := hin.opened e' hmem
      have hrow := ho.row
      have htrig : trigger ∈ w'.db.triggers := hin.mem_triggers.2 (Or.inr rfl)
      have hact : e'.actions = rule.actions := by rw [hrow]; rfl
      refine ⟨⟨trigger, htrig, by rw [hrow]; rfl, by rw [hrow]; rfl⟩, ?_, ?_⟩
      · rw [hact]; exact ho.isArray
      · unfold ExecutionRow.steps; rw [hact]; exact ho.actions
  · -- a receipt keeps its key; a new one is keyed by its place among the actions
    intro r' hr'
    cases step_receipt_origin h hr' with
    | old hr hcont =>
      obtain ⟨hex, hkey⟩ := hi.receipts _ hr
      obtain ⟨e, he, hid, action, ha, hkind⟩ := hex
      obtain ⟨e', he', hc⟩ := step_continues h he
      have hid' := congrArg Prod.fst hcont.key
      have hidx := congrArg Prod.snd hcont.key
      simp only [ActionReceiptRow.key] at hid' hidx
      refine ⟨⟨e', he', ?_, action, ?_, ?_⟩, ?_⟩
      · rw [hc.executionId, hid, hid']
      · rw [hc.steps, hidx]; exact ha
      · rw [hcont.kind]; exact hkind
      · rw [hcont.idempotencyKey, hid', hidx]; exact hkey
    | @opened s trigger es e hs hin he hr =>
      obtain ⟨rule, -, -, -, -, ho⟩ := hin.opened e he
      obtain ⟨j, action, hj, rfl⟩ := mem_openReceipts.1 hr
      have he' : e ∈ w'.db.executions := hin.mem_executions.2 (Or.inr he)
      have hsteps : e.steps = rule.actions.asArray.getD [] := by
        unfold ExecutionRow.steps; rw [ho.row]; rfl
      refine ⟨⟨e, he', rfl, action, hj, ?_⟩, ?_⟩
      · have hsome := ho.actions.kinds action (by rw [← hsteps]; exact List.mem_of_getElem? hj)
        obtain ⟨kind, hkind⟩ := Option.isSome_iff_exists.1 hsome
        rw [hkind]; rfl
      · show actionKey s.env _ _ = _
        rw [hs]; rfl
  · -- the receipts of an execution are opened with it, and none is lost
    intro e' he' i hlt
    cases step_origin h he' with
    | old he hcont =>
      rw [hcont.steps] at hlt
      obtain ⟨r, hr, hk⟩ := hi.covered _ he i hlt
      obtain ⟨r', hr', hc⟩ := step_receipt_continues h hr
      exact ⟨r', hr', by rw [hc.key, hk, hcont.executionId]⟩
    | @opened s trigger es _ hin hmem =>
      obtain ⟨action, ha⟩ : ∃ action, e'.steps[i]? = some action := ⟨_, List.getElem?_eq_getElem hlt⟩
      refine ⟨newReceipt s e'.executionId i ((action.getStr "kind").getD ""), ?_, rfl⟩
      exact hin.mem_receipts.2 (Or.inr ⟨e', hmem, mem_openReceipts.2 ⟨i, action, ha, rfl⟩⟩)
  · -- a worker keeps its claim; a new one copies the execution it has just leased
    intro k t' ht'
    cases step_task_origin h ht' with
    | old ht hclaim hk =>
      obtain ⟨hkey, hok⟩ := hi.tasks _ _ ht
      rw [← hclaim]
      refine ⟨?_, hok.step h⟩
      rcases hk with ⟨rfl, rfl⟩ | rfl
      · exact hkey
      · rfl
    | opened hcand hl hmem heq hk =>
      subst heq hk
      refine ⟨rfl, ?_⟩
      obtain ⟨c, hc, actions, ha, rfl⟩ := hl.claims_cases hmem
      obtain ⟨-, -, -, t, ht, htk, htp⟩ := hcand.there c hc
      have hsteps : c.1.steps = actions := by unfold ExecutionRow.steps; rw [ha]; rfl
      exact ⟨Nat.succ_pos _,
        ⟨_, hl.mem_lease hcand.nodup hc, rfl, rfl, rfl, hsteps, le_refl _⟩,
        ⟨t, step_triggers h ht, htk, htp⟩⟩

/-- **The references hold in every reachable state.** -/
theorem run_refs (is : List Event) : RefsOK env ((automation env).run is) :=
  Transition.Machine.inv_run RefsOK.init (fun _ event hi => step_refs hi (step_cases hi.linked event)) is

/-- Invariants along events that all meet a guard. -/
theorem inv_from {I : World → Prop} {G : World → Event → Prop}
    (hstep : ∀ {w event w'}, RefsOK env w → G w event → Step env w event w' → I w → I w') {w : World}
    (hr : RefsOK env w) (hi : I w) {is : List Event} (ha : (automation env).Along G w is) :
    RefsOK env ((automation env).runFrom w is) ∧ I ((automation env).runFrom w is) :=
  Transition.Machine.inv_runFrom (m := automation env) (I := fun w => RefsOK env w ∧ I w)
    (fun _ event hi hg => ⟨step_refs hi.1 (step_cases hi.1.linked event),
      hstep hi.1 hg (step_cases hi.1.linked event) hi.2⟩) is w ⟨hr, hi⟩ ha

/-- Invariants of runs whose events all meet a guard. -/
theorem inv_along {I : World → Prop} {G : World → Event → Prop} (hinit : I World.init)
    (hstep : ∀ {w event w'}, RefsOK env w → G w event → Step env w event w' → I w → I w')
    {is : List Event} (ha : (automation env).Along G World.init is) : I ((automation env).run is) :=
  (inv_from hstep RefsOK.init hinit ha).2

/-- Invariants of every run. -/
theorem inv_always {I : World → Prop} (hinit : I World.init)
    (hstep : ∀ {w event w'}, RefsOK env w → Step env w event w' → I w → I w') (is : List Event) :
    I ((automation env).run is) :=
  inv_along (G := fun _ _ => True) hinit (fun hr _ => hstep hr) (Transition.Machine.along_true _ _)

/-- What every step does to a state of a kept invariant, a run does. -/
theorem rel_along {I : World → Prop} {G : World → Event → Prop} {R : World → World → Prop}
    (refl : ∀ w, R w w) (trans : ∀ w₁ w₂ w₃, R w₁ w₂ → R w₂ w₃ → R w₁ w₃)
    (hinv : ∀ {w event w'}, RefsOK env w → G w event → Step env w event w' → I w → I w')
    (hstep : ∀ {w event w'}, RefsOK env w → G w event → Step env w event w' → I w → R w w')
    {w : World} (hr : RefsOK env w) (hi : I w) {is : List Event} (ha : (automation env).Along G w is) :
    R w ((automation env).runFrom w is) :=
  Transition.Machine.rel_runFrom (m := automation env) (I := fun w => RefsOK env w ∧ I w) refl trans
    (fun _ event hi hg => ⟨step_refs hi.1 (step_cases hi.1.linked event),
      hinv hi.1 hg (step_cases hi.1.linked event) hi.2⟩)
    (fun _ event hi hg => hstep hi.1 hg (step_cases hi.1.linked event) hi.2) is w ⟨hr, hi⟩ ha

end ProjectAutomation

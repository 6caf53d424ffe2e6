import ProjectAutomation.Relational.Constraint
import ProjectAutomation.Proof.Isolation
import ProjectAutomation.Proof.Numbers

/-!
# The constraints of the schema

Every constraint of `001_create_project_automation.sql` holds in every reachable state:
what the statements check, and what the code has to see to by itself, the references to
executions and triggers among them.

* `Enforced`: the constraints a statement checks when it writes.
* `next_enforced`: every event keeps them.
* `constraints_hold`: these and the others, in every reachable state.
-/

namespace ProjectAutomation

open Relational

variable {env : Env} {s : Session} {db : Database}

/-! ## What the statements check -/

/-- The columns of `automation_rules_active_name_key`. -/
def RuleRow.activeName (r : RuleRow) : String × String × Option ℤ := (r.organizationId, r.name, r.deletedAt)

/-- The columns of `UNIQUE (organization_id, source, dedupe_key)`. -/
def TriggerRow.delivery (t : TriggerRow) : String × Source × String := (t.organizationId, t.source, t.dedupeKey)

/-- The columns of `UNIQUE (rule_id, trigger_id)`. -/
def ExecutionRow.firing (e : ExecutionRow) : String × Uuid := (e.ruleId, e.triggerId)

/-- The `CHECK`s of `automation_rules`. -/
def RuleRow.Checked (r : RuleRow) : Prop := 0 < r.revision ∧ r.wellTyped = true

/-- The constraints a statement checks when it writes. -/
structure Enforced (db : Database) : Prop where
  checked : ∀ r ∈ db.rules, r.Checked
  names : db.rules.Unique RuleRow.activeName
  timerRules : db.triggers.References TriggerRow.ruleId db.rules
  receiptKeys : db.receipts.Unique ActionReceiptRow.idempotencyKey
  dispatchKeys : db.dispatches.Unique DispatchRow.idempotencyKey

theorem Enforced.init : Enforced Database.init where
  checked := fun r hr => absurd hr (Table.not_mem_empty r)
  names := Table.unique_empty
  timerRules := Table.references_empty
  receiptKeys := Table.unique_empty
  dispatchKeys := Table.unique_empty

/-- The constraints read four tables. -/
theorem Enforced.congr {db' : Database} (hi : Enforced db) (hrules : db'.rules = db.rules)
    (htriggers : db'.triggers = db.triggers) (hreceipts : db'.receipts = db.receipts)
    (hdispatches : db'.dispatches = db.dispatches) : Enforced db' where
  checked := hrules ▸ hi.checked
  names := hrules ▸ hi.names
  timerRules := by
    rw [htriggers, hrules]
    exact hi.timerRules
  receiptKeys := hreceipts ▸ hi.receiptKeys
  dispatchKeys := hdispatches ▸ hi.dispatchKeys

theorem keeps_statement (operation : String) : Txn.Keeps Enforced (s.statement operation) := by
  intro db r hi h
  rw [(statement_eq_ok.1 h).2]
  exact hi

theorem keeps_commit {α : Type} (operation : String) (value : α) :
    Txn.Keeps Enforced (s.commit operation value) := by
  intro db r hi h
  obtain ⟨ending, -, rfl⟩ := commit_eq_ok h
  exact hi

theorem keeps_ofExcept {α : Type} (x : Except StorageError α) : Txn.Keeps Enforced (ofExcept x) := by
  intro db r hi h
  obtain ⟨a, -, rfl⟩ := ofExcept_eq_ok.1 h
  exact hi

/-! ### Rules -/

/-- One rule row written, its checks passed and its name free. -/
theorem Enforced.put {new : RuleRow} {rules : Table RuleRow.ruleId} (hi : Enforced db)
    (hput : db.rules.Put new rules) (hchecked : new.Checked) (hfree : nameTaken db.rules new = false) :
    Enforced { db with rules } where
  checked := by
    intro r hr
    rcases hput.cases hr with rfl | ⟨hr, -⟩
    · exact hchecked
    · exact hi.checked r hr
  names := by
    refine hi.names.put hput fun x hx hk hname => ?_
    -- a row of another rule with these columns is what `nameTaken` looks for
    have hnot := List.any_eq_false.1 hfree x hx
    simp only [RuleRow.activeName, Prod.mk.injEq] at hname
    simp [hk, hname] at hnot
  timerRules := hi.timerRules.grow hput.keys
  receiptKeys := hi.receiptKeys
  dispatchKeys := hi.dispatchKeys

theorem keeps_insertRule {row : RuleRow} (hrev : 0 < row.revision) : Txn.Keeps Enforced (insertRule s row) := by
  unfold insertRule
  refine Txn.keeps_bind (keeps_statement _) fun _ => Txn.keeps_get_bind fun db r hi h => ?_
  split at h
  · exact absurd h Txn.throw_ne_ok
  rename_i htyped
  cases hins : db.rules.insert? row with
  | none =>
    rw [hins] at h
    exact absurd h Txn.throw_ne_ok
  | some rules =>
    rw [hins] at h
    simp only at h
    split at h
    · exact absurd h Txn.throw_ne_ok
    rename_i hfree
    split at h
    · exact absurd h Txn.throw_ne_ok
    rw [Txn.set_bind, Txn.pure_eq_ok] at h
    subst h
    exact hi.put (Table.put_of_insert? hins) ⟨hrev, by simpa using htyped⟩ (by simpa using hfree)

theorem keeps_lockRule {organizationId ruleId : String} :
    Txn.Keeps Enforced (lockRule s organizationId ruleId) := by
  intro db r hi h
  rw [(lockRule_ok h).1]
  exact hi

/-- An assignment of the rule commands takes the revision up. -/
theorem keeps_updateRuleRow {operation organizationId ruleId : String} {revision : ℤ}
    {assign : RuleRow → RuleRow} {hassign : Table.KeepsKey RuleRow.ruleId assign} {violated : StorageError}
    (hrev : ∀ r, (assign r).revision = r.revision + 1) :
    Txn.Keeps Enforced (updateRuleRow s operation organizationId ruleId revision assign hassign violated) := by
  unfold updateRuleRow
  refine Txn.keeps_bind (keeps_statement _) fun _ => Txn.keeps_get_bind fun db r hi h => ?_
  cases hf : db.rules.rows.find? (RuleRow.liveAtRevision organizationId ruleId revision) with
  | none =>
    rw [hf] at h
    rw [Txn.pure_eq_ok.1 h]
    exact hi
  | some old =>
    rw [hf] at h
    simp only at h
    split at h
    · exact absurd h Txn.throw_ne_ok
    rename_i htyped
    split at h
    · exact absurd h Txn.throw_ne_ok
    rename_i hfree
    rw [Txn.set_bind, Txn.pure_eq_ok] at h
    subst h
    have hm : old ∈ db.rules := List.mem_of_find?_eq_some hf
    have hp := List.find?_some hf
    have hput := Table.put_of_update hassign hm hp fun x _ hx =>
      (liveAtRevision_iff.1 hx).2.1.trans (liveAtRevision_iff.1 hp).2.1.symm
    have hpos : 0 < (assign old).revision := by
      have := (hi.checked old hm).1
      rw [hrev]
      omega
    exact hi.put hput ⟨hpos, by simpa using htyped⟩ (by simpa using hfree)

/-! ### Dispatches -/

/-- An update of dispatches that leaves their keys alone. -/
theorem Enforced.dispatches {p : DispatchRow → Bool} {f : DispatchRow → DispatchRow}
    (hi : Enforced db) (hf : Table.KeepsKey DispatchRow.key f) (hkey : ∀ d, (f d).idempotencyKey = d.idempotencyKey) :
    Enforced { db with dispatches := db.dispatches.update p f hf } :=
  { hi with dispatchKeys := hi.dispatchKeys.update hf hkey }

theorem keeps_upsertDispatch (row : DispatchRow) : Txn.Keeps Enforced (upsertDispatch s row) := by
  unfold upsertDispatch
  refine Txn.keeps_bind (keeps_statement _) fun _ => Txn.keeps_get_bind fun db r hi h => ?_
  split at h
  · rw [Txn.set_eq_ok.1 h]
    exact hi.dispatches _ fun _ => rfl
  split at h
  · exact absurd h Txn.throw_ne_ok
  rename_i hfree
  cases hins : db.dispatches.insert? row with
  | none =>
    rw [hins] at h
    exact absurd h Txn.throw_ne_ok
  | some dispatches =>
    rw [hins] at h
    rw [Txn.set_eq_ok.1 h]
    refine { hi with dispatchKeys := hi.dispatchKeys.insert hins fun x hx hkey => hfree ?_ }
    exact List.any_eq_true.2 ⟨x, hx, decide_eq_true hkey⟩

theorem keeps_replacePendingSchedule {organizationId ruleId : String} {next : Option OffsetDateTime} :
    Txn.Keeps Enforced (replacePendingSchedule s organizationId ruleId next) := by
  unfold replacePendingSchedule
  cases next with
  | none =>
    exact Txn.keeps_bind (keeps_statement _) fun _ =>
      Txn.keeps_modify fun db hi => hi.dispatches _ fun _ => rfl
  | some scheduledFor =>
    refine Txn.keeps_bind (keeps_ofExcept _) fun column => ?_
    refine Txn.keeps_bind (keeps_statement _) fun _ => Txn.keeps_bind ?_ fun _ => keeps_upsertDispatch _
    exact Txn.keeps_modify fun db hi => hi.dispatches _ fun _ => rfl

theorem keeps_pendingDispatches {organizationId : String} {limit : ℕ} :
    Txn.Keeps Enforced (pendingDispatches s organizationId limit) := by
  intro db r hi h
  obtain ⟨copies, rfl, -⟩ := pendingDispatches_ok h
  exact hi

theorem keeps_markDispatchEnqueued {c : ScheduleDispatch} {jobId : String} :
    Txn.Keeps Enforced (markDispatchEnqueued s c jobId) := by
  unfold markDispatchEnqueued
  refine Txn.keeps_bind (keeps_statement _) fun _ => Txn.keeps_get_bind fun db r hi h => ?_
  rw [Txn.set_bind, Txn.pure_eq_ok] at h
  rw [h]
  exact hi.dispatches _ fun _ => rfl

theorem keeps_recordCancelledEnqueue {c : ScheduleDispatch} {jobId : String} :
    Txn.Keeps Enforced (recordCancelledEnqueue s c jobId) := by
  unfold recordCancelledEnqueue
  refine Txn.keeps_bind (keeps_statement _) fun _ => Txn.keeps_get_bind fun db r hi h => ?_
  rw [Txn.set_bind, Txn.pure_eq_ok] at h
  rw [h]
  exact hi.dispatches _ fun _ => rfl

theorem keeps_recordDispatchFailure {c : ScheduleDispatch} {failure : String} :
    Txn.Keeps Enforced (recordDispatchFailure s c failure) := by
  unfold recordDispatchFailure
  refine Txn.keeps_bind (keeps_statement _) fun _ => Txn.keeps_get_bind fun db r hi h => ?_
  rw [Txn.set_bind, Txn.pure_eq_ok] at h
  rw [h]
  exact hi.dispatches _ fun _ => rfl

/-! ### Commands -/

theorem keeps_reserveCommand {scope : CommandScope} {request : CommandRequest} :
    Txn.Keeps Enforced (reserveCommand s scope request) := by
  intro db r hi h
  rcases reserveCommand_ok h with ⟨c, -, rfl⟩ | ⟨_, -, -, heq, -⟩
  · exact { hi with }
  · rw [heq]
    exact hi

/-- A command keeps what its work keeps. -/
theorem keeps_command {name : String} {scope : CommandScope} {request : CommandRequest} {work : Tx Value}
    (hwork : Txn.Keeps Enforced work) : Txn.Keeps Enforced (command s name scope request work) := by
  unfold command
  refine Txn.keeps_bind (keeps_statement _) fun _ => Txn.keeps_bind keeps_reserveCommand fun start => ?_
  cases start with
  | replay response => exact Txn.keeps_pure _
  | conflict => exact Txn.keeps_throw _
  | new =>
    refine Txn.keeps_bind hwork fun response => Txn.keeps_bind ?_ fun _ => keeps_commit _ _
    intro db r hi h
    rw [completeCommand_ok h]
    exact { hi with }

theorem keeps_finishRuleWrite {organizationId ruleId : String} {next : Option OffsetDateTime}
    (written : Option RuleRow) : Txn.Keeps Enforced (finishRuleWrite s organizationId ruleId next written) := by
  unfold finishRuleWrite
  cases written with
  | none => exact Txn.keeps_throw _
  | some row => exact Txn.keeps_bind keeps_replacePendingSchedule fun _ => keeps_ofExcept _

/-- What `delete_rule` does when it found no row at the revision. -/
theorem keeps_deleteConflict {α : Type} {organizationId ruleId : String} : Txn.Keeps Enforced (do
    s.statement "inspect delete conflict"
    let db ← get
    if db.rules.rows.any (RuleRow.liveAt organizationId ruleId) then throw (.domain .revisionConflict)
    else throw (.domain .notFound) : Tx α) := by
  refine Txn.keeps_bind (keeps_statement _) fun _ => Txn.keeps_get_bind fun db r _ h => ?_
  split at h
  · exact absurd h Txn.throw_ne_ok
  · exact absurd h Txn.throw_ne_ok

theorem keeps_storeCommand (auth : Authorized) (request : CommandRequest) :
    Txn.Keeps Enforced (storeCommand s auth request) := by
  cases request with
  | create r =>
    refine keeps_command (Txn.keeps_bind (keeps_ofExcept _) fun next => ?_)
    refine Txn.keeps_bind (keeps_ofExcept _) fun column => ?_
    refine Txn.keeps_bind (keeps_insertRule Int.one_pos) fun row => ?_
    exact Txn.keeps_bind keeps_replacePendingSchedule fun _ => keeps_ofExcept _
  | update r =>
    refine keeps_command (Txn.keeps_bind keeps_lockRule fun current => ?_)
    refine Txn.keeps_bind (keeps_ofExcept _) fun next => Txn.keeps_bind (keeps_ofExcept _) fun column => ?_
    exact Txn.keeps_bind (keeps_updateRuleRow fun _ => rfl) fun written => keeps_finishRuleWrite written
  | setEnabled r =>
    refine keeps_command (Txn.keeps_bind keeps_lockRule fun current => ?_)
    refine Txn.keeps_bind (keeps_ofExcept _) fun next => Txn.keeps_bind (keeps_ofExcept _) fun column => ?_
    exact Txn.keeps_bind (keeps_updateRuleRow fun _ => rfl) fun written => keeps_finishRuleWrite written
  | delete r =>
    refine keeps_command (Txn.keeps_bind (keeps_updateRuleRow fun _ => rfl) fun written => ?_)
    cases written with
    | none => exact keeps_deleteConflict
    | some row => exact Txn.keeps_bind keeps_replacePendingSchedule fun _ => Txn.keeps_pure _

/-! ### Deliveries -/

theorem keeps_insertReceipt (row : ActionReceiptRow) : Txn.Keeps Enforced (insertReceipt s row) := by
  unfold insertReceipt
  refine Txn.keeps_bind (keeps_statement _) fun _ => Txn.keeps_get_bind fun db r hi h => ?_
  split at h
  · exact absurd h Txn.throw_ne_ok
  rename_i hfree
  cases hins : db.receipts.insert? row with
  | none =>
    rw [hins] at h
    exact absurd h Txn.throw_ne_ok
  | some receipts =>
    rw [hins] at h
    rw [Txn.set_eq_ok.1 h]
    refine { hi with receiptKeys := hi.receiptKeys.insert hins fun x hx hkey => hfree ?_ }
    exact List.any_eq_true.2 ⟨x, hx, decide_eq_true hkey⟩

theorem keeps_insertReceipts (executionId : Uuid) (actions : List Value) :
    ∀ index, Txn.Keeps Enforced (insertReceipts s executionId index actions) := by
  induction actions with
  | nil => exact fun _ => Txn.keeps_pure _
  | cons action rest ih =>
    intro index
    unfold insertReceipts
    refine Txn.keeps_ite (fun _ => Txn.keeps_throw _) fun _ => ?_
    cases action.getStr "kind" with
    | none => exact Txn.keeps_throw _
    | some kind => exact Txn.keeps_bind (keeps_insertReceipt _) fun _ => ih (index + 1)

theorem keeps_insertExecution (row : ExecutionRow) : Txn.Keeps Enforced (insertExecution s row) := by
  unfold insertExecution
  refine Txn.keeps_bind (keeps_statement _) fun _ => Txn.keeps_get_bind fun db r hi h => ?_
  cases hf : db.executions.rows.find? (fun e => e.ruleId = row.ruleId && e.triggerId = row.triggerId) with
  | some e =>
    rw [hf] at h
    simp only at h
    rw [statement_bind_eq_ok, Txn.pure_eq_ok] at h
    rw [h.2]
    exact hi
  | none =>
    rw [hf] at h
    simp only at h
    cases hins : db.executions.insert? row with
    | none =>
      rw [hins] at h
      exact absurd h Txn.throw_ne_ok
    | some executions =>
      rw [hins] at h
      simp only at h
      rw [Txn.set_bind] at h
      have hset : Enforced { db with executions } := { hi with }
      cases hact : row.actions.asArray with
      | none =>
        rw [hact] at h
        exact absurd h Txn.throw_ne_ok
      | some actions =>
        rw [hact] at h
        exact Txn.keeps_bind (keeps_insertReceipts _ _ 0) (fun _ => Txn.keeps_pure _) _ r hset h

/-- A trigger may name any rule, so its reference is checked. -/
theorem keeps_insertTrigger {operation : String} (row : TriggerRow) :
    Txn.Keeps Enforced (insertTrigger s operation row) := by
  unfold insertTrigger
  refine Txn.keeps_bind (keeps_statement _) fun _ => Txn.keeps_get_bind fun db r hi h => ?_
  split at h
  · rw [Txn.pure_eq_ok.1 h]
    exact hi
  cases hins : db.triggers.insert? row with
  | none =>
    rw [hins] at h
    exact absurd h Txn.throw_ne_ok
  | some triggers =>
    rw [hins] at h
    simp only at h
    split at h
    · rename_i hrule
      rw [Txn.set_bind, Txn.pure_eq_ok] at h
      subst h
      refine { hi with timerRules := hi.timerRules.insert hins fun id hid => ?_ }
      rw [hid, Option.all_some] at hrule
      obtain ⟨rule, hfind⟩ := Option.isSome_iff_exists.1 hrule
      exact ⟨rule, Table.find?_eq_some.1 hfind⟩
    · exact absurd h Txn.throw_ne_ok

theorem keeps_fireRules {organizationId eventType : String} {triggerId : Uuid} {payload : Value}
    (rules : List RuleRow) :
    ∀ n, Txn.Keeps Enforced (fireRules s organizationId triggerId eventType payload n rules) := by
  induction rules with
  | nil => exact fun _ => Txn.keeps_pure _
  | cons rule rest ih =>
    intro n
    unfold fireRules
    refine Txn.keeps_ite (fun _ => ?_) fun _ => ih n
    refine Txn.keeps_bind (keeps_insertExecution _) fun id => ?_
    exact Txn.keeps_bind (ih (n + 1)) fun ids => Txn.keeps_pure _

theorem keeps_existingTriggerReceipt {organizationId dedupeKey : String} {source : Source} :
    Txn.Keeps Enforced (existingTriggerReceipt s organizationId source dedupeKey) := by
  unfold existingTriggerReceipt
  refine Txn.keeps_bind (keeps_statement _) fun _ => Txn.keeps_get_bind fun db r hi h => ?_
  rw [Txn.pure_eq_ok.1 h]
  exact hi

theorem keeps_takeEvent (request : ReceiveEventRequest) : Txn.Keeps Enforced (takeEvent s request) := by
  unfold takeEvent
  refine Txn.keeps_ite (fun _ => Txn.keeps_throw _) fun _ => ?_
  refine Txn.keeps_bind (keeps_ofExcept _) fun occurredAt => ?_
  unfold receiveEvent
  cases request.toValue.getStr "event_type" with
  | none => exact Txn.keeps_throw _
  | some eventType =>
    refine Txn.keeps_bind (keeps_statement _) fun _ => Txn.keeps_bind (keeps_ofExcept _) fun column => ?_
    refine Txn.keeps_bind (keeps_insertTrigger _) fun inserted => ?_
    refine Txn.keeps_ite (fun _ => ?_) fun _ => ?_
    · exact Txn.keeps_bind keeps_existingTriggerReceipt fun _ => Txn.keeps_pure _
    · refine Txn.keeps_bind (keeps_statement _) fun _ => Txn.keeps_get_bind fun db r hi h => ?_
      exact Txn.keeps_bind (keeps_fireRules _ 1) (fun ids => keeps_commit _ _) _ r hi h

theorem keeps_takeTimer (request : ReceiveTimerRequest) : Txn.Keeps Enforced (takeTimer s request) := by
  unfold takeTimer
  refine Txn.keeps_ite (fun _ => Txn.keeps_throw _) fun _ => ?_
  refine Txn.keeps_bind (keeps_ofExcept _) fun scheduledFor => ?_
  unfold receiveTimer
  refine Txn.keeps_ite (fun _ => Txn.keeps_throw _) fun _ => ?_
  refine Txn.keeps_bind (keeps_statement _) fun _ => Txn.keeps_bind (keeps_ofExcept _) fun column => ?_
  refine Txn.keeps_bind (keeps_insertTrigger _) fun inserted => ?_
  refine Txn.keeps_ite (fun _ => ?_) fun _ => ?_
  · exact Txn.keeps_bind keeps_existingTriggerReceipt fun _ => Txn.keeps_pure _
  · refine Txn.keeps_bind (keeps_statement _) fun _ => Txn.keeps_get_bind fun db r hi h => ?_
    cases hf : db.rules.rows.find? (RuleRow.liveAt request.organizationId request.ruleId) with
    | none =>
      rw [hf] at h
      exact keeps_commit _ _ _ r hi h
    | some rule =>
      rw [hf] at h
      simp only at h
      split at h
      · exact keeps_commit _ _ _ r hi h
      · exact Txn.keeps_bind (keeps_insertExecution _) (fun id => keeps_commit _ _) _ r hi h

/-! ### Executions -/

/-- An update of receipts that leaves their keys alone. -/
theorem Enforced.receipts {p : ActionReceiptRow → Bool} {f : ActionReceiptRow → ActionReceiptRow}
    (hi : Enforced db) (hf : Table.KeepsKey ActionReceiptRow.key f)
    (hkey : ∀ r, (f r).idempotencyKey = r.idempotencyKey) :
    Enforced { db with receipts := db.receipts.update p f hf } :=
  { hi with receiptKeys := hi.receiptKeys.update hf hkey }

theorem keeps_actionStatus {executionId : Uuid} {index : ℕ} :
    Txn.Keeps Enforced (actionStatus s executionId index) := by
  unfold actionStatus
  refine Txn.keeps_bind (keeps_statement _) fun _ => Txn.keeps_get_bind fun db r hi h => ?_
  cases hf : db.receipts.find? (executionId, index) with
  | none =>
    rw [hf] at h
    exact absurd h Txn.throw_ne_ok
  | some row =>
    rw [hf] at h
    simp only at h
    rw [Txn.set_bind, Txn.pure_eq_ok] at h
    rw [h]
    exact hi.receipts _ fun _ => rfl

theorem keeps_completeAction {executionId : Uuid} {index : ℕ} {succeeded : Bool} {response : Option Value}
    {failure : Option String} :
    Txn.Keeps Enforced (completeAction s executionId index succeeded response failure) := by
  unfold completeAction
  refine Txn.keeps_bind (keeps_statement _) fun _ => Txn.keeps_get_bind fun db r hi h => ?_
  rw [Txn.set_bind, Txn.pure_eq_ok] at h
  rw [h]
  exact hi.receipts _ fun _ => rfl

theorem keeps_claimExecutions {organizationId worker : String} {limit : ℕ} {leaseSeconds : ℤ}
    {locked : Uuid → Bool} :
    Txn.Keeps Enforced (claimExecutions s organizationId worker limit leaseSeconds locked) := by
  intro db r hi h
  obtain ⟨rows, claims, -, hleased, -⟩ := claimExecutions_ok h
  obtain ⟨-, hrules, htriggers, hreceipts, hdispatches⟩ := hleased.frame
  exact hi.congr hrules htriggers hreceipts hdispatches

theorem keeps_leaveExecution {operation attemptOperation : String} {claim : ClaimedExecution}
    {status : ExecutionStatus} {attemptStatus : AttemptStatus} {failure : Option String} :
    Txn.Keeps Enforced (leaveExecution s operation attemptOperation claim status attemptStatus failure) := by
  unfold leaveExecution
  refine Txn.keeps_bind (keeps_statement _) fun _ => Txn.keeps_get_bind fun db r hi h => ?_
  simp only at h
  split at h
  · exact absurd h Txn.throw_ne_ok
  · rw [statement_bind_eq_ok, Txn.set_eq_ok] at h
    rw [h.2]
    exact { hi with }

/-- The advance of a schedule sets a time, and no column of a constraint. -/
theorem Enforced.advance {p : RuleRow → Bool} {next now : ℤ} (hi : Enforced db)
    (hf : Table.KeepsKey RuleRow.ruleId (RuleRow.advance next now)) :
    Enforced { db with rules := db.rules.update p (RuleRow.advance next now) hf } where
  checked := by
    intro x hx
    have hx : x ∈ db.rules.update p (RuleRow.advance next now) hf := hx
    obtain ⟨y, hy, rfl⟩ := Table.mem_update.1 hx
    have hchecked := hi.checked y hy
    split
    · exact hchecked
    · exact hchecked
  names := hi.names.update hf fun _ => rfl
  timerRules := hi.timerRules.grow (Table.update_keys hf)
  receiptKeys := hi.receiptKeys
  dispatchKeys := hi.dispatchKeys

theorem keeps_advanceRule {claim : ClaimedExecution} : Txn.Keeps Enforced (advanceRule s claim) := by
  unfold advanceRule
  refine Txn.keeps_bind (keeps_statement _) fun _ => Txn.keeps_get_bind fun db r hi h => ?_
  cases hf : db.rules.rows.find? (fun r => r.ruleId = claim.ruleId && r.live) with
  | none =>
    rw [hf] at h
    rw [Txn.pure_eq_ok.1 h]
    exact hi
  | some rule =>
  rw [hf] at h
  refine Txn.keeps_bind (keeps_ofExcept _) (fun scheduledFor => ?_) _ r hi h
  refine Txn.keeps_ite (fun _ => ?_) fun _ => Txn.keeps_pure _
  refine Txn.keeps_bind (keeps_ofExcept _) fun interval => ?_
  refine Txn.keeps_bind (keeps_ofExcept _) fun current => ?_
  refine Txn.keeps_bind (keeps_ofExcept _) fun next => Txn.keeps_bind (keeps_ofExcept _) fun column => ?_
  refine Txn.keeps_bind (keeps_statement _) fun _ => Txn.keeps_get_bind fun db r hi h => ?_
  rw [Txn.set_bind] at h
  refine keeps_replacePendingSchedule _ r ?_ h
  exact hi.advance ⟨fun _ => rfl⟩

theorem keeps_completeExecution {claim : ClaimedExecution} {succeeded : Bool} {failure : Option String} :
    Txn.Keeps Enforced (completeExecution s claim succeeded failure) := by
  unfold completeExecution
  refine Txn.keeps_bind (keeps_statement _) fun _ => Txn.keeps_bind keeps_leaveExecution fun _ => ?_
  refine Txn.keeps_bind (keeps_statement _) fun _ => Txn.keeps_get_bind fun db r hi h => ?_
  cases hf : db.triggers.find? claim.triggerId with
  | none =>
    rw [hf] at h
    exact absurd h Txn.throw_ne_ok
  | some trigger =>
    rw [hf] at h
    simp only at h
    split at h
    · exact Txn.keeps_bind keeps_advanceRule (fun _ => keeps_commit _ _) _ r hi h
    · exact keeps_commit _ _ _ r hi h

theorem keeps_releaseExecutionForRetry {claim : ClaimedExecution} {failure : String} :
    Txn.Keeps Enforced (releaseExecutionForRetry s claim failure) := by
  unfold releaseExecutionForRetry
  refine Txn.keeps_bind (keeps_statement _) fun _ => Txn.keeps_bind keeps_leaveExecution fun _ => ?_
  exact keeps_commit _ _

/-! ## Every event -/

/-- A transaction of the plugin keeps the constraints. -/
theorem Enforced.transact {α : Type} {body : Tx (Ending α)} {w : World} (hi : Enforced w.db)
    (hbody : Txn.Keeps Enforced body) : Enforced (w.transact body).2.db :=
  transact_keeps hbody hi

theorem enforced_pendingDispatches {conn : Connection} {organizationId : String} {limit : ℕ} {w : World}
    (hi : Enforced w.db) : Enforced (w.pendingDispatches env conn organizationId limit).db := by
  unfold World.pendingDispatches
  have hdone : Enforced (w.transact (ProjectAutomation.pendingDispatches (w.session env conn) organizationId
      limit)).2.db := hi.transact keeps_pendingDispatches
  split
  · rename_i heq
    rw [heq] at hdone
    exact hdone
  · rename_i heq
    rw [heq] at hdone
    exact hdone

theorem enforced_flush {conn : Connection} {index : ℕ} {answer : EnqueueAnswer} {w : World}
    (hi : Enforced w.db) : Enforced (w.flush env conn index answer).db := by
  unfold World.flush
  cases hf : w.flushes[index]? with
  | none => exact hi
  | some f =>
    obtain ⟨c, phase⟩ := f
    cases phase with
    | enqueue =>
      simp only [World.enqueue]
      cases env.formatRfc3339 c.scheduledFor with
      | none => exact hi
      | some availableAt =>
        cases answer with
        | ok jobId => exact hi
        | lost jobId => exact hi
        | runtime => exact hi
        | domain => exact hi
    | mark jobId => exact hi.transact keeps_markDispatchEnqueued
    | noteCancelled jobId => exact hi.transact keeps_recordCancelledEnqueue
    | noteFailure failure => exact hi.transact keeps_recordDispatchFailure
    | closed => exact hi

theorem enforced_claim {conn : Connection} {organizationId worker : String} {limit : ℕ} {leaseSeconds : ℤ}
    {locked : Uuid → Bool} {w : World} (hi : Enforced w.db) :
    Enforced (w.claimExecutions env conn organizationId worker limit leaseSeconds locked).db := by
  unfold World.claimExecutions
  have hdone : Enforced (w.transact (ProjectAutomation.claimExecutions (w.session env conn) organizationId worker
      limit leaseSeconds locked)).2.db := hi.transact keeps_claimExecutions
  simp only
  split
  · rename_i heq
    rw [heq] at hdone
    exact hdone
  · rename_i heq
    rw [heq] at hdone
    exact hdone

theorem enforced_work {conn : Connection} {executionId : Uuid} {attempt : ℕ} {providers : Providers}
    {w : World} (hi : Enforced w.db) : Enforced (w.work env conn executionId attempt providers).db := by
  unfold World.work
  cases ht : w.tasks (executionId, attempt) with
  | none => exact hi
  | some task =>
    obtain ⟨claim, phase⟩ := task
    cases phase with
    | status index =>
      simp only [World.readStatus]
      split
      · exact hi
      split
      · exact hi
      · exact hi.transact keeps_actionStatus
    | call index key =>
      simp only [World.carryOut]
      split
      · exact hi
      · exact hi
    | record index outcome =>
      cases outcome with
      | ok response => exact hi.transact keeps_completeAction
      | error detail => exact hi.transact keeps_completeAction
    | finish result =>
      cases result with
      | ok _ => exact hi.transact keeps_completeExecution
      | error e =>
        cases e with
        | domain detail => exact hi.transact keeps_completeExecution
        | runtime failure => exact hi.transact keeps_releaseExecutionForRetry
    | closed => exact hi

/-- **Every event keeps what the statements check.** -/
theorem next_enforced {w : World} (hi : Enforced w.db) (event : Event) :
    Enforced ((automation env).next w event).db := by
  cases event with
  | tick nanos => exact hi
  | command conn auth request =>
    show Enforced (w.command env conn auth request).2.db
    unfold World.command
    split
    · exact hi.transact (keeps_storeCommand auth request)
    · exact hi
  | receiveEvent conn request => exact hi.transact (keeps_takeEvent request)
  | receiveTimer conn request => exact hi.transact (keeps_takeTimer request)
  | pendingDispatches conn organizationId limit =>
    exact enforced_pendingDispatches hi
  | flush conn index answer => exact enforced_flush hi
  | claimExecutions conn organizationId worker limit leaseSeconds locked => exact enforced_claim hi
  | work conn executionId attempt providers => exact enforced_work hi

theorem run_enforced (events : List Event) : Enforced ((automation env).run events).db :=
  Transition.Machine.inv_run (m := automation env) (I := fun w => Enforced w.db) Enforced.init
    (fun _ event hi => next_enforced hi event) events

/-! ## The schema -/

/-- The constraints of `001_create_project_automation.sql`. -/
structure Constrained (db : Database) : Prop where
  /-- `automation_commands`: no reservation is left without its response and its time -/
  commands_answered : ∀ c ∈ db.commands, c.response.isSome = true ∧ c.completedAt.isSome = true
  rules_checked : ∀ r ∈ db.rules, r.Checked
  rules_active_name_key : db.rules.Unique RuleRow.activeName
  rules_row_seq_key : db.rules.Unique RuleRow.rowSeq
  triggers_dedupe_key : db.triggers.Unique TriggerRow.delivery
  triggers_rule_fkey : db.triggers.References TriggerRow.ruleId db.rules
  executions_checked : ∀ e ∈ db.executions, e.actions.isArray = true
  executions_firing_key : db.executions.Unique ExecutionRow.firing
  executions_rule_fkey : db.executions.References (fun e => some e.ruleId) db.rules
  executions_trigger_fkey : db.executions.References (fun e => some e.triggerId) db.triggers
  attempts_checked : ∀ a ∈ db.attempts, 0 < a.attempt
  attempts_execution_fkey : db.attempts.References (fun a => some a.executionId) db.executions
  receipts_idempotency_key : db.receipts.Unique ActionReceiptRow.idempotencyKey
  receipts_execution_fkey : db.receipts.References (fun r => some r.executionId) db.executions
  dispatches_idempotency_key : db.dispatches.Unique DispatchRow.idempotencyKey
  dispatches_rule_fkey : db.dispatches.References (fun d => some d.ruleId) db.rules

/-- **Every constraint of the schema holds in every reachable state.** -/
theorem constraints_hold (events : List Event) : Constrained ((automation env).run events).db := by
  have henforced : Enforced ((automation env).run events).db := run_enforced events
  have hrefs : RefsOK env ((automation env).run events) := run_refs events
  have hattempts : AttemptsOK ((automation env).run events).db := run_attempts events
  have hledger : DispatchLedger ((automation env).run events).db := (run_ledger events).1
  refine {
    commands_answered := run_answered events
    rules_checked := henforced.checked
    rules_active_name_key := henforced.names
    rules_row_seq_key := run_seqOK events
    triggers_dedupe_key := ?_
    triggers_rule_fkey := henforced.timerRules
    executions_checked := ?_
    executions_firing_key := ?_
    executions_rule_fkey := ?_
    executions_trigger_fkey := ?_
    attempts_checked := fun a ha => (run_attempt_fits events a ha).1
    attempts_execution_fkey := ?_
    receipts_idempotency_key := henforced.receiptKeys
    receipts_execution_fkey := ?_
    dispatches_idempotency_key := henforced.dispatchKeys
    dispatches_rule_fkey := ?_ }
  · intro t ht t' ht' hsame
    simp only [TriggerRow.delivery, Prod.mk.injEq] at hsame
    refine (run_unique events t ht t' ht' ?_).symm
    simp [TriggerRow.sameKey, hsame]
  · intro e he
    have harray := (hrefs.executions e he).isArray
    revert harray
    cases e.actions <;> simp [Value.asArray, Value.isArray]
  · intro e he e' he' hsame
    simp only [ExecutionRow.firing, Prod.mk.injEq] at hsame
    exact run_links events e he e' he' hsame.1 hsame.2
  · intro e he k hk
    cases hk
    obtain ⟨r, hr, hid, -⟩ := run_tenancy events e he
    exact ⟨r, hr, hid⟩
  · intro e he k hk
    cases hk
    obtain ⟨t, ht, hid, -⟩ := (hrefs.executions e he).trigger
    exact ⟨t, ht, hid⟩
  · intro a ha k hk
    cases hk
    exact hattempts.owned a ha
  · intro r hr k hk
    cases hk
    obtain ⟨e, he, hid, -⟩ := (hrefs.receipts r hr).execution
    exact ⟨e, he, hid⟩
  · intro d hd k hk
    cases hk
    obtain ⟨r, hr, hid, -⟩ := hledger.owned d hd
    exact ⟨r, hr, hid⟩

end ProjectAutomation

import ProjectAutomation.Progress.Sequence
import ProjectAutomation.Proof.Structure
import ProjectAutomation.Spec.Sample

/-!
# Receipts and the end of an execution

The receipts of an execution are the marks of a sequence of steps (`statusAt`).

* `RecordsCurrent`: an outcome is recorded under a claim that is still the current one.
* `ProgressOK`: the sequence of every open execution has come to one step, and the
  worker of its current attempt is at that step.
* `receipts_agree`: so the status an execution ends with agrees with its receipts.
-/

namespace ProjectAutomation

open Relational Progress

variable {env : Env} {w w' : World} {event : Event} {s : Session}

/-- The status of the receipt of an action, `pending` where there is none. -/
def statusAt (t : Table ActionReceiptRow.key) (executionId : Uuid) (index : ℕ) : ReceiptStatus :=
  ((t.find? (executionId, index)).map ActionReceiptRow.status).getD .pending

theorem statusAt_of_mem {t : Table ActionReceiptRow.key} {r : ActionReceiptRow} (h : r ∈ t) :
    statusAt t r.executionId r.actionIndex = r.status := by
  have hf : t.find? (r.executionId, r.actionIndex) = some r := Table.find?_of_mem h
  unfold statusAt
  rw [hf]; rfl

theorem statusAt_put {t t' : Table ActionReceiptRow.key} {r : ActionReceiptRow} (h : t.Put r t')
    (executionId : Uuid) (index : ℕ) : statusAt t' executionId index =
      if r.key = (executionId, index) then r.status else statusAt t executionId index := by
  unfold statusAt
  rw [h.find?_eq]
  split <;> rfl

/-- A row that is put with the status it had leaves every status as it was. -/
theorem statusAt_put_same {t t' : Table ActionReceiptRow.key} {row r : ActionReceiptRow} (hm : row ∈ t)
    (hk : r.key = row.key) (hs : r.status = row.status) (h : t.Put r t') : statusAt t' = statusAt t := by
  funext executionId index
  rw [statusAt_put h]
  split
  · rename_i he
    obtain ⟨rfl, rfl⟩ := Prod.mk.inj (hk.symm.trans he)
    rw [hs, statusAt_of_mem hm]
  · rfl

/-! ## Current claims -/

/-- The execution runs under this claim's attempt. -/
def World.Current (w : World) (claim : ClaimedExecution) : Prop :=
  ∃ e ∈ w.db.executions.rows,
    e.executionId = claim.executionId ∧ e.attempts = claim.attempt ∧ e.status = .running

instance (w : World) (claim : ClaimedExecution) : Decidable (w.Current claim) :=
  inferInstanceAs (Decidable (∃ e ∈ w.db.executions.rows, _))

/-- The claim under which an event runs `complete_action`, when the database serves it. -/
def recording (w : World) : Event → Option ClaimedExecution
  | .work conn executionId attempt _ =>
    match w.tasks (executionId, attempt) with
    | some ⟨claim, .record _ _⟩ => if conn.faults "complete action" = none then some claim else none
    | _ => none
  | _ => none

/-- Every outcome is recorded under the current claim of its execution. -/
def RecordsCurrent (w : World) (event : Event) : Prop := ∀ claim ∈ recording w event, w.Current claim

instance (w : World) (event : Event) : Decidable (RecordsCurrent w event) :=
  inferInstanceAs (Decidable (∀ claim ∈ recording w event, w.Current claim))

theorem RecordsCurrent.current {conn : Connection} {executionId : Uuid} {attempt index : ℕ}
    {providers : Providers} {claim : ClaimedExecution} {outcome : Except String Value}
    (h : RecordsCurrent w (.work conn executionId attempt providers))
    (ht : w.tasks (executionId, attempt) = some ⟨claim, .record index outcome⟩)
    (hserved : conn.faults "complete action" = none) : w.Current claim := by
  apply h
  simp [recording, ht, hserved]

/-! ## Progress -/

/-- The marks of an execution. -/
def marks (w : World) (e : ExecutionRow) : ℕ → ReceiptStatus := statusAt w.db.receipts e.executionId

/-- What the worker of the current attempt knows of the marks. -/
def PhaseOK (σ : ℕ → ReceiptStatus) (length : ℕ) : Phase → Prop
  | .status index => ∀ i < index, σ i = .succeeded
  | .call index _ | .record index _ => index < length ∧ At .pending .succeeded σ index
  | .finish (.ok ()) => ∀ i < length, σ i = .succeeded
  | .finish (.error (.domain _)) => ∃ k < length, At .pending .succeeded σ k ∧ σ k = .failed
  | .finish (.error (.runtime _)) | .closed => True

structure ProgressOK (w : World) : Prop where
  ordered : ∀ e ∈ w.db.executions, e.status.terminal = false → Ordered .pending .succeeded (marks w e)
  current : ∀ e ∈ w.db.executions, e.status = .running → ∀ t, w.tasks (e.executionId, e.attempts) = some t →
    PhaseOK (marks w e) e.steps.length t.phase
  succeeded : ∀ e ∈ w.db.executions, e.status = .succeeded → ∀ i < e.steps.length, marks w e i = .succeeded
  failed : ∀ e ∈ w.db.executions, e.status = .failed →
    ∃ k < e.steps.length, At .pending .succeeded (marks w e) k ∧ marks w e k = .failed

theorem ProgressOK.init : ProgressOK World.init := by
  refine ⟨?_, ?_, ?_, ?_⟩ <;> exact fun e he => absurd he (Table.not_mem_empty e)

/-- A step that leaves executions and marks alone, and moves workers as they may. -/
theorem ProgressOK.move (hi : ProgressOK w) (he : w'.db.executions = w.db.executions)
    (hσ : statusAt w'.db.receipts = statusAt w.db.receipts)
    (ht : ∀ e ∈ w.db.executions, e.status = .running → ∀ t, w'.tasks (e.executionId, e.attempts) = some t →
      w.tasks (e.executionId, e.attempts) = some t ∨ PhaseOK (marks w e) e.steps.length t.phase) :
    ProgressOK w' := by
  have hmarks : ∀ e, marks w' e = marks w e := fun e => congrFun hσ e.executionId
  refine ⟨?_, ?_, ?_, ?_⟩ <;> rw [he]
  · intro e hm; rw [hmarks]; exact hi.ordered e hm
  · intro e hm hr t ht'
    rw [hmarks]
    exact (ht e hm hr t ht').elim (hi.current e hm hr t) id
  · intro e hm; rw [hmarks]; exact hi.succeeded e hm
  · intro e hm; rw [hmarks]; exact hi.failed e hm

/-- The worker of a task is the only one whose phase `setTask` changes. -/
theorem setTask_phase {claim : ClaimedExecution} {phase phase' : Phase} {k k' : Uuid × ℕ} {t : Task}
    (hr : RefsOK env w) (h₀ : w.tasks k = some ⟨claim, phase⟩)
    (ht : (if k' = Task.key ⟨claim, phase'⟩ then some ⟨claim, phase'⟩ else w.tasks k') = some t) :
    w.tasks k' = some t ∨ (k' = k ∧ t = ⟨claim, phase'⟩) := by
  split at ht
  · rename_i hk
    cases ht
    exact Or.inr ⟨hk.trans (hr.tasks _ _ h₀).1, rfl⟩
  · exact Or.inl ht

/-- A worker of the current attempt moves on with what it knew, `next`. -/
theorem ProgressOK.work {claim : ClaimedExecution} {phase phase' : Phase} {k : Uuid × ℕ} (hr : RefsOK env w)
    (hi : ProgressOK w) (h₀ : w.tasks k = some ⟨claim, phase⟩)
    (hσ : statusAt w'.db.receipts = statusAt w.db.receipts) (he : w'.db.executions = w.db.executions)
    (ht : w'.tasks = (w.setTask claim phase').tasks)
    (hnext : ∀ e ∈ w.db.executions, e.status = .running → e.executionId = claim.executionId →
      PhaseOK (marks w e) e.steps.length phase → PhaseOK (marks w e) e.steps.length phase') :
    ProgressOK w' := by
  refine hi.move he hσ ?_
  intro e hm hrun t ht'
  rw [ht] at ht'
  refine (setTask_phase hr h₀ ht').imp id ?_
  rintro ⟨rfl, rfl⟩
  have hk := (hr.tasks _ _ h₀).1
  exact hnext e hm hrun (congrArg Prod.fst hk).symm (hi.current e hm hrun _ h₀)

/-- The worker of the current attempt knows what its phase says. -/
theorem ProgressOK.phase {claim : ClaimedExecution} {phase : Phase} {k : Uuid × ℕ} {e : ExecutionRow}
    (hi : ProgressOK w) (hr : RefsOK env w) (h₀ : w.tasks k = some ⟨claim, phase⟩) (he : e ∈ w.db.executions)
    (hid : e.executionId = claim.executionId) (hatt : e.attempts = claim.attempt) (hrun : e.status = .running) :
    k = (e.executionId, e.attempts) ∧ PhaseOK (marks w e) e.steps.length phase := by
  have hkey : k = (e.executionId, e.attempts) := by rw [← (hr.tasks _ _ h₀).1, hid, hatt]; rfl
  exact ⟨hkey, hi.current e he hrun _ (hkey ▸ h₀)⟩

/-- A claim's actions are those of its execution. -/
theorem RefsOK.steps_eq (hr : RefsOK env w) {k : Uuid × ℕ} {claim : ClaimedExecution} {phase : Phase}
    (h₀ : w.tasks k = some ⟨claim, phase⟩) {e : ExecutionRow} (he : e ∈ w.db.executions)
    (hid : e.executionId = claim.executionId) : e.steps = claim.actions := by
  obtain ⟨-, hok⟩ := hr.tasks _ _ h₀
  obtain ⟨e', he', hid', -, -, hsteps, -⟩ := hok.execution
  have : e = e' := Table.eq_of_key he he' (hid.trans hid'.symm)
  rw [this]; exact hsteps

/-! ## Steps -/

theorem intake_statusAt {trigger : TriggerRow} {es : List ExecutionRow} {db db' : Database}
    (h : Intake s trigger es db db') {executionId : Uuid} (hid : ∀ e ∈ es, e.executionId ≠ executionId) :
    statusAt db'.receipts executionId = statusAt db.receipts executionId := by
  funext index
  unfold statusAt
  rw [Table.find?_congr]
  intro r hk
  rw [h.mem_receipts]
  refine or_iff_left ?_
  rintro ⟨e, he, hr⟩
  obtain ⟨j, action, -, rfl⟩ := mem_openReceipts.1 hr
  exact hid e he (congrArg Prod.fst hk)

/-- An execution just opened has all its steps to do. -/
theorem opened_statusAt {trigger : TriggerRow} {es : List ExecutionRow} {db db' : Database}
    (h : Intake s trigger es db db') {executionId : Uuid}
    (hnew : ∀ r ∈ db.receipts, r.executionId ≠ executionId) (index : ℕ) :
    statusAt db'.receipts executionId index = .pending := by
  unfold statusAt
  cases hf : db'.receipts.find? (executionId, index) with
  | none => rfl
  | some r =>
    obtain ⟨hr, hk⟩ := Table.find?_eq_some.1 hf
    rcases h.mem_receipts.1 hr with hr | ⟨e, -, hr⟩
    · exact absurd (congrArg Prod.fst hk) (hnew r hr)
    · obtain ⟨j, action, -, rfl⟩ := mem_openReceipts.1 hr
      rfl

theorem intake_progress {trigger : TriggerRow} {es : List ExecutionRow} (hr : RefsOK env w)
    (h : Intake s trigger es w.db w'.db) (ht : w'.tasks = w.tasks) (hi : ProgressOK w) : ProgressOK w' := by
  obtain ⟨-, hnew⟩ := h.ids_nodup
  have hold : ∀ e ∈ w.db.executions, marks w' e = marks w e := fun e he =>
    intake_statusAt h fun x hx hid => hnew e he x hx hid.symm
  have hcases : ∀ e ∈ w'.db.executions, e ∈ w.db.executions ∨ (e ∈ es ∧ e.status = .pending) := by
    intro e he
    refine (h.mem_executions.1 he).imp id fun he => ⟨he, ?_⟩
    obtain ⟨rule, -, -, -, -, ho⟩ := h.opened e he
    rw [ho.row]; rfl
  refine ⟨?_, ?_, ?_, ?_⟩
  · intro e he hopen
    rcases hcases e he with he | ⟨he, -⟩
    · rw [hold e he]; exact hi.ordered e he hopen
    · -- no receipt was there for it
      refine ordered_of_todo (opened_statusAt h ?_)
      intro r hm hid
      obtain ⟨⟨x, hx, hxr, -⟩, -⟩ := hr.receipts r hm
      exact hnew x hx e he (hxr.trans hid)
  · intro e he hrun
    rcases hcases e he with he | ⟨-, hs⟩
    · rw [ht, hold e he]; exact hi.current e he hrun
    · rw [hs] at hrun; cases hrun
  · intro e he hdone
    rcases hcases e he with he | ⟨-, hs⟩
    · rw [hold e he]; exact hi.succeeded e he hdone
    · rw [hs] at hdone; cases hdone
  · intro e he hfail
    rcases hcases e he with he | ⟨-, hs⟩
    · rw [hold e he]; exact hi.failed e he hfail
    · rw [hs] at hfail; cases hfail

/-- Claiming: the new workers know nothing yet. -/
theorem claimed_progress {organizationId worker : String} {leaseSeconds now : ℤ}
    {rows : List (ExecutionRow × Value)} {claims told : List ClaimedExecution} {db' : Database} (hr : RefsOK env w)
    (hcand : Candidates w.db organizationId now rows)
    (hl : LeasedAll s worker leaseSeconds rows claims w.db db') (hi : ProgressOK w) :
    ProgressOK { w with db := db', tasks := openTasks told w.tasks } := by
  have hmarks : ∀ e : ExecutionRow, marks { w with db := db', tasks := openTasks told w.tasks } e =
      marks w e := by
    intro e
    show statusAt db'.receipts e.executionId = _
    rw [hl.frame.2.2.2.1]; rfl
  refine ⟨?_, ?_, ?_, ?_⟩
  · intro e he hopen
    rw [hmarks]
    rcases hl.executions_cases he with ⟨he, -⟩ | ⟨c, hc, rfl⟩
    · exact hi.ordered e he hopen
    · exact hi.ordered c.1 (hcand.there c hc).1 (not_terminal_of_claimable (hcand.there c hc).2.2.1)
  · intro e he hrun t ht
    rw [hmarks]
    simp only [openTasks] at ht
    cases hf : told.find? (fun c => Task.key ⟨c, .status 0⟩ = (e.executionId, e.attempts)) with
    | some claim =>
      rw [hf] at ht
      cases ht
      exact fun i hi => absurd hi (Nat.not_lt_zero i)
    | none =>
      rw [hf] at ht
      rcases hl.executions_cases he with ⟨he, -⟩ | ⟨c, hc, rfl⟩
      · exact hi.current e he hrun t ht
      · -- no worker holds the attempt this batch opens
        obtain ⟨hk, hok⟩ := hr.tasks _ _ ht
        obtain ⟨x, hx, hid, -, -, -, hle⟩ := hok.execution
        have h₁ : x.executionId = c.1.executionId := hid.trans (congrArg Prod.fst hk)
        have h₂ : t.claim.attempt = c.1.attempts + 1 := congrArg Prod.snd hk
        rw [Table.eq_of_key hx (hcand.there c hc).1 h₁] at hle
        omega
  · intro e he hdone
    rw [hmarks]
    rcases hl.executions_cases he with ⟨he, -⟩ | ⟨c, hc, rfl⟩
    · exact hi.succeeded e he hdone
    · cases hdone
  · intro e he hfail
    rw [hmarks]
    rcases hl.executions_cases he with ⟨he, -⟩ | ⟨c, hc, rfl⟩
    · exact hi.failed e he hfail
    · cases hfail

/-- Giving a lease up: the execution ends as the worker of its attempt found it. -/
theorem left_progress {claim : ClaimedExecution} {result : Except ActionFailure Unit} {k : Uuid × ℕ}
    {status : ExecutionStatus} {attemptStatus : AttemptStatus} {failure : Option String} {e : ExecutionRow}
    {db db₁ : Database} (hr : RefsOK env w) (h₀ : w.tasks k = some ⟨claim, .finish result⟩)
    (hleft : Left s claim status attemptStatus failure e w.db db₁) (hex : db.executions = db₁.executions)
    (hre : db.receipts = db₁.receipts)
    (hstatus : status = .pending ∨ (status = .succeeded ∧ result = .ok ()) ∨
      status = .failed ∧ ∃ detail, result = .error (.domain detail)) (hi : ProgressOK w) :
    ProgressOK (World.setTask claim .closed { w with db }) := by
  obtain ⟨hid, hatt, hrun, -, -⟩ := heldBy_iff.1 hleft.held
  -- what the worker knew is what the end of the execution needs
  obtain ⟨-, hphase⟩ := hi.phase hr h₀ hleft.there hid hatt hrun
  have hmarks : ∀ x, marks (World.setTask claim .closed { w with db }) x = marks w x := by
    intro x
    show statusAt db.receipts x.executionId = _
    rw [hre, hleft.receipts]; rfl
  have hcases : ∀ x ∈ db.executions, x = e.leave status failure s.transactionTimestamp ∨ x ∈ w.db.executions := by
    intro x hx
    rw [hex] at hx
    exact (hleft.executions.cases hx).imp id And.left
  have hsteps : (e.leave status failure s.transactionTimestamp).steps = e.steps := rfl
  refine ⟨?_, ?_, ?_, ?_⟩
  · intro x hx hopen
    rw [hmarks]
    rcases hcases x hx with rfl | hx
    · exact hi.ordered e hleft.there (by rw [hrun]; rfl)
    · exact hi.ordered x hx hopen
  · intro x hx hrunx t ht
    rw [hmarks]
    rcases hcases x hx with rfl | hx
    · have : status = .running := hrunx
      rcases hstatus with rfl | ⟨rfl, -⟩ | ⟨rfl, -⟩ <;> cases this
    · rcases setTask_phase hr h₀ ht with ht | ⟨-, rfl⟩
      · exact hi.current x hx hrunx t ht
      · trivial
  · intro x hx hdone
    rw [hmarks]
    rcases hcases x hx with rfl | hx
    · have hs : status = .succeeded := hdone
      rcases hstatus with rfl | ⟨-, rfl⟩ | ⟨rfl, -⟩
      · cases hs
      · exact hphase
      · cases hs
    · exact hi.succeeded x hx hdone
  · intro x hx hfail
    rw [hmarks]
    rcases hcases x hx with rfl | hx
    · have hs : status = .failed := hfail
      rcases hstatus with rfl | ⟨rfl, -⟩ | ⟨-, detail, rfl⟩
      · cases hs
      · cases hs
      · exact hphase
    · exact hi.failed x hx hfail

/-- The status an outcome leaves. -/
def recordedStatus : Except String Value → ReceiptStatus
  | .ok _ => .succeeded
  | .error _ => .failed

theorem recordedRow_status (now : ℤ) (row : ActionReceiptRow) (outcome : Except String Value) :
    (recordedRow now row outcome).status = recordedStatus outcome := by
  cases outcome <;> rfl

theorem recordedRow_key (now : ℤ) (row : ActionReceiptRow) (outcome : Except String Value) :
    (recordedRow now row outcome).key = row.key := by
  cases outcome <;> rfl

/-- Recording an outcome marks one step of one execution. -/
theorem recorded_statusAt {t t' : Table ActionReceiptRow.key} {row : ActionReceiptRow} {now : ℤ}
    {outcome : Except String Value} {executionId : Uuid} {index : ℕ} (hk : row.key = (executionId, index))
    (h : t.Put (recordedRow now row outcome) t') (id : Uuid) : statusAt t' id =
      if id = executionId then Function.update (statusAt t id) index (recordedStatus outcome)
      else statusAt t id := by
  funext j
  rw [statusAt_put h, recordedRow_key, recordedRow_status, hk]
  by_cases hid : id = executionId
  · subst hid
    rw [if_pos rfl]
    by_cases hj : index = j
    · subst hj; simp
    · rw [if_neg (fun he => hj (congrArg Prod.snd he)), Function.update_of_ne (fun he => hj he.symm)]
  · rw [if_neg (fun he => hid (congrArg Prod.fst he).symm), if_neg hid]

/-- **Recording under the current claim** takes the sequence one step on, or stops it there. -/
theorem recorded_progress {claim : ClaimedExecution} {index : ℕ} {outcome : Except String Value} {now : ℤ}
    {k : Uuid × ℕ} {row : ActionReceiptRow} {receipts : Table ActionReceiptRow.key} (hr : RefsOK env w)
    (h₀ : w.tasks k = some ⟨claim, .record index outcome⟩) (hcur : w.Current claim)
    (hk : row.key = (claim.executionId, index))
    (hput : w.db.receipts.Put (recordedRow now row outcome) receipts) (hi : ProgressOK w) :
    ProgressOK (World.setTask claim (afterRecord index outcome) { w with db := { w.db with receipts } }) := by
  obtain ⟨x, hx, hid, hatt, hrun⟩ := hcur
  obtain ⟨hkey, hlt, hat⟩ := hi.phase hr h₀ hx hid hatt hrun
  have hmarks : ∀ e : ExecutionRow,
      marks (World.setTask claim (afterRecord index outcome) { w with db := { w.db with receipts } }) e =
        if e.executionId = x.executionId then Function.update (marks w e) index (recordedStatus outcome)
        else marks w e := by
    intro e
    rw [hid]
    exact recorded_statusAt hk hput e.executionId
  have hother : ∀ e ∈ w.db.executions, e ≠ x → e.executionId ≠ x.executionId := fun e he hne hc =>
    hne (Table.eq_of_key he hx hc)
  refine ⟨?_, ?_, ?_, ?_⟩
  · intro e he hopen
    rw [hmarks]
    by_cases hex : e = x
    · -- the sequence is still at `index`, or one further
      subst hex
      rw [if_pos rfl]
      exact ⟨index, hat.mark _⟩
    · rw [if_neg (hother e he hex)]; exact hi.ordered e he hopen
  · intro e he hrune t ht
    rw [hmarks]
    by_cases hex : e = x
    · subst hex
      rw [if_pos rfl]
      have hnew : t = ⟨claim, afterRecord index outcome⟩ := by
        rcases setTask_phase hr h₀ ht with hold | ⟨-, rfl⟩
        · -- the worker that recorded is the one of this attempt
          have : k = Task.key ⟨claim, afterRecord index outcome⟩ := (hr.tasks _ _ h₀).1.symm
          simp only [World.setTask] at ht
          rw [if_pos (hkey.symm.trans this)] at ht
          exact (Option.some.inj ht).symm
        · rfl
      subst hnew
      cases outcome with
      | ok response => exact hat.step.below
      | error detail => exact ⟨index, hlt, hat.mark _, Function.update_self ..⟩
    · rw [if_neg (hother e he hex)]
      rcases setTask_phase hr h₀ ht with hold | ⟨hk', rfl⟩
      · exact hi.current e he hrune t hold
      · exact absurd (congrArg Prod.fst (hk'.trans hkey)) (hother e he hex)
  · intro e he hdone
    rw [hmarks]
    have hex : e ≠ x := by rintro rfl; rw [hrun] at hdone; cases hdone
    rw [if_neg (hother e he hex)]; exact hi.succeeded e he hdone
  · intro e he hfail
    rw [hmarks]
    have hex : e ≠ x := by rintro rfl; rw [hrun] at hfail; cases hfail
    rw [if_neg (hother e he hex)]; exact hi.failed e he hfail

/-- **Every step whose outcomes are current keeps the progress.** -/
theorem step_progress (hr : RefsOK env w) (hg : RecordsCurrent w event) (h : Step env w event w')
    (hi : ProgressOK w) : ProgressOK w' := by
  have hstay : w'.db.executions = w.db.executions → w'.db.receipts = w.db.receipts → w'.tasks = w.tasks →
      ProgressOK w' := fun he hre ht =>
    hi.move he (by rw [hre]) (fun e _ _ t ht' => Or.inl (ht ▸ ht'))
  cases h with
  | idle | tick | pendingDispatches | enqueued | lost | flushEnds | marked | noted | failed =>
    exact hstay rfl rfl rfl
  | command _ hw _ => exact hstay hw.frame.2.1 hw.frame.2.2.2 rfl
  | receiveEvent _ hin _ => exact intake_progress hr hin rfl hi
  | receiveTimer _ _ _ hin => exact intake_progress hr hin rfl hi
  | claimed hcand hl => exact claimed_progress hr hcand hl hi
  | givesUp h₀ hgive =>
    refine hi.work hr h₀ rfl rfl rfl ?_
    intro e he _ hid hphase
    have hsteps := hr.steps_eq h₀ he hid
    cases hgive with
    -- past the last action: every step is behind the worker
    | done hle => exact fun i hlt => hphase i (by rw [hsteps] at hlt; omega)
    -- no execution was opened with so many actions
    | tooMany hlt hmax =>
      have := (hr.executions e he).actions.count _ (hsteps.symm ▸ hlt)
      omega
    | runtime _ => trivial
  | @statusRead conn _ _ index _ claim row receipts h₀ hlt hm hk hput =>
    refine hi.work hr h₀ (statusAt_put_same (r := row.attempt _) hm rfl rfl hput) rfl rfl ?_
    intro e he hrun hid hphase
    have hstatus : marks w e index = row.status := by
      have hs := statusAt_of_mem hm
      obtain ⟨h₁, h₂⟩ := Prod.mk.inj hk
      rw [h₁, h₂, ← hid] at hs
      exact hs
    split
    · -- skipped: one more step is behind the worker
      rename_i hdone
      intro i hi'
      rcases Nat.lt_or_eq_of_le (Nat.le_of_lt_succ hi') with hlt' | rfl
      · exact hphase i hlt'
      · exact hstatus.trans hdone
    · -- to be called for: the steps behind are done and this one is not, so the sequence is here
      rename_i hopen
      refine ⟨(hr.steps_eq h₀ he hid).symm ▸ hlt, ?_⟩
      exact (hi.ordered e he (by rw [hrun]; rfl)).at hphase (fun hc => hopen (hstatus.symm.trans hc))
  | @called _ _ _ index key providers claim action h₀ _ =>
    refine hi.work hr h₀ rfl rfl rfl ?_
    intro e he _ _ hphase
    generalize (executeAction providers claim.executionId index key claim.payload action).2 = result
    cases result with
    | ok response => exact hphase
    | error failure => cases failure <;> first | exact hphase | trivial
  | @recorded _ _ _ index _ claim outcome receipts h₀ hrec hserved =>
    obtain ⟨x, hx, hid, hatt, hrun⟩ := hg.current h₀ hserved
    obtain ⟨-, hlt, -⟩ := hi.phase hr h₀ hx hid hatt hrun
    obtain ⟨r, hrm, hrk⟩ := hr.covered x hx index hlt
    rcases hrec with ⟨hnone, -⟩ | ⟨row, hm, hk, hput⟩
    · exact absurd (by rw [hrk, hid]) (hnone r hrm)
    · exact recorded_progress hr h₀ (hg.current h₀ hserved) hk hput hi
  | released h₀ hleft => exact left_progress hr h₀ hleft rfl rfl (Or.inl rfl) hi
  | @completed _ _ _ _ _ result _ _ _ _ _ _ h₀ hfinal hleft _ _ hsettled =>
    refine left_progress hr h₀ hleft hsettled.frame.2.2.1 hsettled.frame.2.2.2.2 (Or.inr ?_) hi
    cases result with
    | ok _ => cases hfinal; exact Or.inl ⟨rfl, rfl⟩
    | error e =>
      cases e with
      | domain detail => cases hfinal; exact Or.inr ⟨rfl, detail, rfl⟩
      | runtime _ => cases hfinal
  | closes h₀ => exact hi.work hr h₀ rfl rfl rfl (fun _ _ _ _ _ => trivial)

/-- **Receipts agree with the status an execution ends with**, in every run whose outcomes are recorded
under current claims. -/
theorem receipts_agree {is : List Event} (ha : (automation env).Along RecordsCurrent World.init is) :
    let db := ((automation env).run is).db
    ∀ e ∈ db.executions,
      (e.status = .succeeded → ∀ r ∈ db.receipts, r.executionId = e.executionId → r.status = .succeeded) ∧
      (e.status = .failed → ∃ k, (∃ r ∈ db.receipts, r.key = (e.executionId, k)) ∧
        ∀ r ∈ db.receipts, r.executionId = e.executionId →
          r.status = if r.actionIndex < k then .succeeded else if r.actionIndex = k then .failed else .pending) := by
  intro db e he
  have hr : RefsOK env ((automation env).run is) := run_refs is
  have hi : ProgressOK ((automation env).run is) :=
    inv_along (I := ProgressOK) ProgressOK.init (fun hr hg hstep hi => step_progress hr hg hstep hi) ha
  have hmark : ∀ r ∈ db.receipts, r.executionId = e.executionId →
      r.actionIndex < e.steps.length ∧ r.status = marks ((automation env).run is) e r.actionIndex := by
    intro r hm hid
    obtain ⟨⟨x, hx, hxr, action, ha, -⟩, -⟩ := hr.receipts r hm
    have hxe : x = e := Table.eq_of_key hx he (hxr.trans hid)
    refine ⟨hxe ▸ (List.getElem?_eq_some_iff.1 ha).1, ?_⟩
    rw [← statusAt_of_mem hm, hid]; rfl
  constructor
  · intro hs r hm hid
    obtain ⟨hlt, hst⟩ := hmark r hm hid
    exact hst.trans (hi.succeeded e he hs _ hlt)
  · intro hf
    obtain ⟨k, hlt, hat, hbroken⟩ := hi.failed e he hf
    refine ⟨k, hr.covered e he k hlt, fun r hm hid => (hmark r hm hid).2.trans ?_⟩
    split
    · exact hat.below _ (by assumption)
    · split
      · rename_i heq; rw [heq]; exact hbroken
      · exact hat.above _ (by omega)

section Sample

open Sample

/-- One worker carries an action out. -/
noncomputable def triageRun : List Event := opening (comment none) ++ works 0 1 served 5

theorem receipts_agree_triage :
    let db := ((automation Sample.env).run triageRun).db
    ∀ e ∈ db.executions,
      (e.status = .succeeded → ∀ r ∈ db.receipts, r.executionId = e.executionId → r.status = .succeeded) ∧
      (e.status = .failed → ∃ k, (∃ r ∈ db.receipts, r.key = (e.executionId, k)) ∧
        ∀ r ∈ db.receipts, r.executionId = e.executionId →
          r.status = if r.actionIndex < k then .succeeded else if r.actionIndex = k then .failed else .pending) :=
  receipts_agree (by decide)

/-- The first worker is refused, and outlives its lease before it records so; meanwhile the second
completes the execution. -/
noncomputable def overtakenRun : List Event :=
  opening (comment none) ++ works 0 1 (providers "1" (.error (.domain "not_found"))) 2 ++
    claims 61 :: works 61 2 served 5 ++ works 62 1 served 1

/-- **The overtaken worker spoils the receipt** of an execution that has succeeded. -/
theorem overtaken_worker_spoils_receipt :
    let db := ((automation Sample.env).run overtakenRun).db
    ∃ e ∈ db.executions.rows, e.status = .succeeded ∧
      ∃ r ∈ db.receipts.rows, r.executionId = e.executionId ∧ r.status = .failed := by
  decide

end Sample

end ProjectAutomation

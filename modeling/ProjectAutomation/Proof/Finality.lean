import ProjectAutomation.Proof.Receipts

/-!
# Recorded outcomes are final

* `ReadsOpen`: no worker comes back to a receipt that has failed.
* `Closed`: an action's receipt is closed, and no worker of its attempt or a later one is
  about to call for it.
* `receipts_final`: so it stays, along every run whose outcomes are current and whose
  reads are open.
-/

namespace ProjectAutomation

open Relational

variable {env : Env} {w w' : World} {event : Event} {executionId : Uuid} {attempt index : ℕ}
  {status : ReceiptStatus}

/-- The receipt an event reads with `action_status`, when the database serves it. -/
def reading (w : World) : Event → Option (Uuid × ℕ)
  | .work conn executionId attempt _ =>
    match w.tasks (executionId, attempt) with
    | some ⟨claim, .status index⟩ =>
      if index < claim.actions.length ∧ conn.faults "begin action attempt" = none then
        some (claim.executionId, index)
      else none
    | _ => none
  | _ => none

/-- `action_status` finds no receipt that has failed. -/
def ReadsOpen (w : World) (event : Event) : Prop :=
  ∀ k ∈ reading w event, ∀ r ∈ w.db.receipts.rows, r.key = k → r.status ≠ .failed

instance (w : World) (event : Event) : Decidable (ReadsOpen w event) :=
  inferInstanceAs (Decidable (∀ k ∈ reading w event, ∀ r ∈ w.db.receipts.rows, r.key = k → r.status ≠ .failed))

theorem ReadsOpen.open {conn : Connection} {providers : Providers} {claim : ClaimedExecution}
    (h : ReadsOpen w (.work conn executionId attempt providers))
    (ht : w.tasks (executionId, attempt) = some ⟨claim, .status index⟩) (hlt : index < claim.actions.length)
    (hserved : conn.faults "begin action attempt" = none) {r : ActionReceiptRow} (hm : r ∈ w.db.receipts)
    (hk : r.key = (claim.executionId, index)) : r.status ≠ .failed := by
  refine h _ ?_ r hm hk
  simp [reading, ht, hlt, hserved]

/-- The event records the outcome of an action: the database serves its `complete_action`. -/
def Records (w : World) (event : Event) (executionId : Uuid) (attempt index : ℕ) (status : ReceiptStatus) :
    Prop :=
  ∃ conn providers claim outcome, event = .work conn executionId attempt providers ∧
    w.tasks (executionId, attempt) = some ⟨claim, .record index outcome⟩ ∧
    conn.faults "complete action" = none ∧ status = recordedStatus outcome

/-- The worker is about to call for an action, or has called for it. -/
def Phase.Engaged (index : ℕ) : Phase → Prop
  | .call i _ | .record i _ => i = index
  | .status _ | .finish _ | .closed => False

/-- An action is closed with `status`, as far as workers from `attempt` on can see. -/
structure Closed (w : World) (executionId : Uuid) (attempt index : ℕ) (status : ReceiptStatus) : Prop where
  receipt : ∃ r ∈ w.db.receipts, r.key = (executionId, index) ∧ r.status = status
  reached : ∃ e ∈ w.db.executions, e.executionId = executionId ∧ attempt ≤ e.attempts
  workers : ∀ n, attempt ≤ n → ∀ t, w.tasks (executionId, n) = some t → ¬ t.phase.Engaged index

/-- A step adds calls, none of them for the action by an attempt from `attempt` on. -/
def CallsBefore (executionId : Uuid) (attempt index : ℕ) (w w' : World) : Prop :=
  ∃ new, w'.calls = w.calls ++ new ∧
    ∀ c ∈ new, c.executionId = executionId → c.index = index → c.attempt < attempt

theorem CallsBefore.of_eq (h : w'.calls = w.calls) : CallsBefore executionId attempt index w w' :=
  ⟨[], by rw [h, List.append_nil], fun _ hc => by cases hc⟩

theorem CallsBefore.trans {w₁ w₂ w₃ : World} (h : CallsBefore executionId attempt index w₁ w₂)
    (h' : CallsBefore executionId attempt index w₂ w₃) : CallsBefore executionId attempt index w₁ w₃ := by
  obtain ⟨new, he, hn⟩ := h
  obtain ⟨new', he', hn'⟩ := h'
  refine ⟨new ++ new', by rw [he', he, List.append_assoc], fun c hc => ?_⟩
  exact (List.mem_append.1 hc).elim (hn c) (hn' c)

/-- A receipt put in place of one keeps an action's status unless it is that action's. -/
theorem put_keeps {t t' : Table ActionReceiptRow.key} {row r : ActionReceiptRow} (hm : row ∈ t)
    (hk : r.key = row.key) (hput : t.Put r t')
    (hs : row.key = (executionId, index) → r.status = row.status)
    (h : ∃ x ∈ t, x.key = (executionId, index) ∧ x.status = status) :
    ∃ x ∈ t', x.key = (executionId, index) ∧ x.status = status := by
  obtain ⟨x, hx, hxk, hst⟩ := h
  by_cases he : row.key = (executionId, index)
  · have : x = row := Table.eq_of_key hx hm (hxk.trans he.symm)
    subst this
    exact ⟨r, hput.mem, hk.trans hxk, (hs he).trans hst⟩
  · exact ⟨x, hput.of_ne hx (fun hc => he (hk.symm.trans (hc.symm.trans hxk))), hxk, hst⟩

/-- A worker that moves on without engaging leaves the action closed. -/
theorem Closed.workers_setTask {claim : ClaimedExecution} {phase phase' : Phase} {k : Uuid × ℕ}
    (hc : Closed w executionId attempt index status) (hr : RefsOK env w)
    (h₀ : w.tasks k = some ⟨claim, phase⟩)
    (hnext : claim.executionId = executionId → attempt ≤ claim.attempt → ¬ phase.Engaged index →
      ¬ phase'.Engaged index) :
    ∀ n, attempt ≤ n → ∀ t, (w.setTask claim phase').tasks (executionId, n) = some t →
      ¬ t.phase.Engaged index := by
  intro n hn t ht
  have hk := (hr.tasks _ _ h₀).1
  rcases setTask_phase hr h₀ ht with ht | ⟨hkey, rfl⟩
  · exact hc.workers n hn t ht
  · obtain ⟨hid, hatt⟩ := Prod.mk.inj (hk.trans hkey.symm)
    refine hnext hid (hatt ▸ hn) (hc.workers n hn ⟨claim, phase⟩ ?_)
    rw [hkey]; exact h₀

theorem Closed.reached_step (hc : Closed w executionId attempt index status) (h : Step env w event w') :
    ∃ e ∈ w'.db.executions, e.executionId = executionId ∧ attempt ≤ e.attempts := by
  obtain ⟨e, he, hid, hle⟩ := hc.reached
  obtain ⟨e', he', hcont⟩ := step_continues h he
  exact ⟨e', he', hcont.executionId.trans hid, hle.trans hcont.attempts⟩

theorem intake_keeps {s : Session} {trigger : TriggerRow} {es : List ExecutionRow} {db db' : Database}
    (h : Intake s trigger es db db') (hr : ∃ r ∈ db.receipts, r.key = (executionId, index) ∧ r.status = status) :
    ∃ r ∈ db'.receipts, r.key = (executionId, index) ∧ r.status = status := by
  obtain ⟨r, hm, hrest⟩ := hr
  exact ⟨r, h.mem_receipts.2 (Or.inl hm), hrest⟩

/-- **A closed action stays closed**, and only workers that were overtaken may still call for it. -/
theorem step_closed (hr : RefsOK env w) (hg : RecordsCurrent w event ∧ ReadsOpen w event)
    (h : Step env w event w') (hst : status ≠ .pending) (hc : Closed w executionId attempt index status) :
    Closed w' executionId attempt index status ∧ CallsBefore executionId attempt index w w' := by
  have hreached := hc.reached_step h
  cases h with
  | idle | tick | pendingDispatches | enqueued | lost | flushEnds | marked | noted | failed =>
    exact ⟨⟨hc.receipt, hreached, hc.workers⟩, .of_eq rfl⟩
  | command _ hw _ =>
    refine ⟨⟨?_, hreached, hc.workers⟩, .of_eq rfl⟩
    rw [hw.frame.2.2.2]; exact hc.receipt
  | receiveEvent _ hin _ => exact ⟨⟨intake_keeps hin hc.receipt, hreached, hc.workers⟩, .of_eq rfl⟩
  | receiveTimer _ _ _ hin => exact ⟨⟨intake_keeps hin hc.receipt, hreached, hc.workers⟩, .of_eq rfl⟩
  | claimed _ hl =>
    refine ⟨⟨?_, hreached, ?_⟩, .of_eq rfl⟩
    · simp only
      rw [hl.frame.2.2.2.1]; exact hc.receipt
    · -- a new worker is at the status of its first action
      intro n hn t ht
      simp only [openTasks] at ht
      split at ht
      · cases ht; exact id
      · exact hc.workers n hn t ht
  | givesUp h₀ _ =>
    exact ⟨⟨hc.receipt, hreached, hc.workers_setTask hr h₀ (fun _ _ _ => id)⟩, .of_eq rfl⟩
  | @statusRead _ _ _ i _ claim row _ h₀ hlt hm hk hput hserved =>
    refine ⟨⟨put_keeps (r := row.attempt _) hm rfl hput (fun _ => rfl) hc.receipt, hreached, ?_⟩, .of_eq rfl⟩
    refine hc.workers_setTask (w := w) hr h₀ ?_
    intro hid _ _
    split
    · exact id
    · rename_i hopen
      rintro rfl
      -- the receipt that was read is the closed one, and it has not succeeded
      obtain ⟨r, hrm, hrk, hrs⟩ := hc.receipt
      have hrow : r = row := Table.eq_of_key hrm hm (hrk.trans (by rw [hk, hid]))
      subst hrow
      refine hg.2.open h₀ hlt hserved hrm hk ?_
      rw [hrs] at hopen ⊢
      cases status with
      | pending => exact absurd rfl hst
      | succeeded => exact absurd rfl hopen
      | failed => rfl
  | @called _ _ _ i key providers claim action h₀ _ =>
    constructor
    · refine ⟨hc.receipt, hreached, hc.workers_setTask hr h₀ ?_⟩
      intro _ _ hne
      generalize (executeAction providers claim.executionId i key claim.payload action).2 = result
      cases result with
      | ok response => exact hne
      | error failure => cases failure <;> first | exact hne | exact id
    · refine ⟨_, rfl, ?_⟩
      intro c hcm hid hidx
      obtain ⟨call, -, rfl⟩ := List.mem_map.1 hcm
      by_contra hle
      -- a worker from `attempt` on would have been engaged
      refine hc.workers claim.attempt (Nat.not_lt.1 hle) ⟨claim, .call i key⟩ ?_ hidx
      rw [← show claim.executionId = executionId from hid]
      exact hr.task_at h₀
  | @recorded _ _ _ i _ claim outcome _ h₀ hrec hserved =>
    refine ⟨⟨?_, hreached, ?_⟩, .of_eq rfl⟩
    · rcases hrec with ⟨-, he⟩ | ⟨row, hm, hk, hput⟩
      · simp only [World.setTask]; rw [he]; exact hc.receipt
      · refine put_keeps hm (recordedRow_key _ _ _) hput ?_ hc.receipt
        intro hrow
        -- a current claim is not older than `attempt`, so its worker was not engaged
        obtain ⟨hid, hidx⟩ := Prod.mk.inj (hk.symm.trans hrow)
        obtain ⟨x, hx, hxid, hatt, -⟩ := hg.1.current h₀ hserved
        obtain ⟨e, he, heid, hle⟩ := hc.reached
        have hxe : x = e := Table.eq_of_key hx he (hxid.trans (hid.trans heid.symm))
        refine absurd hidx (hc.workers claim.attempt ?_ ⟨claim, .record i outcome⟩ ?_)
        · rw [← hatt, hxe]; exact hle
        · rw [← hid]; exact hr.task_at h₀
    · refine hc.workers_setTask (w := w) hr h₀ (fun _ _ _ => ?_)
      cases outcome <;> exact id
  | released h₀ hleft =>
    refine ⟨⟨?_, hreached, hc.workers_setTask (w := w) hr h₀ (fun _ _ _ => id)⟩, .of_eq rfl⟩
    simp only [World.setTask]
    rw [hleft.receipts]; exact hc.receipt
  | completed h₀ _ hleft _ _ hsettled =>
    refine ⟨⟨?_, hreached, hc.workers_setTask (w := w) hr h₀ (fun _ _ _ => id)⟩, .of_eq rfl⟩
    simp only [World.setTask]
    rw [hsettled.frame.2.2.2.2, hleft.receipts]; exact hc.receipt
  | closes h₀ => exact ⟨⟨hc.receipt, hreached, hc.workers_setTask hr h₀ (fun _ _ _ => id)⟩, .of_eq rfl⟩

/-! ## Recording -/

theorem recordedStatus_ne (outcome : Except String Value) : recordedStatus outcome ≠ .pending := by
  cases outcome <;> simp [recordedStatus]

/-- A `complete_action` the database serves goes through. -/
theorem recordOutcome_serves {s : Session} (claim : ClaimedExecution) (index : ℕ) (outcome : Except String Value)
    (hs : s.faults "complete action" = none) :
    ∃ db', w.recordOutcome s claim index outcome = World.setTask claim (afterRecord index outcome)
      { w with db := db' } ∧
      ∃ receipts, db' = { w.db with receipts } ∧
        ((∀ x ∈ w.db.receipts, x.key ≠ (claim.executionId, index)) ∧ receipts = w.db.receipts ∨
          ∃ row ∈ w.db.receipts, row.key = (claim.executionId, index) ∧
            w.db.receipts.Put (recordedRow s.transactionTimestamp row outcome) receipts) := by
  have hcommit : ∀ succeeded response failure, ∃ db',
      completeAction s claim.executionId index succeeded response failure w.db = .ok (.commit (), db') := by
    intro succeeded response failure
    exact ⟨_, statement_bind_eq_ok.2 ⟨hs, rfl⟩⟩
  unfold World.recordOutcome World.transact
  cases outcome with
  | ok response =>
    obtain ⟨db', hb⟩ := hcommit true (some response) none
    obtain ⟨-, receipts, he, hrec⟩ := completeAction_ok hb
    simp only
    rw [transact_of_commit hb]
    exact ⟨db', rfl, receipts, congrArg Prod.snd he, hrec⟩
  | error detail =>
    obtain ⟨db', hb⟩ := hcommit false none (some detail)
    obtain ⟨-, receipts, he, hrec⟩ := completeAction_ok hb
    simp only
    rw [transact_of_commit hb]
    exact ⟨db', rfl, receipts, congrArg Prod.snd he, hrec⟩

/-- **Recording under the current claim closes the action.** -/
theorem records_closed (hr : RefsOK env w) (hi : ProgressOK w) (hg : RecordsCurrent w event)
    (hrec : Records w event executionId attempt index status) :
    Closed ((automation env).next w event) executionId attempt index status := by
  obtain ⟨conn, providers, claim, outcome, rfl, h₀, hserves, rfl⟩ := hrec
  obtain ⟨x, hx, hxid, hatt, hrun⟩ := hg.current h₀ hserves
  obtain ⟨-, hlt, -⟩ := hi.phase hr h₀ hx hxid hatt hrun
  obtain ⟨hid, hnum⟩ : claim.executionId = executionId ∧ claim.attempt = attempt :=
    Prod.mk.inj (hr.tasks _ _ h₀).1
  obtain ⟨db', hw, receipts, rfl, hput⟩ := recordOutcome_serves (w := w) (s := w.session env conn)
    claim index outcome hserves
  have hnext : (automation env).next w (.work conn executionId attempt providers) =
      World.setTask claim (afterRecord index outcome) { w with db := { w.db with receipts } } := by
    rw [← hw]
    show w.work env conn executionId attempt providers = _
    unfold World.work
    simp only [h₀]
  rw [hnext]
  refine ⟨?_, ⟨x, hx, hxid.trans hid, (hatt.trans hnum).ge⟩, ?_⟩
  · obtain ⟨r, hrm, hrk⟩ := hr.covered x hx index hlt
    rcases hput with ⟨hnone, -⟩ | ⟨row, hm, hk, hput⟩
    · exact absurd (by rw [hrk, hxid]) (hnone r hrm)
    · refine ⟨_, hput.mem, ?_, recordedRow_status _ _ _⟩
      rw [recordedRow_key, hk, hid]
  · intro n hn t ht
    rcases setTask_phase hr h₀ ht with hold | ⟨-, rfl⟩
    · -- `attempt` is the last one, and its own worker has moved on
      obtain ⟨htk, hok⟩ := hr.tasks _ _ hold
      obtain ⟨e, he, heid, -, -, -, hle⟩ := hok.execution
      obtain ⟨htid, htn⟩ := Prod.mk.inj htk
      have hex : e = x := Table.eq_of_key he hx (heid.trans (htid.trans (hid.symm.trans hxid.symm)))
      have hlast : n = attempt := by rw [← htn]; rw [hex] at hle; omega
      subst hlast
      simp only [World.setTask] at ht
      rw [if_pos (by rw [← hid, ← hnum]; rfl)] at ht
      cases ht
      cases outcome <;> exact id
    · cases outcome <;> exact id

/-- **Recorded outcomes are final.** Along a run whose outcomes are recorded under current claims and
whose workers find no failed receipt, the status an action was closed with stays, and none but workers
that had already been overtaken call for it again. -/
theorem receipts_final {is later : List Event} {event : Event}
    (ha : (automation env).Along (fun w event => RecordsCurrent w event ∧ ReadsOpen w event) World.init
      (is ++ event :: later))
    (hrec : Records ((automation env).run is) event executionId attempt index status) :
    let w₁ := (automation env).run (is ++ [event])
    let w₂ := (automation env).run (is ++ event :: later)
    (∃ r ∈ w₂.db.receipts, r.key = (executionId, index) ∧ r.status = status) ∧
      CallsBefore executionId attempt index w₁ w₂ := by
  intro w₁ w₂
  obtain ⟨hbefore, hevent, hlater⟩ := Transition.Machine.along_append.1 ha
  have hr : RefsOK env ((automation env).run is) := run_refs is
  have hi : ProgressOK ((automation env).run is) :=
    inv_along (I := ProgressOK) ProgressOK.init (fun hr hg hstep hi => step_progress hr hg hstep hi)
      (Transition.Machine.along_mono (fun _ _ h => h.1) hbefore)
  have hc : Closed w₁ executionId attempt index status := by
    show Closed ((automation env).run (is ++ [event])) _ _ _ _
    rw [Transition.Machine.run_append]
    exact records_closed hr hi hevent.1 hrec
  have hst : status ≠ .pending := by
    obtain ⟨_, _, _, outcome, -, -, -, rfl⟩ := hrec
    exact recordedStatus_ne outcome
  have hw : w₂ = (automation env).runFrom w₁ later := by
    show (automation env).run (is ++ event :: later) = (automation env).runFrom ((automation env).run _) later
    rw [← Transition.Machine.run_append, List.append_assoc]; rfl
  have hr₁ : RefsOK env w₁ := run_refs _
  have hl : (automation env).Along (fun w event => RecordsCurrent w event ∧ ReadsOpen w event) w₁ later := by
    show (automation env).Along _ ((automation env).run (is ++ [event])) later
    rw [Transition.Machine.run_append]; exact hlater
  rw [hw]
  refine ⟨(inv_from (I := fun w => Closed w executionId attempt index status)
    (fun hr hg hstep hc => (step_closed hr hg hstep hst hc).1) hr₁ hc hl).2.receipt, ?_⟩
  exact rel_along (R := CallsBefore executionId attempt index)
    (I := fun w => Closed w executionId attempt index status) (fun _ => .of_eq rfl)
    (fun _ _ _ h h' => h.trans h') (fun hr hg hstep hc => (step_closed hr hg hstep hst hc).1)
    (fun hr hg hstep hc => (step_closed hr hg hstep hst hc).2) hr₁ hc hl

section Sample

open Sample

theorem receipts_final_triage :
    let w₁ := (automation Sample.env).run (opening (comment none) ++ works 0 1 served 3)
    let w₂ := (automation Sample.env).run (opening (comment none) ++ works 0 1 served 3 ++ works 0 1 served 2)
    (∃ r ∈ w₂.db.receipts, r.key = (uuid 1 1, 0) ∧ r.status = .succeeded) ∧
      CallsBefore (uuid 1 1) 1 0 w₁ w₂ :=
  @receipts_final Sample.env (uuid 1 1) 1 0 .succeeded (opening (comment none) ++ works 0 1 served 2)
    (works 0 1 served 2) (.work (conn 0 0) (uuid 1 1) 1 served) (by decide)
    ⟨conn 0 0, served, _, .ok .null, rfl, rfl, rfl, rfl⟩

/-- The only worker is refused, and records so. -/
noncomputable def refusedRun : List Event :=
  opening (comment none) ++ works 0 1 (providers "1" (.error (.domain "not_found"))) 2

/-- Its lease runs out before it completes the execution, and it claims the execution again. -/
noncomputable def repeatedRun : List Event := works 61 1 served 1 ++ claims 61 :: works 61 2 served 3

/-- **A refused action is called again**, and its receipt turns into a success. -/
theorem refused_action_is_repeated :
    let w := (automation Sample.env).run refusedRun
    let w₁ := (automation Sample.env).run (refusedRun ++ works 0 1 served 1)
    let w₂ := (automation Sample.env).run (refusedRun ++ works 0 1 served 1 ++ repeatedRun)
    Records w (.work (conn 0 0) (uuid 1 1) 1 served) (uuid 1 1) 1 0 .failed ∧
    (∃ r ∈ w₁.db.receipts.rows, r.key = (uuid 1 1, 0) ∧ r.status = .failed) ∧
    (∃ r ∈ w₂.db.receipts.rows, r.key = (uuid 1 1, 0) ∧ r.status = .succeeded) ∧
    ∃ c ∈ w₂.calls, c ∉ w₁.calls ∧ c.executionId = uuid 1 1 ∧ c.index = 0 ∧ 1 < c.attempt := by
  refine ⟨⟨conn 0 0, served, _, .error "not_found", rfl, rfl, rfl, rfl⟩, ?_, ?_, ?_⟩ <;> decide

end Sample

end ProjectAutomation

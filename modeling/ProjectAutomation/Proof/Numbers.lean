import ProjectAutomation.Proof.AttemptLedger
import ProjectAutomation.Proof.Revisions
import ProjectAutomation.Spec.Assumptions

/-!
# The numbers of the schema

* `run_rowSeq`: no two rules have one `row_seq`, and a rule keeps its own.
* `run_rowSeq_range`: a `row_seq` can be written as a cursor.
* `run_attempt_fits`: so can the number of an attempt.
* `run_counters`: the attempts counted on receipts and dispatches fit their columns.
-/

namespace ProjectAutomation

open Relational

variable {env : Env} {w w' : World} {event : Event} {s : Session}

/-! ## Rules -/

/-- A rule keeps the number it was given when it was inserted. -/
theorem Written.rowSeq_eq {request : CommandRequest} {old : Option RuleRow} {new : RuleRow}
    {next : Option OffsetDateTime} (h : Written s request old new next) :
    new.rowSeq = (old.map RuleRow.rowSeq).getD s.nextRowSeq := by
  cases h <;> rfl

/-- The number of a rule that is created is a new one. -/
theorem storeCommand_fresh {auth : Authorized} {r : CreateRuleRequest} {db db' : Database} {ending : Ending Value}
    {response : Value} (h : storeCommand s auth (.create r) db = .ok (ending, db'))
    (hc : ending.committed = some response) :
    ∀ x ∈ db.rules, x.rowSeq ≠ s.nextRowSeq := by
  unfold storeCommand createRule at h
  have hkeep : ∀ db e, (do
      let nextFireAt ← ofExcept (initialNextFire s.env s.nowUtc r.trigger.toValue r.enabled)
      let column ← ofExcept (bindNullable nextFireAt)
      let row ← insertRule s (newRule s r.organizationId r.ruleId r.name r.enabled r.trigger.toValue
        (storedConditions r.conditions) (storedActions r.actions) column)
      replacePendingSchedule s r.organizationId r.ruleId nextFireAt
      ofExcept (ruleJson s.env row) : Tx Value) db = .ok e → e.2.commands = db.commands := by
    intro db e he
    obtain ⟨_, _, _, -, hw, -⟩ := createWork_ok he
    exact hw.commands
  rcases command_ok hkeep h with ⟨_, he, -⟩ | ⟨_, c, _, _, hwork, -, -⟩
  · cases he
    cases hc
  · simp only [ofExcept_bind_eq_ok] at hwork
    obtain ⟨next, -, column, -, hwork⟩ := hwork
    rw [Txn.bind_eq_ok] at hwork
    obtain ⟨_, _, hinsert, -⟩ := hwork
    obtain ⟨_, -, hfresh, -⟩ := insertRule_ok hinsert
    exact hfresh

/-- The numbers a command's connection hands out. -/
def Event.CountsRows : Event → Prop
  | .command conn _ _ => conn.CountsRows
  | _ => True

/-- What an event does to the numbers of the rules. -/
inductive SeqStep (w : World) (event : Event) (w' : World) : Prop
  | same : w'.db.rules = w.db.rules → SeqStep w event w'
  | kept {old new : RuleRow} : old ∈ w.db.rules → old.ruleId = new.ruleId → old.rowSeq = new.rowSeq →
      w.db.rules.Put new w'.db.rules → SeqStep w event w'
  | numbered {new : RuleRow} : (∀ x ∈ w.db.rules, x.ruleId ≠ new.ruleId) →
      (∀ x ∈ w.db.rules, x.rowSeq ≠ new.rowSeq) → (event.CountsRows → 0 < new.rowSeq ∧ new.rowSeq < 2 ^ 63) →
      w.db.rules.Put new w'.db.rules → SeqStep w event w'

theorem RuleStep.seq (h : RuleStep env w event w') : SeqStep w event w' := by
  cases h with
  | same _ he => exact .same he
  | @command conn auth request response old new next he hc hwr _ hfound _ hput =>
    subst he
    have hseq := hwr.rowSeq_eq
    cases old with
    | none =>
      obtain ⟨-, ending, db', hb, hcommitted⟩ := hc
      -- only `create_rule` writes a rule that is not there
      cases hwr with
      | create =>
        exact .numbered (Table.find?_eq_none.1 hfound) (storeCommand_fresh hb hcommitted) (fun hcount => hcount) hput
    | some old =>
      obtain ⟨hm, hid⟩ := Table.find?_eq_some.1 hfound
      exact .kept hm hid hseq.symm hput
  | advanced _ hm _ _ hput => refine .kept hm ?_ ?_ hput <;> rfl

theorem next_seq (hr : RefsOK env w) (event : Event) : SeqStep w event ((automation env).next w event) :=
  (step_rule_cases hr event).seq

/-- No two rules have one number. -/
def SeqOK (db : Database) : Prop := ∀ r ∈ db.rules, ∀ r' ∈ db.rules, r.rowSeq = r'.rowSeq → r = r'

theorem SeqStep.seqOK (h : SeqStep w event w') (hi : SeqOK w.db) : SeqOK w'.db := by
  cases h with
  | same he =>
    unfold SeqOK
    rw [he]
    exact hi
  | @kept old new hm hid hseq hput =>
    intro r hr r' hr' he
    rcases hput.cases hr with rfl | ⟨hr, hk⟩ <;> rcases hput.cases hr' with rfl | ⟨hr', hk'⟩
    · rfl
    · exact absurd ((hi old hm r' hr' (hseq.trans he)) ▸ hid) hk'
    · exact absurd ((hi old hm r hr (hseq.trans he.symm)) ▸ hid) hk
    · exact hi r hr r' hr' he
  | @numbered new _ hfresh _ hput =>
    intro r hr r' hr' he
    rcases hput.cases hr with rfl | ⟨hr, -⟩ <;> rcases hput.cases hr' with rfl | ⟨hr', -⟩
    · rfl
    · exact absurd he.symm (hfresh r' hr')
    · exact absurd he (hfresh r hr)
    · exact hi r hr r' hr' he

/-- A rule that is there stays, with its number. -/
theorem SeqStep.stays (h : SeqStep w event w') {r : RuleRow} (hr : r ∈ w.db.rules) :
    ∃ r' ∈ w'.db.rules, r'.ruleId = r.ruleId ∧ r'.rowSeq = r.rowSeq := by
  cases h with
  | same he => exact ⟨r, he ▸ hr, rfl, rfl⟩
  | @kept old new hm hid hseq hput =>
    by_cases hk : r.ruleId = new.ruleId
    · cases Table.eq_of_key hr hm (hk.trans hid.symm)
      exact ⟨new, hput.mem, hid.symm, hseq.symm⟩
    · exact ⟨r, hput.of_ne hr hk, rfl, rfl⟩
  | numbered hno _ _ hput => exact ⟨r, hput.of_ne hr (hno r hr), rfl, rfl⟩

theorem SeqStep.range (h : SeqStep w event w') (hcount : event.CountsRows)
    (hi : ∀ r ∈ w.db.rules, 0 < r.rowSeq ∧ r.rowSeq < 2 ^ 63) :
    ∀ r ∈ w'.db.rules, 0 < r.rowSeq ∧ r.rowSeq < 2 ^ 63 := by
  intro r hr
  cases h with
  | same he => exact hi r (he ▸ hr)
  | kept hm _ hseq hput =>
    rcases hput.cases hr with rfl | ⟨hr, -⟩
    · exact hseq ▸ hi _ hm
    · exact hi r hr
  | numbered _ _ hrange hput =>
    rcases hput.cases hr with rfl | ⟨hr, -⟩
    · exact hrange hcount
    · exact hi r hr

theorem run_seqOK (events : List Event) : SeqOK ((automation env).run events).db :=
  (Transition.Machine.inv_run (m := automation env) (I := fun w => RefsOK env w ∧ SeqOK w.db)
    ⟨RefsOK.init, fun r hr => absurd hr (Table.not_mem_empty r)⟩
    (fun _ event hi => ⟨step_refs hi.1 (step_cases hi.1.linked event), (next_seq hi.1 event).seqOK hi.2⟩) events).2

/-- **Every number of a rule can be written as a cursor.** -/
theorem run_rowSeq_range {events : List Event} (hcount : ∀ event ∈ events, event.CountsRows) :
    ∀ r ∈ ((automation env).run events).db.rules, 0 < r.rowSeq ∧ r.rowSeq < 2 ^ 63 :=
  (Transition.Machine.inv_runFrom (m := automation env)
    (I := fun w => RefsOK env w ∧ ∀ r ∈ w.db.rules, 0 < r.rowSeq ∧ r.rowSeq < 2 ^ 63)
    (G := fun _ event => event.CountsRows)
    (fun _ event hi hg => ⟨step_refs hi.1 (step_cases hi.1.linked event), (next_seq hi.1 event).range hg hi.2⟩)
    events _ ⟨RefsOK.init, fun r hr => absurd hr (Table.not_mem_empty r)⟩
    (Transition.Machine.along_of_mem hcount _)).2

/-- Rules stay, with their numbers. -/
theorem run_rules_stay (events later : List Event) :
    ∀ r ∈ ((automation env).run events).db.rules, ∃ r' ∈ ((automation env).run (events ++ later)).db.rules,
      r'.ruleId = r.ruleId ∧ r'.rowSeq = r.rowSeq := by
  rw [Transition.Machine.run_append]
  refine Transition.Machine.rel_runFrom (m := automation env) (I := RefsOK env) (G := fun _ _ => True)
    (R := fun w w' => ∀ r ∈ w.db.rules, ∃ r' ∈ w'.db.rules, r'.ruleId = r.ruleId ∧ r'.rowSeq = r.rowSeq)
    (fun w r hr => ⟨r, hr, rfl, rfl⟩) ?_ (fun _ event hi _ => step_refs hi (step_cases hi.linked event))
    (fun _ event hi _ r hr => (next_seq hi event).stays hr) later _ (run_refs events)
    (Transition.Machine.along_true _ _)
  intro w₁ w₂ w₃ h h' r hr
  obtain ⟨r₂, hr₂, hid, hseq⟩ := h r hr
  obtain ⟨r₃, hr₃, hid', hseq'⟩ := h' r₂ hr₂
  exact ⟨r₃, hr₃, hid'.trans hid, hseq'.trans hseq⟩

/-- **A rule is known by its number**, then and later. -/
theorem run_rowSeq (events later : List Event) {r r' : RuleRow} (hr : r ∈ ((automation env).run events).db.rules)
    (hr' : r' ∈ ((automation env).run (events ++ later)).db.rules) :
    r.ruleId = r'.ruleId ↔ r.rowSeq = r'.rowSeq := by
  obtain ⟨x, hx, hid, hseq⟩ := run_rules_stay events later r hr
  rw [← hid, ← hseq]
  constructor
  · intro h
    rw [Table.eq_of_key hx hr' h]
  · intro h
    rw [run_seqOK (events ++ later) x hx r' hr' h]

/-! ## Attempts -/

/-- A claim numbers its attempt within `i32`, and renumbers none. -/
theorem claimRow_fits {worker : String} {leaseSeconds : ℤ} {e : ExecutionRow} {payload : Value} {db : Database}
    {r : ClaimedExecution × Database} (h : claimRow s worker leaseSeconds e payload db = .ok r)
    (hi : ∀ a ∈ db.attempts, a.attempt ≤ i32Max) : ∀ a ∈ r.2.attempts, a.attempt ≤ i32Max := by
  obtain ⟨attempts₁, attempts, actions, hrows, hcount, hinsert, -, rfl⟩ := claimRow_cases h
  intro a ham
  rcases (Table.mem_insert? hinsert).1 ham with ham | rfl
  · rw [← Table.mem_rows, hrows, List.mem_map] at ham
    obtain ⟨a₀, ha₀, rfl⟩ := ham
    have hn : (expire s e a₀).attempt = a₀.attempt := congrArg Prod.snd (expire_key e a₀)
    rw [hn]
    exact hi a₀ ha₀
  · exact hcount

theorem claimRows_fit {worker : String} {leaseSeconds : ℤ} {rows : List (ExecutionRow × Value)} {db : Database}
    {r : List ClaimedExecution × Database} (h : claimRows s worker leaseSeconds rows db = .ok r)
    (hi : ∀ a ∈ db.attempts, a.attempt ≤ i32Max) : ∀ a ∈ r.2.attempts, a.attempt ≤ i32Max := by
  induction rows generalizing db r with
  | nil =>
    unfold claimRows at h
    rw [Txn.pure_eq_ok] at h
    subst h
    exact hi
  | cons c rest ih =>
    unfold claimRows at h
    rw [Txn.bind_eq_ok] at h
    obtain ⟨claim, db₁, hone, h⟩ := h
    rw [Txn.bind_eq_ok] at h
    obtain ⟨claims, db₂, hrest, h⟩ := h
    rw [Txn.pure_eq_ok] at h
    subst h
    exact @ih _ (claims, db₂) hrest (claimRow_fits hone hi)

theorem claimExecutions_fit {conn : Connection} {organizationId worker : String} {limit : ℕ} {leaseSeconds : ℤ}
    {locked : Uuid → Bool} (hi : ∀ a ∈ w.db.attempts, a.attempt ≤ i32Max) :
    ∀ a ∈ (w.claimExecutions env conn organizationId worker limit leaseSeconds locked).db.attempts,
      a.attempt ≤ i32Max := by
  unfold World.claimExecutions
  simp only
  rcases w.transact_cases (claimExecutions (w.session env conn) organizationId worker limit leaseSeconds locked) with
    ⟨e, -, h⟩ | ⟨claims, db', hb, h⟩ | ⟨ending, claims, db', hb, -, h⟩
  · rw [h]
    exact hi
  · rw [h]
    exact hi
  · unfold claimExecutions at hb
    rw [statement_bind_eq_ok, statement_bind_eq_ok, Txn.get_bind] at hb
    obtain ⟨-, -, hb⟩ := hb
    rw [Txn.bind_eq_ok] at hb
    obtain ⟨_, db₁, hrows, hb⟩ := hb
    obtain ⟨_, -, hend⟩ := commit_eq_ok hb
    cases hend
    have hfit : ∀ a ∈ db'.attempts, a.attempt ≤ i32Max := claimRows_fit hrows hi
    -- the rows are the same whatever the caller is told
    rw [h]
    cases ending.answer <;> exact hfit

/-- Giving a lease up renumbers no attempt. -/
theorem Left.attempts_fit {claim : ClaimedExecution} {status : ExecutionStatus} {attemptStatus : AttemptStatus}
    {failure : Option String} {e : ExecutionRow} {db db' : Database}
    (h : Left s claim status attemptStatus failure e db db') (hi : ∀ a ∈ db.attempts, a.attempt ≤ i32Max) :
    ∀ a ∈ db'.attempts, a.attempt ≤ i32Max := by
  intro a ha
  rw [← Table.mem_rows, h.attempts, List.mem_map] at ha
  obtain ⟨a₀, ha₀, rfl⟩ := ha
  split <;> exact hi a₀ ha₀

/-- An event other than a claim renumbers no attempt. -/
theorem step_attempts_fit (h : Step env w event w')
    (hne : ∀ conn organizationId worker limit leaseSeconds locked,
      event ≠ .claimExecutions conn organizationId worker limit leaseSeconds locked)
    (hi : ∀ a ∈ w.db.attempts, a.attempt ≤ i32Max) : ∀ a ∈ w'.db.attempts, a.attempt ≤ i32Max := by
  cases h with
  | idle | tick | pendingDispatches | enqueued | lost | flushEnds | marked | noted | failed | givesUp
  | statusRead | called | recorded | closes => exact hi
  | command _ hw _ => exact hw.frame.2.2.1 ▸ hi
  | receiveEvent _ hin _ => exact hin.attempts ▸ hi
  | receiveTimer _ _ _ hin => exact hin.attempts ▸ hi
  | claimed => exact absurd rfl (hne _ _ _ _ _ _)
  | released _ hleft => exact hleft.attempts_fit hi
  | completed _ _ hleft _ _ hsettled => exact hsettled.frame.2.2.2.1 ▸ hleft.attempts_fit hi

theorem next_attempts_fit (hr : RefsOK env w) (hi : ∀ a ∈ w.db.attempts, a.attempt ≤ i32Max) (event : Event) :
    ∀ a ∈ ((automation env).next w event).db.attempts, a.attempt ≤ i32Max := by
  have hstep : Step env w event ((automation env).next w event) := step_cases hr.linked event
  cases event with
  | claimExecutions => exact claimExecutions_fit hi
  | tick | command | receiveEvent | receiveTimer | pendingDispatches | flush | work =>
    exact step_attempts_fit hstep (fun _ _ _ _ _ _ h => by cases h) hi

/-- **Every number of an attempt can be written as a cursor.** -/
theorem run_attempt_fits (events : List Event) :
    ∀ a ∈ ((automation env).run events).db.attempts, 1 ≤ a.attempt ∧ a.attempt ≤ i32Max := by
  intro a ha
  have hfit := (Transition.Machine.inv_run (m := automation env)
    (I := fun w => RefsOK env w ∧ ∀ a ∈ w.db.attempts, a.attempt ≤ i32Max)
    ⟨RefsOK.init, fun a ha => absurd ha (Table.not_mem_empty a)⟩
    (fun _ event hi => ⟨step_refs hi.1 (step_cases hi.1.linked event), next_attempts_fit hi.1 hi.2 event⟩) events).2
  have hledger : AttemptsOK ((automation env).run events).db := run_attempts events
  obtain ⟨e, he, hid⟩ := hledger.owned a ha
  exact ⟨((hledger.ledgers e he).attempt_le ha hid.symm).1, hfit a ha⟩

/-! ## Counters -/

/-- The attempts at actions and at dispatches fit their columns. -/
structure CountersFit (db : Database) : Prop where
  receipts : ∀ r ∈ db.receipts, r.attempts ≤ i32Max
  dispatches : ∀ d ∈ db.dispatches, d.attempts ≤ i32Max

theorem CountersFit.of_eq {db db' : Database} (hi : CountersFit db) (hreceipts : db'.receipts = db.receipts)
    (hdispatches : db'.dispatches = db.dispatches) : CountersFit db' :=
  ⟨hreceipts ▸ hi.receipts, hdispatches ▸ hi.dispatches⟩

/-- A dispatch that is rescheduled keeps its attempts, and a new one has none. -/
theorem CountersFit.rescheduled {organizationId ruleId : String} {next : Option OffsetDateTime} {db db' : Database}
    (hi : CountersFit db) (hreceipts : db'.receipts = db.receipts)
    (h : Rescheduled env organizationId ruleId next db.dispatches db'.dispatches) : CountersFit db' := by
  refine ⟨hreceipts ▸ hi.receipts, fun d hd => ?_⟩
  rcases h.cases hd with ⟨d₀, hd₀, rfl⟩ | ⟨n, -, rfl, -⟩
  · obtain ⟨_, _, he⟩ := settle_eq ruleId (next.map encodeTimestamptz) d₀
    rw [he]
    exact hi.dispatches d₀ hd₀
  · exact Nat.zero_le _

/-- A receipt is put whose count fits. -/
theorem CountersFit.put {new : ActionReceiptRow} {receipts : Table ActionReceiptRow.key} {db : Database}
    (hi : CountersFit db) (hput : db.receipts.Put new receipts) (hnew : new.attempts ≤ i32Max) :
    CountersFit { db with receipts } := by
  refine ⟨fun r hr => ?_, hi.dispatches⟩
  rcases hput.cases hr with rfl | ⟨hr, -⟩
  · exact hnew
  · exact hi.receipts r hr

/-- Dispatches are counted up that had room. -/
theorem CountersFit.count {p : DispatchRow → Bool} {f : DispatchRow → DispatchRow}
    {hf : Table.KeepsKey DispatchRow.key f} {db : Database} (hi : CountersFit db)
    (hcount : ∀ d, (f d).attempts = d.attempts + 1) (hroom : ∀ d ∈ db.dispatches, p d = true → d.attempts < i32Max) :
    CountersFit { db with dispatches := db.dispatches.update p f hf } := by
  refine ⟨hi.receipts, fun d hd => ?_⟩
  have hd : d ∈ db.dispatches.update p f hf := hd
  obtain ⟨d₀, hd₀, rfl⟩ := Table.mem_update.1 hd
  split
  · rename_i hp
    rw [hcount]
    exact hroom d₀ hd₀ hp
  · exact hi.dispatches d₀ hd₀

/-- What is counted up by a statement that is served had room. -/
theorem CountersChecked.room {conn : Connection} {operation : String} {counts : List ℕ}
    (h : CountersChecked w event) (hcounting : counting w event = some (conn, operation, counts))
    (hserved : conn.faults operation = none) {n : ℕ} (hn : n ∈ counts) : n < i32Max := by
  by_contra hle
  exact h _ hcounting ⟨n, hn, Nat.not_lt.1 hle⟩ hserved

theorem intake_counters {trigger : TriggerRow} {es : List ExecutionRow} {db db' : Database}
    (h : Intake s trigger es db db') (hi : CountersFit db) : CountersFit db' := by
  refine ⟨fun r hr => ?_, h.dispatches ▸ hi.dispatches⟩
  rcases h.mem_receipts.1 hr with hr | ⟨e, -, hr⟩
  · exact hi.receipts r hr
  · obtain ⟨j, action, -, rfl⟩ := mem_openReceipts.1 hr
    exact Nat.zero_le _

/-- **A step counts no further than the columns reach.** -/
theorem step_counters (h : Step env w event w') (hg : CountersChecked w event) (hi : CountersFit w.db) :
    CountersFit w'.db := by
  have hflush : ∀ {conn : Connection} {index : ℕ} {answer : EnqueueAnswer} {operation : String}
      {c : ScheduleDispatch} {state : DispatchState} {d : DispatchRow}, event = .flush conn index answer →
      counting w event = some (conn, operation, counting.selected w c state) → conn.faults operation = none →
      d ∈ w.db.dispatches → c.selects state d = true → d.attempts < i32Max :=
    fun _ hcounting hserved hd hp =>
      hg.room hcounting hserved (List.mem_map.2 ⟨_, List.mem_filter.2 ⟨hd, hp⟩, rfl⟩)
  cases h with
  | idle | tick | pendingDispatches | enqueued | lost | flushEnds | givesUp | called | closes => exact hi
  | command _ hw _ =>
    obtain ⟨_, _, _, -, hwrites, -⟩ := command_writes hw
    exact hi.rescheduled hw.frame.2.2.2 hwrites.dispatches
  | receiveEvent _ hin _ => exact intake_counters hin hi
  | receiveTimer _ _ _ hin => exact intake_counters hin hi
  | marked hget _ hserved =>
    exact hi.count (fun _ => rfl) fun d hd hp => hflush rfl (by simp [counting, hget]) hserved hd hp
  | noted hget hserved =>
    exact hi.count (fun _ => rfl) fun d hd hp => hflush rfl (by simp [counting, hget]) hserved hd hp
  | failed hget hserved =>
    exact hi.count (fun _ => rfl) fun d hd hp => hflush rfl (by simp [counting, hget]) hserved hd hp
  | claimed _ hl => exact hi.of_eq hl.frame.2.2.2.1 hl.frame.2.2.2.2
  | @statusRead conn _ _ index _ claim row _ ht _ hm hk hput hserved =>
    refine hi.put hput (hg.room (n := row.attempts) (by simp only [counting, ht]; rfl) hserved ?_)
    exact List.mem_map.2 ⟨row, List.mem_filter.2 ⟨hm, ActionReceiptRow.at_iff.2 hk⟩, rfl⟩
  | recorded _ hrec =>
    rcases hrec with ⟨-, he⟩ | ⟨row, hm, -, hput⟩
    · exact hi.of_eq he rfl
    · refine hi.put hput ?_
      unfold recordedRow
      split <;> exact hi.receipts row hm
  | released _ hleft => exact hi.of_eq hleft.receipts hleft.dispatches
  | completed _ _ hleft _ _ hsettled =>
    have hleft' := hi.of_eq hleft.receipts hleft.dispatches
    cases hsettled with
    | event _ he => exact he ▸ hleft'
    | timer _ ha =>
      cases ha with
      | kept he _ => exact he ▸ hleft'
      | moved _ _ _ _ _ _ _ hw => exact hleft'.rescheduled hw.receipts hw.dispatches

/-- **The counters of a run fit their columns**, since the database refuses what does not. -/
theorem run_counters {events : List Event} (ha : (automation env).Along CountersChecked World.init events) :
    CountersFit ((automation env).run events).db :=
  inv_along (I := fun w => CountersFit w.db) (G := CountersChecked)
    ⟨fun r hr => absurd hr (Table.not_mem_empty r), fun d hd => absurd hd (Table.not_mem_empty d)⟩
    (fun _ hg hstep hi => step_counters hstep hg hi) ha

end ProjectAutomation

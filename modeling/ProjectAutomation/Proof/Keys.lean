import ProjectAutomation.Proof.DispatchLedger
import ProjectAutomation.Spec.Sample

/-!
# Stored rules, and the keys of their dispatches

* `RuleOK`: a stored rule is one an endpoint admitted.
* `step_dispatch`: a dispatch is stored once, with the key of the instant it was asked
  for, and then keeps it.
* `receiveTimer_rejects`: a timer is rejected exactly when its key is not that of its
  rule and time.
* `dispatch_keys`: the timer `flush_schedules` makes of a dispatch carries the key it needs
  exactly when the instant survived the column it was stored in.
-/

namespace ProjectAutomation

open Relational

variable {env : Env} {w w' : World} {event : Event} {s : Session}

/-! ## Rules -/

/-- A stored rule is one the endpoints admit. -/
structure RuleOK (env : Env) (r : RuleRow) : Prop where
  ids : validId r.organizationId = true ∧ validId r.ruleId = true
  trigger : TriggerOK env r.trigger
  actions : ∃ actions : List Action, r.actions = storedActions actions

theorem Written.ruleOK {request : CommandRequest} {old : Option RuleRow} {new : RuleRow}
    {next : Option OffsetDateTime} (h : Written s request old new next) (hv : request.valid s.env = true)
    (hold : ∀ o, old = some o → RuleOK s.env o) : RuleOK s.env new := by
  cases h with
  | @create r _ _ =>
    simp only [CommandRequest.valid, validCreateRule, validCommandIdentity, List.all_cons, Bool.and_eq_true] at hv
    exact ⟨⟨hv.1.1.1.1.1, hv.1.1.1.1.2.1⟩, ⟨r.trigger, rfl, hv.1.1.2⟩, r.actions, rfl⟩
  | @update r _ _ _ _ =>
    simp only [CommandRequest.valid, validUpdateRule, Bool.and_eq_true] at hv
    exact ⟨(hold _ rfl).ids, ⟨r.trigger, rfl, hv.1.1.2⟩, r.actions, rfl⟩
  | setEnabled _ _ => exact ⟨(hold _ rfl).ids, (hold _ rfl).trigger, (hold _ rfl).actions⟩
  | delete _ => exact ⟨(hold _ rfl).ids, (hold _ rfl).trigger, (hold _ rfl).actions⟩

theorem step_rules (h : Step env w event w') (hi : ∀ r ∈ w.db.rules, RuleOK env r) :
    ∀ r ∈ w'.db.rules, RuleOK env r :=
  step_each_rule (fun _ hv hwr hold => hwr.ruleOK hv hold) (fun _ _ _ _ hr => ⟨hr.ids, hr.trigger, hr.actions⟩) h hi

theorem run_rules (is : List Event) : ∀ r ∈ ((automation env).run is).db.rules, RuleOK env r :=
  inv_always (I := fun w => ∀ r ∈ w.db.rules, RuleOK env r)
    (fun r hr => absurd hr (Table.not_mem_empty r)) (fun _ hstep hi => step_rules hstep hi) is

/-! ## The instants that are stored -/

/-- The trigger a command computes a fire time from. -/
def CommandRequest.timedBy (db : Database) : CommandRequest → Option Value
  | .create r => some r.trigger.toValue
  | .update r => some r.trigger.toValue
  | .setEnabled r => (db.rules.find? r.ruleId).map RuleRow.trigger
  | .delete _ => none

/-- A rule command counts its fire time from a whole microsecond. -/
def WholeWrite (env : Env) (w : World) : Event → Prop
  | .command _ _ request => ∀ v ∈ request.timedBy w.db, WholeBase env ⟨w.clock, 0⟩ v
  | _ => True

instance (env : Env) (w : World) (event : Event) : Decidable (WholeWrite env w event) :=
  match event with
  | .command _ _ request =>
    inferInstanceAs (Decidable (∀ v ∈ request.timedBy w.db, WholeBase env ⟨w.clock, 0⟩ v))
  | .tick _ | .receiveEvent _ _ | .receiveTimer _ _ | .pendingDispatches _ _ _ | .flush _ _ _
  | .claimExecutions _ _ _ _ _ _ | .work _ _ _ _ => isTrue trivial

theorem Written.timedBy {request : CommandRequest} {old : Option RuleRow} {new : RuleRow}
    {next : Option OffsetDateTime} {db : Database} (h : Written s request old new next)
    (hfound : db.rules.find? new.ruleId = old) (hnext : next ≠ none) :
    request.timedBy db = some new.trigger := by
  cases h with
  | create _ => rfl
  | update _ _ => rfl
  | setEnabled hlive _ =>
    have hid : (RuleRow.ruleId _) = _ := (liveAtRevision_iff.1 hlive).2.1
    show (db.rules.find? _).map RuleRow.trigger = _
    rw [← hid]
    exact congrArg (Option.map RuleRow.trigger) hfound
  | delete _ => exact absurd rfl hnext

theorem update_copy {p : DispatchRow → Bool} {f : DispatchRow → DispatchRow}
    (hf : Table.KeepsKey DispatchRow.key f) (hcopy : ∀ d, (f d).copy = d.copy) {t : Table DispatchRow.key}
    {d' : DispatchRow} (hd : d' ∈ t.update p f hf) : ∃ d ∈ t, d.copy = d'.copy := by
  obtain ⟨d, hd₀, rfl⟩ := Table.mem_update.1 hd
  refine ⟨d, hd₀, ?_⟩
  split
  · exact (hcopy d).symm
  · rfl

/-- The dispatch a write stores when none is at its time. -/
theorem Rescheduled.copy_cases {organizationId ruleId : String} {next : Option OffsetDateTime}
    {t t' : Table DispatchRow.key} (h : Rescheduled env organizationId ruleId next t t') {d' : DispatchRow}
    (hd : d' ∈ t') : (∃ d ∈ t, d.copy = d'.copy) ∨
      ∃ n, next = some n ∧ d' = newDispatch env organizationId ruleId n ∧ ∀ d ∈ t, d.key ≠ d'.key := by
  rcases h.cases hd with ⟨d, hd₀, rfl⟩ | ⟨n, hn, rfl, hfree⟩
  · exact Or.inl ⟨d, hd₀, (settle_copy _ _ _).symm⟩
  · exact Or.inr ⟨n, hn, rfl, hfree⟩

/-- A dispatch stored for the instant `n`. -/
structure StoredFor (env : Env) (w : World) (event : Event) (d : DispatchRow) (n : OffsetDateTime) : Prop where
  free : ∀ d₀ ∈ w.db.dispatches, d₀.key ≠ d.key
  scheduledFor : d.scheduledFor = encodeTimestamptz n
  idempotencyKey : d.idempotencyKey = scheduleKey env d.ruleId n
  whole : n.WholeMicros ↔ WholeWrite env w event

/-- A command stores a whole microsecond exactly when it counts from one. -/
theorem Written.whole {conn : Connection} {auth : Authorized} {request : CommandRequest} {old : Option RuleRow}
    {new : RuleRow} {n : OffsetDateTime} (h : Written (w.session env conn) request old new (some n))
    (hok : RuleOK env new) (hfound : w.db.rules.find? new.ruleId = old) :
    n.WholeMicros ↔ WholeWrite env w (.command conn auth request) := by
  rw [initialNextFire_whole hok.trigger h.initialNextFire_eq]
  show _ ↔ ∀ v ∈ CommandRequest.timedBy w.db _, WholeBase env ⟨w.clock, 0⟩ v
  rw [h.timedBy hfound (by simp)]
  simp only [Option.mem_some_iff, forall_eq']
  rfl

/-- An instant a rule waits for was read from a column. -/
theorem awaits_whole {rule : RuleRow} {scheduledFor : OffsetDateTime}
    (h : rule.awaits (some scheduledFor) = true) : scheduledFor.WholeMicros := by
  obtain ⟨-, -, hnext⟩ := awaits_iff.1 h
  obtain ⟨m, -, hm⟩ := Option.map_eq_some_iff.1 hnext
  have hwhole := decodeTimestamptz_wholeMicros m
  unfold OffsetDateTime.WholeMicros at hwhole ⊢
  simp only at hm
  rwa [hm] at hwhole

/-- **Every dispatch of a step** is a copy of one that was there, or stored by its rule write. -/
theorem step_dispatch (h : Step env w event w') (hi : ∀ r ∈ w.db.rules, RuleOK env r) {d' : DispatchRow}
    (hd : d' ∈ w'.db.dispatches) :
    (∃ d ∈ w.db.dispatches, d.copy = d'.copy) ∨ ∃ n, StoredFor env w event d' n := by
  cases h with
  | idle | tick | pendingDispatches | enqueued | lost | flushEnds | givesUp | statusRead | called
  | recorded | closes => exact Or.inl ⟨d', hd, rfl⟩
  | command hv hw _ =>
    obtain ⟨old, new, next, hwr, hw, -⟩ := hw
    refine (hw.dispatches.copy_cases hd).imp id ?_
    rintro ⟨n, rfl, rfl, hfree⟩
    have hok : RuleOK env new := hwr.ruleOK hv (by
      rintro o rfl; exact hi o (Table.find?_eq_some.1 hw.found).1)
    exact ⟨n, hfree, rfl, rfl, hwr.whole hok hw.found⟩
  | receiveEvent _ hin _ => exact Or.inl ⟨d', hin.dispatches ▸ hd, rfl⟩
  | receiveTimer _ _ _ hin => exact Or.inl ⟨d', hin.dispatches ▸ hd, rfl⟩
  | marked _ _ => exact Or.inl (update_copy (f := DispatchRow.enqueue _) ⟨fun _ => rfl⟩ (fun _ => rfl) hd)
  | noted _ => exact Or.inl (update_copy (f := DispatchRow.noteEnqueue _) ⟨fun _ => rfl⟩ (fun _ => rfl) hd)
  | failed _ => exact Or.inl (update_copy (f := DispatchRow.noteFailure _) ⟨fun _ => rfl⟩ (fun _ => rfl) hd)
  | claimed _ hl => exact Or.inl ⟨d', hl.frame.2.2.2.2 ▸ hd, rfl⟩
  | released _ hleft => exact Or.inl ⟨d', hleft.dispatches ▸ hd, rfl⟩
  | completed _ _ hleft _ _ hsettled =>
    simp only [World.setTask] at hd
    cases hsettled with
    | event _ he => rw [he, hleft.dispatches] at hd; exact Or.inl ⟨d', hd, rfl⟩
    | timer _ ha =>
      cases ha with
      | kept he _ => rw [he, hleft.dispatches] at hd; exact Or.inl ⟨d', hd, rfl⟩
      | moved _ _ _ _ hawaits _ hadd hw =>
        have hdisp := hw.dispatches
        rw [hleft.dispatches] at hdisp
        refine (hdisp.copy_cases hd).imp id ?_
        rintro ⟨n, hn, rfl, hfree⟩
        cases hn
        refine ⟨_, hfree, rfl, rfl, iff_of_true ?_ trivial⟩
        exact (wholeMicros_add_seconds (OffsetDateTime.checkedAdd_eq_some hadd)).2 (awaits_whole hawaits)

/-! ## Rejections -/

/-- No statement of the database is a rejection. -/
theorem statement_bind_eq_domain {α : Type} {operation : String} {f : Unit → Tx α} {db : Database}
    {failure : DomainFailure} : (s.statement operation >>= f) db = .error (.domain failure) ↔
      s.faults operation = none ∧ f () db = .error (.domain failure) := by
  unfold Session.statement
  cases s.faults operation with
  | none => simp
  | some source =>
    simp only [reduceCtorEq, false_and, iff_false, Txn.bind_eq_error]
    rintro (h | ⟨_, _, h, -⟩)
    · cases h
    · exact Txn.throw_ne_ok h

/-- Nor is a commit. -/
theorem commit_ne_domain {α : Type} {operation : String} {value : α} {db : Database} {failure : DomainFailure} :
    s.commit operation value db ≠ .error (.domain failure) := by
  unfold Session.commit
  rw [Ne, statement_bind_eq_domain]
  rintro ⟨-, h⟩
  cases hlost : s.lost operation <;> rw [hlost] at h <;> cases h

/-- Nor is a time that cannot be bound. -/
theorem bindTimestamptz_bind_eq_domain {α : Type} {t : OffsetDateTime} {f : ℤ → Tx α} {db : Database}
    {failure : DomainFailure} : (ofExcept (bindTimestamptz t) >>= f) db = .error (.domain failure) ↔
      t.Bindable ∧ f (encodeTimestamptz t) db = .error (.domain failure) := by
  by_cases hbind : t.Bindable
  · rw [bindTimestamptz_of_bindable hbind, ofExcept_bind, and_iff_right hbind]
  · have hpanic : bindTimestamptz t = .error (.panic "local datetime out of valid range") := if_neg hbind
    rw [hpanic]
    refine iff_of_false (fun h => ?_) (fun h => hbind h.1)
    cases h

theorem throw_runtime_ne {α : Type} {operation source : String} {db : Database} {failure : DomainFailure} :
    (throw (runtime operation source) : Tx α) db ≠ .error (.domain failure) := by
  intro h; cases h

theorem pure_ne_error {α : Type} {a : α} {db : Database} {e : StorageError} :
    (pure a : Tx α) db ≠ .error e := by
  intro h; cases h

theorem insertReceipt_ne_domain {row : ActionReceiptRow} {db : Database} {failure : DomainFailure} :
    insertReceipt s row db ≠ .error (.domain failure) := by
  intro h
  unfold insertReceipt at h
  rw [statement_bind_eq_domain, Txn.get_bind] at h
  obtain ⟨-, h⟩ := h
  split at h
  · exact throw_runtime_ne h
  · cases hi : db.receipts.insert? row with
    | none => rw [hi] at h; exact throw_runtime_ne h
    | some _ => rw [hi] at h; cases h

/-- Receipts are refused only for an action without a kind. -/
theorem insertReceipts_ne_domain {executionId : Uuid} {actions : List Value} {index : ℕ} {db : Database}
    {failure : DomainFailure} (hkind : ∀ a ∈ actions, (a.getStr "kind").isSome = true) :
    insertReceipts s executionId index actions db ≠ .error (.domain failure) := by
  induction actions generalizing index db with
  | nil => exact pure_ne_error
  | cons action rest ih =>
    intro h
    unfold insertReceipts at h
    split at h
    · exact throw_runtime_ne h
    · obtain ⟨kind, hk⟩ := Option.isSome_iff_exists.1 (hkind action List.mem_cons_self)
      rw [hk] at h
      simp only [Txn.bind_eq_error] at h
      rcases h with h | ⟨_, _, -, h⟩
      · exact insertReceipt_ne_domain h
      · exact ih (fun a ha => hkind a (List.mem_cons_of_mem _ ha)) h

theorem insertExecution_ne_domain {row : ExecutionRow} {actions : List Value} {db : Database}
    {failure : DomainFailure} (harr : row.actions.asArray = some actions)
    (hkind : ∀ a ∈ actions, (a.getStr "kind").isSome = true) :
    insertExecution s row db ≠ .error (.domain failure) := by
  intro h
  unfold insertExecution at h
  rw [statement_bind_eq_domain, Txn.get_bind] at h
  obtain ⟨-, h⟩ := h
  cases hf : db.executions.rows.find? (fun e => e.ruleId = row.ruleId && e.triggerId = row.triggerId) with
  | some e =>
    rw [hf] at h
    simp only at h
    rw [statement_bind_eq_domain] at h
    exact pure_ne_error h.2
  | none =>
    rw [hf] at h
    simp only at h
    cases hi : db.executions.insert? row with
    | none => rw [hi] at h; exact throw_runtime_ne h
    | some executions =>
      rw [hi] at h
      simp only [Txn.set_bind, harr, Txn.bind_eq_error] at h
      rcases h with h | ⟨_, _, -, h⟩
      · exact insertReceipts_ne_domain hkind h
      · exact pure_ne_error h

theorem insertTrigger_ne_domain {operation : String} {row : TriggerRow} {db : Database}
    {failure : DomainFailure} : insertTrigger s operation row db ≠ .error (.domain failure) := by
  intro h
  unfold insertTrigger at h
  rw [statement_bind_eq_domain, Txn.get_bind] at h
  obtain ⟨-, h⟩ := h
  split at h
  · exact pure_ne_error h
  · cases hi : db.triggers.insert? row with
    | none => rw [hi] at h; exact throw_runtime_ne h
    | some _ =>
      rw [hi] at h
      simp only at h
      split at h
      · cases h
      · exact throw_runtime_ne h

theorem RuleOK.kinds {r : RuleRow} (h : RuleOK env r) :
    ∃ actions, r.actions.asArray = some actions ∧ ∀ a ∈ actions, (a.getStr "kind").isSome = true := by
  obtain ⟨actions, ha⟩ := h.actions
  refine ⟨actions.map Action.toValue, by rw [ha]; rfl, ?_⟩
  intro v hv
  obtain ⟨a, -, rfl⟩ := List.mem_map.1 hv
  rfl

/-- **A timer is rejected exactly when its key is not the one of its rule and time.** -/
theorem receiveTimer_rejects {organizationId ruleId dedupeKey : String} {scheduledFor : OffsetDateTime}
    {payload : Value} {db : Database} (hi : ∀ r ∈ db.rules, RuleOK env r) :
    receiveTimer s organizationId ruleId dedupeKey scheduledFor payload db = .error (.domain .invalidRequest) ↔
      dedupeKey ≠ scheduleKey s.env ruleId scheduledFor := by
  unfold receiveTimer
  split
  · rename_i hne
    exact iff_of_true rfl hne
  rename_i heq
  refine iff_of_false ?_ heq
  intro h
  rw [statement_bind_eq_domain, bindTimestamptz_bind_eq_domain, Txn.bind_eq_error] at h
  obtain ⟨-, -, h⟩ := h
  rcases h with h | ⟨inserted, db₁, hins, h⟩
  · exact insertTrigger_ne_domain h
  have hrules : db₁.rules = db.rules := by
    rcases insertTrigger_ok hins with ⟨he, -⟩ | ⟨_, he, -⟩ <;> cases he <;> rfl
  cases inserted with
  | false =>
    simp only [Bool.not_false, if_true, Txn.bind_eq_error] at h
    rcases h with h | ⟨_, _, -, h⟩
    · unfold existingTriggerReceipt at h
      rw [statement_bind_eq_domain] at h
      cases h.2
    · exact pure_ne_error h
  | true =>
    simp only [Bool.not_true, Bool.false_eq_true, if_false] at h
    rw [statement_bind_eq_domain, Txn.get_bind] at h
    obtain ⟨-, h⟩ := h
    cases hf : db₁.rules.rows.find? (RuleRow.liveAt organizationId ruleId) with
    | none =>
      rw [hf] at h
      exact commit_ne_domain h
    | some rule =>
      have hm : rule ∈ db₁.rules := List.mem_of_find?_eq_some hf
      rw [hf] at h
      simp only at h
      split at h
      · exact commit_ne_domain h
      · rw [Txn.bind_eq_error] at h
        obtain ⟨actions, harr, hkind⟩ := (hi rule (hrules ▸ hm)).kinds
        rcases h with h | ⟨_, _, -, h⟩
        · exact insertExecution_ne_domain harr hkind h
        · exact commit_ne_domain h

/-! ## The round trip of a key -/

/-- The request `flush_schedules` makes of a dispatch, once it has read it. -/
def SentFor (env : Env) (d : DispatchRow) (request : EnqueueRequest) : Prop :=
  ∃ availableAt, env.formatRfc3339 d.copy.scheduledFor = some availableAt ∧
    request = enqueueRequest env d.copy availableAt

/-- The key of a timer request is the one of its rule and time. -/
def KeyMatches (env : Env) (request : ReceiveTimerRequest) : Prop :=
  ∃ t, env.parseRfc3339 request.scheduledFor = some t ∧ request.dedupeKey = scheduleKey env request.ruleId t

/-- The key of a dispatch ends in a UUID as one is written. -/
def DispatchRow.KeyDisplayed (d : DispatchRow) : Prop :=
  ∃ id : Uuid, id.Displayed ∧ d.idempotencyKey = "pa-schedule-" ++ id.text

theorem validId_key {id : Uuid} (h : id.Displayed) : validId ("pa-schedule-" ++ id.text) = true := by
  have hchar : ∀ c ∈ ("pa-schedule-" ++ id.text).toList, validIdChar c = true := by
    intro c hc
    rw [String.toList_append, List.mem_append] at hc
    rcases hc with hc | hc
    · exact List.all_eq_true.1 (by decide : "pa-schedule-".toList.all validIdChar = true) c hc
    · have hc' := List.all_eq_true.1 h.2 c hc
      simp only [Bool.or_eq_true, beq_iff_eq, List.contains_eq_mem, decide_eq_true_eq] at hc'
      rcases hc' with (rfl | hdigit) | hletter
      · rfl
      · simp [validIdChar, Char.isAlphanum, hdigit]
      · exact List.all_eq_true.1 (by decide : ['a', 'b', 'c', 'd', 'e', 'f'].all validIdChar = true) c hletter
  have hsize : ("pa-schedule-" ++ id.text).utf8ByteSize ≤ 256 := by
    rw [String.utf8ByteSize_append, h.1]
    decide
  simp only [validId, Bool.and_eq_true, List.all_eq_true, decide_eq_true_eq]
  exact ⟨⟨by simp, hsize⟩, hchar⟩

/-- The time of the request reads back as the instant in the row. -/
theorem SentFor.instant {d : DispatchRow} {request : EnqueueRequest} (h : SentFor env d request)
    (htime : env.TimeOK) : ∃ t, env.parseRfc3339 request.payload.scheduledFor = some t ∧
      t.unixNanos = (decodeTimestamptz d.scheduledFor).unixNanos := by
  obtain ⟨availableAt, hf, rfl⟩ := h
  exact htime _ _ hf

/-- The key matches exactly when it is that of the instant in the row. -/
theorem SentFor.matches_iff {d : DispatchRow} {request : EnqueueRequest} (h : SentFor env d request)
    (htime : env.TimeOK) : KeyMatches env request.payload ↔
      d.idempotencyKey = scheduleKey env d.ruleId (decodeTimestamptz d.scheduledFor) := by
  obtain ⟨t, hp, ht⟩ := h.instant htime
  obtain ⟨availableAt, -, rfl⟩ := h
  constructor
  · rintro ⟨t', hp', hkey⟩
    rw [hp] at hp'
    cases hp'
    exact hkey.trans (scheduleKey_congr ht)
  · exact fun hkey => ⟨t, hp, hkey.trans (scheduleKey_congr ht.symm)⟩

/-- The key of a dispatch stored for `n` comes back right exactly when `n` was counted from a whole
microsecond. -/
theorem StoredFor.key_iff {d : DispatchRow} {n : OffsetDateTime} (h : StoredFor env w event d n)
    (huuid : env.UuidOK) : d.idempotencyKey = scheduleKey env d.ruleId (decodeTimestamptz d.scheduledFor) ↔
      WholeWrite env w event := by
  rw [h.idempotencyKey, h.scheduledFor, ← h.whole, ← decode_encode_iff]
  constructor
  · intro he; exact (scheduleKey_inj huuid he).2.symm
  · intro he; exact scheduleKey_congr he.symm

/-- `receive_timer`'s endpoint rejects what was sent for a dispatch exactly for its key: the other checks
passed when the rule was stored. -/
theorem SentFor.rejects {d : DispatchRow} {request : EnqueueRequest} {db : Database} (h : SentFor s.env d request)
    (htime : s.env.TimeOK) (hids : validId d.organizationId = true ∧ validId d.ruleId = true)
    (hkey : d.KeyDisplayed) (hi : ∀ r ∈ db.rules, RuleOK s.env r) :
    takeTimer s request.payload db = .error (.domain .invalidRequest) ↔ ¬ KeyMatches s.env request.payload := by
  obtain ⟨t, hp, ht⟩ := h.instant htime
  have hvalid : [request.payload.organizationId, request.payload.ruleId, request.payload.dedupeKey].all validId =
      true := by
    obtain ⟨id, hid, hk⟩ := hkey
    obtain ⟨availableAt, -, rfl⟩ := h
    show [d.organizationId, d.ruleId, d.idempotencyKey].all validId = true
    simp only [hk, List.all_cons, hids.1, hids.2, validId_key hid, List.all_nil, Bool.and_self]
  have hmatches : KeyMatches s.env request.payload ↔
      request.payload.dedupeKey = scheduleKey s.env request.payload.ruleId t := by
    constructor
    · rintro ⟨t', hp', hk⟩
      rw [hp] at hp'
      cases hp'
      exact hk
    · exact fun hk => ⟨t, hp, hk⟩
  unfold takeTimer
  rw [hvalid, hmatches]
  simp only [Bool.not_true, Bool.false_eq_true, if_false, parseTime, hp]
  rw [ofExcept_bind]
  exact receiveTimer_rejects hi

/-- The dispatches carry the keys of the times in their rows. -/
def KeysOK (env : Env) (db : Database) : Prop :=
  ∀ d ∈ db.dispatches, d.idempotencyKey = scheduleKey env d.ruleId (decodeTimestamptz d.scheduledFor)

theorem step_keys (h : Step env w event w') (hr : ∀ r ∈ w.db.rules, RuleOK env r)
    (hg : WholeWrite env w event) (hi : KeysOK env w.db) : KeysOK env w'.db := by
  intro d' hd'
  rcases step_dispatch h hr hd' with ⟨d, hd, hcopy⟩ | ⟨n, hs⟩
  · obtain ⟨hrule, -, htime, hkey⟩ := ScheduleDispatch.mk.inj hcopy
    rw [← hkey, ← hrule, ← htime]
    exact hi d hd
  · rw [hs.idempotencyKey, hs.scheduledFor]
    exact scheduleKey_congr (decode_encode_iff.2 (hs.whole.2 hg)).symm

theorem run_keys {is : List Event} (ha : (automation env).Along (WholeWrite env) World.init is) :
    KeysOK env ((automation env).run is).db := by
  have h := inv_along (I := fun w => (∀ r ∈ w.db.rules, RuleOK env r) ∧ KeysOK env w.db)
    ⟨fun r hr => absurd hr (Table.not_mem_empty r), fun d hd => absurd hd (Table.not_mem_empty d)⟩
    (fun _ hg hstep hi => ⟨step_rules hstep hi.1, step_keys hstep hi.1 hg hi.2⟩) ha
  exact h.2

/-- A dispatch names a rule and an organization by ids the endpoints admit. -/
theorem run_dispatchIds (is : List Event) : ∀ d ∈ ((automation env).run is).db.dispatches,
    validId d.organizationId = true ∧ validId d.ruleId = true := by
  intro d hd
  obtain ⟨r, hr, hid, horg⟩ := (run_ledger is).1.owned d hd
  exact hid ▸ horg ▸ (run_rules is r hr).ids

/-- **The keys of dispatches.** The timer `flush_schedules` makes of a dispatch that a rule write stores
carries the key it needs exactly when the write counts its time from a whole microsecond. When every write
of a run does, every dispatch is sent out so. Whenever such a timer arrives, the endpoint rejects it exactly
when its key is not the one it needs. -/
theorem dispatch_keys (huuid : env.UuidOK) (htime : env.TimeOK) (is : List Event) :
    (∀ event, ∀ d ∈ ((automation env).next ((automation env).run is) event).db.dispatches,
      (∀ d₀ ∈ ((automation env).run is).db.dispatches, d₀.key ≠ d.key) → ∀ request, SentFor env d request →
      (KeyMatches env request.payload ↔ WholeWrite env ((automation env).run is) event)) ∧
    ((automation env).Along (WholeWrite env) World.init is →
      ∀ d ∈ ((automation env).run is).db.dispatches, ∀ request, SentFor env d request →
        KeyMatches env request.payload) ∧
    ∀ d ∈ ((automation env).run is).db.dispatches, d.KeyDisplayed → ∀ request, SentFor env d request →
      ∀ later s, s.env = env →
      (takeTimer s request.payload ((automation env).run (is ++ later)).db = .error (.domain .invalidRequest) ↔
        ¬ KeyMatches env request.payload) := by
  refine ⟨?_, ?_, ?_⟩
  · intro event d hd hfree request hsent
    rcases step_dispatch (step_cases (run_refs is).linked event) (run_rules is) hd with ⟨d₀, hd₀, hcopy⟩ | ⟨n, hs⟩
    · have hkey : d₀.key = d.key := by
        rw [copy_key hcopy, copy_key (rfl : d.copy = d.copy)]
      exact absurd hkey (hfree d₀ hd₀)
    · exact (hsent.matches_iff htime).trans (hs.key_iff huuid)
  · intro ha d hd request hsent
    exact (hsent.matches_iff htime).2 (run_keys ha d hd)
  · rintro d hd hkey request hsent later s rfl
    exact hsent.rejects htime (run_dispatchIds is d hd) hkey (run_rules _)

section Sample

open Sample

theorem dispatch_keys_nightly :
    let w := (automation Sample.env).run (atStart :: sendsOut (nightly 60 none) 0 "job-1")
    ∃ d ∈ w.db.dispatches, ∃ job ∈ w.jobs, SentFor Sample.env d job.request ∧
      KeyMatches Sample.env job.request.payload ∧
      takeTimer (w.session Sample.env (conn 1 60)) job.request.payload w.db ≠ .error (.domain .invalidRequest) := by
  intro w
  obtain ⟨d, hd, hf, hkey⟩ : ∃ d ∈ w.db.dispatches.rows,
      Sample.env.formatRfc3339 d.copy.scheduledFor = some "2030-01-01T00:01:00Z" ∧
      d.idempotencyKey = "pa-schedule-6c5d9d29-582c-5ba1-af77-866cb2aafd5a" := by
    decide
  obtain ⟨job, hjob, hrequest⟩ : ∃ job ∈ w.jobs, ∀ d ∈ w.db.dispatches.rows,
      job.request = enqueueRequest Sample.env d.copy "2030-01-01T00:01:00Z" := by
    decide
  have hsent : SentFor Sample.env d job.request := ⟨_, hf, hrequest d hd⟩
  obtain ⟨-, hall, hrejects⟩ := dispatch_keys uuidOK timeOK (atStart :: sendsOut (nightly 60 none) 0 "job-1")
  have hmatches := hall (by decide) d hd _ hsent
  refine ⟨d, hd, job, hjob, hsent, hmatches, fun h => ?_⟩
  have hdisplayed : d.KeyDisplayed := ⟨⟨"6c5d9d29-582c-5ba1-af77-866cb2aafd5a"⟩, ⟨by decide, by decide⟩, hkey⟩
  exact (hrejects d hd hdisplayed _ hsent [] (w.session Sample.env (conn 1 60)) rfl).1 h hmatches

/-- A schedule starts half a microsecond after a whole one. -/
noncomputable def fractionRun : List Event :=
  atStart :: sendsOut (nightly 60 (some "2030-01-01T00:00:00.0000005Z")) 0 "job-1"

/-- **The timer of such a schedule is rejected** when its job brings it back. -/
theorem fraction_is_rejected :
    let w := (automation Sample.env).run fractionRun
    ∃ d ∈ w.db.dispatches.rows, ∃ job ∈ w.jobs,
      job.request.payload.dedupeKey = d.idempotencyKey ∧
      Sample.env.formatRfc3339 (decodeTimestamptz d.scheduledFor) = some job.request.payload.scheduledFor ∧
      (automation Sample.env).reply w (.receiveTimer (conn 1 60) job.request.payload) =
        .receipt (.error (.domain .invalidRequest)) := by
  decide

end Sample

end ProjectAutomation

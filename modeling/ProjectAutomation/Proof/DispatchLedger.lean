import ProjectAutomation.Proof.Structure

/-!
# The dispatch ledger

* `ScheduleStep`: what a step does to the rules and the dispatches. It writes one rule
  and settles its dispatches, or it is a statement of a flush, or neither.
* `DispatchLedger`: a rule has a fire time exactly while it is an enabled schedule, its
  dispatch at that time is there, and no other is pending.
* `DispatchMoves`: how one dispatch may change.
* `dispatch_ledger`: both, along every run.
-/

namespace ProjectAutomation

open Relational

variable {env : Env} {w w' : World} {event : Event} {s : Session}

/-- An enabled schedule that is not deleted. -/
def RuleRow.scheduled (r : RuleRow) : Prop :=
  r.enabled = true ∧ r.live = true ∧ triggerKind r.trigger = some "schedule"

/-! ## Steps on rules and dispatches -/

/-- A statement of a flush leaves a dispatch's place and state alone. -/
structure Annotates (f : DispatchRow → DispatchRow) : Prop where
  key : ∀ d, (f d).key = d.key
  organizationId : ∀ d, (f d).organizationId = d.organizationId
  state : ∀ d, (f d).state = d.state
  idempotencyKey : ∀ d, (f d).idempotencyKey = d.idempotencyKey

theorem annotates_noteEnqueue (jobId : String) : Annotates (DispatchRow.noteEnqueue jobId) :=
  ⟨fun _ => rfl, fun _ => rfl, fun _ => rfl, fun _ => rfl⟩

theorem annotates_noteFailure (failure : String) : Annotates (DispatchRow.noteFailure failure) :=
  ⟨fun _ => rfl, fun _ => rfl, fun _ => rfl, fun _ => rfl⟩

/-- One rule is written, and its dispatches are settled. -/
structure Writes (env : Env) (old : Option RuleRow) (new : RuleRow) (next : Option OffsetDateTime)
    (w w' : World) : Prop where
  found : w.db.rules.find? new.ruleId = old
  live : ∀ o, old = some o → o.live = true ∧ o.organizationId = new.organizationId
  nextFireAt : new.nextFireAt = next.map encodeTimestamptz
  scheduled : next.isSome = true ↔ new.scheduled
  rules : w.db.rules.Put new w'.db.rules
  dispatches : Rescheduled env new.organizationId new.ruleId next w.db.dispatches w'.db.dispatches

/-- What a step does to the rules and the dispatches. -/
inductive ScheduleStep (env : Env) (w w' : World) : Prop
  | same : w'.db.rules = w.db.rules → w'.db.dispatches = w.db.dispatches → ScheduleStep env w w'
  | write {old : Option RuleRow} {new : RuleRow} {next : Option OffsetDateTime} :
      Writes env old new next w w' → ScheduleStep env w w'
  | mark {c : ScheduleDispatch} {jobId : String} : ⟨c, .mark jobId⟩ ∈ w.flushes →
      w'.db.rules = w.db.rules →
      w'.db.dispatches = w.db.dispatches.update (c.selects .pending) (DispatchRow.enqueue jobId)
        ⟨fun _ => rfl⟩ →
      ScheduleStep env w w'
  | note {p : DispatchRow → Bool} {f : DispatchRow → DispatchRow} (hf : Annotates f) :
      w'.db.rules = w.db.rules → w'.db.dispatches = w.db.dispatches.update p f ⟨hf.key⟩ →
      ScheduleStep env w w'

theorem Written.live_of_enabled {request : CommandRequest} {old : Option RuleRow} {new : RuleRow}
    {next : Option OffsetDateTime} (h : Written s request old new next) (he : new.enabled = true) :
    new.live = true := by
  cases h with
  | create _ => rfl
  | update h _ => exact (liveAtRevision_iff.1 h).2.2.1
  | setEnabled h _ => exact (liveAtRevision_iff.1 h).2.2.1
  | delete _ => cases he

theorem Written.scheduled_iff {request : CommandRequest} {old : Option RuleRow} {new : RuleRow}
    {next : Option OffsetDateTime} (h : Written s request old new next) :
    next.isSome = true ↔ new.scheduled := by
  rw [initialNextFire_isSome h.initialNextFire_eq]
  constructor
  · rintro ⟨he, hk⟩; exact ⟨he, h.live_of_enabled he, hk⟩
  · rintro ⟨he, -, hk⟩; exact ⟨he, hk⟩

/-- The write a command makes. -/
theorem command_writes {request : CommandRequest} {response : Value} {conn : Connection}
    {db' : Database}
    (h : Worked (w.session env conn) request response w.db { db' with commands := w.db.commands }) :
    ∃ old new next, Written (w.session env conn) request old new next ∧
      Writes env old new next w { w with db := db' } ∧ Answers env request new response := by
  obtain ⟨old, new, next, hwr, hw, ha⟩ := h
  exact ⟨old, new, next, hwr,
    ⟨hw.found, hw.live, hw.nextFireAt, hwr.scheduled_iff, hw.rules, hw.dispatches⟩, ha⟩

/-- The write the advance of a schedule makes. -/
theorem moved_writes {claim : ClaimedExecution} {rule : RuleRow} {next : OffsetDateTime} {conn : Connection}
    {scheduledFor : Option OffsetDateTime} {db₁ db' : Database} (hr : db₁.rules = w.db.rules)
    (hd : db₁.dispatches = w.db.dispatches) (hlive : rule.live = true)
    (hawaits : rule.awaits scheduledFor = true)
    (hw : RuleWrite (w.session env conn).env (some rule)
      (rule.advance (encodeTimestamptz next) (w.session env conn).transactionTimestamp) (some next) db₁ db') :
    Writes env (some rule) (rule.advance (encodeTimestamptz next) conn.transactionTimestamp) (some next)
      w (World.setTask claim .closed { w with db := db' }) := by
  obtain ⟨hen, hk, -⟩ := awaits_iff.1 hawaits
  refine ⟨?_, hw.live, rfl, ?_, ?_, ?_⟩
  · rw [← hr]; exact hw.found
  · exact iff_of_true rfl ⟨hen, hlive, hk⟩
  · rw [← hr]; exact hw.rules
  · rw [← hd]; exact hw.dispatches

theorem step_schedule (h : Step env w event w') : ScheduleStep env w w' := by
  cases h with
  | idle | tick | pendingDispatches | enqueued | lost | flushEnds | givesUp | statusRead | called
  | recorded | closes => exact .same rfl rfl
  | command _ hw _ =>
    obtain ⟨_, _, _, -, hw, -⟩ := command_writes hw
    exact .write hw
  | receiveEvent _ hin _ => exact .same hin.rules hin.dispatches
  | receiveTimer _ _ _ hin => exact .same hin.rules hin.dispatches
  | marked hf _ => exact .mark (List.mem_of_getElem? hf) rfl rfl
  | noted _ => exact .note (annotates_noteEnqueue _) rfl rfl
  | failed _ => exact .note (annotates_noteFailure _) rfl rfl
  | claimed _ hl => exact .same hl.frame.2.1 hl.frame.2.2.2.2
  | released _ hleft => exact .same hleft.rules hleft.dispatches
  | completed _ _ hleft _ _ hsettled =>
    cases hsettled with
    | event _ he => rw [he]; exact .same hleft.rules hleft.dispatches
    | timer _ ha =>
      cases ha with
      | kept he _ => rw [he]; exact .same hleft.rules hleft.dispatches
      | moved _ _ hlive _ hawaits _ _ hw =>
        exact .write (moved_writes hleft.rules hleft.dispatches hlive hawaits hw)

/-! ## The ledger -/

structure DispatchLedger (db : Database) : Prop where
  fireTime : ∀ r ∈ db.rules, r.nextFireAt.isSome = true ↔ r.scheduled
  owned : ∀ d ∈ db.dispatches, ∃ r ∈ db.rules, r.ruleId = d.ruleId ∧ r.organizationId = d.organizationId
  pending : ∀ d ∈ db.dispatches, d.state = .pending →
    ∃ r ∈ db.rules, r.ruleId = d.ruleId ∧ r.nextFireAt = some d.scheduledFor
  current : ∀ r ∈ db.rules, ∀ n, r.nextFireAt = some n →
    ∃ d ∈ db.dispatches, d.ruleId = r.ruleId ∧ d.scheduledFor = n ∧ d.state ≠ .cancelled

theorem DispatchLedger.init : DispatchLedger Database.init := by
  refine ⟨?_, ?_, ?_, ?_⟩
  · intro r hr; exact absurd hr (Table.not_mem_empty r)
  · intro d hd; exact absurd hd (Table.not_mem_empty d)
  · intro d hd; exact absurd hd (Table.not_mem_empty d)
  · intro r hr; exact absurd hr (Table.not_mem_empty r)

/-- The rule of an id keeps its organization. -/
theorem Writes.rule_of {old : Option RuleRow} {new : RuleRow} {next : Option OffsetDateTime}
    (h : Writes env old new next w w') {r : RuleRow} (hr : r ∈ w.db.rules) :
    ∃ r' ∈ w'.db.rules, r'.ruleId = r.ruleId ∧ r'.organizationId = r.organizationId := by
  by_cases hk : r.ruleId = new.ruleId
  · have hold : old = some r := by rw [← h.found, ← hk]; exact Table.find?_of_mem hr
    exact ⟨new, h.rules.mem, hk.symm, (h.live r hold).2.symm⟩
  · exact ⟨r, h.rules.of_ne hr hk, rfl, rfl⟩

/-- **A rule write keeps the ledger.** -/
theorem writes_ledger {old : Option RuleRow} {new : RuleRow} {next : Option OffsetDateTime}
    (h : Writes env old new next w w') (hi : DispatchLedger w.db) : DispatchLedger w'.db := by
  refine ⟨?_, ?_, ?_, ?_⟩
  · intro r hr
    rcases h.rules.cases hr with rfl | ⟨hr, -⟩
    · rw [h.nextFireAt, Option.isSome_map]; exact h.scheduled
    · exact hi.fireTime r hr
  · intro d hd
    rcases h.dispatches.cases hd with ⟨d₀, hd₀, rfl⟩ | ⟨n, -, rfl, -⟩
    · obtain ⟨r, hr, hid, horg⟩ := hi.owned d₀ hd₀
      obtain ⟨r', hr', hid', horg'⟩ := h.rule_of hr
      refine ⟨r', hr', ?_, ?_⟩
      · rw [hid', hid, settle_ruleId]
      · rw [horg', horg, settle_organizationId]
    · exact ⟨new, h.rules.mem, rfl, rfl⟩
  · intro d hd hp
    by_cases hk : d.ruleId = new.ruleId
    · refine ⟨new, h.rules.mem, hk.symm, ?_⟩
      rw [h.nextFireAt]
      exact (h.dispatches.pending hd hk hp).symm
    · obtain ⟨r, hr, hid, hn⟩ := hi.pending d (h.dispatches.of_mem_of_ne hd hk) hp
      exact ⟨r, h.rules.of_ne hr (fun he => hk (hid.symm.trans he)), hid, hn⟩
  · intro r hr n hn
    rcases h.rules.cases hr with rfl | ⟨hr, hk⟩
    · rw [h.nextFireAt] at hn
      obtain ⟨n', rfl, rfl⟩ := Option.map_eq_some_iff.1 hn
      exact h.dispatches.at_next rfl
    · obtain ⟨d, hd, hid, ht, hs⟩ := hi.current r hr n hn
      exact ⟨d, h.dispatches.mem_of_ne hd (fun he => hk (hid.symm.trans he)), hid, ht, hs⟩

/-- A statement of a flush keeps the ledger: it never makes a row pending or cancelled. -/
theorem update_ledger {p : DispatchRow → Bool} {f : DispatchRow → DispatchRow}
    {hf : Table.KeepsKey DispatchRow.key f} (hrules : w'.db.rules = w.db.rules)
    (hdisp : w'.db.dispatches = w.db.dispatches.update p f hf)
    (horg : ∀ d, (f d).organizationId = d.organizationId)
    (hstate : ∀ d, p d = true → (f d).state = d.state ∨ (f d).state = .enqueued)
    (hi : DispatchLedger w.db) : DispatchLedger w'.db := by
  have hrow : ∀ d' ∈ w'.db.dispatches, ∃ d ∈ w.db.dispatches, d.key = d'.key ∧
      d.organizationId = d'.organizationId ∧ (d'.state = d.state ∨ d'.state = .enqueued) := by
    intro d' hd'
    rw [hdisp] at hd'
    obtain ⟨d, hd, rfl⟩ := Table.mem_update.1 hd'
    refine ⟨d, hd, ?_⟩
    split
    · rename_i hp
      exact ⟨(hf.key_eq d).symm, (horg d).symm, hstate d hp⟩
    · exact ⟨rfl, rfl, Or.inl rfl⟩
  refine ⟨?_, ?_, ?_, ?_⟩
  · rw [hrules]; exact hi.fireTime
  · intro d' hd'
    obtain ⟨d, hd, hk, ho, -⟩ := hrow d' hd'
    obtain ⟨r, hr, hid, horg'⟩ := hi.owned d hd
    rw [hrules]
    exact ⟨r, hr, hid.trans (congrArg Prod.fst hk), horg'.trans ho⟩
  · intro d' hd' hp
    obtain ⟨d, hd, hk, -, hs⟩ := hrow d' hd'
    rw [hp] at hs
    obtain ⟨r, hr, hid, hn⟩ := hi.pending d hd (by rcases hs with h | h <;> [exact h.symm; cases h])
    rw [hrules]
    exact ⟨r, hr, hid.trans (congrArg Prod.fst hk), hn.trans (congrArg (some ·.2) hk)⟩
  · intro r hr n hn
    rw [hrules] at hr
    obtain ⟨d, hd, hid, ht, hs⟩ := hi.current r hr n hn
    rw [hdisp]
    by_cases hp : p d = true
    · have hk := hf.key_eq d
      refine ⟨f d, Table.mem_update_of hd hp, (congrArg Prod.fst hk).trans hid,
        (congrArg Prod.snd hk).trans ht, ?_⟩
      rcases hstate d hp with h | h
      · rw [h]; exact hs
      · rw [h]; decide
    · exact ⟨d, Table.mem_update_of_not hd (Bool.eq_false_iff.2 hp), hid, ht, hs⟩

theorem step_ledger (h : Step env w event w') (hi : DispatchLedger w.db) : DispatchLedger w'.db := by
  cases step_schedule h with
  | same hr hd =>
    refine ⟨?_, ?_, ?_, ?_⟩ <;> rw [hr]
    · exact hi.fireTime
    · rw [hd]; exact hi.owned
    · rw [hd]; exact hi.pending
    · rw [hd]; exact hi.current
  | write hw => exact writes_ledger hw hi
  | mark _ hr hd => exact update_ledger hr hd (fun _ => rfl) (fun _ _ => Or.inr rfl) hi
  | note ha hr hd => exact update_ledger hr hd ha.organizationId (fun d _ => Or.inl (ha.state d)) hi

/-! ## Moves -/

/-- A job of Jobs that a call answered `Ok` with, under the key of a dispatch. -/
def Acknowledged (w : World) (jobId key : String) : Prop :=
  ∃ job ∈ w.acknowledged, job.jobId = jobId ∧ job.request.idempotencyKey = key

/-- How one dispatch may change in a step. -/
structure DispatchMoves (w w' : World) (d d' : DispatchRow) : Prop where
  key : d'.key = d.key
  organizationId : d'.organizationId = d.organizationId
  idempotencyKey : d'.idempotencyKey = d.idempotencyKey
  /-- it never leaves `enqueued` -/
  stays : d.state = .enqueued → d'.state = .enqueued
  /-- it becomes `enqueued` from `pending`, with the id of its acknowledged job -/
  enqueues : d'.state = .enqueued → d.state = .enqueued ∨
    d.state = .pending ∧ ∃ jobId, d'.jobId = some jobId ∧ Acknowledged w jobId d.idempotencyKey
  /-- it leaves `cancelled` only when its time becomes the fire time of its rule again -/
  reopens : d.state = .cancelled → d'.state ≠ .cancelled → d'.state = .pending ∧
    (∃ r' ∈ w'.db.rules, r'.ruleId = d.ruleId ∧ r'.nextFireAt = some d.scheduledFor) ∧
    ∀ r ∈ w.db.rules, r.ruleId = d.ruleId → r.nextFireAt ≠ some d.scheduledFor

theorem DispatchMoves.refl (w w' : World) (d : DispatchRow) : DispatchMoves w w' d d :=
  ⟨rfl, rfl, rfl, fun h => h, fun h => Or.inl h, fun h h' => absurd h h'⟩

/-- A flush's copy of a dispatch does not change. -/
theorem DispatchMoves.copy {d d' : DispatchRow} (h : DispatchMoves w w' d d') : d'.copy = d.copy := by
  have hr : d'.ruleId = d.ruleId := congrArg Prod.fst h.key
  have ht : d'.scheduledFor = d.scheduledFor := congrArg Prod.snd h.key
  unfold DispatchRow.copy
  rw [hr, ht, h.organizationId, h.idempotencyKey]

/-- A flush works on a copy of a row, and marks it with an acknowledged job. -/
structure FlushOK (w : World) (f : Flush) : Prop where
  copy : ∃ d ∈ w.db.dispatches, d.copy = f.copy
  acknowledged : ∀ jobId, f.phase = .mark jobId ∨ f.phase = .noteCancelled jobId →
    Acknowledged w jobId f.copy.idempotencyKey

theorem selects_iff {c : ScheduleDispatch} {state : DispatchState} {d : DispatchRow} :
    c.selects state d = true ↔
      d.key = (c.ruleId, encodeTimestamptz c.scheduledFor) ∧ d.state = state := by
  simp [ScheduleDispatch.selects, DispatchRow.key]

theorem copy_key {d : DispatchRow} {c : ScheduleDispatch} (h : d.copy = c) :
    d.key = (c.ruleId, encodeTimestamptz c.scheduledFor) := by
  subst h
  show _ = (d.ruleId, encodeTimestamptz (decodeTimestamptz d.scheduledFor))
  rw [encode_decode]; rfl

/-- The fire time of a rule has a dispatch that is not cancelled. -/
theorem DispatchLedger.not_cancelled {db : Database} (hi : DispatchLedger db) {r : RuleRow} {d : DispatchRow}
    (hr : r ∈ db.rules) (hd : d ∈ db.dispatches) (hid : r.ruleId = d.ruleId)
    (hn : r.nextFireAt = some d.scheduledFor) : d.state ≠ .cancelled := by
  obtain ⟨d', hd', hid', ht', hs'⟩ := hi.current r hr _ hn
  have : d' = d := Table.eq_of_key hd' hd (Prod.ext (hid'.trans hid) ht')
  rw [← this]; exact hs'

theorem settle_moves {old : Option RuleRow} {new : RuleRow} {next : Option OffsetDateTime}
    (h : Writes env old new next w w') (hi : DispatchLedger w.db) {d : DispatchRow}
    (hd : d ∈ w.db.dispatches) :
    DispatchMoves w w' d (settle new.ruleId (next.map encodeTimestamptz) d) := by
  refine ⟨settle_key _ _ _, settle_organizationId _ _ _, settle_idempotencyKey _ _ _, settle_enqueued.2,
    fun h => Or.inl (settle_enqueued.1 h), ?_⟩
  intro hc hne
  -- a cancelled row that changes is the one at the time just written
  have hcond : d.ruleId = new.ruleId ∧ some d.scheduledFor = next.map encodeTimestamptz := by
    by_contra hno
    apply hne
    unfold settle
    rw [if_neg (fun hp => by rw [hc] at hp; cases hp.2.1), if_neg (fun hp => hno ⟨hp.1, hp.2.2⟩)]
    exact hc
  refine ⟨?_, ⟨new, h.rules.mem, hcond.1.symm, h.nextFireAt.trans hcond.2.symm⟩, ?_⟩
  · unfold settle
    rw [if_neg (fun hp => by rw [hc] at hp; cases hp.2.1), if_pos ⟨hcond.1, hc, hcond.2⟩]
  · intro r hr hid hn
    exact hi.not_cancelled hr hd hid hn hc

theorem step_moves (h : ScheduleStep env w w') (hi : DispatchLedger w.db)
    (hf : ∀ f ∈ w.flushes, FlushOK w f) {d : DispatchRow} (hd : d ∈ w.db.dispatches) :
    ∃ d' ∈ w'.db.dispatches, DispatchMoves w w' d d' := by
  cases h with
  | same _ he => rw [he]; exact ⟨d, hd, .refl _ _ _⟩
  | write hw => exact ⟨_, hw.dispatches.mem_settle hd, settle_moves hw hi hd⟩
  | @mark c jobId hflush _ he =>
    rw [he]
    by_cases hp : c.selects .pending d = true
    · obtain ⟨hk, hs⟩ := selects_iff.1 hp
      refine ⟨d.enqueue jobId, Table.mem_update_of hd hp, rfl, rfl, rfl, fun _ => rfl, fun _ => Or.inr ⟨hs, ?_⟩,
        fun hc => by rw [hs] at hc; cases hc⟩
      obtain ⟨⟨d₀, hd₀, hcopy⟩, hack⟩ := hf _ hflush
      -- the row the flush copied is the one its statement selects
      have hsame : d₀ = d := Table.eq_of_key hd₀ hd ((copy_key hcopy).trans hk.symm)
      refine ⟨jobId, rfl, ?_⟩
      have hkey : d.idempotencyKey = c.idempotencyKey := by
        rw [← hsame]; exact congrArg ScheduleDispatch.idempotencyKey hcopy
      rw [hkey]
      exact hack jobId (Or.inl rfl)
    · exact ⟨d, Table.mem_update_of_not hd (Bool.eq_false_iff.2 hp), .refl _ _ _⟩
  | @note p f ha _ he =>
    rw [he]
    by_cases hp : p d = true
    · refine ⟨f d, Table.mem_update_of hd hp, ha.key d, ha.organizationId d, ha.idempotencyKey d, ?_, ?_, ?_⟩
      · rw [ha.state]; exact fun h => h
      · rw [ha.state]; exact fun h => Or.inl h
      · rw [ha.state]; exact fun h h' => absurd h h'
    · exact ⟨d, Table.mem_update_of_not hd (Bool.eq_false_iff.2 hp), .refl _ _ _⟩

/-- A dispatch starts pending. -/
theorem step_born (h : ScheduleStep env w w') {d' : DispatchRow} (hd' : d' ∈ w'.db.dispatches) :
    (∃ d ∈ w.db.dispatches, d.key = d'.key) ∨ d'.state = .pending := by
  cases h with
  | same _ he => rw [he] at hd'; exact Or.inl ⟨d', hd', rfl⟩
  | write hw =>
    rcases hw.dispatches.cases hd' with ⟨d, hd, rfl⟩ | ⟨n, -, rfl, -⟩
    · exact Or.inl ⟨d, hd, (settle_key _ _ _).symm⟩
    · exact Or.inr rfl
  | mark _ _ he =>
    rw [he] at hd'
    obtain ⟨d, hd, rfl⟩ := Table.mem_update.1 hd'
    refine Or.inl ⟨d, hd, ?_⟩
    split <;> rfl
  | note ha _ he =>
    rw [he] at hd'
    obtain ⟨d, hd, rfl⟩ := Table.mem_update.1 hd'
    refine Or.inl ⟨d, hd, ?_⟩
    split
    · exact (ha.key d).symm
    · rfl

/-! ## Flushes -/

theorem takeJob_key (jobs : List Job) (request : EnqueueRequest) (jobId : String) :
    (takeJob jobs request jobId).1.request.idempotencyKey = request.idempotencyKey := by
  unfold takeJob
  cases h : jobs.find? (fun j => j.request.idempotencyKey = request.idempotencyKey) with
  | none => rfl
  | some job => simpa using List.find?_some h

/-- What the flushes of a step come from. -/
theorem step_flush_origin (h : Step env w event w') {f' : Flush} (hf : f' ∈ w'.flushes) :
    (∃ f ∈ w.flushes, f'.copy = f.copy ∧
        ∀ jobId, f'.phase = .mark jobId ∨ f'.phase = .noteCancelled jobId →
          f.phase = .mark jobId ∨ f.phase = .noteCancelled jobId ∨
            Acknowledged w' jobId f.copy.idempotencyKey) ∨
      (∃ d ∈ w.db.dispatches, d.copy = f'.copy) ∧ f'.phase = .enqueue := by
  have hset : ∀ {index : ℕ} {c : ScheduleDispatch} {phase phase' : FlushPhase},
      w.flushes[index]? = some ⟨c, phase⟩ → f' ∈ w.flushes.set index ⟨c, phase'⟩ →
      (∀ jobId, phase' = .mark jobId ∨ phase' = .noteCancelled jobId →
        phase = .mark jobId ∨ phase = .noteCancelled jobId ∨ Acknowledged w' jobId c.idempotencyKey) →
      ∃ f ∈ w.flushes, f'.copy = f.copy ∧
        ∀ jobId, f'.phase = .mark jobId ∨ f'.phase = .noteCancelled jobId →
          f.phase = .mark jobId ∨ f.phase = .noteCancelled jobId ∨
            Acknowledged w' jobId f.copy.idempotencyKey := by
    intro index c phase phase' hget hmem hphase
    rcases List.mem_or_eq_of_mem_set hmem with hmem | rfl
    · exact ⟨f', hmem, rfl, fun jobId h => by rcases h with h | h <;> simp [h]⟩
    · exact ⟨_, List.mem_of_getElem? hget, rfl, hphase⟩
  cases h with
  | idle | tick | command | receiveEvent | receiveTimer | claimed | givesUp | statusRead | called
  | recorded | released | completed | closes =>
    exact Or.inl ⟨f', hf, rfl, fun jobId h => by rcases h with h | h <;> simp [h]⟩
  | pendingDispatches hc =>
    rcases List.mem_append.1 hf with hf | hf
    · exact Or.inl ⟨f', hf, rfl, fun jobId h => by rcases h with h | h <;> simp [h]⟩
    · obtain ⟨c, hm, rfl⟩ := List.mem_map.1 hf
      obtain ⟨d, hd, -, hcopy⟩ := hc c hm
      exact Or.inr ⟨⟨d, hd, hcopy⟩, rfl⟩
  | enqueued hget _ =>
    refine Or.inl (hset hget hf ?_)
    rintro jobId (h | h)
    · cases h
      exact Or.inr (Or.inr ⟨_, List.mem_cons_self, rfl, takeJob_key _ _ _⟩)
    · cases h
  | lost hget _ => exact Or.inl (hset hget hf (fun jobId h => by rcases h with h | h <;> cases h))
  | flushEnds hget hends =>
    refine Or.inl (hset hget hf ?_)
    rintro jobId (rfl | rfl) <;> exact absurd hends id
  | marked hget hphase =>
    refine Or.inl (hset hget hf ?_)
    rcases hphase with rfl | rfl
    · rintro jobId (h | h) <;> cases h
    · rintro jobId (h | h) <;> cases h
      exact Or.inl rfl
  | noted hget => exact Or.inl (hset hget hf (fun jobId h => by rcases h with h | h <;> cases h))
  | failed hget => exact Or.inl (hset hget hf (fun jobId h => by rcases h with h | h <;> cases h))

/-- What was acknowledged stays acknowledged. -/
theorem step_acknowledged (h : Step env w event w') {jobId key : String} (ha : Acknowledged w jobId key) :
    Acknowledged w' jobId key := by
  obtain ⟨job, hj, hr⟩ := ha
  refine ⟨job, ?_, hr⟩
  cases h with
  | enqueued => exact List.mem_cons_of_mem _ hj
  | _ => exact hj

theorem step_flushes (h : Step env w event w') (hi : DispatchLedger w.db)
    (hf : ∀ f ∈ w.flushes, FlushOK w f) : ∀ f' ∈ w'.flushes, FlushOK w' f' := by
  intro f' hf'
  have hcopy : ∀ c, (∃ d ∈ w.db.dispatches, d.copy = c) → ∃ d' ∈ w'.db.dispatches, d'.copy = c := by
    rintro c ⟨d, hd, rfl⟩
    obtain ⟨d', hd', hm⟩ := step_moves (step_schedule h) hi hf hd
    exact ⟨d', hd', hm.copy⟩
  rcases step_flush_origin h hf' with ⟨f, hm, hc, hphase⟩ | ⟨hc, hphase⟩
  · have hok := hf f hm
    refine ⟨hc ▸ hcopy _ hok.copy, ?_⟩
    intro jobId hp
    rw [hc]
    rcases hphase jobId hp with h' | h' | h'
    · exact step_acknowledged h (hok.acknowledged jobId (Or.inl h'))
    · exact step_acknowledged h (hok.acknowledged jobId (Or.inr h'))
    · exact h'
  · refine ⟨hcopy _ hc, ?_⟩
    rw [hphase]
    rintro jobId (h' | h') <;> cases h'

/-! ## Runs -/

/-- The ledger and its flushes, in every reachable state. -/
theorem run_ledger (is : List Event) : DispatchLedger ((automation env).run is).db ∧
    ∀ f ∈ ((automation env).run is).flushes, FlushOK ((automation env).run is) f :=
  inv_always (I := fun w => DispatchLedger w.db ∧ ∀ f ∈ w.flushes, FlushOK w f)
    ⟨DispatchLedger.init, fun _ hf => by cases hf⟩
    (fun _ hstep hi => ⟨step_ledger hstep hi.1, step_flushes hstep hi.1 hi.2⟩) is

/-- **The dispatch ledger**, in every reachable state and over every step from it. -/
theorem dispatch_ledger (is : List Event) (event : Event) :
    let w := (automation env).run is
    let w' := (automation env).next w event
    (∀ r ∈ w.db.rules, r.nextFireAt.isSome = true ↔
      r.enabled = true ∧ r.live = true ∧ triggerKind r.trigger = some "schedule") ∧
    (∀ d ∈ w.db.dispatches, d.state = .pending →
      ∃ r ∈ w.db.rules, r.ruleId = d.ruleId ∧ r.organizationId = d.organizationId ∧
        r.nextFireAt = some d.scheduledFor) ∧
    (∀ d₁ ∈ w.db.dispatches, ∀ d₂ ∈ w.db.dispatches, d₁.state = .pending → d₂.state = .pending →
      d₁.ruleId = d₂.ruleId → d₁ = d₂) ∧
    (∀ r ∈ w.db.rules, ∀ n, r.nextFireAt = some n →
      ∃ d ∈ w.db.dispatches, d.ruleId = r.ruleId ∧ d.scheduledFor = n ∧
        (d.state = .pending ∨ d.state = .enqueued)) ∧
    (∀ d ∈ w.db.dispatches, ∃ d' ∈ w'.db.dispatches, DispatchMoves w w' d d') ∧
    ∀ d' ∈ w'.db.dispatches, (∃ d ∈ w.db.dispatches, d.key = d'.key) ∨ d'.state = .pending := by
  intro w w'
  obtain ⟨hi, hf⟩ : DispatchLedger w.db ∧ ∀ f ∈ w.flushes, FlushOK w f := run_ledger is
  have hstep : Step env w event w' := step_cases (run_refs is).linked event
  refine ⟨hi.fireTime, ?_, ?_, ?_, fun d hd => step_moves (step_schedule hstep) hi hf hd,
    fun d' hd' => step_born (step_schedule hstep) hd'⟩
  · intro d hd hp
    obtain ⟨r, hr, hid, hn⟩ := hi.pending d hd hp
    obtain ⟨r', hr', hid', horg⟩ := hi.owned d hd
    have : r' = r := Table.eq_of_key hr' hr (hid'.trans hid.symm)
    exact ⟨r, hr, hid, this ▸ horg, hn⟩
  · intro d₁ h₁ d₂ h₂ hp₁ hp₂ hid
    obtain ⟨r₁, hr₁, hid₁, hn₁⟩ := hi.pending d₁ h₁ hp₁
    obtain ⟨r₂, hr₂, hid₂, hn₂⟩ := hi.pending d₂ h₂ hp₂
    have hsame : r₁ = r₂ := Table.eq_of_key hr₁ hr₂ (hid₁.trans (hid.trans hid₂.symm))
    rw [hsame, hn₂] at hn₁
    exact Table.eq_of_key h₁ h₂ (Prod.ext hid (Option.some.inj hn₁).symm)
  · intro r hr n hn
    obtain ⟨d, hd, hid, ht, hs⟩ := hi.current r hr n hn
    refine ⟨d, hd, hid, ht, ?_⟩
    cases hst : d.state with
    | pending => exact Or.inl rfl
    | enqueued => exact Or.inr rfl
    | cancelled => exact absurd hst hs

end ProjectAutomation

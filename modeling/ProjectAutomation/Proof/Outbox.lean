import ProjectAutomation.Idempotency.Service
import ProjectAutomation.Proof.Constraints

/-!
# Jobs mirror the dispatches

`automation_schedule_dispatches` is an outbox: a rule write stores a dispatch in its own
transaction, and flushes hand the dispatches to Jobs later, any number of them at once, with
answers that get lost.

* `takeJob_eq_take`: what Jobs does with a request is the `take` of `Idempotency.Service`.
* `Job.Of`: a job asks for what a flush asks for its dispatch.
* `Mirrored`: every job is of a dispatch, and a job id in the table is of the dispatch's own job.
* `jobs_mirror_dispatches`: so there is at most one job for a dispatch, ever, and an enqueued
  dispatch names it.
-/

namespace ProjectAutomation

open Relational Idempotency

variable {env : Env} {w w' : World} {event : Event} {d d' : DispatchRow}

/-! ## Jobs -/

/-- The key Jobs knows a job by. -/
def Job.key (job : Job) : String := job.request.idempotencyKey

/-- A job is of a dispatch: its request is the one `flush_schedules` makes of the dispatch. -/
def Job.Of (env : Env) (job : Job) (d : DispatchRow) : Prop :=
  ∃ availableAt, env.formatRfc3339 d.copy.scheduledFor = some availableAt ∧
    job.request = enqueueRequest env d.copy availableAt

theorem Job.Of.key {job : Job} (h : job.Of env d) : job.key = d.idempotencyKey := by
  obtain ⟨availableAt, -, hrequest⟩ := h
  unfold Job.key
  rw [hrequest]
  rfl

theorem Job.Of.copy {job : Job} (h : job.Of env d) (hcopy : d'.copy = d.copy) : job.Of env d' := by
  unfold Job.Of at h ⊢
  rwa [hcopy]

/-- Jobs takes each key once. -/
theorem takeJob_eq_take (jobs : List Job) (request : EnqueueRequest) (jobId : String) :
    (takeJob jobs request jobId).2 = take Job.key ⟨jobId, request⟩ jobs := by
  unfold takeJob
  cases hfind : jobs.find? (fun j => j.request.idempotencyKey = request.idempotencyKey) with
  | some job =>
    have hkey : job.request.idempotencyKey = request.idempotencyKey := by
      simpa using List.find?_some hfind
    exact (take_of_mem (List.mem_map.2 ⟨job, List.mem_of_find?_eq_some hfind, hkey⟩)).symm
  | none =>
    refine (take_of_not_mem fun hmem => ?_).symm
    obtain ⟨job, hjob, hkey⟩ := List.mem_map.1 hmem
    exact List.find?_eq_none.1 hfind job hjob (decide_eq_true hkey)

/-- The job Jobs answers with is one it has. -/
theorem takeJob_mem (jobs : List Job) (request : EnqueueRequest) (jobId : String) :
    (takeJob jobs request jobId).1 ∈ (takeJob jobs request jobId).2 := by
  unfold takeJob
  cases hfind : jobs.find? (fun j => j.request.idempotencyKey = request.idempotencyKey) with
  | some job => exact List.mem_of_find?_eq_some hfind
  | none => exact List.mem_append_right _ List.mem_cons_self

/-! ## One step -/

/-- The jobs after a step: those before, or these and what a flush asked for its copy. -/
theorem step_jobs (h : Step env w event w') : w'.jobs = w.jobs ∨
    ∃ f ∈ w.flushes, ∃ availableAt jobId, env.formatRfc3339 f.copy.scheduledFor = some availableAt ∧
      w'.jobs = take Job.key ⟨jobId, enqueueRequest env f.copy availableAt⟩ w.jobs := by
  cases h with
  | enqueued hget hformat | lost hget hformat =>
    exact Or.inr ⟨_, List.mem_of_getElem? hget, _, _, hformat, takeJob_eq_take _ _ _⟩
  | _ => exact Or.inl rfl

theorem step_jobs_grow (h : Step env w event w') : w.jobs <+: w'.jobs := by
  rcases step_jobs h with hsame | ⟨f, -, availableAt, jobId, -, htake⟩
  · rw [hsame]
  · rw [htake]
    exact prefix_take

/-- Jobs answers `Ok` with a job it has. -/
theorem step_acknowledges (h : Step env w event w') {job : Job} (hjob : job ∈ w'.acknowledged) :
    job ∈ w.acknowledged ∨ job ∈ w'.jobs := by
  cases h with
  | enqueued =>
    rcases List.mem_cons.1 hjob with rfl | hjob
    · exact Or.inr (takeJob_mem _ _ _)
    · exact Or.inl hjob
  | _ => exact Or.inl hjob

/-- What a step leaves of a dispatch: a flush writes only ids that Jobs answered for its key. -/
structure Remains (w : World) (d d' : DispatchRow) : Prop where
  copy : d'.copy = d.copy
  jobId : d'.jobId = d.jobId ∨ ∃ jobId, d'.jobId = some jobId ∧ Acknowledged w jobId d.idempotencyKey
  enqueued : d'.state = .enqueued → d' = d ∨ d'.jobId.isSome = true ∧ d'.lastFailure = none

theorem Remains.refl (w : World) (d : DispatchRow) : Remains w d d := ⟨rfl, Or.inl rfl, fun _ => Or.inl rfl⟩

/-- A rule write touches neither the job ids nor the dispatches that are enqueued. -/
theorem settle_remains (w : World) (ruleId : String) (next : Option ℤ) (d : DispatchRow) :
    Remains w d (settle ruleId next d) := by
  refine ⟨settle_copy _ _ _, Or.inl ?_, fun he => Or.inl ?_⟩
  · obtain ⟨state, lastFailure, heq⟩ := settle_eq ruleId next d
    rw [heq]
  · have hs : d.state = .enqueued := settle_enqueued.1 he
    unfold settle
    rw [if_neg (fun hp => by rw [hs] at hp; cases hp.2.1), if_neg (fun hp => by rw [hs] at hp; cases hp.2.1)]

theorem Rescheduled.remains {organizationId ruleId : String} {next : Option OffsetDateTime}
    {t t' : Table DispatchRow.key} (h : Rescheduled env organizationId ruleId next t t') (hd : d' ∈ t') :
    (∃ d ∈ t, Remains w d d') ∨ d'.jobId = none ∧ d'.state = .pending := by
  rcases h.cases hd with ⟨d, hm, rfl⟩ | ⟨n, -, rfl, -⟩
  · exact Or.inl ⟨d, hm, settle_remains _ _ _ _⟩
  · exact Or.inr ⟨rfl, rfl⟩

/-- The statement of a flush finds the dispatch the flush copied. -/
theorem FlushOK.answered {c : ScheduleDispatch} {phase : FlushPhase} {jobId : String} {state : DispatchState}
    (h : FlushOK w ⟨c, phase⟩) (hphase : phase = .mark jobId ∨ phase = .noteCancelled jobId)
    (hd : d ∈ w.db.dispatches) (hselects : c.selects state d = true) : Acknowledged w jobId d.idempotencyKey := by
  obtain ⟨d₀, hd₀, hcopy⟩ := h.copy
  have hsame : d₀ = d := Table.eq_of_key hd₀ hd ((copy_key hcopy).trans (selects_iff.1 hselects).1.symm)
  have hkey : d.idempotencyKey = c.idempotencyKey := by
    rw [← hsame]
    exact congrArg ScheduleDispatch.idempotencyKey hcopy
  rw [hkey]
  exact h.acknowledged jobId hphase

/-- A statement of a flush, row by row. -/
theorem update_remains {p : DispatchRow → Bool} {f : DispatchRow → DispatchRow}
    (hf : Table.KeepsKey DispatchRow.key f) {t : Table DispatchRow.key} (hd : d' ∈ t.update p f hf)
    (hrow : ∀ d ∈ t, p d = true → Remains w d (f d)) : ∃ d ∈ t, Remains w d d' := by
  obtain ⟨d, hm, rfl⟩ := Table.mem_update.1 hd
  refine ⟨d, hm, ?_⟩
  split
  · rename_i hp
    exact hrow d hm hp
  · exact .refl w d

theorem step_remains (h : Step env w event w') (hf : ∀ f ∈ w.flushes, FlushOK w f)
    (hd : d' ∈ w'.db.dispatches) :
    (∃ d ∈ w.db.dispatches, Remains w d d') ∨ d'.jobId = none ∧ d'.state = .pending := by
  have hsame : w'.db.dispatches = w.db.dispatches → ∃ d ∈ w.db.dispatches, Remains w d d' :=
    fun he => ⟨d', he ▸ hd, .refl w d'⟩
  cases h with
  | idle | tick | pendingDispatches | enqueued | lost | flushEnds | givesUp | statusRead | called
  | recorded | closes => exact Or.inl (hsame rfl)
  | command _ hw _ =>
    obtain ⟨_, _, _, -, hw, -⟩ := command_writes hw
    exact hw.dispatches.remains hd
  | receiveEvent _ hin _ => exact Or.inl (hsame hin.dispatches)
  | receiveTimer _ _ _ hin => exact Or.inl (hsame hin.dispatches)
  | marked hget _ =>
    refine Or.inl (update_remains (f := DispatchRow.enqueue _) ⟨fun _ => rfl⟩ hd fun d hd hp =>
      ⟨rfl, Or.inr ⟨_, rfl, ?_⟩, fun _ => Or.inr ⟨rfl, rfl⟩⟩)
    exact (hf _ (List.mem_of_getElem? hget)).answered (Or.inl rfl) hd hp
  | noted hget =>
    refine Or.inl (update_remains (f := DispatchRow.noteEnqueue _) ⟨fun _ => rfl⟩ hd fun d hd hp =>
      ⟨rfl, Or.inr ⟨_, rfl, ?_⟩, fun he => ?_⟩)
    · exact (hf _ (List.mem_of_getElem? hget)).answered (Or.inr rfl) hd hp
    · exact absurd ((selects_iff.1 hp).2.symm.trans he) (by decide)
  | failed _ =>
    refine Or.inl (update_remains (f := DispatchRow.noteFailure _) ⟨fun _ => rfl⟩ hd fun d hd hp =>
      ⟨rfl, Or.inl rfl, fun he => ?_⟩)
    exact absurd ((selects_iff.1 hp).2.symm.trans he) (by decide)
  | claimed _ hl => exact Or.inl (hsame hl.frame.2.2.2.2)
  | released _ hleft => exact Or.inl (hsame hleft.dispatches)
  | completed _ _ hleft _ _ hsettled =>
    cases hsettled with
    | event _ he => exact Or.inl (hsame (he ▸ hleft.dispatches))
    | timer _ ha =>
      cases ha with
      | kept he _ => exact Or.inl (hsame (he ▸ hleft.dispatches))
      | moved _ _ _ _ _ _ _ hw =>
        have hdispatches := hw.dispatches
        rw [hleft.dispatches] at hdispatches
        exact hdispatches.remains hd

/-! ## Jobs and dispatches -/

/-- Jobs and the dispatch table, side by side. -/
structure Mirrored (env : Env) (w : World) : Prop where
  keys : (w.jobs.map Job.key).Nodup
  acknowledged : ∀ job ∈ w.acknowledged, job ∈ w.jobs
  jobs : ∀ job ∈ w.jobs, ∃ d ∈ w.db.dispatches, job.Of env d
  jobIds : ∀ d ∈ w.db.dispatches, ∀ jobId, d.jobId = some jobId → ∃ job ∈ w.jobs, job.jobId = jobId ∧ job.Of env d
  enqueued : ∀ d ∈ w.db.dispatches, d.state = .enqueued → d.jobId.isSome = true ∧ d.lastFailure = none

theorem Mirrored.init : Mirrored env World.init where
  keys := List.nodup_nil
  acknowledged := fun _ h => by cases h
  jobs := fun _ h => by cases h
  jobIds := fun d h => absurd h (Table.not_mem_empty d)
  enqueued := fun d h => absurd h (Table.not_mem_empty d)

/-- A job answered for the key of a dispatch is of that dispatch: no two dispatches share a key. -/
theorem Mirrored.answered (hi : Mirrored env w) (hu : Enforced w.db) (hd : d ∈ w.db.dispatches) {jobId : String}
    (h : Acknowledged w jobId d.idempotencyKey) : ∃ job ∈ w.jobs, job.jobId = jobId ∧ job.Of env d := by
  obtain ⟨job, hjob, hid, hkey⟩ := h
  have hmem := hi.acknowledged job hjob
  obtain ⟨d₀, hd₀, hof⟩ := hi.jobs job hmem
  have hsame : d₀ = d := hu.dispatchKeys d₀ hd₀ d hd (hof.key.symm.trans hkey)
  exact ⟨job, hmem, hid, hsame ▸ hof⟩

/-- **A step keeps the mirror.** -/
theorem step_mirrored (h : Step env w event w') (hledger : DispatchLedger w.db)
    (hf : ∀ f ∈ w.flushes, FlushOK w f) (hu : Enforced w.db) (hi : Mirrored env w) : Mirrored env w' := by
  have hstays : ∀ job : Job, (∃ d ∈ w.db.dispatches, job.Of env d) → ∃ d' ∈ w'.db.dispatches, job.Of env d' := by
    rintro job ⟨d, hd, hof⟩
    obtain ⟨d', hd', hmove⟩ := step_moves (step_schedule h) hledger hf hd
    exact ⟨d', hd', hof.copy hmove.copy⟩
  have hmore : ∀ job ∈ w.jobs, job ∈ w'.jobs := fun job hjob => (step_jobs_grow h).subset hjob
  refine ⟨?_, fun job hjob => ?_, fun job hjob => ?_, fun d' hd' jobId hid => ?_, fun d' hd' he => ?_⟩
  · rcases step_jobs h with hsame | ⟨f, -, availableAt, jobId, -, htake⟩
    · rw [hsame]
      exact hi.keys
    · rw [htake]
      exact nodup_take hi.keys
  · rcases step_acknowledges h hjob with hold | hnew
    · exact hmore job (hi.acknowledged job hold)
    · exact hnew
  · refine hstays job ?_
    rcases step_jobs h with hsame | ⟨f, hflush, availableAt, jobId, hformat, htake⟩
    · exact hi.jobs job (hsame ▸ hjob)
    · rw [htake] at hjob
      rcases mem_take hjob with hold | rfl
      · exact hi.jobs job hold
      · obtain ⟨d, hd, hcopy⟩ := (hf f hflush).copy
        exact ⟨d, hd, availableAt, by rw [hcopy]; exact hformat, by rw [hcopy]⟩
  · rcases step_remains h hf hd' with ⟨d, hd, hremains⟩ | ⟨hnone, -⟩
    · have hjob : ∃ job ∈ w.jobs, job.jobId = jobId ∧ job.Of env d := by
        rcases hremains.jobId with hkept | ⟨written, hwritten, hack⟩
        · exact hi.jobIds d hd jobId (hkept ▸ hid)
        · have hsame : written = jobId := Option.some.inj (hwritten.symm.trans hid)
          exact hi.answered hu hd (hsame ▸ hack)
      obtain ⟨job, hjob, hjobId, hof⟩ := hjob
      exact ⟨job, hmore job hjob, hjobId, hof.copy hremains.copy⟩
    · exact absurd (hnone.symm.trans hid) (by simp)
  · rcases step_remains h hf hd' with ⟨d, hd, hremains⟩ | ⟨-, hpending⟩
    · rcases hremains.enqueued he with rfl | hwritten
      · exact hi.enqueued d' hd he
      · exact hwritten
    · exact absurd (hpending.symm.trans he) (by decide)

theorem run_mirrored (events : List Event) : Mirrored env ((automation env).run events) := by
  refine Transition.Machine.history (m := automation env) (I := fun _ w => Mirrored env w) Mirrored.init
    (fun events event hi => ?_) events
  obtain ⟨hledger, hflushes⟩ : DispatchLedger ((automation env).run events).db ∧
      ∀ f ∈ ((automation env).run events).flushes, FlushOK ((automation env).run events) f := run_ledger events
  exact step_mirrored (step_cases (run_refs events).linked event) hledger hflushes (run_enforced events) hi

theorem run_jobs_grow (events later : List Event) :
    ((automation env).run events).jobs <+: ((automation env).run (events ++ later)).jobs := by
  rw [Transition.Machine.run_append]
  exact rel_along (I := fun _ => True) (G := fun _ _ => True) (R := fun w w' => w.jobs <+: w'.jobs)
    (fun w => List.prefix_refl w.jobs) (fun _ _ _ h h' => h.trans h') (fun _ _ _ _ => trivial)
    (fun _ _ hstep _ => step_jobs_grow hstep) (run_refs events) trivial
    (Transition.Machine.along_true _ later)

/-- **Jobs mirror the dispatches.** In every reachable state each job is of exactly one dispatch, no
two are of the same one, a job id in the table is that of the dispatch's job, and every enqueued
dispatch has one and no failure beside it; what Jobs has taken, no later event takes back. -/
theorem jobs_mirror_dispatches (events later : List Event) :
    let w := (automation env).run events
    w.jobs <+: ((automation env).run (events ++ later)).jobs ∧
    (∀ job ∈ w.jobs, ∃! d, d ∈ w.db.dispatches ∧ job.Of env d) ∧
    (∀ d, w.jobs.Pairwise fun job job' => ¬ (job.Of env d ∧ job'.Of env d)) ∧
    (∀ d ∈ w.db.dispatches, ∀ jobId, d.jobId = some jobId →
      ∃ job ∈ w.jobs, job.jobId = jobId ∧ job.Of env d) ∧
    ∀ d ∈ w.db.dispatches, d.state = .enqueued → d.jobId.isSome = true ∧ d.lastFailure = none := by
  intro w
  have hi : Mirrored env w := run_mirrored events
  have hu : Enforced w.db := run_enforced events
  refine ⟨run_jobs_grow events later, fun job hjob => ?_, fun d => ?_, hi.jobIds, hi.enqueued⟩
  · obtain ⟨d, hd, hof⟩ := hi.jobs job hjob
    refine ⟨d, ⟨hd, hof⟩, ?_⟩
    rintro d' ⟨hd', hof'⟩
    exact hu.dispatchKeys d' hd' d hd (hof'.key.symm.trans hof.key)
  · refine (List.pairwise_map.1 hi.keys).imp ?_
    rintro job job' hne ⟨hof, hof'⟩
    exact hne (hof.key.trans hof'.key.symm)

end ProjectAutomation

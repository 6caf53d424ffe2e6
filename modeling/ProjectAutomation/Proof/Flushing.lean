import Mathlib.Data.String.Basic
import ProjectAutomation.Proof.Calls
import ProjectAutomation.Proof.DispatchLedger
import ProjectAutomation.Relational.Select
import ProjectAutomation.Spec.Sample

/-!
# A flush stops cleanly and resumes

`flush_schedules` sends the first dispatches that are pending, one by one, and writes
what became of each before it goes on to the next.

* `FlushStopped`: how far a flush came, and what it left (`flushSchedules_stopped`).
* `sent_pending`: a flush sends what is pending when it begins.
* `flush_stops_and_resumes`: where it stops, and where the next one begins.
-/

namespace ProjectAutomation

open Relational Table

variable {env : Env} {w w' : World} {s : Session} {db : Database} {organizationId : String} {d : DispatchRow}

/-! ## The dispatches of a flush -/

/-- `WHERE organization_id=$1 AND state='pending'`. -/
def DispatchRow.pendingIn (organizationId : String) (d : DispatchRow) : Bool :=
  d.organizationId = organizationId && d.state = .pending

/-- The pending dispatches of an organization, in the order a flush takes them. -/
def pendingRows (db : Database) (organizationId : String) : List DispatchRow :=
  db.dispatches.select (DispatchRow.pendingIn organizationId) DispatchRow.before

/-- The place of a dispatch: its time, then its rule. -/
def DispatchRow.place (d : DispatchRow) : ℤ ×ₗ String := toLex (d.scheduledFor, d.ruleId)

theorem before_orderedBy : OrderedBy DispatchRow.before DispatchRow.place := by
  refine ⟨fun a b => ?_⟩
  unfold DispatchRow.place
  rw [Prod.Lex.toLex_le_toLex]
  exact Iff.rfl

theorem place_separates (t : Table DispatchRow.key) (organizationId : String) :
    t.Separates (DispatchRow.pendingIn organizationId) DispatchRow.place := by
  refine separates_of_key fun a b h => ?_
  have h := Prod.mk.inj (toLex_inj.1 h)
  exact Prod.ext h.2 h.1

theorem mem_pendingRows : d ∈ pendingRows db organizationId ↔
    d ∈ db.dispatches ∧ d.organizationId = organizationId ∧ d.state = .pending := by
  unfold pendingRows
  rw [mem_select]
  simp [DispatchRow.pendingIn]

/-- The request a flush sends for a dispatch, when its time can be written. -/
def requestOf (env : Env) (d : DispatchRow) : Option EnqueueRequest :=
  (env.formatRfc3339 d.copy.scheduledFor).map (enqueueRequest env d.copy)

theorem requestOf_congr {d' : DispatchRow} (h : d'.copy = d.copy) : requestOf env d' = requestOf env d := by
  unfold requestOf
  rw [h]

theorem pendingDispatches_serves (hserves : s.faults "list schedule dispatches" = none) (limit : ℕ) :
    pendingDispatches s organizationId limit db =
      .ok (.commit (((pendingRows db organizationId).take limit).map DispatchRow.copy), db) := by
  unfold pendingDispatches
  rw [statement_bind_serves hserves, Txn.get_bind]
  rfl

/-! ## One write -/

/-- A dispatch is written: the other rows stay, and no copy changes. -/
structure Wrote (d : DispatchRow) (t t' : Table DispatchRow.key) : Prop where
  put : t.Put d t'
  copies : t'.rows.map DispatchRow.copy = t.rows.map DispatchRow.copy

theorem Wrote.self {t : Table DispatchRow.key} (hd : d ∈ t) : Wrote d t t := ⟨put_self hd, rfl⟩

/-- A statement of a flush about a pending dispatch writes its row, or fails and leaves everything. -/
theorem flushStorage_write {α : Type} (env : Env) (conn : Connection) (operation : String)
    {f : DispatchRow → DispatchRow} (hf : KeepsKey DispatchRow.key f) (hcopy : ∀ d, (f d).copy = d.copy)
    (answer : Database → α) (hd : d ∈ w.db.dispatches) (hp : d.state = .pending) :
    let part : Plugin α := flushStorage env conn fun s => do
      s.statement operation
      let db ← get
      set { db with dispatches := db.dispatches.update (d.copy.selects .pending) f hf }
      return .commit (answer db)
    (∃ e, part w = ⟨.error e, [], w⟩ ∧ ¬ conn.Serves) ∨
      ∃ dispatches, part w = ⟨.ok (answer w.db), [], { w with db := { w.db with dispatches } }⟩ ∧
        Wrote (f d) w.db.dispatches dispatches := by
  intro part
  cases hfault : conn.faults operation with
  | some source =>
    refine Or.inl ⟨.runtime (storageRuntime (runtime operation source)), ?_, fun h => ?_⟩
    · show Plugin.storage env conn _ _ w = _
      unfold Plugin.storage World.transact
      rw [transact_of_error (e := runtime operation source)]
      · rfl
      · show (Session.statement _ operation >>= _) w.db = _
        unfold Session.statement
        rw [show (w.session env conn).faults operation = some source from hfault]
        rfl
    · rw [h operation] at hfault
      cases hfault
  | none =>
    refine Or.inr ⟨w.db.dispatches.update (d.copy.selects .pending) f hf, ?_, put_of_update hf hd ?_ fun x _ hx => ?_,
      map_update hf fun x _ => hcopy x⟩
    · show Plugin.storage env conn _ _ w = _
      unfold Plugin.storage World.transact
      rw [transact_of_commit]
      · rfl
      · show (Session.statement _ operation >>= _) w.db = _
        rw [statement_bind_serves (s := w.session env conn) hfault]
        rfl
    · exact selects_iff.2 ⟨copy_key rfl, hp⟩
    · exact (selects_iff.1 hx).1.trans (copy_key rfl).symm

/-! ## One turn of the loop -/

/-- What a flush notes of a refusal, and what it returns. -/
def JobsAnswer.refusal : JobsAnswer → Option (String × RuntimeFailure)
  | .ok _ => none
  | .lost _ failure | .runtime failure => some ("jobs_runtime_failure", failure)
  | .domain => some ("jobs_contract_rejected", .protocolViolation "lenso.jobs@1")

/-- What one turn makes of a dispatch: the jobs it is answered with, the row it leaves, and how it
goes on. -/
inductive FlushTurned (env : Env) (turn : FlushTurn) (d : DispatchRow) :
    List Job → DispatchRow → Except PluginError Bool → Prop
  | enqueued {job : Job} : (requestOf env d).isSome = true → turn.answer.refusal = none →
      job.request.idempotencyKey = d.idempotencyKey →
      FlushTurned env turn d [job] (d.enqueue job.jobId) (.ok true)
  | refused {noted : String} {failure : RuntimeFailure} : (requestOf env d).isSome = true →
      turn.answer.refusal = some (noted, failure) →
      FlushTurned env turn d [] (d.noteFailure noted) (.error (.runtime failure))
  | unformatted : requestOf env d = none → FlushTurned env turn d [] d
      (.error (.runtime (.pluginFailure "Project Automation schedule time cannot be formatted")))
  | unwritten {jobs : List Job} {e : PluginError} : (requestOf env d).isSome = true → ¬ turn.mark.Serves →
      FlushTurned env turn d jobs d (.error e)

/-- A turn, and the world it leaves. -/
structure FlushTurnOf (env : Env) (turn : FlushTurn) (d : DispatchRow) (w : World) (out : Called Bool)
    (jobs : List Job) (d' : DispatchRow) : Prop where
  turned : FlushTurned env turn d jobs d' out.result
  sent : out.sent = (requestOf env d).toList
  acknowledged : out.world.acknowledged = jobs.reverse ++ w.acknowledged
  wrote : Wrote d' w.db.dispatches out.world.db.dispatches

/-- Jobs answers with the job of the request's key, or refuses. -/
theorem enqueue_cases (request : EnqueueRequest) (answer : JobsAnswer) (w : World) :
    (∃ job jobs, answer.refusal = none ∧ job.request.idempotencyKey = request.idempotencyKey ∧
        enqueue request answer w = ⟨.ok (.ok job.jobId), [request],
          { w with jobs, acknowledged := job :: w.acknowledged }⟩) ∨
      ∃ noted failure jobs, answer.refusal = some (noted, failure) ∧
        enqueue request answer w = ⟨.ok (.error (noted, failure)), [request], { w with jobs }⟩ := by
  cases answer with
  | ok jobId => exact Or.inl ⟨_, _, rfl, takeJob_key w.jobs request jobId, rfl⟩
  | lost jobId failure => exact Or.inr ⟨_, _, _, rfl, rfl⟩
  | runtime failure => exact Or.inr ⟨_, _, w.jobs, rfl, rfl⟩
  | domain => exact Or.inr ⟨_, _, w.jobs, rfl, rfl⟩

/-- A job Jobs took is marked on its dispatch. -/
theorem markEnqueued_turned (env : Env) (turn : FlushTurn) (jobId : String) (hd : d ∈ w.db.dispatches)
    (hp : d.state = .pending) :
    (∃ e, markEnqueued env turn d.copy jobId w = ⟨.error e, [], w⟩ ∧ ¬ turn.mark.Serves) ∨
      ∃ dispatches, markEnqueued env turn d.copy jobId w =
          ⟨.ok true, [], { w with db := { w.db with dispatches } }⟩ ∧
        Wrote (d.enqueue jobId) w.db.dispatches dispatches := by
  have hone : decide (w.db.dispatches.affected (d.copy.selects .pending) = 1) = true := by
    refine decide_eq_true ((affected_eq_one fun x _ hx => (selects_iff.1 hx).1).2 ⟨d, hd, ?_⟩)
    exact selects_iff.2 ⟨copy_key rfl, hp⟩
  rcases flushStorage_write env turn.mark "complete schedule dispatch" (f := DispatchRow.enqueue jobId)
    ⟨fun _ => rfl⟩ (fun _ => rfl) (fun db => decide (db.dispatches.affected (d.copy.selects .pending) = 1)) hd hp with
    ⟨e, hfails, hserves⟩ | ⟨dispatches, hdone, hwrote⟩
  · exact Or.inl ⟨e, Plugin.bind_of_error hfails, hserves⟩
  · rw [hone] at hdone
    exact Or.inr ⟨dispatches, Plugin.bind_of_silent hdone, hwrote⟩

/-- A failed call of Jobs is noted on its dispatch. -/
theorem abandonFlush_turned (env : Env) (turn : FlushTurn) (noted : String) (failure : RuntimeFailure)
    (hd : d ∈ w.db.dispatches) (hp : d.state = .pending) :
    (∃ e, abandonFlush env turn d.copy noted failure w = ⟨.error e, [], w⟩ ∧ ¬ turn.mark.Serves) ∨
      ∃ dispatches, abandonFlush env turn d.copy noted failure w =
          ⟨.error (.runtime failure), [], { w with db := { w.db with dispatches } }⟩ ∧
        Wrote (d.noteFailure noted) w.db.dispatches dispatches := by
  rcases flushStorage_write env turn.mark "record schedule dispatch failure"
    (f := DispatchRow.noteFailure noted) ⟨fun _ => rfl⟩ (fun _ => rfl) (fun _ => ()) hd hp with
    ⟨e, hfails, hserves⟩ | ⟨dispatches, hdone, hwrote⟩
  · exact Or.inl ⟨e, Plugin.bind_of_error hfails, hserves⟩
  · exact Or.inr ⟨dispatches, Plugin.bind_of_silent hdone, hwrote⟩

/-- **One turn of the loop.** -/
theorem flushDispatch_turned (env : Env) (w : World) (turn : FlushTurn) (hd : d ∈ w.db.dispatches)
    (hp : d.state = .pending) : ∃ jobs d', FlushTurnOf env turn d w (flushDispatch env turn d.copy w) jobs d' := by
  unfold flushDispatch
  cases hformat : env.formatRfc3339 d.copy.scheduledFor with
  | none =>
    have hrequest : requestOf env d = none := Option.map_eq_none_iff.2 hformat
    exact ⟨[], d, .unformatted hrequest, by rw [hrequest]; rfl, rfl, .self hd⟩
  | some availableAt =>
    have hrequest : requestOf env d = some (enqueueRequest env d.copy availableAt) :=
      Option.map_eq_some_iff.2 ⟨availableAt, hformat, rfl⟩
    have hsome : (requestOf env d).isSome = true := by
      rw [hrequest]
      rfl
    have hsent : [enqueueRequest env d.copy availableAt] = (requestOf env d).toList := by
      rw [hrequest]
      rfl
    -- the world Jobs leaves has the dispatches it found
    rcases enqueue_cases (enqueueRequest env d.copy availableAt) turn.answer w with
      ⟨job, jobs, hnone, hkey, hasked⟩ | ⟨noted, failure, jobs, hrefusal, hasked⟩
    · simp only [Plugin.bind_of_ok hasked]
      rcases markEnqueued_turned (w := { w with jobs, acknowledged := job :: w.acknowledged }) env turn job.jobId
        hd hp with ⟨e, hfails, hserves⟩ | ⟨dispatches, hdone, hwrote⟩
      · rw [hfails]
        exact ⟨[job], d, .unwritten hsome hserves, hsent, rfl, .self hd⟩
      · rw [hdone]
        exact ⟨[job], _, .enqueued hsome hnone hkey, hsent, rfl, hwrote⟩
    · simp only [Plugin.bind_of_ok hasked]
      rcases abandonFlush_turned (w := { w with jobs }) env turn noted failure hd hp with
        ⟨e, hfails, hserves⟩ | ⟨dispatches, hdone, hwrote⟩
      · rw [hfails]
        exact ⟨[], d, .unwritten hsome hserves, hsent, rfl, .self hd⟩
      · rw [hdone]
        exact ⟨[], _, .refused hsome hrefusal, hsent, rfl, hwrote⟩

/-! ## The loop -/

/-- How the loop ends at the rows it did not enqueue: what it returns, and the rows it leaves there. -/
inductive FlushEnds (env : Env) (turn : FlushTurn) (count : ℕ) :
    List DispatchRow → Except PluginError ℕ → List DispatchRow → Prop
  | all : FlushEnds env turn count [] (.ok count) []
  | refused {d : DispatchRow} {rest : List DispatchRow} {noted : String} {failure : RuntimeFailure} :
      (requestOf env d).isSome = true → turn.answer.refusal = some (noted, failure) →
      FlushEnds env turn count (d :: rest) (.error (.runtime failure)) (d.noteFailure noted :: rest)
  | unformatted {d : DispatchRow} {rest : List DispatchRow} : requestOf env d = none →
      FlushEnds env turn count (d :: rest)
        (.error (.runtime (.pluginFailure "Project Automation schedule time cannot be formatted"))) (d :: rest)
  | unwritten {d : DispatchRow} {rest : List DispatchRow} {e : PluginError} : (requestOf env d).isSome = true →
      ¬ turn.mark.Serves → FlushEnds env turn count (d :: rest) (.error e) (d :: rest)

/-- **How far the loop came**: it enqueued the first `stop` of `rows`, each with the id of its job, and
left `left` of them pending, before those `beyond` its limit. -/
structure FlushStopped (env : Env) (turns : ℕ → FlushTurn) (index : ℕ) (organizationId : String)
    (rows beyond : List DispatchRow) (w : World) (out : Called ℕ) (stop : ℕ) (jobs : List Job)
    (left : List DispatchRow) : Prop where
  le : stop ≤ rows.length
  enqueued : ∀ i < stop, ∀ d, rows[i]? = some d → (requestOf env d).isSome = true ∧
    (turns (index + i)).answer.refusal = none ∧ ∃ job, jobs[i]? = some job ∧
      job.request.idempotencyKey = d.idempotencyKey ∧ d.enqueue job.jobId ∈ out.world.db.dispatches
  ends : FlushEnds env (turns (index + stop)) rows.length (rows.drop stop) out.result left
  pending : pendingRows out.world.db organizationId = left ++ beyond
  untouched : ∀ x ∈ w.db.dispatches, x ∉ rows.take (stop + 1) → x ∈ out.world.db.dispatches
  sent : out.sent = (rows.take (stop + 1)).filterMap (requestOf env)
  acknowledged : out.world.acknowledged = jobs.reverse ++ w.acknowledged
  copies : out.world.db.dispatches.rows.map DispatchRow.copy = w.db.dispatches.rows.map DispatchRow.copy

section Loop

variable {turns : ℕ → FlushTurn} {index : ℕ} {rest beyond : List DispatchRow} {d' : DispatchRow} {jobs : List Job}

/-- The rows behind the one a turn is about are left alone. -/
theorem Wrote.untouched {t t' : Table DispatchRow.key} (h : Wrote d' t t') (hkey : d'.key = d.key) (hd : d ∈ t)
    {x : DispatchRow} (hx : x ∈ t) (hne : x ≠ d) : x ∈ t' :=
  h.put.of_ne hx fun he => hne (eq_of_key hx hd (he.trans hkey))

/-- A turn that fails ends the loop. -/
theorem flushStopped_error {out : Called Bool} {e : PluginError} (h : FlushTurnOf env (turns index) d w out jobs d')
    (he : out.result = .error e) (hpending : pendingRows w.db organizationId = d :: rest ++ beyond) :
    ∃ left, FlushStopped env turns index organizationId (d :: rest) beyond w ⟨.error e, out.sent, out.world⟩ 0
      jobs left := by
  have hrow := (mem_pendingRows.1 (hpending ▸ List.mem_cons_self : d ∈ pendingRows w.db organizationId))
  have hturned := h.turned
  rw [he] at hturned
  -- the row stays pending at its place
  have hstays : d'.key = d.key ∧ d'.organizationId = d.organizationId ∧ d'.state = d.state := by
    cases hturned <;> exact ⟨rfl, rfl, rfl⟩
  have hselected : d'.pendingIn organizationId = true := by
    simp [DispatchRow.pendingIn, hstays.2.1, hstays.2.2, hrow.2.1, hrow.2.2]
  have hplace : d'.place = d.place := by
    unfold DispatchRow.place
    rw [show d'.scheduledFor = d.scheduledFor from congrArg Prod.snd hstays.1,
      show d'.ruleId = d.ruleId from congrArg Prod.fst hstays.1]
  refine ⟨d' :: rest, Nat.zero_le _, fun i hi => absurd hi (Nat.not_lt_zero i), ?_, ?_, fun x hx hne => ?_, ?_,
    h.acknowledged, h.wrote.copies⟩
  · cases hturned with
    | refused hsome hrefusal => exact .refused hsome hrefusal
    | unformatted hnone => exact .unformatted hnone
    | unwritten hsome hserves => exact .unwritten hsome hserves
  · exact select_put_selected before_orderedBy (place_separates _ _) (place_separates _ _) hpending h.wrote.put
      hstays.1 hselected hplace
  · exact h.wrote.untouched hstays.1 hrow.1 hx fun hxd => hne (by simp [hxd])
  · rw [h.sent]
    cases hrequest : requestOf env d <;> simp [hrequest]

/-- One more dispatch is counted. -/
theorem FlushEnds.succ {turn : FlushTurn} {count : ℕ} {rows left : List DispatchRow} {result : Except PluginError ℕ}
    (h : FlushEnds env turn count rows result left) :
    FlushEnds env turn (count + 1) rows (result.map (· + 1)) left := by
  cases h with
  | all => exact .all
  | refused hsome hrefusal => exact .refused hsome hrefusal
  | unformatted hnone => exact .unformatted hnone
  | unwritten hsome hserves => exact .unwritten hsome hserves

/-- A turn that enqueues its dispatch goes on with the next. -/
theorem flushStopped_ok {out : Called Bool} {next : Called ℕ} {job : Job} {later : List Job} {stop : ℕ}
    {left : List DispatchRow} (h : FlushTurnOf env (turns index) d w out [job] (d.enqueue job.jobId))
    (hsome : (requestOf env d).isSome = true) (hnone : (turns index).answer.refusal = none)
    (hjob : job.request.idempotencyKey = d.idempotencyKey)
    (hpending : pendingRows w.db organizationId = d :: rest ++ beyond)
    (hrest : pendingRows out.world.db organizationId = rest ++ beyond)
    (hnext : FlushStopped env turns (index + 1) organizationId rest beyond out.world next stop later left) :
    FlushStopped env turns index organizationId (d :: rest) beyond w
      ⟨next.result.map (· + 1), out.sent ++ next.sent, next.world⟩ (stop + 1) (job :: later) left := by
  have hrow := mem_pendingRows.1 (hpending ▸ List.mem_cons_self : d ∈ pendingRows w.db organizationId)
  have hstate : ∀ x ∈ rest, x.state = .pending := fun x hx =>
    (mem_pendingRows.1 (hrest ▸ List.mem_append_left beyond hx)).2.2
  refine ⟨Nat.succ_le_succ hnext.le, fun i hi x hx => ?_, ?_, hnext.pending, fun x hx hne => ?_, ?_, ?_, ?_⟩
  · cases i with
    | zero =>
      cases hx
      refine ⟨hsome, hnone, job, rfl, hjob, hnext.untouched _ h.wrote.put.mem fun hm => ?_⟩
      -- what is left to do is pending, and this row no longer is
      cases hstate _ (List.mem_of_mem_take hm)
    | succ i =>
      have := hnext.enqueued i (Nat.lt_of_succ_lt_succ hi) x hx
      rw [Nat.add_assoc, Nat.add_comm 1 i] at this
      exact this
  · have := hnext.ends.succ
    rw [Nat.add_assoc, Nat.add_comm 1 stop] at this
    exact this
  · rw [List.take_succ_cons, List.mem_cons, not_or] at hne
    exact hnext.untouched x (h.wrote.untouched (d := d) rfl hrow.1 hx hne.1) hne.2
  · rw [h.sent, hnext.sent, List.take_succ_cons]
    cases hrequest : requestOf env d <;> simp [hrequest]
  · rw [hnext.acknowledged, h.acknowledged]
    simp
  · exact hnext.copies.trans h.wrote.copies

/-- **The loop**, from any place on. -/
theorem flushDispatches_stopped (env : Env) (turns : ℕ → FlushTurn) (index : ℕ) (w : World) {rows : List DispatchRow}
    (hpending : pendingRows w.db organizationId = rows ++ beyond) : ∃ stop jobs left,
    FlushStopped env turns index organizationId rows beyond w
      (flushDispatches env turns index (rows.map DispatchRow.copy) w) stop jobs left := by
  induction rows generalizing index w with
  | nil =>
    exact ⟨0, [], [], le_rfl, fun _ _ _ h => (by cases h), .all, hpending, fun x hx _ => hx, rfl, rfl, rfl⟩
  | cons d rest ih =>
    have hrow := mem_pendingRows.1 (hpending ▸ List.mem_cons_self : d ∈ pendingRows w.db organizationId)
    obtain ⟨jobs, d', hturn⟩ := flushDispatch_turned env w (turns index) hrow.1 hrow.2.2
    rw [List.map_cons]
    unfold flushDispatches
    rcases hone : flushDispatch env (turns index) d.copy w with ⟨e | recorded, sent, w₁⟩
    · rw [Plugin.bind_of_error hone]
      obtain ⟨left, hstopped⟩ := flushStopped_error hturn (by rw [hone]) hpending
      rw [hone] at hstopped
      exact ⟨0, jobs, left, hstopped⟩
    · rw [hone] at hturn
      rw [Plugin.bind_of_ok hone]
      cases hturn.turned with
      | @enqueued job hsome hnone hjob =>
        have hrest : pendingRows w₁.db organizationId = rest ++ beyond :=
          select_put_unselected before_orderedBy (place_separates _ _) (place_separates _ _) hpending
            hturn.wrote.put rfl (by simp [DispatchRow.pendingIn, DispatchRow.enqueue])
        obtain ⟨stop, later, left, hnext⟩ := ih (index + 1) w₁ hrest
        have hstopped := flushStopped_ok hturn hsome hnone hjob hpending hrest hnext
        refine ⟨stop + 1, job :: later, left, ?_⟩
        rcases hgo : flushDispatches env turns (index + 1) (rest.map DispatchRow.copy) w₁ with ⟨e | count, sent', w₂⟩
        · rw [hgo] at hstopped
          rw [Plugin.bind_of_error hgo]
          exact hstopped
        · rw [hgo] at hstopped
          rw [Plugin.bind_of_ok hgo, if_pos rfl]
          show FlushStopped _ _ _ _ _ _ _ ⟨.ok (count + 1), sent ++ (sent' ++ []), w₂⟩ _ _ _
          rw [List.append_nil]
          exact hstopped

end Loop

/-! ## The whole flush -/

/-- **A flush** works through the first dispatches that are pending. -/
theorem flushSchedules_stopped (env : Env) (w : World) (around : FlushAround) (organizationId : String) (limit : ℕ)
    (hserves : around.pending.faults "list schedule dispatches" = none) : ∃ stop jobs left,
    FlushStopped env around.turns 0 organizationId ((pendingRows w.db organizationId).take limit)
      ((pendingRows w.db organizationId).drop limit) w (flushSchedules env around organizationId limit w)
      stop jobs left := by
  have hread : flushStorage env around.pending (pendingDispatches · organizationId limit) w =
      ⟨.ok (((pendingRows w.db organizationId).take limit).map DispatchRow.copy), [], w⟩ := by
    show Plugin.storage env around.pending _ _ w = _
    unfold Plugin.storage World.transact
    rw [transact_of_commit (pendingDispatches_serves (s := w.session env around.pending) hserves limit)]
    rfl
  unfold flushSchedules
  rw [Plugin.bind_of_silent hread]
  exact flushDispatches_stopped env around.turns 0 w (List.take_append_drop limit _).symm

/-- **A flush sends what is pending when it begins**, whatever the database and Jobs answer. -/
theorem sent_pending {around : FlushAround} {limit : ℕ} {request : EnqueueRequest}
    (h : request ∈ (flushSchedules env around organizationId limit w).sent) :
    ∃ d ∈ pendingRows w.db organizationId, requestOf env d = some request := by
  cases hfault : around.pending.faults "list schedule dispatches" with
  | none =>
    obtain ⟨stop, jobs, left, hstopped⟩ := flushSchedules_stopped env w around organizationId limit hfault
    rw [hstopped.sent] at h
    obtain ⟨d, hd, hrequest⟩ := List.mem_filterMap.1 h
    exact ⟨d, List.mem_of_mem_take (List.mem_of_mem_take hd), hrequest⟩
  | some source =>
    -- nothing was read, so nothing is sent
    have hfails : w.transact (pendingDispatches (w.session env around.pending) organizationId limit) =
        (.error (runtime "list schedule dispatches" source), w) := by
      unfold World.transact
      rw [transact_of_error (e := runtime "list schedule dispatches" source)]
      unfold pendingDispatches Session.statement
      rw [show (w.session env around.pending).faults "list schedule dispatches" = some source from hfault]
      rfl
    unfold flushSchedules flushStorage at h
    rw [Plugin.storage_bind hfails] at h
    cases h

section Ends

variable {turns : ℕ → FlushTurn} {index : ℕ} {rows beyond left : List DispatchRow} {out : Called ℕ} {stop : ℕ}
  {jobs : List Job}

/-- The loop stops where Jobs first refuses, and notes it there. -/
theorem FlushStopped.refuses (h : FlushStopped env turns index organizationId rows beyond w out stop jobs left)
    (hmark : ∀ i, (turns i).mark.Serves) {k : ℕ} {noted : String} {failure : RuntimeFailure} (hk : rows[k]? = some d)
    (hformat : ∀ x ∈ rows.take (k + 1), (requestOf env x).isSome = true)
    (hbefore : ∀ i < k, (turns (index + i)).answer.refusal = none)
    (hat : (turns (index + k)).answer.refusal = some (noted, failure)) :
    stop = k ∧ out.result = .error (.runtime failure) ∧ left = d.noteFailure noted :: rows.drop (k + 1) := by
  have hle : stop ≤ k := by
    by_contra hlt
    have := (h.enqueued k (Nat.lt_of_not_le hlt) d hk).2.1
    rw [hat] at this
    cases this
  obtain ⟨hlen, hd⟩ := List.getElem?_eq_some_iff.1 hk
  have hends := h.ends
  rw [List.drop_eq_getElem_cons (Nat.lt_of_le_of_lt hle hlen)] at hends
  generalize out.result = result at hends ⊢
  cases hends with
  | refused hsome hrefusal =>
    have hstop : stop = k := by
      by_contra hne
      rw [hbefore stop (Nat.lt_of_le_of_ne hle hne)] at hrefusal
      cases hrefusal
    subst hstop
    rw [hat] at hrefusal
    cases hrefusal
    exact ⟨rfl, rfl, by rw [hd]⟩
  | unformatted hnone =>
    have := hformat rows[stop] (List.mem_take_iff_getElem.2 ⟨stop, by omega, rfl⟩)
    rw [hnone] at this
    cases this
  | unwritten hsome hserves => exact absurd (hmark _) hserves

/-- A loop no dispatch stops comes to its end, and counts each. -/
theorem FlushStopped.completes (h : FlushStopped env turns index organizationId rows beyond w out stop jobs left)
    (hmark : ∀ i, (turns i).mark.Serves) (hformat : ∀ x ∈ rows, (requestOf env x).isSome = true)
    (hnone : ∀ i < rows.length, (turns (index + i)).answer.refusal = none) :
    stop = rows.length ∧ out.result = .ok rows.length ∧ left = [] := by
  have hends := h.ends
  generalize out.result = result at hends ⊢
  rcases Nat.lt_or_ge stop rows.length with hlt | hge
  · exfalso
    rw [List.drop_eq_getElem_cons hlt] at hends
    cases hends with
    | refused hsome hrefusal =>
      rw [hnone stop hlt] at hrefusal
      cases hrefusal
    | unformatted hunformatted =>
      have := hformat rows[stop] (List.getElem_mem hlt)
      rw [hunformatted] at this
      cases this
    | unwritten hsome hserves => exact hserves (hmark _)
  · rw [List.drop_eq_nil_of_le hge] at hends
    cases hends with
    | all => exact ⟨Nat.le_antisymm h.le hge, rfl, rfl⟩

/-- A count that is returned is that of all. -/
theorem FlushStopped.counts (h : FlushStopped env turns index organizationId rows beyond w out stop jobs left)
    {count : ℕ} (hok : out.result = .ok count) : count = rows.length ∧ stop = rows.length := by
  have hends := h.ends
  rw [hok] at hends
  generalize hdrop : rows.drop stop = tail at hends
  cases hends
  exact ⟨rfl, Nat.le_antisymm h.le (List.drop_eq_nil_iff.1 hdrop)⟩

/-- The next flush begins with the row that is first now. -/
theorem sent_head {around : FlushAround} {limit : ℕ} (hserves : around.pending.Serves) (hlimit : 0 < limit)
    {rest : List DispatchRow} (hpending : pendingRows w.db organizationId = d :: rest)
    (hformat : (requestOf env d).isSome = true) :
    (flushSchedules env around organizationId limit w).sent.head? = requestOf env d := by
  obtain ⟨stop, jobs, left, hstopped⟩ := flushSchedules_stopped env w around organizationId limit (hserves _)
  obtain ⟨request, hrequest⟩ := Option.isSome_iff_exists.1 hformat
  obtain ⟨limit, rfl⟩ := Nat.exists_eq_succ_of_ne_zero hlimit.ne'
  rw [hstopped.sent, hpending, List.take_succ_cons, List.take_succ_cons, List.filterMap_cons, hrequest]
  rfl

/-- The flush after a refusal begins with the request Jobs refused. -/
theorem FlushStopped.resumes (h : FlushStopped env turns index organizationId rows beyond w out stop jobs left)
    {noted : String} {rest : List DispatchRow} (hleft : left = d.noteFailure noted :: rest)
    (hformat : (requestOf env d).isSome = true) {around : FlushAround} {limit : ℕ} (hserves : around.pending.Serves)
    (hlimit : 0 < limit) :
    (flushSchedules env around organizationId limit out.world).sent.head? = requestOf env d := by
  -- the refused dispatch is the first that is pending now, and its request is the one it had
  have hfirst := h.pending
  rw [hleft, List.cons_append] at hfirst
  have hsame : requestOf env (d.noteFailure noted) = requestOf env d := requestOf_congr rfl
  rw [← hsame] at hformat ⊢
  exact sent_head hserves hlimit hfirst hformat

end Ends

/-! ## Later flushes -/

/-- Dispatches keep their copies, and an enqueued one stays so. -/
theorem run_dispatches (env : Env) (is later : List Event) :
    ∀ d ∈ ((automation env).run is).db.dispatches, ∃ d' ∈ ((automation env).run (is ++ later)).db.dispatches,
      d'.copy = d.copy ∧ (d.state = .enqueued → d'.state = .enqueued) := by
  rw [Transition.Machine.run_append]
  refine rel_along
    (I := fun w => DispatchLedger w.db ∧ ∀ f ∈ w.flushes, FlushOK w f) (G := fun _ _ => True)
    (R := fun w w' => ∀ d ∈ w.db.dispatches, ∃ d' ∈ w'.db.dispatches, d'.copy = d.copy ∧
      (d.state = .enqueued → d'.state = .enqueued)) (fun w d hd => ⟨d, hd, rfl, fun h => h⟩) ?_
    (fun _ _ hstep hi => ⟨step_ledger hstep hi.1, step_flushes hstep hi.1 hi.2⟩) (fun _ _ hstep hi d hd => ?_)
    (run_refs is) (run_ledger is) (Transition.Machine.along_true _ _)
  · intro w₁ w₂ w₃ h h' d hd
    obtain ⟨d₂, hd₂, hcopy, hstate⟩ := h d hd
    obtain ⟨d₃, hd₃, hcopy', hstate'⟩ := h' d₂ hd₂
    exact ⟨d₃, hd₃, hcopy'.trans hcopy, fun he => hstate' (hstate he)⟩
  · obtain ⟨d', hd', hm⟩ := step_moves (step_schedule hstep) hi.1 hi.2 hd
    exact ⟨d', hd', hm.copy, hm.stays⟩

/-- What a flush sends was pending all along, under the request it had. -/
theorem sent_later {is later : List Event} {around : FlushAround} {limit : ℕ} {request : EnqueueRequest}
    (h : request ∈ (flushSchedules env around organizationId limit ((automation env).run (is ++ later))).sent) :
    ∃ d' ∈ pendingRows ((automation env).run (is ++ later)).db organizationId, requestOf env d' = some request ∧
      ∀ d ∈ ((automation env).run is).db.dispatches, d.key = d'.key →
        d.state ≠ .enqueued ∧ requestOf env d = some request := by
  obtain ⟨d', hd', hrequest⟩ := sent_pending h
  refine ⟨d', hd', hrequest, fun d hd hkey => ?_⟩
  obtain ⟨x, hx, hcopy, hstate⟩ := run_dispatches env is later d hd
  obtain ⟨hm, -, hp⟩ := mem_pendingRows.1 hd'
  -- the row that is pending then is the one of that key
  have hxd : x = d' := eq_of_key hx hm ((copy_key hcopy).trans ((copy_key rfl).symm.trans hkey))
  subst hxd
  refine ⟨fun he => ?_, (requestOf_congr hcopy).symm.trans hrequest⟩
  rw [hstate he] at hp
  cases hp

/-- **A flush stops cleanly, and the next one resumes.** It takes the pending dispatches in the order of
their time and their rule, up to its limit, and enqueues them one after the other. Where Jobs first
refuses it notes the failure and returns it; the next flush begins there, with the same request. If
Jobs refuses none, it returns how many it enqueued. Whatever happens then, a flush sends only what is
pending, under the request it always had, and nothing that was enqueued. -/
theorem flush_stops_and_resumes (env : Env) (w : World) (around : FlushAround) (organizationId : String) (limit : ℕ)
    (hserves : around.pending.Serves) :
    let pending := pendingRows w.db organizationId
    let rows := pending.take limit
    let done := flushSchedules env around organizationId limit w
    pending.Pairwise (fun a b => a.place < b.place) ∧
    (∃ stop jobs left,
      FlushStopped env around.turns 0 organizationId rows (pending.drop limit) w done stop jobs left ∧
      ((∀ i, (around.turns i).mark.Serves) → ∀ k d noted failure, rows[k]? = some d →
        (∀ x ∈ rows.take (k + 1), (requestOf env x).isSome = true) →
        (∀ i < k, (around.turns i).answer.refusal = none) →
        (around.turns k).answer.refusal = some (noted, failure) →
        stop = k ∧ done.result = .error (.runtime failure) ∧ left = d.noteFailure noted :: rows.drop (k + 1) ∧
        ∀ around' limit', around'.pending.Serves → 0 < limit' →
          (flushSchedules env around' organizationId limit' done.world).sent.head? = requestOf env d) ∧
      ((∀ i, (around.turns i).mark.Serves) → (∀ x ∈ rows, (requestOf env x).isSome = true) →
        (∀ i < rows.length, (around.turns i).answer.refusal = none) →
        stop = rows.length ∧ done.result = .ok (min limit pending.length) ∧ left = []) ∧
      ∀ count, done.result = .ok count → count = stop ∧ count = min limit pending.length) ∧
    ∀ is, w = (automation env).run is → ∃ flushes, (automation env).Reaches w (done.world.amid flushes w.tasks) ∧
      ∀ later, let w' := (automation env).runFrom (done.world.amid flushes w.tasks) later
        (∀ d ∈ done.world.db.dispatches, ∃ d' ∈ w'.db.dispatches, d'.copy = d.copy ∧
          (d.state = .enqueued → d'.state = .enqueued)) ∧
        ∀ around' organizationId' limit', ∀ request ∈ (flushSchedules env around' organizationId' limit' w').sent,
          ∃ d' ∈ pendingRows w'.db organizationId', requestOf env d' = some request ∧
            ∀ d ∈ done.world.db.dispatches, d.key = d'.key → d.state ≠ .enqueued ∧ requestOf env d = some request := by
  intro pending rows done
  have hlength : rows.length = min limit pending.length := List.length_take
  refine ⟨select_strict before_orderedBy (place_separates _ _), ?_, ?_⟩
  · obtain ⟨stop, jobs, left, hstopped⟩ := flushSchedules_stopped env w around organizationId limit (hserves _)
    refine ⟨stop, jobs, left, hstopped, ?_, ?_, fun count hcount => ?_⟩
    · intro hmark k d noted failure hk hformat hbefore hat
      obtain ⟨hstop, hresult, hleft⟩ := hstopped.refuses hmark hk hformat
        (fun i hi => by rw [Nat.zero_add]; exact hbefore i hi) (by rw [Nat.zero_add]; exact hat)
      obtain ⟨hlen, hd⟩ := List.getElem?_eq_some_iff.1 hk
      have hsome := hformat d (List.mem_take_iff_getElem.2 ⟨k, by omega, hd⟩)
      exact ⟨hstop, hresult, hleft, fun around' limit' => hstopped.resumes hleft hsome⟩
    · intro hmark hformat hnone
      obtain ⟨hstop, hresult, hleft⟩ := hstopped.completes hmark hformat
        fun i hi => by rw [Nat.zero_add]; exact hnone i hi
      exact ⟨hstop, by rw [← hlength]; exact hresult, hleft⟩
    · obtain ⟨hlen, hstop⟩ := hstopped.counts hcount
      exact ⟨hlen.trans hstop.symm, hlen.trans hlength⟩
  · rintro is rfl
    obtain ⟨flushes, hreaches⟩ := flushSchedules_reaches env ((automation env).run is)
      ((automation env).run is).flushes ((automation env).run is).tasks around organizationId limit
    refine ⟨flushes, hreaches, fun later => ?_⟩
    obtain ⟨js, hjs⟩ := hreaches.run
    intro w'
    have hrun : w' = (automation env).run (js ++ later) := by
      rw [Transition.Machine.run_append, hjs]
    have hdone : done.world.db = ((automation env).run js).db := by
      rw [hjs]
      rfl
    rw [hrun, hdone]
    exact ⟨run_dispatches env js later, fun around' organizationId' limit' request hsent => sent_later hsent⟩

section Sample

open Sample

/-- Jobs rejects every request. -/
def refusing : FlushAround := ⟨conn 0 0, fun _ => ⟨.domain, conn 0 0, conn 0 0⟩⟩

theorem flush_stops_and_resumes_nightly :
    let w := (automation Sample.env).run [atStart, .command (conn 0 0) auth (nightly 60 none)]
    let done := flushSchedules Sample.env refusing "org-1" 10 w
    ∃ d ∈ pendingRows w.db "org-1", done.result = .error (.runtime (.protocolViolation "lenso.jobs@1")) ∧
      pendingRows done.world.db "org-1" = [d.noteFailure "jobs_contract_rejected"] ∧
      (flushSchedules Sample.env refusing "org-1" 1 done.world).sent.head? = requestOf Sample.env d := by
  intro w done
  have hone : (pendingRows w.db "org-1").length = 1 := by decide
  have hformat : ∀ x ∈ pendingRows w.db "org-1", (requestOf Sample.env x).isSome = true := by decide
  obtain ⟨d, hd⟩ := List.length_eq_one_iff.1 hone
  obtain ⟨-, ⟨stop, jobs, left, hstopped, hrefuses, -⟩, -⟩ :=
    flush_stops_and_resumes Sample.env w refusing "org-1" 10 (conn_serves 0 0)
  rw [hd] at hformat hrefuses hstopped
  obtain ⟨-, hresult, hleft, hagain⟩ := hrefuses (fun _ => conn_serves 0 0) 0 d _ _ rfl hformat
    (fun _ h => absurd h (Nat.not_lt_zero _)) rfl
  refine ⟨d, by rw [hd]; exact List.mem_cons_self, hresult, ?_, hagain refusing 1 (conn_serves 0 0) Nat.one_pos⟩
  rw [hstopped.pending, hleft]
  rfl

end Sample

end ProjectAutomation

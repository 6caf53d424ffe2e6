import ProjectAutomation.Progress.Sequence
import ProjectAutomation.Proof.Step
import ProjectAutomation.Spec.Calls

/-!
# A call is a run of the machine

Every whole call can be made of events: the machine comes to the world the call leaves, up
to the flushes and workers it keeps under way (`World.amid`). So whatever holds after every
run holds in the middle of a call and after it.

* `executeActions_reaches`, `settleExecution_reaches`, `settleBatch_reaches`: a worker.
* `flushSchedules_reaches`: a flush.
* `reconcile_reaches`: the whole of `reconcile`.
-/

namespace ProjectAutomation

open Relational Transition

variable {env : Env} {w : World} {flushes : List Flush} {tasks : Uuid × ℕ → Option Task}

/-- The world, with these flushes and workers under way. -/
def World.amid (w : World) (flushes : List Flush) (tasks : Uuid × ℕ → Option Task) : World :=
  { w with flushes, tasks }

theorem session_amid (env : Env) (conn : Connection) :
    (w.amid flushes tasks).session env conn = w.session env conn := rfl

/-- What holds of the database after every run holds of it in the middle of a call. -/
theorem db_of_amid {is : List Event} (hrun : (automation env).run is = w.amid flushes tasks) :
    ((automation env).run is).db = w.db := by
  rw [hrun]
  rfl

theorem transact_amid {α : Type} (body : Tx (Ending α)) :
    (w.amid flushes tasks).transact body = ((w.transact body).1, (w.transact body).2.amid flushes tasks) := rfl

theorem setFlush_amid (k : ℕ) (c : ScheduleDispatch) (phase : FlushPhase) :
    (w.amid flushes tasks).setFlush k c phase = w.amid (flushes.set k ⟨c, phase⟩) tasks := rfl

/-- The worker of a claim has come to a phase. -/
def atPhase (claim : ClaimedExecution) (phase : Phase) (tasks : Uuid × ℕ → Option Task) :
    Uuid × ℕ → Option Task :=
  fun k => if k = Task.key ⟨claim, phase⟩ then some ⟨claim, phase⟩ else tasks k

theorem atPhase_self (claim : ClaimedExecution) (phase : Phase) (tasks : Uuid × ℕ → Option Task) :
    atPhase claim phase tasks (claim.executionId, claim.attempt) = some ⟨claim, phase⟩ := if_pos rfl

theorem atPhase_of_ne {claim : ClaimedExecution} {phase : Phase} {k : Uuid × ℕ}
    (h : k ≠ (claim.executionId, claim.attempt)) : atPhase claim phase tasks k = tasks k := if_neg h

theorem atPhase_atPhase (claim : ClaimedExecution) (phase phase' : Phase) :
    atPhase claim phase' (atPhase claim phase tasks) = atPhase claim phase' tasks := by
  funext k
  unfold atPhase
  split
  · rfl
  · rename_i hk
    exact if_neg hk

/-! ## Workers -/

section Work

variable {claim : ClaimedExecution}

theorem next_status (conn : Connection) (providers : Providers) {index : ℕ}
    (ht : tasks (claim.executionId, claim.attempt) = some ⟨claim, .status index⟩) :
    (automation env).next (w.amid flushes tasks) (.work conn claim.executionId claim.attempt providers) =
      (w.amid flushes tasks).readStatus (w.session env conn) claim index := by
  show World.work env conn claim.executionId claim.attempt providers (w.amid flushes tasks) = _
  unfold World.work
  simp only [World.amid, ht]
  rfl

theorem next_call (conn : Connection) (providers : Providers) {index : ℕ} {key : String}
    (ht : tasks (claim.executionId, claim.attempt) = some ⟨claim, .call index key⟩) :
    (automation env).next (w.amid flushes tasks) (.work conn claim.executionId claim.attempt providers) =
      (w.amid flushes tasks).carryOut providers claim index key := by
  show World.work env conn claim.executionId claim.attempt providers (w.amid flushes tasks) = _
  unfold World.work
  simp only [World.amid, ht]

theorem next_record (conn : Connection) (providers : Providers) {index : ℕ} {outcome : Except String Value}
    (ht : tasks (claim.executionId, claim.attempt) = some ⟨claim, .record index outcome⟩) :
    (automation env).next (w.amid flushes tasks) (.work conn claim.executionId claim.attempt providers) =
      (w.amid flushes tasks).recordOutcome (w.session env conn) claim index outcome := by
  show World.work env conn claim.executionId claim.attempt providers (w.amid flushes tasks) = _
  unfold World.work
  simp only [World.amid, ht]
  rfl

theorem next_finish (conn : Connection) (providers : Providers) {result : Except ActionFailure Unit}
    (ht : tasks (claim.executionId, claim.attempt) = some ⟨claim, .finish result⟩) :
    (automation env).next (w.amid flushes tasks) (.work conn claim.executionId claim.attempt providers) =
      (w.amid flushes tasks).finish (w.session env conn) claim result := by
  show World.work env conn claim.executionId claim.attempt providers (w.amid flushes tasks) = _
  unfold World.work
  simp only [World.amid, ht]
  rfl

/-- The phase a worker is in after its turn with the action at `index`. -/
def afterTurn (index : ℕ) : Except ActionFailure Unit → Phase
  | .ok () => .status (index + 1)
  | .error e => .finish (.error e)

/-- The world after actions were carried out. -/
def World.performed (w : World) (done : Performed) : World :=
  { w with db := done.db, calls := w.calls ++ done.calls }

/-- The action is carried out. -/
theorem next_carried (conn : Connection) (providers : Providers) {index : ℕ} {key : String} {action : Action}
    (ht : tasks (claim.executionId, claim.attempt) = some ⟨claim, .call index key⟩)
    (ha : claim.actions[index]?.bind Action.fromValue = some action) :
    let out := executeAction providers claim.executionId index key claim.payload action
    let records := out.1.map (⟨claim.executionId, claim.attempt, index, action, ·⟩)
    (automation env).next (w.amid flushes tasks) (.work conn claim.executionId claim.attempt providers) =
      World.amid { w with calls := w.calls ++ records } flushes (atPhase claim (afterCall index out.2) tasks) := by
  intro out records
  rw [next_call conn providers ht]
  unfold World.carryOut
  rw [ha]
  show _ = World.amid { w with calls := w.calls ++ out.1.map _ } flushes _
  simp only
  generalize hout : executeAction providers claim.executionId index key claim.payload action = o at *
  obtain ⟨calls, result⟩ := o
  have hcalls : out.1 = calls := congrArg Prod.fst hout
  have hresult : out.2 = result := congrArg Prod.snd hout
  rw [hcalls, hresult]
  cases result with
  | ok response => rfl
  | error e => cases e <;> rfl

/-- The result of an action whose outcome is to be recorded. -/
def outcomeResult : Except String Value → Except ActionFailure Value
  | .ok response => .ok response
  | .error detail => .error (.domain detail)

/-- The outcome of an action is recorded, as the end of a turn has it. -/
theorem recorded_reaches (env : Env) (w : World) (flushes : List Flush) (turn : Turn) (index : ℕ)
    (outcome : Except String Value) (calls : List CallRecord) :
    let done := recordAction (w.session env turn.complete) claim index calls (outcomeResult outcome) w.db
    (automation env).Reaches (w.amid flushes (atPhase claim (.record index outcome) tasks))
      (World.amid { w with db := done.db } flushes (atPhase claim (afterTurn index done.result) tasks)) := by
  intro done
  have ht := atPhase_self claim (.record index outcome) tasks
  refine .one (i := .work turn.complete claim.executionId claim.attempt turn.providers) ?_
  rw [next_record turn.complete turn.providers ht]
  have hdone : done =
    recordAction (w.session env turn.complete) claim index calls (outcomeResult outcome) w.db := rfl
  rw [hdone]
  conv_rhs => rw [← atPhase_atPhase claim (.record index outcome)]
  unfold World.recordOutcome World.transact
  cases outcome with
  | ok response =>
    unfold recordAction outcomeResult
    simp only [World.amid]
    rcases transact (completeAction (w.session env turn.complete) claim.executionId index true (some response)
      none) w.db with ⟨e | u, db'⟩ <;> rfl
  | error detail =>
    unfold recordAction outcomeResult
    simp only [World.amid]
    rcases transact (completeAction (w.session env turn.complete) claim.executionId index false none
      (some detail)) w.db with ⟨e | u, db'⟩ <;> rfl

theorem recordAction_calls (s : Session) (claim : ClaimedExecution) (index : ℕ) (calls : List CallRecord)
    (result : Except ActionFailure Value) (db : Database) :
    (recordAction s claim index calls result db).calls = calls := by
  unfold recordAction
  cases result with
  | ok response => simp only; split <;> rfl
  | error e =>
    cases e with
    | domain detail => simp only; split <;> rfl
    | runtime failure => rfl

/-- A turn from the call on. -/
theorem recordAction_reaches (env : Env) (w : World) (flushes : List Flush) (turn : Turn) {index : ℕ} {key : String}
    {action : Action}
    (ht : tasks (claim.executionId, claim.attempt) = some ⟨claim, .call index key⟩)
    (ha : claim.actions[index]?.bind Action.fromValue = some action) :
    let out := executeAction turn.providers claim.executionId index key claim.payload action
    let records := out.1.map (⟨claim.executionId, claim.attempt, index, action, ·⟩)
    let done := recordAction (w.session env turn.complete) claim index records out.2 w.db
    (automation env).Reaches (w.amid flushes tasks)
      ((w.performed done).amid flushes (atPhase claim (afterTurn index done.result) tasks)) := by
  intro out records done
  have hcalls : done.calls = records := recordAction_calls ..
  refine .head (next_carried turn.complete turn.providers ht ha) ?_
  have hperformed : w.performed done = { w with db := done.db, calls := w.calls ++ records } := by
    unfold World.performed
    rw [hcalls]
  rw [hperformed]
  -- an outcome to record takes one more event
  cases hout : out.2 with
  | ok response =>
    have hdone : done = recordAction (w.session env turn.complete) claim index records (.ok response) w.db := by
      rw [← hout]
    rw [hdone]
    exact recorded_reaches env { w with calls := w.calls ++ records } flushes turn index (.ok response) records
  | error e =>
    cases e with
    | domain detail =>
      have hdone : done =
          recordAction (w.session env turn.complete) claim index records (.error (.domain detail)) w.db := by
        rw [← hout]
      rw [hdone]
      exact recorded_reaches env { w with calls := w.calls ++ records } flushes turn index (.error detail) records
    | runtime failure =>
      have hdone : done =
          recordAction (w.session env turn.complete) claim index records (.error (.runtime failure)) w.db := by
        rw [← hout]
      rw [hdone]
      exact .refl _

/-- **One turn of the loop** is one to three events. -/
theorem performAction_reaches (env : Env) (w : World) (flushes : List Flush) (turn : Turn) {index : ℕ} {value : Value}
    (ht : tasks (claim.executionId, claim.attempt) = some ⟨claim, .status index⟩)
    (hvalue : claim.actions[index]? = some value) :
    let done := performAction (w.session env) turn claim index value w.db
    (automation env).Reaches (w.amid flushes tasks)
      ((w.performed done).amid flushes (atPhase claim (afterTurn index done.result) tasks)) := by
  intro done
  have hlt : index < claim.actions.length := (List.getElem?_eq_some_iff.1 hvalue).1
  refine .head (next_status turn.status turn.providers ht) ?_
  unfold World.readStatus
  rw [if_neg (by omega)]
  by_cases hmax : i32Max < index
  · rw [if_pos hmax]
    have hdone : done = ⟨.error (.domain "too_many_actions"), [], [], w.db⟩ := if_pos hmax
    rw [hdone]
    unfold World.performed
    rw [List.append_nil]
    exact .refl _
  · rw [if_neg hmax]
    have hdone : done = performAction (w.session env) turn claim index value w.db := rfl
    unfold performAction at hdone
    rw [if_neg hmax] at hdone
    unfold World.transact
    simp only [World.amid]
    rcases hstatus : transact (actionStatus (w.session env turn.status) claim.executionId index) w.db with
      ⟨e | ⟨status, key⟩, db'⟩
    · rw [hstatus] at hdone
      rw [hdone]
      unfold World.performed
      rw [List.append_nil]
      exact .refl _
    · rw [hstatus] at hdone
      cases status with
      | succeeded =>
        rw [hdone]
        unfold World.performed
        rw [List.append_nil]
        exact .refl _
      | pending | failed =>
        -- the action is decoded and carried out
        have hself := atPhase_self claim (.call index key) tasks
        cases ha : Action.fromValue value with
        | none =>
          simp only [ha] at hdone
          rw [hdone]
          unfold World.performed
          rw [List.append_nil]
          refine .one (i := .work turn.status claim.executionId claim.attempt turn.providers) ?_
          refine (next_call turn.status turn.providers hself).trans ?_
          unfold World.carryOut
          rw [hvalue, Option.bind_some, ha]
          show World.amid { w with db := db' } flushes (atPhase claim _ (atPhase claim _ tasks)) = _
          rw [atPhase_atPhase]
          rfl
        | some action =>
          simp only [ha] at hdone
          have h := recordAction_reaches env { w with db := db' } flushes turn hself
            (by rw [hvalue, Option.bind_some, ha])
          simp only [atPhase_atPhase] at h
          rw [hdone]
          exact h

/-- **The loop over the actions** is a run of its worker. -/
theorem executeActions_reaches (env : Env) (w : World) (flushes : List Flush) (turns : ℕ → Turn) {index : ℕ}
    {rest : List Value}
    (ht : tasks (claim.executionId, claim.attempt) = some ⟨claim, .status index⟩)
    (hdrop : claim.actions.drop index = rest) :
    let done := executeActions (w.session env) turns claim index rest w.db
    (automation env).Reaches (w.amid flushes tasks)
      ((w.performed done).amid flushes (atPhase claim (.finish done.result) tasks)) := by
  induction rest generalizing index w tasks with
  | nil =>
    intro done
    have hle : claim.actions.length ≤ index := List.drop_eq_nil_iff.1 hdrop
    have hdone : done = ⟨.ok (), [], [], w.db⟩ := rfl
    refine .head (next_status (turns index).status (turns index).providers ht) ?_
    unfold World.readStatus
    rw [if_pos hle, hdone]
    unfold World.performed
    rw [List.append_nil]
    exact .refl _
  | cons value rest ih =>
    intro done
    obtain ⟨hlt, hget, hrest⟩ := Progress.drop_eq_cons hdrop
    have hturn := performAction_reaches env w flushes (turns index) ht hget
    simp only at hturn
    have hdone : done = executeActions (w.session env) turns claim index (value :: rest) w.db := rfl
    unfold executeActions at hdone
    simp only at hdone
    generalize performAction (w.session env) (turns index) claim index value w.db = first at hturn hdone
    cases hres : first.result with
    | error e =>
      rw [hres] at hdone hturn
      rw [hdone, hres]
      exact hturn
    | ok u =>
      rw [hres] at hdone hturn
      refine hturn.trans ?_
      have hgo := ih (w.performed first) (atPhase_self claim (.status (index + 1)) tasks) hrest
      simp only [atPhase_atPhase] at hgo
      have hcalls : w.performed done = (w.performed first).performed
          (executeActions ((w.performed first).session env) turns claim (index + 1) rest (w.performed first).db) := by
        rw [hdone]
        unfold World.performed
        simp only [List.append_assoc]
        rfl
      rw [hcalls, hdone]
      exact hgo

/-- The transaction that ends the loop body of `reconcile`. -/
def finishTx (s : Session) (claim : ClaimedExecution) : Except ActionFailure Unit → Tx (Ending Unit)
  | .ok () => completeExecution s claim true none
  | .error (.domain detail) => completeExecution s claim false (some detail)
  | .error (.runtime _) => releaseExecutionForRetry s claim "dependency_runtime_failure"

/-- What the loop body of `reconcile` comes to. -/
def settledResult : Except ActionFailure Unit → Except StorageError Unit → Except PluginError Bool
  | _, .error e => .error (mapStorage e)
  | .ok (), .ok () => .ok true
  | .error (.domain _), .ok () => .ok false
  | .error (.runtime failure), .ok () => .error (.runtime failure)

/-- **The loop body of `reconcile`**: the actions, and the transaction that ends it. -/
theorem settleExecution_eq (env : Env) (turn : BatchTurn) (claim : ClaimedExecution) (w : World) :
    let done := executeActions (w.session env) turn.actions claim 0 claim.actions w.db
    let finish := (w.performed done).transact (finishTx (w.session env turn.finish) claim done.result)
    settleExecution env turn claim w = ⟨settledResult done.result finish.1, [], finish.2⟩ := by
  intro done finish
  have hrun : runActions env turn.actions claim w = ⟨.ok done.result, [], w.performed done⟩ := rfl
  unfold settleExecution
  rw [Plugin.bind_of_silent hrun]
  have hfinish : (w.performed done).transact (finishTx (w.session env turn.finish) claim done.result) =
    (finish.1, finish.2) := rfl
  clear_value finish
  obtain ⟨r, w'⟩ := finish
  cases hres : done.result with
  | ok u =>
    rw [hres] at hfinish
    simp only
    rw [Plugin.storage_bind hfinish]
    cases r <;> rfl
  | error e =>
    rw [hres] at hfinish
    cases e with
    | domain detail =>
      simp only
      rw [Plugin.storage_bind hfinish]
      cases r <;> rfl
    | runtime failure =>
      simp only
      rw [Plugin.storage_bind hfinish]
      cases r <;> rfl

theorem settleExecution_reaches (env : Env) (w : World) (flushes : List Flush) (turn : BatchTurn)
    (ht : tasks (claim.executionId, claim.attempt) = some ⟨claim, .status 0⟩) :
    (automation env).Reaches (w.amid flushes tasks)
      ((settleExecution env turn claim w).world.amid flushes (atPhase claim .closed tasks)) := by
  have hrun := executeActions_reaches env w flushes turn.actions ht (List.drop_zero (l := claim.actions))
  rw [settleExecution_eq]
  simp only at hrun ⊢
  generalize executeActions (w.session env) turn.actions claim 0 claim.actions w.db = done at hrun ⊢
  refine hrun.trans (.one (i := .work turn.finish claim.executionId claim.attempt (turn.actions 0).providers) ?_)
  rw [next_finish turn.finish _ (atPhase_self claim (.finish done.result) tasks)]
  conv_rhs => rw [← atPhase_atPhase claim (.finish done.result)]
  unfold World.finish
  cases done.result with
  | ok u => rfl
  | error e => cases e <;> rfl

theorem settleBatch_cons_error {turns : ℕ → BatchTurn} {index : ℕ} {rest : List ClaimedExecution} {e : PluginError}
    (h : (settleExecution env (turns index) claim w).result = .error e) :
    settleBatch env turns index (claim :: rest) w =
      ⟨.error e, [], (settleExecution env (turns index) claim w).world⟩ := by
  have hsent : settleExecution env (turns index) claim w =
      ⟨.error e, [], (settleExecution env (turns index) claim w).world⟩ := by
    rw [← h, settleExecution_eq]
  unfold settleBatch
  rw [Plugin.bind_of_error hsent]

theorem settleBatch_cons_ok {turns : ℕ → BatchTurn} {index : ℕ} {rest : List ClaimedExecution} {succeeded : Bool}
    (h : (settleExecution env (turns index) claim w).result = .ok succeeded) :
    (settleBatch env turns index (claim :: rest) w).world =
      (settleBatch env turns (index + 1) rest (settleExecution env (turns index) claim w).world).world := by
  have hsent : settleExecution env (turns index) claim w =
      ⟨.ok succeeded, [], (settleExecution env (turns index) claim w).world⟩ := by
    rw [← h, settleExecution_eq]
  rw [settleBatch, Plugin.bind_of_silent hsent, Plugin.bind_world]
  cases (settleBatch env turns (index + 1) rest (settleExecution env (turns index) claim w).world).result with
  | error e => rfl
  | ok counts => rfl

/-- The worker each claim of a batch has before its first step. -/
def OpenFor (tasks : Uuid × ℕ → Option Task) (claims : List ClaimedExecution) : Prop :=
  ∀ c ∈ claims, tasks (c.executionId, c.attempt) = some ⟨c, .status 0⟩

/-- The executions of the rest of a batch have workers of their own. -/
theorem OpenFor.tail {rest : List ClaimedExecution} {phase : Phase} (h : OpenFor tasks (claim :: rest))
    (hnodup : ((claim :: rest).map ClaimedExecution.executionId).Nodup) :
    OpenFor (atPhase claim phase tasks) rest := by
  obtain ⟨hnotin, -⟩ := List.nodup_cons.1 hnodup
  intro c hc
  rw [atPhase_of_ne]
  · exact h c (List.mem_cons_of_mem _ hc)
  · intro hk
    exact hnotin (List.mem_map.2 ⟨c, hc, congrArg Prod.fst hk⟩)

/-- **The loop of `reconcile`** is a run of its workers. -/
theorem settleBatch_reaches (env : Env) (w : World) (flushes : List Flush) (turns : ℕ → BatchTurn) (index : ℕ)
    {claims : List ClaimedExecution} (hnodup : (claims.map ClaimedExecution.executionId).Nodup)
    (ht : OpenFor tasks claims) :
    ∃ tasks', (automation env).Reaches (w.amid flushes tasks)
      ((settleBatch env turns index claims w).world.amid flushes tasks') := by
  induction claims generalizing w tasks index with
  | nil => exact ⟨tasks, .refl _⟩
  | cons claim rest ih =>
    have hone := settleExecution_reaches env w flushes (turns index) (ht claim List.mem_cons_self)
    cases hres : (settleExecution env (turns index) claim w).result with
    | error e =>
      rw [settleBatch_cons_error hres]
      exact ⟨_, hone⟩
    | ok succeeded =>
      obtain ⟨tasks', hrest⟩ := ih (settleExecution env (turns index) claim w).world (index + 1)
        (List.nodup_cons.1 hnodup).2 (ht.tail hnodup)
      rw [settleBatch_cons_ok hres]
      exact ⟨tasks', hone.trans hrest⟩

/-- Claiming a batch. -/
theorem next_claim (tasks : Uuid × ℕ → Option Task) (env : Env) (w : World) (flushes : List Flush) (conn : Connection)
    (organizationId worker : String) (limit : ℕ) (leaseSeconds : ℤ) (locked : Uuid → Bool) :
    (automation env).next (w.amid flushes tasks)
        (.claimExecutions conn organizationId worker limit leaseSeconds locked) =
      match w.transact (claimExecutions (w.session env conn) organizationId worker limit leaseSeconds locked) with
      | (.ok claims, w') => w'.amid flushes (openTasks claims tasks)
      | (.error _, w') => w'.amid flushes tasks := by
  show World.claimExecutions env conn organizationId worker limit leaseSeconds locked (w.amid flushes tasks) = _
  unfold World.claimExecutions
  simp only [session_amid, transact_amid]
  rcases w.transact (claimExecutions (w.session env conn) organizationId worker limit leaseSeconds locked) with
    ⟨e | claims, w'⟩ <;> rfl

theorem openTasks_openFor {claims : List ClaimedExecution}
    (hnodup : (claims.map ClaimedExecution.executionId).Nodup) : OpenFor (openTasks claims tasks) claims := by
  intro c hc
  unfold openTasks
  cases hf : claims.find? (fun x => Task.key ⟨x, .status 0⟩ = (c.executionId, c.attempt)) with
  | none =>
    have := List.find?_eq_none.1 hf c hc
    simp [Task.key] at this
  | some x =>
    have hk : Task.key ⟨x, .status 0⟩ = (c.executionId, c.attempt) := by simpa using List.find?_some hf
    have hx : x = c := List.inj_on_of_nodup_map hnodup (List.mem_of_find?_eq_some hf) hc (congrArg Prod.fst hk)
    rw [hx]

/-- The claims of a batch are of the executions it leased, in order. -/
theorem LeasedAll.ids {s : Session} {worker : String} {leaseSeconds : ℤ} {rows : List (ExecutionRow × Value)}
    {claims : List ClaimedExecution} {db db' : Database}
    (h : LeasedAll s worker leaseSeconds rows claims db db') :
    claims.map ClaimedExecution.executionId = rows.map (fun c => c.1.executionId) := by
  induction h with
  | nil => rfl
  | cons _ _ _ _ ih => rw [List.map_cons, List.map_cons, ih]; rfl

end Work

/-! ## Flushes -/

section Flushing

variable {c : ScheduleDispatch} {k : ℕ}

/-- The next step of the flush with a copy. -/
theorem next_flush (tasks : Uuid × ℕ → Option Task) (c : ScheduleDispatch) (env : Env) (w : World)
    (conn : Connection) (answer : EnqueueAnswer) (phase : FlushPhase) (hk : k < flushes.length) :
    (automation env).next (w.amid (flushes.set k ⟨c, phase⟩) tasks) (.flush conn k answer) =
      match phase with
      | .enqueue => (w.amid (flushes.set k ⟨c, .enqueue⟩) tasks).enqueue env k c answer
      | .mark jobId =>
        let done := w.transact (markDispatchEnqueued (w.session env conn) c jobId)
        done.2.amid (flushes.set k ⟨c, match done.1 with | .ok false => .noteCancelled jobId | _ => .closed⟩) tasks
      | .noteCancelled jobId =>
        (w.transact (recordCancelledEnqueue (w.session env conn) c jobId)).2.amid (flushes.set k ⟨c, .closed⟩) tasks
      | .noteFailure failure =>
        (w.transact (recordDispatchFailure (w.session env conn) c failure)).2.amid (flushes.set k ⟨c, .closed⟩) tasks
      | .closed => w.amid (flushes.set k ⟨c, .closed⟩) tasks := by
  have hget : (w.amid (flushes.set k ⟨c, phase⟩) tasks).flushes[k]? = some ⟨c, phase⟩ :=
    List.getElem?_set_self hk
  show World.flush env conn k answer (w.amid (flushes.set k ⟨c, phase⟩) tasks) = _
  unfold World.flush
  rw [hget]
  cases phase with
  | enqueue => rfl
  | closed => rfl
  | mark jobId => exact congrArg (fun phases => World.amid _ phases tasks) (List.set_set _)
  | noteCancelled jobId =>
    simp only [session_amid, transact_amid, setFlush_amid, List.set_set]
  | noteFailure failure =>
    simp only [session_amid, transact_amid, setFlush_amid, List.set_set]

/-- The answer of Jobs, as the event has it. -/
def JobsAnswer.event : JobsAnswer → EnqueueAnswer
  | .ok jobId => .ok jobId
  | .lost jobId _ => .lost jobId
  | .runtime _ => .runtime
  | .domain => .domain

theorem markEnqueued_reaches (env : Env) (w : World) (tasks : Uuid × ℕ → Option Task) (turn : FlushTurn)
    (c : ScheduleDispatch) (jobId : String) (hk : k < flushes.length) :
    ∃ phase, (automation env).Reaches (w.amid (flushes.set k ⟨c, .mark jobId⟩) tasks)
      ((markEnqueued env turn c jobId w).world.amid (flushes.set k ⟨c, phase⟩) tasks) := by
  have hmark := next_flush tasks c env w turn.mark .runtime (.mark jobId) hk
  simp only at hmark
  rcases hdone : w.transact (markDispatchEnqueued (w.session env turn.mark) c jobId) with ⟨e | recorded, w'⟩
  · unfold markEnqueued flushStorage
    rw [Plugin.storage_bind hdone]
    rw [hdone] at hmark
    exact ⟨_, .one hmark⟩
  · unfold markEnqueued flushStorage
    rw [Plugin.storage_bind hdone]
    rw [hdone] at hmark
    cases recorded with
    | true => exact ⟨_, .one hmark⟩
    | false =>
      -- no row was pending: the second statement follows
      have hnote := next_flush tasks c env w' turn.note .runtime (.noteCancelled jobId) hk
      simp only at hnote
      refine ⟨.closed, .head hmark (.one (hnote.trans ?_))⟩
      simp only [Bool.false_eq_true, if_false]
      rcases hdone' : w'.transact (recordCancelledEnqueue (w'.session env turn.note) c jobId) with ⟨e | u, w''⟩
      · rw [Plugin.storage_bind hdone']
      · rw [Plugin.storage_bind hdone']
        rfl

theorem abandonFlush_reaches (env : Env) (w : World) (tasks : Uuid × ℕ → Option Task) (turn : FlushTurn)
    (c : ScheduleDispatch) (noted : String) (failure : RuntimeFailure) (hk : k < flushes.length) :
    (automation env).Reaches (w.amid (flushes.set k ⟨c, .noteFailure noted⟩) tasks)
      ((abandonFlush env turn c noted failure w).world.amid (flushes.set k ⟨c, .closed⟩) tasks) := by
  have hnote := next_flush tasks c env w turn.mark .runtime (.noteFailure noted) hk
  simp only at hnote
  refine .one (hnote.trans ?_)
  unfold abandonFlush flushStorage
  rcases hdone : w.transact (recordDispatchFailure (w.session env turn.mark) c noted) with ⟨e | u, w'⟩
  · rw [Plugin.storage_bind hdone]
  · rw [Plugin.storage_bind hdone]
    rfl

/-- **The loop body of `flush_schedules`** is a run of its flush. -/
theorem flushDispatch_reaches (env : Env) (w : World) (tasks : Uuid × ℕ → Option Task) (turn : FlushTurn)
    (ht : flushes[k]? = some ⟨c, .enqueue⟩) :
    ∃ phase, (automation env).Reaches (w.amid flushes tasks)
      ((flushDispatch env turn c w).world.amid (flushes.set k ⟨c, phase⟩) tasks) := by
  have hk : k < flushes.length := (List.getElem?_eq_some_iff.1 ht).1
  have hself : flushes.set k ⟨c, .enqueue⟩ = flushes := by
    apply List.ext_getElem?
    intro j
    rw [List.getElem?_set]
    split
    · rename_i hj
      subst hj
      rw [ht]
    · rfl
  have hfirst := next_flush tasks c env w turn.mark turn.answer.event .enqueue hk
  rw [hself] at hfirst
  simp only at hfirst
  unfold World.enqueue at hfirst
  unfold flushDispatch
  cases hformat : env.formatRfc3339 c.scheduledFor with
  | none =>
    rw [hformat] at hfirst
    exact ⟨.closed, .one hfirst⟩
  | some availableAt =>
    rw [hformat] at hfirst
    simp only at hfirst ⊢
    rw [Plugin.bind_world]
    generalize turn.answer = answer at hfirst ⊢
    -- what the call of Jobs leaves, and then what is written of its answer
    cases answer with
    | ok jobId =>
      let taken := takeJob w.jobs (enqueueRequest env c availableAt) jobId
      obtain ⟨phase, hmark⟩ := markEnqueued_reaches env
        { w with jobs := taken.2, acknowledged := taken.1 :: w.acknowledged } tasks turn c taken.1.jobId hk
      exact ⟨phase, .head hfirst hmark⟩
    | lost jobId failure =>
      let taken := takeJob w.jobs (enqueueRequest env c availableAt) jobId
      exact ⟨.closed, .head hfirst
        (abandonFlush_reaches env { w with jobs := taken.2 } tasks turn c "jobs_runtime_failure" failure hk)⟩
    | runtime failure =>
      exact ⟨.closed, .head hfirst
        (abandonFlush_reaches env w tasks turn c "jobs_runtime_failure" failure hk)⟩
    | domain =>
      exact ⟨.closed, .head hfirst (abandonFlush_reaches env w tasks turn c "jobs_contract_rejected"
        (.protocolViolation "lenso.jobs@1") hk)⟩

theorem flushDispatches_reaches (env : Env) (w : World) (tasks : Uuid × ℕ → Option Task) (turns : ℕ → FlushTurn)
    (index base : ℕ) {copies : List ScheduleDispatch}
    (ht : ∀ j c, copies[j]? = some c → flushes[base + j]? = some ⟨c, .enqueue⟩) :
    ∃ flushes', (automation env).Reaches (w.amid flushes tasks)
      ((flushDispatches env turns index copies w).world.amid flushes' tasks) := by
  induction copies generalizing w flushes index base with
  | nil => exact ⟨flushes, .refl _⟩
  | cons c rest ih =>
    obtain ⟨phase, hone⟩ := flushDispatch_reaches env w tasks (turns index) (ht 0 c rfl)
    unfold flushDispatches
    rw [Plugin.bind_world]
    cases (flushDispatch env (turns index) c w).result with
    | error e => exact ⟨_, hone⟩
    | ok recorded =>
      have hrest : ∀ j c', rest[j]? = some c' →
          (flushes.set (base + 0) ⟨c, phase⟩)[base + 1 + j]? = some ⟨c', .enqueue⟩ := by
        intro j c' hj
        rw [List.getElem?_set_ne (by omega), Nat.add_assoc, Nat.add_comm 1 j]
        exact ht (j + 1) c' hj
      obtain ⟨flushes', hgo⟩ := ih (flushDispatch env (turns index) c w).world (index + 1) (base + 1) hrest
      refine ⟨flushes', hone.trans ?_⟩
      simp only
      rw [Plugin.bind_world]
      cases (flushDispatches env turns (index + 1) rest (flushDispatch env (turns index) c w).world).result with
      | error e => exact hgo
      | ok count => exact hgo

/-- **`flush_schedules`** is a run of the flushes it takes up. -/
theorem flushSchedules_reaches (env : Env) (w : World) (flushes : List Flush) (tasks : Uuid × ℕ → Option Task)
    (around : FlushAround) (organizationId : String) (limit : ℕ) :
    ∃ flushes', (automation env).Reaches (w.amid flushes tasks)
      ((flushSchedules env around organizationId limit w).world.amid flushes' tasks) := by
  have hfirst : (automation env).next (w.amid flushes tasks) (.pendingDispatches around.pending organizationId limit) =
      (w.amid flushes tasks).pendingDispatches env around.pending organizationId limit := rfl
  unfold World.pendingDispatches at hfirst
  rw [session_amid, transact_amid] at hfirst
  unfold flushSchedules flushStorage
  rcases hdone : w.transact (pendingDispatches (w.session env around.pending) organizationId limit) with
    ⟨e | copies, w'⟩
  · rw [hdone] at hfirst
    rw [Plugin.storage_bind hdone]
    exact ⟨flushes, .one hfirst⟩
  · rw [hdone] at hfirst
    rw [Plugin.storage_bind hdone]
    -- the copies follow the flushes that were under way
    have hat : ∀ j c, copies[j]? = some c →
        (flushes ++ copies.map (⟨·, .enqueue⟩) : List Flush)[flushes.length + j]? = some ⟨c, .enqueue⟩ := by
      intro j c hj
      rw [List.getElem?_append_right (by omega), Nat.add_sub_cancel_left, List.getElem?_map, hj]
      rfl
    obtain ⟨flushes', hgo⟩ := flushDispatches_reaches env w' tasks around.turns 0 flushes.length hat
    exact ⟨flushes', .head hfirst hgo⟩

end Flushing

/-! ## What a part of a call leaves alone -/

section Keeps

variable {α β γ : Type} {p : Database → γ}

/-- A part of a call leaves a reading of the schema as it was. -/
def Plugin.Keeps (p : Database → γ) (x : Plugin α) : Prop := ∀ w, p (x w).world.db = p w.db

theorem Plugin.Keeps.bind {x : Plugin α} {f : α → Plugin β} (hx : x.Keeps p) (hf : ∀ a, (f a).Keeps p) :
    (x >>= f).Keeps p := by
  intro w
  rw [Plugin.bind_world]
  cases (x w).result with
  | error e => exact hx w
  | ok a => exact (hf a _).trans (hx w)

theorem Plugin.Keeps.pure (a : α) : (Pure.pure a : Plugin α).Keeps p := fun _ => rfl

theorem Plugin.Keeps.fail (e : PluginError) : (Plugin.fail e : Plugin α).Keeps p := fun _ => rfl

theorem Plugin.Keeps.storage {conn : Connection} {map : StorageError → PluginError} {body : Session → Tx (Ending α)}
    (h : ∀ s db ending a db', body s db = .ok (ending, db') → ending.committed = some a → p db' = p db) :
    (Plugin.storage env conn map body).Keeps p := by
  intro w
  show p (w.transact (body (w.session env conn))).2.db = p w.db
  rcases w.transact_snd_cases (body (w.session env conn)) with hw | ⟨ending, a, db', hb, hc, hw⟩
  · rw [hw]
  · rw [hw]
    exact h _ _ _ _ _ hb hc

/-- What a flush does not read or write: all but the dispatches. -/
def Database.flushed (db : Database) : Database := { db with dispatches := .empty }

/-- A statement that writes the dispatches leaves the other tables as they were. -/
theorem flushed_of_write {s : Session} {operation : String} {write : Database → Table DispatchRow.key}
    {f : Database → α} {db db' : Database} {ending : Ending α}
    (h : (s.statement operation >>= fun _ => get >>= fun db => set { db with dispatches := write db } >>= fun _ =>
      (Pure.pure (.commit (f db)) : Tx (Ending α))) db = .ok (ending, db')) : db'.flushed = db.flushed := by
  rw [statement_bind_eq_ok, Txn.get_bind, Txn.set_bind, Txn.pure_eq_ok] at h
  cases h.2
  rfl

theorem flushDispatch_keeps (turn : FlushTurn) (c : ScheduleDispatch) :
    (flushDispatch env turn c).Keeps Database.flushed := by
  unfold flushDispatch
  cases env.formatRfc3339 c.scheduledFor with
  | none => exact .fail _
  | some availableAt =>
    refine .bind (fun w => ?_) fun answered => ?_
    · unfold enqueue
      cases turn.answer <;> rfl
    · cases answered with
      | ok jobId =>
        refine .bind (.storage fun _ _ _ _ _ h _ => flushed_of_write h) fun recorded => ?_
        cases recorded with
        | true => exact .pure _
        | false => exact .bind (.storage fun _ _ _ _ _ h _ => flushed_of_write h) fun _ => .pure _
      | error failed => exact .bind (.storage fun _ _ _ _ _ h _ => flushed_of_write h) fun _ => .fail _

theorem flushDispatches_keeps (turns : ℕ → FlushTurn) (index : ℕ) (copies : List ScheduleDispatch) :
    (flushDispatches env turns index copies).Keeps Database.flushed := by
  induction copies generalizing index with
  | nil => exact .pure _
  | cons c rest ih => exact .bind (flushDispatch_keeps _ _) fun _ => .bind (ih (index + 1)) fun _ => .pure _

theorem flushSchedules_keeps (around : FlushAround) (organizationId : String) (limit : ℕ) :
    (flushSchedules env around organizationId limit).Keeps Database.flushed := by
  refine .bind (.storage fun s db ending a db' h _ => ?_) fun copies => flushDispatches_keeps _ _ _
  obtain ⟨_, he, -⟩ := pendingDispatches_ok h
  cases he
  rfl

end Keeps

/-! ## The whole call -/

/-- The executions a run of `claim_executions` leased. -/
def claimedOf : Except StorageError (Ending (List ClaimedExecution) × Database) → List ClaimedExecution
  | .error _ => []
  | .ok (ending, _) => ending.committed.getD []

/-- The executions a call of `reconcile` claims, whether or not it is told of them. -/
def claimedBy (env : Env) (around : Around) (organizationId worker : String) (limit : ℕ) (leaseSeconds : ℤ)
    (w : World) : List ClaimedExecution :=
  let before := flushSchedules env around.before organizationId limit w
  match before.result with
  | .error _ => []
  | .ok _ => claimedOf (claimExecutions (before.world.session env around.claim) organizationId worker limit
    leaseSeconds around.locked before.world.db)

theorem pendingDispatchCount_world (env : Env) (w : World) (conn : Connection) (organizationId : String) :
    (w.transact (pendingDispatchCount (w.session env conn) organizationId)).2 = w := by
  rcases w.transact_snd_cases (pendingDispatchCount (w.session env conn) organizationId) with
    h | ⟨ending, a, db', hb, hc, -⟩
  · exact h
  · unfold pendingDispatchCount at hb
    rw [statement_bind_eq_ok, Txn.get_bind, Txn.pure_eq_ok] at hb
    cases hb.2
    cases hc

/-- The rest of `reconcile`, once its batch is settled. -/
theorem reconcile_after_reaches (env : Env) (w : World) (flushes : List Flush) (tasks : Uuid × ℕ → Option Task)
    (around : Around) (organizationId : String) (limit : ℕ) (response : ℕ → ℕ → ReconcileResponse) :
    ∃ flushes', (automation env).Reaches (w.amid flushes tasks) (World.amid
      (((flushSchedules env around.after organizationId limit) >>= fun after =>
        (Plugin.storage env around.count mapStorage (pendingDispatchCount · organizationId)) >>= fun pending =>
          pure (response after pending)) w).world flushes' tasks) := by
  obtain ⟨flushes', hflush⟩ := flushSchedules_reaches env w flushes tasks around.after organizationId limit
  refine ⟨flushes', ?_⟩
  rw [Plugin.bind_world]
  cases (flushSchedules env around.after organizationId limit w).result with
  | error e => exact hflush
  | ok after =>
    have hcount := pendingDispatchCount_world env (flushSchedules env around.after organizationId limit w).world
      around.count organizationId
    simp only
    rcases hdone : (flushSchedules env around.after organizationId limit w).world.transact
      (pendingDispatchCount (World.session env around.count
        (flushSchedules env around.after organizationId limit w).world) organizationId) with ⟨e | n, w'⟩
    · rw [Plugin.storage_bind hdone]
      rw [hdone] at hcount
      simp only at hcount ⊢
      rw [hcount]
      exact hflush
    · rw [Plugin.storage_bind hdone]
      rw [hdone] at hcount
      simp only at hcount ⊢
      rw [hcount]
      exact hflush

/-- The executions a batch claims are distinct, and each is one `LeasedAll` leased. -/
theorem claims_nodup {s : Session} {organizationId worker : String} {limit : ℕ} {leaseSeconds : ℤ}
    {locked : Uuid → Bool} {w w' : World} {claims : List ClaimedExecution}
    (h : w.transact (claimExecutions s organizationId worker limit leaseSeconds locked) = (.ok claims, w')) :
    (claims.map ClaimedExecution.executionId).Nodup ∧ ∃ rows, w' = { w with db := w'.db } ∧
      Candidates w.db organizationId s.transactionTimestamp rows ∧
      LeasedAll s worker leaseSeconds rows claims w.db w'.db := by
  rcases w.transact_cases (claimExecutions s organizationId worker limit leaseSeconds locked) with
    ⟨e, -, he⟩ | ⟨a, db', hb, he⟩ | ⟨ending, a, db', hb, -, he⟩
  · rw [he] at h; cases h
  · obtain ⟨rows, claims', hend, -, -⟩ := claimExecutions_ok hb
    cases hend.value
  · rw [he] at h
    obtain ⟨hanswer, rfl⟩ := Prod.mk.inj h
    obtain ⟨rows, claims', hend, hl, hc⟩ := claimExecutions_ok hb
    cases Ending.answer_eq_ok hend.value hanswer
    refine ⟨?_, rows, rfl, hc, hl⟩
    rw [hl.ids]
    exact hc.nodup

/-- A caller whose answer arrives is told of all it claimed. -/
theorem claimedOf_transact {s : Session} {organizationId worker : String} {limit : ℕ} {leaseSeconds : ℤ}
    {locked : Uuid → Bool} {w w' : World} {told : Except StorageError (List ClaimedExecution)}
    (hanswers : s.Answers)
    (h : w.transact (claimExecutions s organizationId worker limit leaseSeconds locked) = (told, w')) :
    claimedOf (claimExecutions s organizationId worker limit leaseSeconds locked w.db) =
      match told with
      | .error _ => []
      | .ok claims => claims := by
  rcases w.transact_cases (claimExecutions s organizationId worker limit leaseSeconds locked) with
    ⟨e, hb, he⟩ | ⟨a, db', hb, -⟩ | ⟨ending, a, db', hb, -, he⟩
  · rw [he] at h
    obtain ⟨rfl, -⟩ := Prod.mk.inj h
    rw [hb]
    rfl
  · obtain ⟨rows, claims', hend, -, -⟩ := claimExecutions_ok hb
    cases hend.value
  · obtain ⟨rows, claims', hend, -, -⟩ := claimExecutions_ok hb
    cases hend.eq_commit hanswers
    rw [he] at h
    obtain ⟨rfl, -⟩ := Prod.mk.inj h
    rw [hb]
    rfl

/-- **A call of `reconcile` is a run of the machine.** -/
theorem reconcile_reaches (env : Env) (w : World) (flushes : List Flush) (tasks : Uuid × ℕ → Option Task)
    (around : Around) (organizationId worker : String) (limit : ℕ) (leaseSeconds : ℤ) :
    ∃ flushes' tasks', (automation env).Reaches (w.amid flushes tasks)
      ((reconcile env around organizationId worker limit leaseSeconds w).world.amid flushes' tasks') := by
  obtain ⟨flushes₁, hbefore⟩ := flushSchedules_reaches env w flushes tasks around.before organizationId limit
  unfold reconcile
  rw [Plugin.bind_world]
  cases (flushSchedules env around.before organizationId limit w).result with
  | error e => exact ⟨flushes₁, tasks, hbefore⟩
  | ok before =>
    simp only
    generalize (flushSchedules env around.before organizationId limit w).world = w₀ at hbefore ⊢
    have hclaim := next_claim tasks env w₀ flushes₁ around.claim organizationId worker limit leaseSeconds
      around.locked
    rcases hdone : w₀.transact (claimExecutions (w₀.session env around.claim) organizationId worker limit
      leaseSeconds around.locked) with ⟨e | claims, w₁⟩
    · rw [hdone] at hclaim
      rw [Plugin.storage_bind hdone]
      exact ⟨flushes₁, tasks, hbefore.trans (.one hclaim)⟩
    · rw [hdone] at hclaim
      rw [Plugin.storage_bind hdone]
      have hnodup := (claims_nodup hdone).1
      obtain ⟨tasks', hbatch⟩ := settleBatch_reaches env w₁ flushes₁ around.batch 0 hnodup (openTasks_openFor hnodup)
      have hgo := hbefore.trans (.head hclaim hbatch)
      simp only
      rw [Plugin.bind_world]
      cases (settleBatch env around.batch 0 claims w₁).result with
      | error e => exact ⟨flushes₁, tasks', hgo⟩
      | ok counts =>
        obtain ⟨flushes', hafter⟩ := reconcile_after_reaches env (settleBatch env around.batch 0 claims w₁).world
          flushes₁ tasks' around organizationId limit
          (fun after pending => ⟨claims.length, counts.2, before + after, pending, counts.1⟩)
        exact ⟨flushes', tasks', hgo.trans hafter⟩

end ProjectAutomation

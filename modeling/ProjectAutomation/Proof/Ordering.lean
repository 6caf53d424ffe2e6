import ProjectAutomation.Proof.Structure
import ProjectAutomation.Spec.Sample

/-!
# Actions are carried out in order

The workers of an execution may be many and slow, and a receipt may be written by any of them. Still:

* `actions_in_order`: no action is carried out before every earlier one was, with success.
* `ends_earned`: an execution that succeeded had every action carried out with success, and one that
  failed had its actions carried out up to one that was refused.

`Earned` says what receipts, workers and executions rely on; `step_earned` is its step lemma.
-/

namespace ProjectAutomation

open Relational

variable {env : Env} {w w' : World} {event : Event} {executionId : Uuid} {index : ℕ}

/-- The event carries an action of an execution out, and comes to `result`. -/
def CarriesOut (executionId : Uuid) (index : ℕ) (result : Except ActionFailure Value) (w : World)
    (event : Event) : Prop :=
  ∃ conn attempt providers claim key action, event = .work conn executionId attempt providers ∧
    w.tasks (executionId, attempt) = some ⟨claim, .call index key⟩ ∧
    claim.actions[index]?.bind Action.fromValue = some action ∧
    (executeAction providers claim.executionId index key claim.payload action).2 = result

/-- The action was carried out with success. -/
def Achieved (env : Env) (events : List Event) (executionId : Uuid) (index : ℕ) : Prop :=
  (automation env).Happened (fun w event => ∃ response, CarriesOut executionId index (.ok response) w event) events

/-- The action was refused. -/
def RefusedAt (env : Env) (events : List Event) (executionId : Uuid) (index : ℕ) : Prop :=
  (automation env).Happened
    (fun w event => ∃ detail, CarriesOut executionId index (.error (.domain detail)) w event) events

/-! ## What the state relies on -/

section Earned

variable {achieved achieved' refused refused' : Uuid → ℕ → Prop}

/-- What the phase of a worker relies on. -/
def PhaseEarned (achieved refused : Uuid → ℕ → Prop) (executionId : Uuid) (length : ℕ) : Phase → Prop
  | .status index => ∀ i < index, achieved executionId i
  | .call index _ => index < length ∧ ∀ i < index, achieved executionId i
  | .record index (.ok _) => index < length ∧ ∀ i < index + 1, achieved executionId i
  | .record index (.error _) =>
    index < length ∧ (∀ i < index, achieved executionId i) ∧ refused executionId index
  | .finish (.ok ()) => ∀ i < length, achieved executionId i
  | .finish (.error (.domain _)) =>
    ∃ k < length, (∀ i < k, achieved executionId i) ∧ refused executionId k
  | .finish (.error (.runtime _)) | .closed => True

/-- What receipts, workers and ended executions rely on. -/
structure Earned (achieved refused : Uuid → ℕ → Prop) (w : World) : Prop where
  receipts : ∀ r ∈ w.db.receipts, r.status = .succeeded → achieved r.executionId r.actionIndex
  tasks : ∀ k t, w.tasks k = some t →
    PhaseEarned achieved refused t.claim.executionId t.claim.actions.length t.phase
  succeeded : ∀ e ∈ w.db.executions, e.status = .succeeded → ∀ i < e.steps.length, achieved e.executionId i
  failed : ∀ e ∈ w.db.executions, e.status = .failed →
    ∃ k < e.steps.length, (∀ i < k, achieved e.executionId i) ∧ refused e.executionId k

theorem PhaseEarned.mono {length : ℕ} {phase : Phase} (ha : ∀ id i, achieved id i → achieved' id i)
    (hr : ∀ id i, refused id i → refused' id i) (h : PhaseEarned achieved refused executionId length phase) :
    PhaseEarned achieved' refused' executionId length phase := by
  match phase, h with
  | .status _, h => exact fun i hi => ha _ i (h i hi)
  | .call _ _, h => exact ⟨h.1, fun i hi => ha _ i (h.2 i hi)⟩
  | .record _ (.ok _), h => exact ⟨h.1, fun i hi => ha _ i (h.2 i hi)⟩
  | .record _ (.error _), h => exact ⟨h.1, fun i hi => ha _ i (h.2.1 i hi), hr _ _ h.2.2⟩
  | .finish (.ok ()), h => exact fun i hi => ha _ i (h i hi)
  | .finish (.error (.domain _)), ⟨k, hk, hbelow, hat⟩ => exact ⟨k, hk, fun i hi => ha _ i (hbelow i hi), hr _ _ hat⟩
  | .finish (.error (.runtime _)), _ | .closed, _ => trivial

theorem Earned.mono (ha : ∀ id i, achieved id i → achieved' id i) (hr : ∀ id i, refused id i → refused' id i)
    (h : Earned achieved refused w) : Earned achieved' refused' w := by
  refine ⟨fun r hm hs => ha _ _ (h.receipts r hm hs), fun k t ht => (h.tasks k t ht).mono ha hr,
    fun e he hs i hi => ha _ i (h.succeeded e he hs i hi), fun e he hs => ?_⟩
  obtain ⟨k, hk, hbelow, hat⟩ := h.failed e he hs
  exact ⟨k, hk, fun i hi => ha _ i (hbelow i hi), hr _ _ hat⟩

theorem Earned.init : Earned achieved refused World.init :=
  ⟨fun r hr => absurd hr (Table.not_mem_empty r), fun k t ht => (by cases ht),
    fun e he => absurd he (Table.not_mem_empty e), fun e he => absurd he (Table.not_mem_empty e)⟩

/-- A step that leaves the executions alone and moves one worker. -/
theorem Earned.work {claim : ClaimedExecution} {phase phase' : Phase} {k : Uuid × ℕ} (hi : Earned achieved refused w)
    (h₀ : w.tasks k = some ⟨claim, phase⟩) (he : w'.db.executions = w.db.executions)
    (hre : ∀ r ∈ w'.db.receipts, r.status = .succeeded → achieved r.executionId r.actionIndex)
    (ht : w'.tasks = (w.setTask claim phase').tasks)
    (hnext : PhaseEarned achieved refused claim.executionId claim.actions.length phase →
      PhaseEarned achieved refused claim.executionId claim.actions.length phase') :
    Earned achieved refused w' := by
  refine ⟨hre, fun k' t ht' => ?_, he ▸ hi.succeeded, he ▸ hi.failed⟩
  rw [ht] at ht'
  simp only [World.setTask] at ht'
  split at ht'
  · cases ht'
    exact hnext (hi.tasks _ _ h₀)
  · exact hi.tasks k' t ht'

/-- Receipts opened by an intake are pending. -/
theorem Earned.intake {s : Session} {trigger : TriggerRow} {es : List ExecutionRow}
    (hi : Earned achieved refused w) (h : Intake s trigger es w.db w'.db) (ht : w'.tasks = w.tasks) :
    Earned achieved refused w' := by
  have hopened : ∀ e ∈ es, e.status = .pending := by
    intro e he
    obtain ⟨rule, -, -, -, -, ho⟩ := h.opened e he
    rw [ho.row]
    rfl
  refine ⟨fun r hr hs => ?_, ht ▸ hi.tasks, fun e he hs => ?_, fun e he hs => ?_⟩
  · rcases h.mem_receipts.1 hr with hr | ⟨e, -, hr⟩
    · exact hi.receipts r hr hs
    · obtain ⟨j, action, -, rfl⟩ := mem_openReceipts.1 hr
      cases hs
  · rcases h.mem_executions.1 he with he | he
    · exact hi.succeeded e he hs
    · rw [hopened e he] at hs
      cases hs
  · rcases h.mem_executions.1 he with he | he
    · exact hi.failed e he hs
    · rw [hopened e he] at hs
      cases hs

/-- Claiming: the new workers rely on nothing. -/
theorem Earned.claimed {s : Session} {worker : String} {leaseSeconds : ℤ} {rows : List (ExecutionRow × Value)}
    {claims told : List ClaimedExecution} {db' : Database} (hi : Earned achieved refused w)
    (hl : LeasedAll s worker leaseSeconds rows claims w.db db') :
    Earned achieved refused { w with db := db', tasks := openTasks told w.tasks } := by
  have hold : ∀ e ∈ db'.executions, e ∈ w.db.executions ∨ e.status = .running := by
    intro e he
    rcases hl.executions_cases he with ⟨he, -⟩ | ⟨c, -, rfl⟩
    · exact Or.inl he
    · exact Or.inr rfl
  refine ⟨?_, fun k t ht => ?_, fun e he hs => ?_, fun e he hs => ?_⟩
  · simp only
    rw [hl.frame.2.2.2.1]
    exact hi.receipts
  · simp only [openTasks] at ht
    split at ht
    · cases ht
      exact fun i hi => absurd hi (Nat.not_lt_zero i)
    · exact hi.tasks k t ht
  · rcases hold e he with he | hrun
    · exact hi.succeeded e he hs
    · rw [hrun] at hs
      cases hs
  · rcases hold e he with he | hrun
    · exact hi.failed e he hs
    · rw [hrun] at hs
      cases hs

/-- Giving a lease up: the execution ends as its worker found it. -/
theorem Earned.left {s : Session} {claim : ClaimedExecution} {result : Except ActionFailure Unit} {k : Uuid × ℕ}
    {status : ExecutionStatus} {attemptStatus : AttemptStatus} {failure : Option String} {e : ExecutionRow}
    {db db₁ : Database} (hr : RefsOK env w) (hi : Earned achieved refused w)
    (h₀ : w.tasks k = some ⟨claim, .finish result⟩)
    (hleft : Left s claim status attemptStatus failure e w.db db₁) (hex : db.executions = db₁.executions)
    (hre : db.receipts = db₁.receipts)
    (hstatus : status = .pending ∨ (status = .succeeded ∧ result = .ok ()) ∨
      status = .failed ∧ ∃ detail, result = .error (.domain detail)) :
    Earned achieved refused (World.setTask claim .closed { w with db }) := by
  obtain ⟨hid, -⟩ := heldBy_iff.1 hleft.held
  have hphase := hi.tasks _ _ h₀
  obtain ⟨x, hx, hxid, -, -, hsteps, -⟩ := (hr.tasks _ _ h₀).2.execution
  obtain rfl : x = e := Table.eq_of_key hx hleft.there (hxid.trans hid.symm)
  have hcases : ∀ y ∈ db.executions, y = x.leave status failure s.transactionTimestamp ∨ y ∈ w.db.executions := by
    intro y hy
    rw [hex] at hy
    exact (hleft.executions.cases hy).imp id And.left
  refine ⟨?_, fun k' t ht => ?_, fun y hy hs => ?_, fun y hy hs => ?_⟩
  · show ∀ r ∈ db.receipts, _
    rw [hre, hleft.receipts]
    exact hi.receipts
  · simp only [World.setTask] at ht
    split at ht
    · cases ht
      trivial
    · exact hi.tasks k' t ht
  · rcases hcases y hy with rfl | hy
    · have hs : status = .succeeded := hs
      rcases hstatus with rfl | ⟨-, rfl⟩ | ⟨rfl, -⟩
      · cases hs
      · show ∀ i < x.steps.length, achieved x.executionId i
        rw [hsteps, hxid]
        exact hphase
      · cases hs
    · exact hi.succeeded y hy hs
  · rcases hcases y hy with rfl | hy
    · have hs : status = .failed := hs
      rcases hstatus with rfl | ⟨rfl, -⟩ | ⟨-, detail, rfl⟩
      · cases hs
      · cases hs
      · show ∃ k < x.steps.length, (∀ i < k, achieved x.executionId i) ∧ refused x.executionId k
        rw [hsteps, hxid]
        exact hphase
    · exact hi.failed y hy hs

/-- **Every step keeps what the state relies on**, when what it carries out counts. -/
theorem step_earned (hr : RefsOK env w) (h : Step env w event w')
    (hachieve : ∀ {id i response}, CarriesOut id i (.ok response) w event → achieved id i)
    (hrefuse : ∀ {id i detail}, CarriesOut id i (.error (.domain detail)) w event → refused id i)
    (hi : Earned achieved refused w) : Earned achieved refused w' := by
  cases h with
  | idle | tick | pendingDispatches | enqueued | lost | flushEnds | marked | noted | failed =>
    exact ⟨hi.receipts, hi.tasks, hi.succeeded, hi.failed⟩
  | command _ hw _ =>
    obtain ⟨-, hex, -, hre⟩ := hw.frame
    exact ⟨hre ▸ hi.receipts, hi.tasks, hex ▸ hi.succeeded, hex ▸ hi.failed⟩
  | receiveEvent _ hin _ => exact hi.intake hin rfl
  | receiveTimer _ _ _ hin => exact hi.intake hin rfl
  | claimed _ hl => exact hi.claimed hl
  | givesUp h₀ hgive =>
    refine hi.work h₀ rfl hi.receipts rfl fun hphase => ?_
    cases hgive with
    -- past the last action
    | done hle => exact fun i hlt => hphase i (by omega)
    -- no execution was opened with so many actions
    | tooMany hlt hmax =>
      obtain ⟨e, he, -, -, -, hsteps, -⟩ := (hr.tasks _ _ h₀).2.execution
      have := (hr.executions e he).actions.count _ (hsteps.symm ▸ hlt)
      omega
    | runtime _ => trivial
  | @statusRead conn _ _ index _ claim row receipts h₀ hlt hm hk hput =>
    refine hi.work h₀ rfl (fun r hmem hs => ?_) rfl fun hphase => ?_
    · rcases hput.cases hmem with rfl | ⟨hmem, -⟩
      · exact hi.receipts row hm hs
      · exact hi.receipts r hmem hs
    · obtain ⟨hid, hindex⟩ := Prod.mk.inj hk
      split
      · -- skipped: its receipt says that it succeeded
        rename_i hdone
        have hachieved := hi.receipts row hm hdone
        rw [hid, hindex] at hachieved
        intro i hi'
        rcases Nat.lt_or_eq_of_le (Nat.le_of_lt_succ hi') with hlt' | rfl
        · exact hphase i hlt'
        · exact hachieved
      · exact ⟨hlt, hphase⟩
  | @called conn executionId attempt index key providers claim action h₀ hdecode =>
    refine hi.work h₀ rfl hi.receipts rfl fun hphase => ?_
    have hid : claim.executionId = executionId := congrArg Prod.fst (hr.tasks _ _ h₀).1
    have hcarries : CarriesOut claim.executionId index
        (executeAction providers claim.executionId index key claim.payload action).2 w
        (.work conn executionId attempt providers) := by
      rw [hid]
      exact ⟨conn, attempt, providers, claim, key, action, rfl, h₀, hdecode, by rw [hid]⟩
    obtain ⟨hlt, hbelow⟩ := hphase
    generalize (executeAction providers claim.executionId index key claim.payload action).2 = result at hcarries
    match result, hcarries with
    | .ok response, hcarries =>
      refine ⟨hlt, fun i hi' => ?_⟩
      rcases Nat.lt_or_eq_of_le (Nat.le_of_lt_succ hi') with hlt' | rfl
      · exact hbelow i hlt'
      · exact hachieve hcarries
    | .error (.domain _), hcarries => exact ⟨hlt, hbelow, hrefuse hcarries⟩
    | .error (.runtime _), _ => trivial
  | @recorded _ _ _ index _ claim outcome receipts h₀ hrec =>
    have hphase := hi.tasks _ _ h₀
    refine hi.work h₀ rfl (fun r hmem hs => ?_) rfl fun hphase => ?_
    · rcases hrec with ⟨-, rfl⟩ | ⟨row, hm, hk, hput⟩
      · exact hi.receipts r hmem hs
      · rcases hput.cases hmem with rfl | ⟨hmem, -⟩
        · obtain ⟨hid, hindex⟩ := Prod.mk.inj hk
          cases outcome with
          | ok response =>
            show achieved row.executionId row.actionIndex
            rw [hid, hindex]
            exact hphase.2 index (Nat.lt_succ_self _)
          | error detail => cases hs
        · exact hi.receipts r hmem hs
    · cases outcome with
      | ok response => exact hphase.2
      | error detail => exact ⟨index, hphase⟩
  | released h₀ hleft => exact hi.left hr h₀ hleft rfl rfl (Or.inl rfl)
  | @completed _ _ _ _ _ result _ _ _ _ _ _ h₀ hfinal hleft _ _ hsettled =>
    refine hi.left hr h₀ hleft hsettled.frame.2.2.1 hsettled.frame.2.2.2.2 (Or.inr ?_)
    cases result with
    | ok _ =>
      cases hfinal
      exact Or.inl ⟨rfl, rfl⟩
    | error e =>
      cases e with
      | domain detail =>
        cases hfinal
        exact Or.inr ⟨rfl, detail, rfl⟩
      | runtime _ => cases hfinal
  | closes h₀ => exact hi.work h₀ rfl hi.receipts rfl fun _ => trivial

end Earned

/-- **Every reachable state relies on what was carried out.** -/
theorem run_earned (events : List Event) :
    Earned (Achieved env events) (RefusedAt env events) ((automation env).run events) := by
  refine Transition.Machine.history (m := automation env)
    (I := fun events w => Earned (Achieved env events) (RefusedAt env events) w) Earned.init ?_ events
  intro events event hi
  have hr : RefsOK env ((automation env).run events) := run_refs events
  refine step_earned hr (step_cases hr.linked event) (fun h => Transition.Machine.happened_last ⟨_, h⟩)
    (fun h => Transition.Machine.happened_last ⟨_, h⟩) ?_
  exact hi.mono (fun _ _ h => h.snoc event) (fun _ _ h => h.snoc event)

/-- **Actions are carried out in order.** -/
theorem actions_in_order (events : List Event) (event : Event) {executionId : Uuid} {index : ℕ}
    {result : Except ActionFailure Value}
    (h : CarriesOut executionId index result ((automation env).run events) event) :
    ∀ i < index, Achieved env events executionId i := by
  obtain ⟨_, attempt, _, claim, key, _, -, ht, -, -⟩ := h
  have hrefs : RefsOK env ((automation env).run events) := run_refs events
  have hid : claim.executionId = executionId := congrArg Prod.fst (hrefs.tasks _ _ ht).1
  have hearned : Earned (Achieved env events) (RefusedAt env events) ((automation env).run events) := run_earned events
  have hphase := hearned.tasks _ _ ht
  rw [← hid]
  exact hphase.2

/-- **An execution has earned the status it ends with.** -/
theorem ends_earned (events : List Event) : ∀ e ∈ ((automation env).run events).db.executions,
    (e.status = .succeeded → ∀ i < e.steps.length, Achieved env events e.executionId i) ∧
      (e.status = .failed → ∃ k < e.steps.length, (∀ i < k, Achieved env events e.executionId i) ∧
        RefusedAt env events e.executionId k) :=
  fun e he => ⟨(run_earned events).succeeded e he, (run_earned events).failed e he⟩

section Sample

open Sample

/-- `create_rule` of an event rule with two actions. -/
def twice : CommandRequest :=
  .create ⟨[comment none, comment (some "issue-2")], [], true, "create-1", "Triage", "org-1", "triage",
    ⟨[.issueCreated], none, .event, none⟩⟩

/-- Its event comes, and a worker has carried the first action out. -/
def onceDone : List Event :=
  [atStart, .command (conn 0 0) auth twice, .receiveEvent (conn 1 0) created, claims 0] ++ works 0 1 served 4

/-- The worker's copy of the execution. -/
def twiceClaim : ClaimedExecution :=
  ⟨uuid 1 1, "triage", uuid 1 0, 1, "worker-1", created.toValue,
    [(comment none).toValue, (comment (some "issue-2")).toValue]⟩

/-- The second action comes after the first. -/
theorem second_after_first : Achieved Sample.env onceDone (uuid 1 1) 0 :=
  actions_in_order onceDone (.work (conn 0 0) (uuid 1 1) 1 served)
    (show CarriesOut _ _ (.ok .null) _ _ from ⟨conn 0 0, 1, served, twiceClaim, actionKey Sample.env (uuid 1 1) 1,
      comment (some "issue-2"), rfl, by rfl, by decide, rfl⟩) 0 (by decide)

/-- An execution that succeeds, after a first attempt that could not reach Projects. -/
theorem retried_is_earned :
    let events := opening (comment none) ++ works 0 1 (providers "1" (.error (.runtime (.pluginFailure "closed")))) 3 ++
      claims 61 :: works 61 2 served 5
    ∃ e ∈ ((automation Sample.env).run events).db.executions.rows, e.status = .succeeded ∧
      ∀ i < e.steps.length, Achieved Sample.env events e.executionId i := by
  intro events
  have h : ∃ e ∈ ((automation Sample.env).run events).db.executions.rows, e.status = .succeeded := by decide
  obtain ⟨e, he, hs⟩ := h
  exact ⟨e, he, hs, (ends_earned events e he).1 hs⟩

end Sample

end ProjectAutomation

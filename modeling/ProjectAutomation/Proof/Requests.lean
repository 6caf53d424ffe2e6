import ProjectAutomation.Proof.Structure
import ProjectAutomation.Spec.Sample

/-!
# The requests of a retried action

* `builtRequest`: the mutation an action makes of what it read; `executeAction_mutate`
  shows that `execute_action` sends no other.
* `SameReads`: two reads agree on everything an action copies from them.
* `CallsOK`: every call of a run was made for an action of an execution, under its key.
* `retries_agree`: so two requests under one key are equal exactly when their reads were.
-/

namespace ProjectAutomation

open Relational

variable {env : Env} {w w' : World} {event : Event}

/-! ## What a request is built from -/

/-- The mutation `execute_action` makes of what it read. -/
def builtRequest (executionId : Uuid) (index : ℕ) (key : String) (payload : Value) (action : Action)
    (read : Snapshot) : Option Mutation :=
  (payload.getStr "organization_id").bind fun organizationId =>
    match action.kind, read with
    | .assignIssueToTeam, .issue issue | .moveIssue, .issue issue =>
      some (moveIssueRequest organizationId key action issue)
    | .updateIssue, .issue issue => some (updateIssueRequest organizationId key action issue)
    | .updateProject, .project project => some (updateProjectRequest organizationId key action project)
    | .addComment, .nothing =>
      (issueTarget payload action).bind fun issueId =>
        action.commentBody.map fun body => addCommentRequest organizationId key issueId body executionId index
    | _, _ => none

theorem onIssue_mutate {p : Providers} {organizationId issueId : String} {request : Issue → Mutation}
    {read : Snapshot} {r : Mutation} (h : .mutate read r ∈ (onIssue p organizationId issueId request).1) :
    ∃ issue, read = .issue issue ∧ r = request issue := by
  unfold onIssue at h
  cases hg : p.getIssue organizationId issueId with
  | error e => simp [hg] at h
  | ok issue =>
    simp only [hg, List.mem_cons, reduceCtorEq, Call.mutate.injEq, List.not_mem_nil, or_false, false_or] at h
    exact ⟨issue, h⟩

theorem onProject_mutate {p : Providers} {organizationId projectId : String} {request : Project → Mutation}
    {read : Snapshot} {r : Mutation} (h : .mutate read r ∈ (onProject p organizationId projectId request).1) :
    ∃ project, read = .project project ∧ r = request project := by
  unfold onProject at h
  cases hg : p.getProject organizationId projectId with
  | error e => simp [hg] at h
  | ok project =>
    simp only [hg, List.mem_cons, reduceCtorEq, Call.mutate.injEq, List.not_mem_nil, or_false, false_or] at h
    exact ⟨project, h⟩

/-- **Every mutation `execute_action` sends is the one built of its read.** -/
theorem executeAction_mutate {p : Providers} {executionId : Uuid} {index : ℕ} {key : String} {payload : Value}
    {action : Action} {read : Snapshot} {r : Mutation}
    (h : .mutate read r ∈ (executeAction p executionId index key payload action).1) :
    builtRequest executionId index key payload action read = some r := by
  unfold executeAction at h
  unfold builtRequest
  cases horg : payload.getStr "organization_id" with
  | none => simp [horg, rejected] at h
  | some organizationId =>
    simp only [horg] at h
    rw [Option.bind_some]
    cases hk : action.kind with
    | assignIssueToTeam | moveIssue | updateIssue =>
      simp only [hk] at h
      cases ht : issueTarget payload action with
      | none => simp [ht, rejected] at h
      | some issueId =>
        simp only [ht] at h
        obtain ⟨issue, rfl, rfl⟩ := onIssue_mutate h
        rfl
    | addComment =>
      simp only [hk] at h
      cases ht : issueTarget payload action with
      | none => simp [ht, rejected] at h
      | some issueId =>
        cases hb : action.commentBody with
        | none => simp [ht, hb, rejected] at h
        | some body =>
          simp only [ht, hb, List.mem_singleton, Call.mutate.injEq] at h
          obtain ⟨rfl, rfl⟩ := h
          simp
    | updateProject =>
      simp only [hk] at h
      cases ht : projectTarget payload action with
      | none => simp [ht, rejected] at h
      | some projectId =>
        simp only [ht] at h
        obtain ⟨project, rfl, rfl⟩ := onProject_mutate h
        rfl

/-! ## What a request copies -/

/-- Two reads of an issue agree on what `move_issue` and `assign_issue_to_team` copy. -/
def Action.SameForMove (action : Action) (a b : Issue) : Prop :=
  a.issueId = b.issueId ∧ a.revision = b.revision ∧ (action.teamId = none → a.teamId = b.teamId) ∧
    (action.workflowStateId = none → a.workflowStateId = b.workflowStateId)

/-- Two reads of an issue agree on what `update_issue` copies. -/
def Action.SameForUpdate (action : Action) (a b : Issue) : Prop :=
  a.issueId = b.issueId ∧ a.revision = b.revision ∧ (action.title = none → a.title = b.title) ∧
    (action.description = none → a.description = b.description) ∧
    (action.priority = none → a.priority = b.priority) ∧ a.workflowStateId = b.workflowStateId ∧
    a.cycleId = b.cycleId ∧ a.milestoneId = b.milestoneId ∧ a.parentIssueId = b.parentIssueId ∧
    (action.replaceLabels = false → a.labelIds = b.labelIds)

/-- Two reads of a project agree on what `update_project` copies. -/
def Action.SameForProject (action : Action) (a b : Project) : Prop :=
  a.projectId = b.projectId ∧ a.revision = b.revision ∧ (action.projectName = none → a.name = b.name) ∧
    (action.projectSummary = none → a.summary = b.summary) ∧ a.leadTeamId = b.leadTeamId ∧
    a.teamIds = b.teamIds ∧ (action.statusId = none → a.statusId = b.statusId) ∧
    a.milestoneId = b.milestoneId ∧ a.startDate = b.startDate ∧ a.targetDate = b.targetDate

/-- Two reads agree on everything the action copies from them; a comment copies nothing. -/
def Action.SameReads (action : Action) : Snapshot → Snapshot → Prop
  | .issue a, .issue b =>
    match action.kind with
    | .updateIssue => action.SameForUpdate a b
    | _ => action.SameForMove a b
  | .project a, .project b => action.SameForProject a b
  | _, _ => True

theorem getD_eq_iff {α : Type} {o : Option α} {a b : α} : o.getD a = o.getD b ↔ (o = none → a = b) := by
  cases o <;> simp

theorem or_eq_iff {α : Type} {o a b : Option α} : o.or a = o.or b ↔ (o = none → a = b) := by
  cases o <;> simp

theorem ite_eq_iff {α : Type} {c : Bool} {x a b : α} :
    (if c = true then x else a) = (if c = true then x else b) ↔ (c = false → a = b) := by
  cases c <;> simp

theorem moveIssueRequest_eq_iff {organizationId key : String} {action : Action} {a b : Issue} :
    moveIssueRequest organizationId key action a = moveIssueRequest organizationId key action b ↔
      action.SameForMove a b := by
  simp only [moveIssueRequest, Mutation.moveIssue.injEq, Action.SameForMove, getD_eq_iff, and_true, true_and]

theorem updateIssueRequest_eq_iff {organizationId key : String} {action : Action} {a b : Issue} :
    updateIssueRequest organizationId key action a = updateIssueRequest organizationId key action b ↔
      action.SameForUpdate a b := by
  simp only [updateIssueRequest, Mutation.updateIssue.injEq, Action.SameForUpdate, getD_eq_iff, or_eq_iff,
    ite_eq_iff, and_true, true_and]

theorem updateProjectRequest_eq_iff {organizationId key : String} {action : Action} {a b : Project} :
    updateProjectRequest organizationId key action a = updateProjectRequest organizationId key action b ↔
      action.SameForProject a b := by
  simp only [updateProjectRequest, Mutation.updateProject.injEq, Action.SameForProject, getD_eq_iff, or_eq_iff,
    and_true, true_and]

/-- **Two requests of an action are equal exactly when their reads agree.** -/
theorem builtRequest_eq_iff {executionId : Uuid} {index : ℕ} {key : String} {payload : Value} {action : Action}
    {read read' : Snapshot} {r r' : Mutation}
    (h : builtRequest executionId index key payload action read = some r)
    (h' : builtRequest executionId index key payload action read' = some r') :
    r = r' ↔ action.SameReads read read' := by
  unfold builtRequest at h h'
  obtain ⟨organizationId, horg, h⟩ := Option.bind_eq_some_iff.1 h
  obtain ⟨organizationId', horg', h'⟩ := Option.bind_eq_some_iff.1 h'
  rw [horg] at horg'
  cases horg'
  unfold Action.SameReads
  cases hk : action.kind with
  | assignIssueToTeam | moveIssue =>
    rw [hk] at h h'
    cases read <;> cases h
    cases read' <;> cases h'
    exact moveIssueRequest_eq_iff
  | updateIssue =>
    rw [hk] at h h'
    cases read <;> cases h
    cases read' <;> cases h'
    exact updateIssueRequest_eq_iff
  | updateProject =>
    rw [hk] at h h'
    cases read <;> cases h
    cases read' <;> cases h'
    exact updateProjectRequest_eq_iff
  | addComment =>
    -- what a comment says and where is settled without a read
    rw [hk] at h h'
    cases read with
    | issue _ => cases h
    | project _ => cases h
    | nothing =>
      cases read' with
      | issue _ => cases h'
      | project _ => cases h'
      | nothing =>
        rw [h] at h'
        exact iff_of_true (Option.some.inj h') trivial

theorem builtRequest_key {executionId : Uuid} {index : ℕ} {key : String} {payload : Value} {action : Action}
    {read : Snapshot} {r : Mutation} (h : builtRequest executionId index key payload action read = some r) :
    r.idempotencyKey = key := by
  unfold builtRequest at h
  obtain ⟨organizationId, -, h⟩ := Option.bind_eq_some_iff.1 h
  cases hk : action.kind with
  | assignIssueToTeam | moveIssue | updateIssue | updateProject =>
    rw [hk] at h
    cases read <;> cases h
    rfl
  | addComment =>
    rw [hk] at h
    cases read with
    | issue _ => cases h
    | project _ => cases h
    | nothing =>
      obtain ⟨issueId, -, h⟩ := Option.bind_eq_some_iff.1 h
      obtain ⟨body, -, rfl⟩ := Option.map_eq_some_iff.1 h
      rfl

/-! ## The calls of a run -/

/-- A call was made for an action of an execution, from its trigger's payload, under its key. -/
structure CallOK (env : Env) (db : Database) (c : CallRecord) : Prop where
  made : ∃ e ∈ db.executions, ∃ t ∈ db.triggers, e.executionId = c.executionId ∧ t.triggerId = e.triggerId ∧
    e.steps[c.index]?.bind Action.fromValue = some c.action ∧
    ∀ read r, c.call = .mutate read r → builtRequest c.executionId c.index
      (actionKey env c.executionId c.index) t.payload c.action read = some r

structure CallsOK (env : Env) (w : World) : Prop where
  calls : ∀ c ∈ w.calls, CallOK env w.db c
  keys : ∀ k claim index key, w.tasks k = some ⟨claim, .call index key⟩ →
    key = actionKey env claim.executionId index

theorem CallsOK.init : CallsOK env World.init :=
  ⟨fun _ hc => (by cases hc), fun _ _ _ _ ht => (by cases ht)⟩

theorem CallOK.step {c : CallRecord} (hc : CallOK env w.db c) (h : Step env w event w') : CallOK env w'.db c := by
  obtain ⟨e, he, t, ht, hid, htrig, hact, hreq⟩ := hc.made
  obtain ⟨e', he', hcont⟩ := step_continues h he
  exact ⟨e', he', t, step_triggers h ht, hcont.executionId.trans hid, htrig.trans hcont.triggerId.symm,
    by rw [hcont.steps]; exact hact, hreq⟩

theorem setTask_keys {claim : ClaimedExecution} {phase : Phase} (hi : CallsOK env w)
    (hphase : ∀ index key, phase = .call index key → key = actionKey env claim.executionId index) :
    ∀ k claim' index key, (w.setTask claim phase).tasks k = some ⟨claim', .call index key⟩ →
      key = actionKey env claim'.executionId index := by
  intro k claim' index key ht
  simp only [World.setTask] at ht
  split at ht
  · cases ht; exact hphase _ _ rfl
  · exact hi.keys k claim' index key ht

theorem step_calls (hr : RefsOK env w) (h : Step env w event w') (hi : CallsOK env w) : CallsOK env w' := by
  have hold : ∀ c ∈ w.calls, CallOK env w'.db c := fun c hc => (hi.calls c hc).step h
  cases h with
  | idle | tick | command | receiveEvent | receiveTimer | pendingDispatches | enqueued | lost | flushEnds
  | marked | noted | failed => exact ⟨hold, hi.keys⟩
  | claimed _ _ =>
    refine ⟨hold, ?_⟩
    intro k claim index key ht
    simp only [openTasks] at ht
    split at ht
    · cases ht
    · exact hi.keys k claim index key ht
  | @statusRead _ _ _ i _ claim row _ _ _ hm hk _ =>
    refine ⟨hold, setTask_keys (w := w) hi ?_⟩
    intro index key hp
    split at hp
    · cases hp
    · cases hp
      have hkey := (hr.receipts row hm).idempotencyKey
      obtain ⟨h₁, h₂⟩ := Prod.mk.inj hk
      rw [hkey, h₁, h₂]
  | @called _ _ _ i key providers claim action h₀ ha =>
    constructor
    · intro c hc
      rcases List.mem_append.1 hc with hc | hc
      · exact hold c hc
      · obtain ⟨call, hcall, rfl⟩ := List.mem_map.1 hc
        obtain ⟨-, hok⟩ := hr.tasks _ _ h₀
        obtain ⟨e, he, hid, -, htrig, hsteps, -⟩ := hok.execution
        obtain ⟨t, ht, htk, hp⟩ := hok.trigger
        have hkey : key = actionKey env claim.executionId i := hi.keys _ _ _ _ h₀
        refine ⟨e, he, t, ht, hid, htk.trans htrig.symm, by rw [hsteps]; exact ha, ?_⟩
        rintro read r rfl
        rw [hp, ← hkey]
        exact executeAction_mutate hcall
    · refine setTask_keys hi ?_
      intro index key' hp
      generalize (executeAction providers claim.executionId i key claim.payload action).2 = result at hp
      cases result with
      | ok response => cases hp
      | error failure => cases failure <;> cases hp
  | @recorded _ _ _ _ _ _ outcome =>
    refine ⟨hold, setTask_keys (w := w) hi ?_⟩
    intro index key hp
    cases outcome <;> cases hp
  | givesUp _ _ | closes _ => exact ⟨hold, setTask_keys hi (fun _ _ hp => by cases hp)⟩
  | released _ _ | completed _ _ _ _ _ _ =>
    exact ⟨hold, setTask_keys (w := w) hi (fun _ _ hp => by cases hp)⟩

theorem run_calls (is : List Event) : CallsOK env ((automation env).run is) :=
  inv_always (I := CallsOK env) CallsOK.init (fun hr hstep hi => step_calls hr hstep hi) is

theorem actionKey_inj (huuid : env.UuidOK) {id id' : Uuid} {index index' : ℕ}
    (h : actionKey env id index = actionKey env id' index') : id = id' ∧ index = index' := by
  unfold actionKey at h
  have ht := (huuid.text_inj ((String.append_right_inj _).1 h)).2
  obtain ⟨hid, hidx⟩ := Text.join_nat_inj (c := ':') (by decide) (by decide) ht
  refine ⟨?_, hidx⟩
  cases id; cases id'
  exact congrArg Uuid.mk hid

/-- **Retried requests.** Two mutation requests a run sends under one idempotency key are equal, field by
field, exactly when the reads they were built from agree on everything the action copies. -/
theorem retries_agree (huuid : env.UuidOK) (is : List Event) :
    ∀ c₁ ∈ ((automation env).run is).calls, ∀ c₂ ∈ ((automation env).run is).calls,
      ∀ read₁ r₁ read₂ r₂, c₁.call = .mutate read₁ r₁ → c₂.call = .mutate read₂ r₂ →
      r₁.idempotencyKey = r₂.idempotencyKey → (r₁ = r₂ ↔ c₁.action.SameReads read₁ read₂) := by
  intro c₁ h₁ c₂ h₂ read₁ r₁ read₂ r₂ hc₁ hc₂ hkey
  obtain ⟨e₁, he₁, t₁, ht₁, hid₁, htrig₁, hact₁, hreq₁⟩ := ((run_calls is).calls c₁ h₁).made
  obtain ⟨e₂, he₂, t₂, ht₂, hid₂, htrig₂, hact₂, hreq₂⟩ := ((run_calls is).calls c₂ h₂).made
  have hb₁ := hreq₁ _ _ hc₁
  have hb₂ := hreq₂ _ _ hc₂
  -- the key names the execution and the action, hence all else the requests are built from
  rw [builtRequest_key hb₁, builtRequest_key hb₂] at hkey
  obtain ⟨hid, hidx⟩ := actionKey_inj huuid hkey
  have he : e₁ = e₂ := Table.eq_of_key he₁ he₂ (hid₁.trans (hid.trans hid₂.symm))
  subst he
  have ht : t₁ = t₂ := Table.eq_of_key ht₁ ht₂ (htrig₁.trans htrig₂.symm)
  subst ht
  have hact : c₁.action = c₂.action := by
    rw [hidx] at hact₁
    exact Option.some.inj (hact₁.symm.trans hact₂)
  rw [← hid, ← hidx, ← hact] at hb₂
  exact builtRequest_eq_iff hb₁ hb₂

section Sample

open Sample

/-- The answer to the first request is lost, and the action tried again; `read` is the revision the
target has then. -/
noncomputable def retriedRun (action : Action) (read : String) : List Event :=
  opening action ++ works 0 1 (providers "1" (.error (.runtime (.pluginFailure "connection closed")))) 3 ++
    claims 1 :: works 1 2 (providers read (.ok .null)) 2

/-- The mutations of a run, in order. -/
def World.mutations (w : World) : List Mutation :=
  w.calls.filterMap fun c => match c.call with
    | .mutate _ request => some request
    | .getIssue _ _ | .getProject _ _ => none

/-- A comment is sent twice, and it is the same. -/
theorem retries_agree_triage :
    let w := (automation Sample.env).run (retriedRun (comment none) "2")
    w.mutations.length = 2 ∧ ∀ c₁ ∈ w.calls, ∀ c₂ ∈ w.calls, ∀ read₁ r₁ read₂ r₂,
      c₁.call = .mutate read₁ r₁ → c₂.call = .mutate read₂ r₂ →
      r₁.idempotencyKey = r₂.idempotencyKey → (r₁ = r₂ ↔ c₁.action.SameReads read₁ read₂) :=
  ⟨by decide, retries_agree uuidOK _⟩

/-- **A retried move conflicts**: its first request raised the revision of the issue, so the second
expects another one under the same key. -/
theorem retried_move_conflicts :
    ∃ r₁ ∈ ((automation Sample.env).run (retriedRun move "2")).mutations,
      ∃ r₂ ∈ ((automation Sample.env).run (retriedRun move "2")).mutations,
        r₁.idempotencyKey = r₂.idempotencyKey ∧ r₁ ≠ r₂ := by
  decide

end Sample

end ProjectAutomation

import ProjectAutomation.Proof.Receipts
import ProjectAutomation.Proof.Snapshots

/-!
# Validation is sufficient for execution

* `Action.fromValue_toValue`: a stored action reads back.
* `Admitted`: a stored rule has a trigger and actions that were validated together, and
  its executions copy those actions.
* `executeAction_untargeted`: on an admitted action the only local failure is a missing
  target, which a schedule's actions never meet.
* `failed_was_refused`: so an execution fails because a capability refused a call, or
  because its event left an action without a target.
-/

namespace ProjectAutomation

open Relational

variable {env : Env} {w w' : World} {event : Event} {s : Session}

/-! ## Stored actions -/

theorem ActionKind.ofName?_name (k : ActionKind) : ActionKind.ofName? k.name = some k := by
  cases k <;> decide

theorem Priority.ofName?_name (p : Priority) : Priority.ofName? p.name = some p := by
  cases p <;> decide

theorem mapM_asStr (texts : List String) : (texts.map Value.string).mapM Value.asStr = some texts := by
  induction texts with
  | nil => rfl
  | cons text texts ih =>
    rw [List.map_cons, List.mapM_cons, ih]
    rfl

namespace Action

/-- The optional text under a name. -/
theorem optStringField_eq {v : Value} {name : String} {o : Option String}
    (h : v.get name = some (.ofOption .string o)) : optStringField v name = some o := by
  unfold optStringField
  rw [h]
  cases o <;> rfl

/-- **A stored action reads back.** -/
theorem fromValue_toValue (a : Action) : fromValue a.toValue = some a := by
  have hkind : (a.toValue.getStr "kind").bind ActionKind.ofName? = some a.kind := by
    show ActionKind.ofName? a.kind.name = _
    exact ActionKind.ofName?_name a.kind
  have hlabels : stringsField a.toValue "label_ids" = some a.labelIds := mapM_asStr a.labelIds
  have hpriority : optPriorityField a.toValue "priority" = some a.priority := by
    have hget : a.toValue.get "priority" = some (.ofOption (fun p => .string p.name) a.priority) := rfl
    unfold optPriorityField
    rw [hget]
    cases a.priority with
    | none => rfl
    | some p => exact congrArg (Option.map some) (Priority.ofName?_name p)
  have hreplace : boolField a.toValue "replace_labels" = some a.replaceLabels := rfl
  unfold fromValue
  rw [optStringField_eq (o := a.commentBody) rfl, optStringField_eq (o := a.description) rfl,
    optStringField_eq (o := a.issueId) rfl, hkind, hlabels, hpriority,
    optStringField_eq (o := a.projectId) rfl, optStringField_eq (o := a.projectName) rfl,
    optStringField_eq (o := a.projectSummary) rfl, hreplace, optStringField_eq (o := a.statusId) rfl,
    optStringField_eq (o := a.teamId) rfl, optStringField_eq (o := a.title) rfl,
    optStringField_eq (o := a.workflowStateId) rfl]
  rfl

end Action

/-! ## What is admitted -/

/-- The action names its target itself. -/
def Action.Explicit (a : Action) : Prop :=
  match a.kind with
  | .assignIssueToTeam | .updateIssue | .moveIssue | .addComment => a.issueId.isSome = true
  | .updateProject => a.projectId.isSome = true

theorem validActionsForTrigger_iff {t : Trigger} {actions : List Action} :
    validActionsForTrigger t actions = true ↔
      validActions actions = true ∧ (t.kind = .schedule → ∀ a ∈ actions, a.Explicit) := by
  unfold validActionsForTrigger
  rw [Bool.and_eq_true]
  refine and_congr_right fun _ => ?_
  cases hk : t.kind with
  | event => simp
  | schedule =>
    simp only [ne_eq, not_true_eq_false, decide_false, Bool.false_or, List.all_eq_true, forall_const]
    refine forall₂_congr fun a _ => ?_
    unfold Action.Explicit
    cases a.kind <;> rfl

theorem validActions_iff {actions : List Action} : validActions actions = true ↔
    actions ≠ [] ∧ actions.length ≤ maxRuleActions ∧ ∀ a ∈ actions, validAction a = true := by
  unfold validActions
  rw [Bool.and_eq_true, Bool.and_eq_true, List.all_eq_true]
  simp [and_assoc]

/-- A stored rule has a trigger and actions that were validated together. -/
def Admitted (r : RuleRow) : Prop :=
  ∃ (trigger : Trigger) (actions : List Action), r.trigger = trigger.toValue ∧ r.actions = storedActions actions ∧
    validActionsForTrigger trigger actions = true

theorem Written.admitted {request : CommandRequest} {old : Option RuleRow} {new : RuleRow}
    {next : Option OffsetDateTime} (h : Written s request old new next) (hv : request.valid env = true)
    (hold : ∀ o, old = some o → Admitted o) : Admitted new := by
  cases h with
  | @create r _ _ =>
    simp only [CommandRequest.valid, validCreateRule, Bool.and_eq_true] at hv
    exact ⟨r.trigger, r.actions, rfl, rfl, hv.2⟩
  | @update r _ _ _ _ =>
    -- an update replaces the trigger and the actions together
    simp only [CommandRequest.valid, validUpdateRule, Bool.and_eq_true] at hv
    exact ⟨r.trigger, r.actions, rfl, rfl, hv.2⟩
  | @setEnabled _ old _ _ _ => exact (hold old rfl : Admitted old)
  | @delete _ old _ => exact (hold old rfl : Admitted old)

theorem run_admitted (events : List Event) : ∀ r ∈ ((automation env).run events).db.rules, Admitted r :=
  inv_always (I := fun w => ∀ r ∈ w.db.rules, Admitted r) (fun r hr => absurd hr (Table.not_mem_empty r))
    (fun _ hstep hi => step_each_rule (fun _ hv hwr hold => hwr.admitted hv hold) (fun _ _ _ _ hr => hr) hstep hi)
    events

/-- A recorded trigger may set these actions off. -/
inductive SetsOff (env : Env) (t : TriggerRow) (actions : List Action) : Prop
  | event {request : ReceiveEventRequest} : t.source = .event → t.payload = request.toValue →
      validEvent (fun text => (env.parseRfc3339 text).isSome) request = true → SetsOff env t actions
  | timer {request : ReceiveTimerRequest} : t.source = .timer → t.payload = request.toValue →
      (∀ a ∈ actions, a.Explicit) → SetsOff env t actions

/-- An execution has actions an endpoint admitted, set off by its trigger. -/
def Prepared (env : Env) (db : Database) (e : ExecutionRow) : Prop :=
  ∃ actions, e.actions = storedActions actions ∧ validActions actions = true ∧
    ∃ t ∈ db.triggers, t.triggerId = e.triggerId ∧ SetsOff env t actions

/-- **Every execution is prepared**: whatever became of its rule, its snapshot was admitted for the
kind of trigger that opened it. -/
theorem run_prepared (events : List Event) :
    ∀ e ∈ ((automation env).run events).db.executions, Prepared env ((automation env).run events).db e := by
  intro e he
  obtain ⟨earlier, event, later, trigger, rule, e₀, -, hopen, hc, ht⟩ := run_opened events e he
  have hs := hopen.snapshotted
  obtain ⟨typed, actions, htrigger, hactions, hv⟩ := run_admitted earlier rule hs.rule_mem
  obtain ⟨hvalid, hexplicit⟩ := validActionsForTrigger_iff.1 hv
  refine ⟨actions, (hc.actions.trans hs.actions).trans hactions, hvalid, trigger, ht,
    hs.triggerId.symm.trans hc.triggerId.symm, ?_⟩
  cases hopen with
  | event hve _ _ _ _ => exact .event rfl rfl hve
  | timer _ _ hf _ =>
    refine .timer rfl rfl (hexplicit ?_)
    have hkind := (firesAt_iff.1 hf).2.1
    rw [htrigger, triggerKind_toValue] at hkind
    cases hk : typed.kind with
    | event => rw [hk] at hkind; exact absurd hkind (by decide)
    | schedule => rfl

/-! ## Targets -/

/-- Neither the action nor the event names what the action is to change. -/
def Action.Untargeted (a : Action) (request : ReceiveEventRequest) : Prop :=
  match a.kind with
  | .assignIssueToTeam | .updateIssue | .moveIssue | .addComment =>
    a.issueId = none ∧ request.entityKind ≠ .issue
  | .updateProject => a.projectId = none ∧ request.entityKind ≠ .project ∧ request.projectId = none

/-- The error of an action without a target. -/
def Action.targetError (a : Action) : String :=
  match a.kind with
  | .assignIssueToTeam | .updateIssue | .moveIssue | .addComment => "issue_target_required"
  | .updateProject => "project_target_required"

/-- What an action is to change, as `execute_action` resolves it. -/
def Action.target (payload : Value) (a : Action) : Option String :=
  match a.kind with
  | .assignIssueToTeam | .updateIssue | .moveIssue | .addComment => issueTarget payload a
  | .updateProject => projectTarget payload a

theorem onIssue_calls {p : Providers} {organizationId issueId : String} {request : Issue → Mutation} :
    (onIssue p organizationId issueId request).1 ≠ [] := by
  unfold onIssue
  cases p.getIssue organizationId issueId <;> simp

theorem onProject_calls {p : Providers} {organizationId projectId : String} {request : Project → Mutation} :
    (onProject p organizationId projectId request).1 ≠ [] := by
  unfold onProject
  cases p.getProject organizationId projectId <;> simp

theorem comment_of_valid {a : Action} (hv : validAction a = true) (hk : a.kind = .addComment) :
    a.commentBody.isSome = true := by
  unfold validAction at hv
  simp only [hk] at hv
  split at hv
  · cases hv
  · simp only [Bool.and_eq_true] at hv
    exact hv.1.1.1.1.1.1.1.1.1

/-- **A valid action that makes no call has no target**, if the payload names its organization. -/
theorem executeAction_untargeted {p : Providers} {executionId : Uuid} {index : ℕ} {key : String} {payload : Value}
    {a : Action} (hv : validAction a = true) (horg : (payload.getStr "organization_id").isSome = true)
    (h : (executeAction p executionId index key payload a).1 = []) :
    executeAction p executionId index key payload a = rejected a.targetError ∧ a.target payload = none := by
  obtain ⟨organizationId, horg⟩ := Option.isSome_iff_exists.1 horg
  unfold executeAction Action.target Action.targetError at *
  simp only [horg] at h ⊢
  cases hk : a.kind with
  | assignIssueToTeam | moveIssue | updateIssue =>
    simp only [hk] at h ⊢
    cases ht : issueTarget payload a with
    | none => exact ⟨rfl, rfl⟩
    | some issueId =>
      simp only [ht] at h
      exact absurd h onIssue_calls
  | addComment =>
    simp only [hk] at h ⊢
    cases ht : issueTarget payload a with
    | none => exact ⟨rfl, rfl⟩
    | some issueId =>
      obtain ⟨body, hb⟩ := Option.isSome_iff_exists.1 (comment_of_valid hv hk)
      simp only [ht, hb] at h
      cases h
  | updateProject =>
    simp only [hk] at h ⊢
    cases ht : projectTarget payload a with
    | none => exact ⟨rfl, rfl⟩
    | some projectId =>
      simp only [ht] at h
      exact absurd h onProject_calls

theorem target_of_explicit {a : Action} {payload : Value} (h : a.Explicit) : a.target payload ≠ none := by
  unfold Action.Explicit at h
  unfold Action.target issueTarget projectTarget
  cases hk : a.kind <;> simp only [hk] at h ⊢ <;> obtain ⟨id, hid⟩ := Option.isSome_iff_exists.1 h <;>
    simp [hid]

/-- An event supplies its entity, or the project it belongs to. -/
theorem untargeted_of_event {a : Action} {request : ReceiveEventRequest}
    (h : a.target request.toValue = none) : a.Untargeted request := by
  have hkind : request.toValue.getStr "entity_kind" = some request.entityKind.name := rfl
  have hentity : request.toValue.getStr "entity_id" = some request.entityId := rfl
  have hproject : request.toValue.getStr "project_id" = request.projectId := by
    show (Value.ofOption Value.string request.projectId).asStr = _
    cases request.projectId <;> rfl
  unfold Action.target issueTarget projectTarget eventEntity entityKind at h
  unfold Action.Untargeted
  rw [hkind, hentity, hproject] at h
  cases hk : a.kind <;> simp only [hk] at h ⊢ <;> cases hek : request.entityKind <;>
    simp_all [EntityKind.name]

/-! ## Refusals -/

/-- The capability answers the call with a domain error. -/
def Providers.Refuses (p : Providers) : Call → Prop
  | .getIssue organizationId issueRef => ∃ detail, p.getIssue organizationId issueRef = .error (.domain detail)
  | .getProject organizationId projectId =>
    ∃ detail, p.getProject organizationId projectId = .error (.domain detail)
  | .mutate _ request => ∃ detail, p.mutate request = .error (.domain detail)

theorem onIssue_refused {p : Providers} {organizationId issueId detail : String} {request : Issue → Mutation}
    (h : (onIssue p organizationId issueId request).2 = .error (.domain detail)) :
    ∃ call ∈ (onIssue p organizationId issueId request).1, p.Refuses call := by
  unfold onIssue at h ⊢
  cases hg : p.getIssue organizationId issueId with
  | error e =>
    simp only [hg] at h ⊢
    obtain rfl := Except.error.inj h
    exact ⟨_, List.mem_cons_self, detail, hg⟩
  | ok issue =>
    simp only [hg] at h ⊢
    exact ⟨_, List.mem_cons_of_mem _ List.mem_cons_self, detail, h⟩

theorem onProject_refused {p : Providers} {organizationId projectId detail : String} {request : Project → Mutation}
    (h : (onProject p organizationId projectId request).2 = .error (.domain detail)) :
    ∃ call ∈ (onProject p organizationId projectId request).1, p.Refuses call := by
  unfold onProject at h ⊢
  cases hg : p.getProject organizationId projectId with
  | error e =>
    simp only [hg] at h ⊢
    obtain rfl := Except.error.inj h
    exact ⟨_, List.mem_cons_self, detail, hg⟩
  | ok project =>
    simp only [hg] at h ⊢
    exact ⟨_, List.mem_cons_of_mem _ List.mem_cons_self, detail, h⟩

/-- **A domain failure of an action that made a call** is the answer to one. -/
theorem executeAction_refused {p : Providers} {executionId : Uuid} {index : ℕ} {key detail : String}
    {payload : Value} {a : Action} (hcalls : (executeAction p executionId index key payload a).1 ≠ [])
    (h : (executeAction p executionId index key payload a).2 = .error (.domain detail)) :
    ∃ call ∈ (executeAction p executionId index key payload a).1, p.Refuses call := by
  unfold executeAction at *
  cases horg : payload.getStr "organization_id" with
  | none =>
    simp only [horg] at hcalls
    exact absurd rfl hcalls
  | some organizationId =>
    simp only [horg] at h hcalls ⊢
    cases hk : a.kind with
    | assignIssueToTeam | moveIssue | updateIssue =>
      simp only [hk] at h hcalls ⊢
      cases ht : issueTarget payload a with
      | none => simp only [ht] at hcalls; exact absurd rfl hcalls
      | some issueId =>
        simp only [ht] at h ⊢
        exact onIssue_refused h
    | addComment =>
      simp only [hk] at h hcalls ⊢
      cases ht : issueTarget payload a with
      | none => simp only [ht] at hcalls; exact absurd rfl hcalls
      | some issueId =>
        cases hb : a.commentBody with
        | none => simp only [ht, hb] at hcalls; exact absurd rfl hcalls
        | some body =>
          simp only [ht, hb] at h ⊢
          exact ⟨_, List.mem_singleton_self _, detail, h⟩
    | updateProject =>
      simp only [hk] at h hcalls ⊢
      cases ht : projectTarget payload a with
      | none => simp only [ht] at hcalls; exact absurd rfl hcalls
      | some projectId =>
        simp only [ht] at h ⊢
        exact onProject_refused h

/-! ## Why an execution fails -/

/-- The worker on an attempt made a call for one of its actions that was refused. -/
def Refused (env : Env) (events : List Event) (k : Uuid × ℕ) : Prop :=
  ∃ earlier conn providers later claim index key action, events =
      earlier ++ .work conn k.1 k.2 providers :: later ∧
    ((automation env).run earlier).tasks k = some ⟨claim, .call index key⟩ ∧
    claim.actions[index]?.bind Action.fromValue = some action ∧
    ∃ call ∈ (executeAction providers claim.executionId index key claim.payload action).1, providers.Refuses call

/-- An execution was set off by an event that leaves one of its actions without a target. -/
def Targetless (db : Database) (executionId : Uuid) : Prop :=
  ∃ e ∈ db.executions, e.executionId = executionId ∧ ∃ t ∈ db.triggers, t.triggerId = e.triggerId ∧
    t.source = .event ∧ ∃ request : ReceiveEventRequest, t.payload = request.toValue ∧
      ∃ action : Action, action.toValue ∈ e.steps ∧ action.Untargeted request

theorem Refused.append {events : List Event} {k : Uuid × ℕ} (h : Refused env events k) (event : Event) :
    Refused env (events ++ [event]) k := by
  obtain ⟨earlier, conn, providers, later, claim, index, key, action, rfl, hrest⟩ := h
  exact ⟨earlier, conn, providers, later ++ [event], claim, index, key, action, by simp, hrest⟩

theorem Targetless.step {executionId : Uuid} (h : Step env w event w') (ht : Targetless w.db executionId) :
    Targetless w'.db executionId := by
  obtain ⟨e, he, hid, t, htm, htk, hsrc, request, hpay, action, hact, hun⟩ := ht
  obtain ⟨e', he', hc⟩ := step_continues h he
  exact ⟨e', he', hc.executionId.trans hid, t, step_triggers h htm, htk.trans hc.triggerId.symm, hsrc, request,
    hpay, action, hc.steps.symm ▸ hact, hun⟩

/-- A worker that was told a domain failure. -/
def Phase.Told : Phase → Prop
  | .record _ (.error _) | .finish (.error (.domain _)) => True
  | .status _ | .call _ _ | .record _ (.ok _) | .finish (.error (.runtime _)) | .finish (.ok ()) | .closed => False

/-- The reasons workers and executions fail for. -/
structure FailuresOK (env : Env) (events : List Event) (w : World) : Prop where
  tasks : ∀ k t, w.tasks k = some t → t.phase.Told → Refused env events k ∨ Targetless w.db k.1
  executions : ∀ e ∈ w.db.executions, e.status = .failed →
    Refused env events (e.executionId, e.attempts) ∨ Targetless w.db e.executionId

/-- A worker's copy of a prepared execution. -/
theorem ClaimOK.prepared {db : Database} {claim : ClaimedExecution} (hc : ClaimOK db claim)
    (hp : ∀ e ∈ db.executions, Prepared env db e) :
    ∃ actions, claim.actions = actions.map Action.toValue ∧ validActions actions = true ∧
      ∃ e ∈ db.executions, e.executionId = claim.executionId ∧ e.steps = claim.actions ∧
      ∃ t ∈ db.triggers, t.triggerId = e.triggerId ∧ t.payload = claim.payload ∧ SetsOff env t actions := by
  obtain ⟨e, he, hid, -, htrig, hsteps, -⟩ := hc.execution
  obtain ⟨t, ht, htk, hpay⟩ := hc.trigger
  obtain ⟨actions, hact, hv, t', ht', htk', hsets⟩ := hp e he
  have hone : t' = t := Table.eq_of_key ht' ht (htk'.trans (htrig.trans htk.symm))
  subst hone
  refine ⟨actions, ?_, hv, e, he, hid, hsteps, t', ht', htk', hpay, hsets⟩
  rw [← hsteps]
  unfold ExecutionRow.steps
  rw [hact]
  rfl

/-- The action at a place of a prepared claim. -/
theorem prepared_action {claim : ClaimedExecution} {actions : List Action}
    (h : claim.actions = actions.map Action.toValue) (hv : validActions actions = true) {index : ℕ}
    (hlt : index < claim.actions.length) : ∃ action ∈ actions, validAction action = true ∧
      claim.actions[index]? = some action.toValue ∧
      claim.actions[index]?.bind Action.fromValue = some action := by
  rw [h, List.length_map] at hlt
  have hget : claim.actions[index]? = some actions[index].toValue := by
    rw [h, List.getElem?_map, List.getElem?_eq_getElem hlt]
    rfl
  refine ⟨actions[index], List.getElem_mem hlt, (validActions_iff.1 hv).2.2 _ (List.getElem_mem hlt), hget, ?_⟩
  rw [hget]
  exact Action.fromValue_toValue _

theorem SetsOff.organization {t : TriggerRow} {actions : List Action} (h : SetsOff env t actions) :
    (t.payload.getStr "organization_id").isSome = true := by
  cases h with
  | event _ hp _ => rw [hp]; rfl
  | timer _ hp _ => rw [hp]; rfl

/-- **The only local failure is a missing target**, and only an event can miss one. -/
theorem SetsOff.local_failure {t : TriggerRow} {actions : List Action} (h : SetsOff env t actions)
    {a : Action} (ha : a ∈ actions) (hv : validAction a = true) {p : Providers} {executionId : Uuid} {index : ℕ}
    {key : String} (hnone : (executeAction p executionId index key t.payload a).1 = []) :
    executeAction p executionId index key t.payload a = rejected a.targetError ∧ t.source = .event ∧
      ∃ request : ReceiveEventRequest, t.payload = request.toValue ∧ a.Untargeted request := by
  obtain ⟨hout, hnot⟩ := executeAction_untargeted hv h.organization hnone
  cases h with
  | event hsrc hp _ =>
    rw [hp] at hnot
    exact ⟨hout, hsrc, _, hp, untargeted_of_event hnot⟩
  | timer _ _ hexplicit => exact absurd hnot (target_of_explicit (hexplicit a ha))

/-- A worker told a domain failure was refused, or met an action without a target. -/
theorem called_failure {events : List Event} {conn : Connection} {executionId : Uuid} {attempt index : ℕ}
    {key detail : String} {providers : Providers} {claim : ClaimedExecution} {action : Action}
    (hrefs : RefsOK env ((automation env).run events))
    (hp : ∀ e ∈ ((automation env).run events).db.executions, Prepared env ((automation env).run events).db e)
    (ht : ((automation env).run events).tasks (executionId, attempt) = some ⟨claim, .call index key⟩)
    (ha : claim.actions[index]?.bind Action.fromValue = some action)
    (h : (executeAction providers claim.executionId index key claim.payload action).2 = .error (.domain detail)) :
    Refused env (events ++ [.work conn executionId attempt providers]) (executionId, attempt) ∨
      Targetless ((automation env).run events).db executionId := by
  by_cases hcalls : (executeAction providers claim.executionId index key claim.payload action).1 = []
  · right
    obtain ⟨hkey, hclaim⟩ := hrefs.tasks _ _ ht
    have hid : claim.executionId = executionId := congrArg Prod.fst hkey
    obtain ⟨actions, hactions, hv, e, he, heid, hsteps, t, htm, htk, hpay, hsets⟩ := hclaim.prepared hp
    have hlt : index < claim.actions.length := by
      by_contra hge
      rw [List.getElem?_eq_none (by omega)] at ha
      cases ha
    obtain ⟨action', hmem, hva, hget, hdec⟩ := prepared_action hactions hv hlt
    rw [ha] at hdec
    cases hdec
    rw [← hpay] at hcalls
    obtain ⟨-, hsrc, request, hreq, hun⟩ := hsets.local_failure hmem hva hcalls
    refine ⟨e, he, heid.trans hid, t, htm, htk, hsrc, request, hreq, action, ?_, hun⟩
    rw [hsteps]
    exact List.mem_of_getElem? hget
  · left
    exact ⟨events, conn, providers, [], claim, index, key, action, rfl, ht, ha,
      executeAction_refused hcalls h⟩

/-- A worker that is not told a domain failure goes on. -/
theorem moved_failures {events : List Event} {claim : ClaimedExecution} {phase phase' : Phase} {k : Uuid × ℕ}
    (hrefs : RefsOK env w) (hi : FailuresOK env events w) (h₀ : w.tasks k = some ⟨claim, phase⟩)
    (hstep : Step env w event w') (ht : w'.tasks = (w.setTask claim phase').tasks)
    (hnext : phase'.Told → Refused env (events ++ [event]) k ∨ Targetless w.db k.1) :
    ∀ k' t, w'.tasks k' = some t → t.phase.Told →
      Refused env (events ++ [event]) k' ∨ Targetless w'.db k'.1 := by
  intro k' t ht' htold
  rw [ht] at ht'
  rcases setTask_phase hrefs h₀ ht' with hold | ⟨rfl, rfl⟩
  · exact (hi.tasks k' t hold htold).imp (fun h => h.append event) (fun h => h.step hstep)
  · exact (hnext htold).imp_right (fun h => h.step hstep)

/-- An execution that has failed, or that the step leaves alone. -/
theorem failed_continues {events : List Event} {e e' : ExecutionRow} (hi : FailuresOK env events w)
    (hstep : Step env w event w') (he : e ∈ w.db.executions) (hc : e.Continues e')
    (hst : e'.status = .failed → e.status = .failed) (hf : e'.status = .failed) :
    Refused env (events ++ [event]) (e'.executionId, e'.attempts) ∨ Targetless w'.db e'.executionId := by
  have hsame : e' = e := hc.terminal (by rw [hst hf]; rfl)
  subst hsame
  exact (hi.executions e' he hf).imp (fun h => h.append event) (fun h => h.step hstep)

/-- What a delivery opens has not failed. -/
theorem intake_failures {events : List Event} (hi : FailuresOK env events w) (hstep : Step env w event w')
    {trigger : TriggerRow} {es : List ExecutionRow} (hin : Intake s trigger es w.db w'.db) :
    ∀ e ∈ w'.db.executions, e.status = .failed →
      Refused env (events ++ [event]) (e.executionId, e.attempts) ∨ Targetless w'.db e.executionId := by
  intro e he hf
  rcases hin.mem_executions.1 he with he | he
  · exact failed_continues hi hstep he (.refl e) id hf
  · obtain ⟨rule, -, -, -, -, hopened⟩ := hin.opened e he
    rw [hopened.row] at hf
    cases hf

theorem step_failures {events : List Event} (hp : ∀ e ∈ ((automation env).run events).db.executions,
      Prepared env ((automation env).run events).db e)
    (hstep : Step env ((automation env).run events) event w')
    (hi : FailuresOK env events ((automation env).run events)) :
    FailuresOK env (events ++ [event]) w' := by
  have hrefs : RefsOK env ((automation env).run events) := run_refs events
  have hlater : ∀ {k}, Refused env events k ∨ Targetless ((automation env).run events).db k.1 →
      Refused env (events ++ [event]) k ∨ Targetless w'.db k.1 := fun h =>
    h.imp (fun h => h.append event) (fun h => h.step hstep)
  have htasks : w'.tasks = ((automation env).run events).tasks → ∀ k t, w'.tasks k = some t → t.phase.Told →
      Refused env (events ++ [event]) k ∨ Targetless w'.db k.1 := fun hsame k t ht htold =>
    hlater (hi.tasks k t (hsame ▸ ht) htold)
  have hexecs : w'.db.executions = ((automation env).run events).db.executions → ∀ e ∈ w'.db.executions,
      e.status = .failed → Refused env (events ++ [event]) (e.executionId, e.attempts) ∨
        Targetless w'.db e.executionId := fun hsame e he hf =>
    failed_continues hi hstep (hsame ▸ he) (.refl e) id hf
  have h := hstep
  cases h with
  | idle | tick | pendingDispatches | enqueued | lost | flushEnds | marked | noted | failed =>
    exact ⟨htasks rfl, hexecs rfl⟩
  | command _ hw _ => exact ⟨htasks rfl, hexecs hw.frame.2.1⟩
  | receiveEvent _ hin _ | receiveTimer _ _ _ hin => exact ⟨htasks rfl, intake_failures hi hstep hin⟩
  | @claimed _ _ _ _ _ _ _ _ told _ hcand hl =>
    refine ⟨fun k t ht htold => ?_, fun e he hf => ?_⟩
    · simp only [openTasks] at ht
      cases hfind : told.find? (fun c => Task.key ⟨c, .status 0⟩ = k) with
      | none =>
        rw [hfind] at ht
        exact hlater (hi.tasks k t ht htold)
      | some claim => rw [hfind] at ht; cases ht; exact htold.elim
    · rcases hl.executions_cases he with ⟨he, -⟩ | ⟨c, -, rfl⟩
      · exact failed_continues hi hstep he (.refl e) id hf
      · cases hf
  | @givesUp _ _ _ _ claim _ _ ht hg =>
    refine ⟨moved_failures hrefs hi ht hstep rfl (fun htold => ?_), hexecs rfl⟩
    cases hg with
    | done _ => exact htold.elim
    | runtime _ => exact htold.elim
    | tooMany hlt hmax =>
      -- an admitted rule has too few actions for that
      obtain ⟨actions, hactions, hv, -⟩ := (hrefs.tasks _ _ ht).2.prepared hp
      have hlen := (validActions_iff.1 hv).2.1
      rw [hactions, List.length_map] at hlt
      unfold maxRuleActions at hlen
      unfold i32Max at hmax
      omega
  | @statusRead _ _ _ _ _ _ row _ ht _ _ _ _ =>
    refine ⟨moved_failures hrefs hi ht hstep rfl (fun htold => ?_), hexecs rfl⟩
    split at htold <;> exact htold.elim
  | @called _ _ _ index key providers claim action ht ha =>
    refine ⟨moved_failures hrefs hi ht hstep rfl (fun htold => ?_), hexecs rfl⟩
    cases hout : (executeAction providers claim.executionId index key claim.payload action).2 with
    | ok response => rw [hout] at htold; exact htold.elim
    | error f =>
      cases f with
      | domain detail => exact called_failure hrefs hp ht ha hout
      | runtime failure => rw [hout] at htold; exact htold.elim
  | @recorded _ _ _ _ _ _ outcome _ ht _ =>
    refine ⟨moved_failures hrefs hi ht hstep rfl (fun htold => ?_), hexecs rfl⟩
    cases outcome with
    | ok response => exact htold.elim
    | error detail => exact (hi.tasks _ _ ht trivial).imp_left (fun h => h.append _)
  | released ht hleft =>
    refine ⟨moved_failures hrefs hi ht hstep rfl (fun htold => htold.elim), fun e he hf => ?_⟩
    rcases hleft.executions.cases he with rfl | ⟨he, -⟩
    · cases hf
    · exact failed_continues hi hstep he (.refl e) id hf
  | @completed _ executionId attempt _ claim result succeeded _ x _ _ _ ht hfin hleft _ _ hsettled =>
    refine ⟨moved_failures hrefs hi ht hstep rfl (fun htold => htold.elim), fun e he hf => ?_⟩
    have he' := he
    simp only [World.setTask] at he'
    rw [hsettled.frame.2.2.1] at he'
    rcases hleft.executions.cases he' with rfl | ⟨he, -⟩
    · -- the failure is the one its worker was told
      have htold : (Phase.finish result).Told := by
        cases result with
        | ok _ => cases hfin; cases hf
        | error f =>
          cases f with
          | domain _ => trivial
          | runtime _ => cases hfin
      obtain ⟨hid, hatt, -⟩ := heldBy_iff.1 hleft.held
      obtain ⟨hkid, hkatt⟩ := Prod.mk.inj (hrefs.tasks _ _ ht).1
      have hxid : x.executionId = executionId := hid.trans hkid
      have hxatt : x.attempts = attempt := hatt.trans hkatt
      show Refused env _ (x.executionId, x.attempts) ∨ Targetless _ x.executionId
      rw [hxid, hxatt]
      exact hlater (hi.tasks _ _ ht htold)
    · exact failed_continues hi hstep he (.refl e) id hf
  | closes ht => exact ⟨moved_failures hrefs hi ht hstep rfl (fun htold => htold.elim), hexecs rfl⟩

theorem run_failures (events : List Event) : FailuresOK env events ((automation env).run events) := by
  refine Transition.Machine.history (I := FailuresOK env) ⟨fun k t ht => (by cases ht), ?_⟩ ?_ events
  · intro e he
    exact absurd he (Table.not_mem_empty e)
  · intro events event hi
    exact step_failures (run_prepared events) (step_cases (run_refs events).linked event) hi

/-- **An execution fails** because a capability refused a call of its last attempt, or because its
event leaves an action without a target. -/
theorem failed_was_refused (events : List Event) {e : ExecutionRow}
    (he : e ∈ ((automation env).run events).db.executions) (hf : e.status = .failed) :
    Refused env events (e.executionId, e.attempts) ∨ Targetless ((automation env).run events).db e.executionId :=
  (run_failures events).executions e he hf

/-- The loop of `execute_actions` reads the receipt of each of its actions. -/
theorem status_goes_on {conn : Connection} {k : Uuid × ℕ} {claim : ClaimedExecution} {index : ℕ}
    (hrefs : RefsOK env w) (hlen : claim.actions.length ≤ maxRuleActions) (hserves : conn.Serves)
    (ht : w.tasks k = some ⟨claim, .status index⟩) (hlt : index < claim.actions.length) (providers : Providers) :
    ∃ phase, ((automation env).next w (.work conn k.1 k.2 providers)).tasks k = some ⟨claim, phase⟩ ∧
      (phase = .status (index + 1) ∨ ∃ key, phase = .call index key) := by
  obtain ⟨hkey, hclaim⟩ := hrefs.tasks _ _ ht
  obtain ⟨e, he, hid, -, -, hsteps, -⟩ := hclaim.execution
  obtain ⟨row, hrow, hk⟩ := hrefs.covered e he index (hsteps.symm ▸ hlt)
  have hfind : w.db.receipts.find? (claim.executionId, index) = some row :=
    Table.find?_eq_some.2 ⟨hrow, hid ▸ hk⟩
  have hread : ∃ db', actionStatus (w.session env conn) claim.executionId index w.db =
      .ok (.commit (row.status, row.idempotencyKey), db') := by
    unfold actionStatus
    rw [statement_bind_serves (hserves _), Txn.get_bind, hfind]
    exact ⟨_, rfl⟩
  obtain ⟨db', hread⟩ := hread
  show ∃ phase, (w.work env conn k.1 k.2 providers).tasks k = some ⟨claim, phase⟩ ∧ _
  unfold World.work
  rw [ht]
  simp only [World.readStatus]
  unfold maxRuleActions at hlen
  rw [if_neg (by omega), if_neg (by unfold i32Max; omega)]
  unfold World.transact
  rw [transact_of_commit hread]
  cases row.status with
  | succeeded => exact ⟨_, if_pos hkey.symm, Or.inl rfl⟩
  | pending => exact ⟨_, if_pos hkey.symm, Or.inr ⟨_, rfl⟩⟩
  | failed => exact ⟨_, if_pos hkey.symm, Or.inr ⟨_, rfl⟩⟩

/-- **Validation is sufficient for execution.** A worker finds the receipt of every action of its claim,
and every action decodes and makes a call, except that an event may leave one without a target; a
schedule never does. So a timer's execution fails only because a call of it was refused. -/
theorem validation_suffices (events : List Event) :
    let w := (automation env).run events
    (∀ k t, w.tasks k = some t →
      t.claim.actions.length ≤ maxRuleActions ∧
      ∀ index < t.claim.actions.length,
        (∃ r ∈ w.db.receipts, r.key = (t.claim.executionId, index)) ∧
        (∀ conn providers, conn.Serves → t.phase = .status index →
          ∃ phase, ((automation env).next w (.work conn k.1 k.2 providers)).tasks k = some ⟨t.claim, phase⟩ ∧
            (phase = .status (index + 1) ∨ ∃ key, phase = .call index key)) ∧
        ∃ action, t.claim.actions[index]?.bind Action.fromValue = some action ∧
          ∀ providers key,
            let out := executeAction providers t.claim.executionId index key t.claim.payload action
            out.1 ≠ [] ∨ out = rejected action.targetError ∧
              ∃ trigger ∈ w.db.triggers, trigger.triggerId = t.claim.triggerId ∧ trigger.source = .event ∧
                ∃ request : ReceiveEventRequest, trigger.payload = request.toValue ∧
                  action.Untargeted request) ∧
    ∀ e ∈ w.db.executions, e.status = .failed →
      (Refused env events (e.executionId, e.attempts) ∨ Targetless w.db e.executionId) ∧
      ∀ trigger ∈ w.db.triggers, trigger.triggerId = e.triggerId → trigger.source = .timer →
        Refused env events (e.executionId, e.attempts) := by
  intro w
  have hrefs : RefsOK env w := run_refs events
  refine ⟨fun k t ht => ?_, fun e he hf => ⟨failed_was_refused events he hf, fun trigger htm htk hsrc => ?_⟩⟩
  · obtain ⟨claim, phase⟩ := t
    obtain ⟨actions, hactions, hv, e, he, hid, hsteps, trigger, htm, htk, hpay, hsets⟩ :=
      (hrefs.tasks _ _ ht).2.prepared (run_prepared events)
    have hlen : claim.actions.length ≤ maxRuleActions := by
      rw [hactions, List.length_map]
      exact (validActions_iff.1 hv).2.1
    refine ⟨hlen, fun index hlt => ⟨?_, ?_, ?_⟩⟩
    · obtain ⟨r, hr, hk⟩ := hrefs.covered e he index (hsteps.symm ▸ hlt)
      exact ⟨r, hr, hid ▸ hk⟩
    · rintro conn providers hserves rfl
      exact status_goes_on hrefs hlen hserves ht hlt providers
    · obtain ⟨action, hmem, hva, -, hdec⟩ := prepared_action hactions hv hlt
      refine ⟨action, hdec, fun providers key => ?_⟩
      by_cases hcalls : (executeAction providers claim.executionId index key claim.payload action).1 = []
      · right
        have hlocal := hsets.local_failure hmem hva (hpay.symm ▸ hcalls)
        rw [hpay] at hlocal
        obtain ⟨hout, hsrc, request, hreq, hun⟩ := hlocal
        obtain ⟨x, hx, hxid, -, hxtrig, -⟩ := (hrefs.tasks _ _ ht).2.execution
        have hone : x = e := Table.eq_of_key hx he (hxid.trans hid.symm)
        subst hone
        exact ⟨hout, trigger, htm, htk.trans hxtrig, hsrc, request, hpay.trans hreq, hun⟩
      · exact Or.inl hcalls
  · refine (failed_was_refused events he hf).resolve_right ?_
    rintro ⟨e', he', hid, t, ht, htk', hsrc', -⟩
    have hone := Table.eq_of_key he' he hid
    subst hone
    rw [Table.eq_of_key ht htm (htk'.trans htk.symm), hsrc] at hsrc'
    cases hsrc'

end ProjectAutomation

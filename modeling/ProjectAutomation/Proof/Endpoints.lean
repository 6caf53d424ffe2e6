import ProjectAutomation.Proof.Calls
import ProjectAutomation.Proof.Isolation
import ProjectAutomation.Spec.Endpoints

/-!
# Every operation is a run of the machine

Past its checks an operation is one transaction, a transaction and a flush, or a `reconcile`.
`Plugin.Runs` says of a part of an operation that the machine comes to the world it leaves, and
is kept by everything an operation is put together of, so `invoke_runs` holds of all ten, and
operations one after another are a run (`operations_simulated`). What holds after every run of the
machine therefore holds after any operations.
-/

namespace ProjectAutomation

open Relational Transition

variable {α β : Type} {env : Env}

/-- The machine comes to the world a part of an operation leaves. -/
def Plugin.Runs (env : Env) (x : Plugin α) : Prop :=
  ∀ (w : World) (flushes : List Flush) (tasks : Uuid × ℕ → Option Task), ∃ flushes' tasks',
    (automation env).Reaches (w.amid flushes tasks) ((x w).world.amid flushes' tasks')

namespace Plugin.Runs

variable {x : Plugin α} {f : α → Plugin β}

theorem bind (hx : x.Runs env) (hf : ∀ a, (f a).Runs env) : (x >>= f).Runs env := by
  intro w flushes tasks
  obtain ⟨flushes₁, tasks₁, hfirst⟩ := hx w flushes tasks
  rw [Plugin.bind_world]
  cases (x w).result with
  | error e => exact ⟨flushes₁, tasks₁, hfirst⟩
  | ok a =>
    obtain ⟨flushes₂, tasks₂, hrest⟩ := hf a (x w).world flushes₁ tasks₁
    exact ⟨flushes₂, tasks₂, hfirst.trans hrest⟩

/-- What leaves the world alone is a run of no events. -/
theorem of_still (h : ∀ w, (x w).world = w) : x.Runs env := by
  intro w flushes tasks
  rw [h w]
  exact ⟨flushes, tasks, .refl _⟩

theorem of_event (event : Event) (h : ∀ w flushes tasks,
      (automation env).next (World.amid w flushes tasks) event = (x w).world.amid flushes tasks) :
    x.Runs env := fun w flushes tasks => ⟨flushes, tasks, .one (h w flushes tasks)⟩

theorem pure (a : α) : (Pure.pure a : Plugin α).Runs env := of_still fun _ => rfl

theorem fail (e : PluginError) : (Plugin.fail e : Plugin α).Runs env := of_still fun _ => rfl

theorem authResult (result : OffsetDateTime → Except AuthorizationFailure Authorized) :
    (Plugin.authResult result).Runs env := of_still fun _ => rfl

theorem decode (host : Host) (operation : String) (value : Value) :
    (Plugin.decode host operation value).Runs env := by
  unfold Plugin.decode
  cases host.decodeError operation value with
  | none => exact .pure _
  | some error => exact .fail _

/-- What follows a check may count on it. -/
theorem check {e : PluginError} {holds : Bool} {f : Unit → Plugin β} (hf : holds = true → (f ()).Runs env) :
    (Plugin.check e holds >>= f).Runs env := by
  cases holds with
  | true => exact hf rfl
  | false => exact .of_still fun _ => rfl

/-- What follows `ok_or` may count on what it found. -/
theorem okOr {e : PluginError} {o : Option α} {f : α → Plugin β} (hf : ∀ a, o = some a → (f a).Runs env) :
    (Plugin.okOr e o >>= f).Runs env := by
  cases o with
  | some a => exact hf a rfl
  | none => exact .of_still fun _ => rfl

/-- A storage call that never commits. -/
theorem reads {conn : Connection} {map : StorageError → PluginError} {body : Session → Tx (Ending α)}
    (h : ∀ s db ending db', body s db = .ok (ending, db') → ending.committed = none) :
    (Plugin.storage env conn map body).Runs env := by
  refine of_still fun w => ?_
  show (w.transact (body (w.session env conn))).2 = w
  rcases w.transact_snd_cases (body (w.session env conn)) with hw | ⟨ending, a, db', hb, hc, -⟩
  · exact hw
  · rw [h _ _ _ _ hb] at hc
    cases hc

theorem flush (around : FlushAround) (organizationId : String) (limit : ℕ) :
    (flushSchedules env around organizationId limit).Runs env := by
  intro w flushes tasks
  obtain ⟨flushes', h⟩ := flushSchedules_reaches env w flushes tasks around organizationId limit
  exact ⟨flushes', tasks, h⟩

end Plugin.Runs

/-! ## The ten operations -/

section Operations

variable (plugin : ProjectAutomationPlugin) (host : Host) (around : CallAround) (context : Ctx)

theorem manage_runs (operation organizationId permission : String) :
    (plugin.manage host context operation organizationId permission).Runs env := .authResult _

theorem isPrepared_runs : plugin.isPrepared.Runs env := by
  unfold ProjectAutomationPlugin.isPrepared Plugin.check
  split
  · exact .pure ()
  · exact .fail _

/-- A valid rule command is one event. -/
theorem storeCommand_runs (conn : Connection) (auth : Authorized) {request : CommandRequest}
    (hvalid : request.valid env = true) :
    (Plugin.storage env conn mapStorage (storeCommand · auth request)).Runs env := by
  refine .of_event (.command conn auth request) fun w flushes tasks => ?_
  show ((w.amid flushes tasks).command env conn auth request).2 = _
  unfold World.command
  rw [if_pos hvalid]
  rfl

theorem ruleCommand_runs (operation permission : String) (flushes : Bool) (request : CommandRequest) :
    (plugin.ruleCommand env host around context operation permission flushes request).Runs env := by
  refine .bind (manage_runs plugin host context _ _ _) fun auth => .check fun hvalid => ?_
  refine .bind (isPrepared_runs plugin) fun _ => .bind (storeCommand_runs around.storage auth hvalid) fun value => ?_
  cases flushes with
  | true => exact .bind (.flush _ _ _) fun _ => .decode _ _ _
  | false => exact .decode _ _ _

theorem getRule_runs (request : GetRuleRequest) : (plugin.getRule env host around context request).Runs env := by
  refine .bind (manage_runs plugin host context _ _ _) fun _ => .check fun _ => ?_
  refine .bind (isPrepared_runs plugin) fun _ => .bind (.reads fun s db ending db' h => ?_) fun _ => .decode _ _ _
  obtain ⟨-, -, -, v, -, he⟩ := getRule_ok h
  cases he
  rfl

theorem listRules_runs (request : ListRulesRequest) :
    (plugin.listRules env host around context request).Runs env := by
  refine .bind (manage_runs plugin host context _ _ _) fun _ => .check fun _ => ?_
  refine .bind (isPrepared_runs plugin) fun _ => .bind (.reads fun s db ending db' h => ?_) fun _ => .decode _ _ _
  obtain ⟨v, -, he⟩ := listRules_ok h
  cases he
  rfl

theorem inspectExecution_runs (request : InspectExecutionRequest) :
    (plugin.inspectExecution env host around context request).Runs env := by
  refine .bind (manage_runs plugin host context _ _ _) fun _ => .okOr fun executionId _ => .check fun _ => ?_
  exact .bind (isPrepared_runs plugin) fun _ => .bind (.of_still fun _ => rfl) fun _ => .decode _ _ _

/-- A valid event goes to `storage::receive_event` as it is. -/
theorem takeEvent_of_valid {s : Session} {request : ReceiveEventRequest} {occurredAt : OffsetDateTime}
    (hvalid : validEvent (fun text => (s.env.parseRfc3339 text).isSome) request = true)
    (hparse : s.env.parseRfc3339 request.occurredAt = some occurredAt) :
    takeEvent s request = receiveEvent s request.organizationId request.dedupeKey occurredAt request.toValue := by
  have htime : parseTime s.env request.occurredAt = .ok occurredAt := parseTime_eq_ok.2 hparse
  unfold takeEvent
  rw [hvalid, htime]
  rfl

/-- So does a valid timer to `storage::receive_timer`. -/
theorem takeTimer_of_valid {s : Session} {request : ReceiveTimerRequest} {scheduledFor : OffsetDateTime}
    (hvalid : (validId request.organizationId && validId request.ruleId && validId request.dedupeKey) = true)
    (hparse : s.env.parseRfc3339 request.scheduledFor = some scheduledFor) :
    takeTimer s request =
      receiveTimer s request.organizationId request.ruleId request.dedupeKey scheduledFor request.toValue := by
  have hall : [request.organizationId, request.ruleId, request.dedupeKey].all validId = true := by
    simpa [and_assoc] using hvalid
  have htime : parseTime s.env request.scheduledFor = .ok scheduledFor := parseTime_eq_ok.2 hparse
  unfold takeTimer
  rw [hall, htime]
  rfl

theorem receiveEvent_runs (request : ReceiveEventRequest) :
    (plugin.receiveEvent env around context request).Runs env := by
  refine .check fun _ => .check fun hvalid => .okOr fun occurredAt hparse => ?_
  refine .bind (isPrepared_runs plugin) fun _ => ?_
  refine .of_event (.receiveEvent around.storage request) fun w flushes tasks => ?_
  show ((w.amid flushes tasks).transact (takeEvent (w.session env around.storage) request)).2 = _
  rw [takeEvent_of_valid hvalid hparse]
  rfl

theorem receiveTimer_runs (request : ReceiveTimerRequest) :
    (plugin.receiveTimer env around context request).Runs env := by
  refine .check fun _ => .check fun hvalid => .okOr fun scheduledFor hparse => ?_
  refine .bind (isPrepared_runs plugin) fun _ => ?_
  refine .of_event (.receiveTimer around.storage request) fun w flushes tasks => ?_
  show ((w.amid flushes tasks).transact (takeTimer (w.session env around.storage) request)).2 = _
  rw [takeTimer_of_valid hvalid hparse]
  rfl

theorem reconcileOperation_runs (request : ReconcileRequest) :
    (plugin.reconcile env host around context request).Runs env := by
  refine .bind (.authResult _) fun auth => .check fun _ => .bind (isPrepared_runs plugin) fun _ => ?_
  exact fun w flushes tasks => reconcile_reaches env w flushes tasks _ _ _ _ _

/-- **Every operation is a run of the machine**, with the queue its configuration names. -/
theorem invoke_runs (env : Env) (request : Request) :
    (plugin.invoke env host around context request).Runs (ProjectAutomationPlugin.invoke.queued plugin env) := by
  cases request with
  | createRule r | updateRule r | setRuleEnabled r | deleteRule r =>
    exact .bind (ruleCommand_runs plugin host around context _ _ _ _) fun _ => .pure _
  | getRule r => exact .bind (getRule_runs plugin host around context r) fun _ => .pure _
  | listRules r => exact .bind (listRules_runs plugin host around context r) fun _ => .pure _
  | inspectExecution r => exact .bind (inspectExecution_runs plugin host around context r) fun _ => .pure _
  | receiveEvent r => exact .bind (receiveEvent_runs plugin around context r) fun _ => .pure _
  | receiveTimer r => exact .bind (receiveTimer_runs plugin around context r) fun _ => .pure _
  | reconcile r => exact .bind (reconcileOperation_runs plugin host around context r) fun _ => .pure _

end Operations

/-! ## What an answer tells -/

section Answers

variable {x : Plugin α} {f : α → Plugin β} {w : World} {b : β}

/-- A part that leaves the world alone was answered, if the whole was. -/
theorem Plugin.still_bind (hx : (x w).world = w) (h : ((x >>= f) w).result = .ok b) :
    ∃ a, (x w).result = .ok a ∧ (f a w).result = .ok b := by
  cases hr : (x w).result with
  | error e =>
    simp only [Bind.bind, hr] at h
    cases h
  | ok a =>
    simp only [Bind.bind, hr, hx] at h
    exact ⟨a, rfl, h⟩

/-- What was answered passed its check. -/
theorem Plugin.check_bind {e : PluginError} {holds : Bool} {f : Unit → Plugin β}
    (h : ((Plugin.check e holds >>= f) w).result = .ok b) : holds = true ∧ (f () w).result = .ok b := by
  cases holds with
  | true => exact ⟨rfl, h⟩
  | false => cases h

theorem Plugin.okOr_bind {e : PluginError} {o : Option α} (h : ((Plugin.okOr e o >>= f) w).result = .ok b) :
    ∃ a, o = some a ∧ (f a w).result = .ok b := by
  cases o with
  | some a => exact ⟨a, rfl, h⟩
  | none => cases h

theorem Plugin.decode_ok {host : Host} {operation : String} {value answer : Value}
    (h : (Plugin.decode host operation value w).result = .ok answer) : answer = value := by
  unfold Plugin.decode at h
  cases hd : host.decodeError operation value with
  | none =>
    rw [hd] at h
    cases h
    rfl
  | some error =>
    rw [hd] at h
    cases h

/-- A storage call was answered as its transaction was. -/
theorem Plugin.storage_ok {conn : Connection} {map : StorageError → PluginError} {body : Session → Tx (Ending α)}
    {a : α} (h : (Plugin.storage env conn map body w).result = .ok a) :
    (w.transact (body (w.session env conn))).1 = .ok a := by
  have h : (w.transact (body (w.session env conn))).1.mapError map = .ok a := h
  cases hdone : (w.transact (body (w.session env conn))).1 with
  | error e =>
    rw [hdone] at h
    cases h
  | ok a' =>
    rw [hdone] at h
    cases h
    rfl

variable {plugin : ProjectAutomationPlugin} {host : Host} {around : CallAround} {context : Ctx} {answer : Value}

/-- An answered `list_rules` had a valid request, and is what the storage layer answered. -/
theorem listRules_answered {request : ListRulesRequest}
    (h : (plugin.listRules env host around context request w).result = .ok answer) : request.valid = true ∧
      (w.transact (listRules (w.session env around.storage) request.organizationId request.enabled
        request.limit.toNat request.after)).1 = .ok answer := by
  unfold ProjectAutomationPlugin.listRules at h
  obtain ⟨_, -, h⟩ := Plugin.still_bind rfl h
  obtain ⟨hvalid, h⟩ := Plugin.check_bind h
  obtain ⟨-, h⟩ := Plugin.check_bind h
  refine ⟨hvalid, ?_⟩
  have hread : (w.transact (listRules (w.session env around.storage) request.organizationId request.enabled
      request.limit.toNat request.after)).2 = w :=
    transact_read fun r hr => by
      obtain ⟨v, -, rfl⟩ := listRules_ok hr
      exact ⟨v, rfl⟩
  obtain ⟨value, hvalue, h⟩ := Plugin.still_bind hread h
  rw [Plugin.decode_ok h]
  exact Plugin.storage_ok hvalue

/-- So is an answered `inspect_execution`. -/
theorem inspectExecution_answered {request : InspectExecutionRequest}
    (h : (plugin.inspectExecution env host around context request w).result = .ok answer) : request.valid = true ∧
      ∃ executionId, host.parseUuid request.executionId = some executionId ∧
        inspectExecution (w.session env around.storage) w.db w.db w.db request.organizationId executionId
          request.attemptLimit.toNat request.attemptAfter = .ok answer := by
  unfold ProjectAutomationPlugin.inspectExecution at h
  obtain ⟨_, -, h⟩ := Plugin.still_bind rfl h
  obtain ⟨executionId, hid, h⟩ := Plugin.okOr_bind h
  obtain ⟨hvalid, h⟩ := Plugin.check_bind h
  obtain ⟨-, h⟩ := Plugin.check_bind h
  refine ⟨hvalid, executionId, hid, ?_⟩
  obtain ⟨value, hvalue, h⟩ := Plugin.still_bind rfl h
  rw [Plugin.decode_ok h]
  have hvalue : (inspectExecution (w.session env around.storage) w.db w.db w.db request.organizationId executionId
    request.attemptLimit.toNat request.attemptAfter).mapError mapStorage = .ok value := hvalue
  cases hdone : inspectExecution (w.session env around.storage) w.db w.db w.db request.organizationId executionId
    request.attemptLimit.toNat request.attemptAfter with
  | error e =>
    rw [hdone] at hvalue
    cases hvalue
  | ok value' =>
    rw [hdone] at hvalue
    cases hvalue
    rfl

end Answers

/-! ## Operations one after another -/

/-- A call of an operation, with what it meets and the time that passes before it. -/
structure Invocation where
  wait : ℕ
  host : Host
  around : CallAround
  context : Ctx
  request : Request

/-- The world once an invocation has been answered. -/
def ProjectAutomationPlugin.serve (plugin : ProjectAutomationPlugin) (env : Env) (w : World) (i : Invocation) :
    World :=
  (plugin.invoke env i.host i.around i.context i.request (w.tick i.wait)).world

/-- Some run of the machine comes from any world, whatever is under way, to the one invocations leave. -/
theorem serve_reaches (plugin : ProjectAutomationPlugin) (env : Env) (invocations : List Invocation) :
    ∀ (w : World) (flushes : List Flush) (tasks : Uuid × ℕ → Option Task), ∃ flushes' tasks',
      (automation (ProjectAutomationPlugin.invoke.queued plugin env)).Reaches (w.amid flushes tasks)
        ((invocations.foldl (plugin.serve env) w).amid flushes' tasks') := by
  induction invocations with
  | nil => exact fun w flushes tasks => ⟨flushes, tasks, .refl _⟩
  | cons i rest ih =>
    intro w flushes tasks
    obtain ⟨flushes₁, tasks₁, hfirst⟩ :=
      invoke_runs plugin i.host i.around i.context env i.request (w.tick i.wait) flushes tasks
    obtain ⟨flushes₂, tasks₂, hrest⟩ := ih (plugin.serve env w i) flushes₁ tasks₁
    have htick : (automation (ProjectAutomationPlugin.invoke.queued plugin env)).next (w.amid flushes tasks)
        (.tick i.wait) = (w.tick i.wait).amid flushes tasks := rfl
    exact ⟨flushes₂, tasks₂, .head htick (hfirst.trans hrest)⟩

/-- **The machine simulates the plugin.** Whatever any callers ask of the ten operations, one after another, and
whatever the calls meet, the machine comes from the same world to the same schema, the same jobs and the same
calls of the other capabilities, with flushes and workers of its own under way. -/
theorem operations_simulated (plugin : ProjectAutomationPlugin) (env : Env) (w : World)
    (invocations : List Invocation) :
    ∃ events flushes tasks, (automation (ProjectAutomationPlugin.invoke.queued plugin env)).runFrom w events =
      { invocations.foldl (plugin.serve env) w with flushes, tasks } := by
  obtain ⟨flushes, tasks, events, hrun⟩ := serve_reaches plugin env invocations w w.flushes w.tasks
  exact ⟨events, flushes, tasks, hrun⟩

end ProjectAutomation

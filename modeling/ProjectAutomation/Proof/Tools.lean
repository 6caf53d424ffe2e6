import ProjectAutomation.Proof.Answers
import ProjectAutomation.Proof.Authority
import ProjectAutomation.Spec.Tools

/-!
# Agents and their tools

* `tools_relay`: a tool that is offered is its operation. Arguments that conform to its schema
  reach the operation, and its answer comes back as it was, in every reachable state.
* `parallel_tools_erase`: the tools offered as safe to run in parallel can be left out of any
  schedule of calls and events, and nobody else is told anything different.
* `agents_stay_within`: whatever agents call, the rules and jobs that change are those of
  organizations they manage, and nothing that runs is touched.

An `Effect` is what a call may do, closed under one call after another; `Plugin.Has` is put
together along the code.
-/

namespace ProjectAutomation

open Relational Transition Codec

variable {α β : Type} {env : Env} {w w' w'' : World}

/-! ## Effects -/

/-- What calls may do: from a world, with what they ask of Jobs, to a world. -/
structure Effect where
  Of : World → List EnqueueRequest → World → Prop
  idle : ∀ w, Of w [] w
  trans : ∀ {w w' w'' : World} {sent sent' : List EnqueueRequest}, Of w sent w' → Of w' sent' w'' →
    Of w (sent ++ sent') w''

/-- Made at `w`, a call does no more than `E`. -/
def Plugin.Has (E : Effect) (x : Plugin α) (w : World) : Prop := E.Of w (x w).sent (x w).world

namespace Plugin.Has

variable {E : Effect} {x : Plugin α} {f : α → Plugin β}

theorem bind (hx : x.Has E w) (hf : ∀ a, (x w).result = .ok a → (f a).Has E (x w).world) : (x >>= f).Has E w := by
  unfold Plugin.Has at hx ⊢
  simp only [Bind.bind]
  cases hr : (x w).result with
  | error e => exact hx
  | ok a => exact E.trans hx (hf a hr)

theorem pure (a : α) : (Pure.pure a : Plugin α).Has E w := E.idle w

theorem fail (e : PluginError) : (Plugin.fail e : Plugin α).Has E w := E.idle w

theorem authResult (result : OffsetDateTime → Except AuthorizationFailure Authorized) :
    (Plugin.authResult result).Has E w := E.idle w

theorem check {e : PluginError} {holds : Bool} : (Plugin.check e holds).Has E w := by
  cases holds with
  | true => exact .pure ()
  | false => exact .fail e

theorem okOr {e : PluginError} {o : Option α} : (Plugin.okOr e o).Has E w := by
  cases o with
  | some a => exact .pure a
  | none => exact .fail e

theorem decode {host : Host} {operation : String} {value : Value} : (Plugin.decode host operation value).Has E w := by
  unfold Plugin.decode
  cases host.decodeError operation value with
  | none => exact .pure value
  | some error => exact .fail _

/-- A storage call does what its transaction commits. -/
theorem storage {conn : Connection} {map : StorageError → PluginError} {body : Session → Tx (Ending α)}
    (h : ∀ ending a db', body (w.session env conn) w.db = .ok (ending, db') → ending.committed = some a →
      E.Of w [] { w with db := db' }) :
    (Plugin.storage env conn map body).Has E w := by
  show E.Of w [] (w.transact (body (w.session env conn))).2
  rcases w.transact_snd_cases (body (w.session env conn)) with hw | ⟨ending, a, db', hb, hc, hw⟩
  · rw [hw]
    exact E.idle w
  · rw [hw]
    exact h ending a db' hb hc

end Plugin.Has

/-- Nothing. -/
def Effect.still : Effect where
  Of w sent w' := sent = [] ∧ w' = w
  idle _ := ⟨rfl, rfl⟩
  trans := by
    rintro _ _ _ _ _ ⟨rfl, rfl⟩ ⟨rfl, rfl⟩
    exact ⟨rfl, rfl⟩

/-! ## Reads -/

section Reads

variable {E : Effect} (plugin : ProjectAutomationPlugin) (host : Host) (around : CallAround) (context : Ctx)

theorem getRule_has (request : GetRuleRequest) : (plugin.getRule env host around context request).Has E w := by
  refine .bind (.authResult _) fun _ _ => .bind .check fun _ _ => .bind .check fun _ _ => ?_
  refine .bind (.storage fun ending a db' h hc => ?_) fun _ _ => .decode
  obtain ⟨-, -, -, v, -, he⟩ := getRule_ok h
  cases he
  cases hc

theorem listRules_has (request : ListRulesRequest) : (plugin.listRules env host around context request).Has E w := by
  refine .bind (.authResult _) fun _ _ => .bind .check fun _ _ => .bind .check fun _ _ => ?_
  refine .bind (.storage fun ending a db' h hc => ?_) fun _ _ => .decode
  obtain ⟨v, -, he⟩ := listRules_ok h
  cases he
  cases hc

theorem inspectExecution_has (request : InspectExecutionRequest) :
    (plugin.inspectExecution env host around context request).Has E w := by
  refine .bind (.authResult _) fun _ _ => .bind .okOr fun _ _ => .bind .check fun _ _ => ?_
  exact .bind .check fun _ _ => .bind (E.idle _) fun _ _ => .decode

end Reads

/-! ## Rule commands -/

/-- Nothing that runs has changed, commands and jobs have only been added, and the rules and jobs that did
change are of organizations in `O`. -/
structure Touches (O : String → Prop) (w w' : World) : Prop where
  clock : w'.clock = w.clock
  flushes : w'.flushes = w.flushes
  tasks : w'.tasks = w.tasks
  calls : w'.calls = w.calls
  triggers : w'.db.triggers = w.db.triggers
  executions : w'.db.executions = w.db.executions
  attempts : w'.db.attempts = w.db.attempts
  receipts : w'.db.receipts = w.db.receipts
  commands : ∀ c ∈ w.db.commands, c ∈ w'.db.commands
  rules : ∀ organizationId, ¬ O organizationId →
    w.db.rules.Agree (fun r => r.organizationId = organizationId) w'.db.rules
  jobs : ∀ job ∈ w.jobs, job ∈ w'.jobs
  newJobs : ∀ job ∈ w'.jobs, job ∈ w.jobs ∨ O job.request.payload.organizationId

variable {O : String → Prop}

theorem Touches.refl (O : String → Prop) (w : World) : Touches O w w :=
  ⟨rfl, rfl, rfl, rfl, rfl, rfl, rfl, rfl, fun _ hc => hc, fun _ _ => .refl _ _, fun _ hj => hj,
    fun _ hj => .inl hj⟩

theorem Touches.mono {O' : String → Prop} (hO : ∀ organizationId, O organizationId → O' organizationId)
    (h : Touches O w w') : Touches O' w w' :=
  { h with
    rules := fun organizationId hnot => h.rules organizationId fun hmem => hnot (hO _ hmem)
    newJobs := fun job hj => (h.newJobs job hj).imp_right (hO _) }

theorem Touches.trans (h : Touches O w w') (h' : Touches O w' w'') : Touches O w w'' where
  clock := h'.clock.trans h.clock
  flushes := h'.flushes.trans h.flushes
  tasks := h'.tasks.trans h.tasks
  calls := h'.calls.trans h.calls
  triggers := h'.triggers.trans h.triggers
  executions := h'.executions.trans h.executions
  attempts := h'.attempts.trans h.attempts
  receipts := h'.receipts.trans h.receipts
  commands c hc := h'.commands c (h.commands c hc)
  rules organizationId hO := (h.rules organizationId hO).trans (h'.rules organizationId hO)
  jobs job hj := h'.jobs job (h.jobs job hj)
  newJobs job hj := (h'.newJobs job hj).elim (h.newJobs job) .inr

/-- What rule commands for the organizations in `O` may do. -/
def Effect.within (O : String → Prop) : Effect where
  Of w sent w' := Touches O w w' ∧ ∀ request ∈ sent, O request.payload.organizationId
  idle w := ⟨.refl O w, fun _ hr => absurd hr List.not_mem_nil⟩
  trans h h' := ⟨h.1.trans h'.1, fun request hr => (List.mem_append.1 hr).elim (h.2 request) (h'.2 request)⟩

/-- Writes to the dispatches touch nothing else. -/
theorem touches_of_flushed {db' : Database} (h : db'.flushed = w.db.flushed) :
    (Effect.within O).Of w [] { w with db := db' } := by
  obtain ⟨hcommands, hrules, htriggers, hexecutions, hattempts, hreceipts, -⟩ := Database.mk.inj h
  refine ⟨⟨rfl, rfl, rfl, rfl, htriggers, hexecutions, hattempts, hreceipts, fun c hc => ?_, fun _ _ => ?_,
    fun _ hj => hj, fun _ hj => .inl hj⟩, fun _ hr => absurd hr List.not_mem_nil⟩
  · show c ∈ db'.commands
    rw [hcommands]
    exact hc
  · exact Table.agree_of_eq hrules

theorem takeJob_jobs (jobs : List Job) (request : EnqueueRequest) (jobId : String) :
    (takeJob jobs request jobId).2 = jobs ∨ (takeJob jobs request jobId).2 = jobs ++ [⟨jobId, request⟩] := by
  unfold takeJob
  split
  · exact .inl rfl
  · exact .inr rfl

theorem enqueue_within {request : EnqueueRequest} {answer : JobsAnswer} (hO : O request.payload.organizationId) :
    (enqueue request answer).Has (.within O) w := by
  have hsent : ∀ r ∈ [request], O r.payload.organizationId := fun r hr => List.mem_singleton.1 hr ▸ hO
  -- the jobs Jobs has afterwards
  have htaken : ∀ (jobId : String) (acknowledged : List Job),
      Touches O w { w with jobs := (takeJob w.jobs request jobId).2, acknowledged } := by
    intro jobId acknowledged
    rcases takeJob_jobs w.jobs request jobId with h | h
    all_goals
      rw [h]
      refine ⟨rfl, rfl, rfl, rfl, rfl, rfl, rfl, rfl, fun _ hc => hc, fun _ _ => .refl _ _, fun job hj => ?_,
        fun job hj => ?_⟩
    · exact hj
    · exact .inl hj
    · exact List.mem_append_left _ hj
    · refine (List.mem_append.1 hj).imp_right fun hnew => ?_
      obtain rfl := List.mem_singleton.1 hnew
      exact hO
  cases answer with
  | ok jobId => exact ⟨htaken jobId _, hsent⟩
  | lost jobId failure => exact ⟨htaken jobId _, hsent⟩
  | runtime | domain => exact ⟨.refl O w, hsent⟩

theorem flushDispatch_within {turn : FlushTurn} {c : ScheduleDispatch} (hO : O c.organizationId) :
    (flushDispatch env turn c).Has (.within O) w := by
  unfold flushDispatch
  cases env.formatRfc3339 c.scheduledFor with
  | none => exact .fail _
  | some availableAt =>
    refine .bind (enqueue_within hO) fun answered _ => ?_
    cases answered with
    | ok jobId =>
      refine .bind (.storage fun _ _ _ h _ => touches_of_flushed (flushed_of_write h)) fun recorded _ => ?_
      cases recorded with
      | true => exact .pure _
      | false => exact .bind (.storage fun _ _ _ h _ => touches_of_flushed (flushed_of_write h)) fun _ _ => .pure _
    | error failed => exact .bind (.storage fun _ _ _ h _ => touches_of_flushed (flushed_of_write h)) fun _ _ => .fail _

theorem flushDispatches_within {turns : ℕ → FlushTurn} {index : ℕ} {copies : List ScheduleDispatch}
    (hO : ∀ c ∈ copies, O c.organizationId) : (flushDispatches env turns index copies).Has (.within O) w := by
  induction copies generalizing index w with
  | nil => exact .pure _
  | cons c rest ih =>
    obtain ⟨hc, hrest⟩ := List.forall_mem_cons.1 hO
    exact .bind (flushDispatch_within hc) fun _ _ => .bind (ih hrest) fun _ _ => .pure _

theorem flushSchedules_within {around : FlushAround} {organizationId : String} {limit : ℕ} (hO : O organizationId) :
    (flushSchedules env around organizationId limit).Has (.within O) w := by
  refine .bind (.storage fun ending a db' h _ => ?_) fun copies hcopies => flushDispatches_within fun c hc => ?_
  · obtain ⟨_, he, -⟩ := pendingDispatches_ok h
    cases he
    exact touches_of_flushed rfl
  · obtain ⟨ending, db', hread, hending⟩ := transact_answer (Plugin.storage_ok hcopies)
    obtain ⟨copies', he, hpending⟩ := pendingDispatches_ok hread
    cases he
    rcases hending with heq | heq <;> cases heq
    obtain ⟨d, -, horg, -, rfl⟩ := hpending c hc
    show O d.organizationId
    rw [horg]
    exact hO

/-- **A rule command touches its organization.** -/
theorem storeCommand_within {auth : Authorized} {request : CommandRequest} {s : Session} {ending : Ending Value}
    {response : Value} {db' : Database} (hO : O request.organizationId)
    (h : storeCommand s auth request w.db = .ok (ending, db')) (hc : ending.committed = some response) :
    (Effect.within O).Of w [] { w with db := db' } := by
  rcases storeCommand_ok h with ⟨_, he, -⟩ | ⟨_, -, hworked, hanswered⟩
  · cases he
    cases hc
  · obtain ⟨htriggers, hexecutions, hattempts, hreceipts⟩ := hworked.frame
    obtain ⟨old, new, next, hwritten, hwrite, -⟩ := hworked
    refine ⟨⟨rfl, rfl, rfl, rfl, htriggers, hexecutions, hattempts, hreceipts,
      fun c hc => (mem_answered hanswered).2 (.inl hc), fun organizationId hnot => ?_, fun _ hj => hj,
      fun _ hj => .inl hj⟩, fun _ hr => absurd hr List.not_mem_nil⟩
    have hne : new.organizationId ≠ organizationId := by
      rintro rfl
      exact hnot (hwritten.organizationId_eq ▸ hO)
    refine Table.agree_of_put hwrite.rules hne fun r hr hk => ?_
    have hold : old = some r := by
      rw [← hwrite.found, ← hk]
      exact Table.find?_of_mem hr
    rw [(hwrite.live r hold).2]
    exact hne

theorem ruleCommand_within (plugin : ProjectAutomationPlugin) (host : Host) (around : CallAround) (context : Ctx)
    {operation permission : String} {flushes : Bool} {request : CommandRequest} (hO : O request.organizationId) :
    (plugin.ruleCommand env host around context operation permission flushes request).Has (.within O) w := by
  refine .bind (.authResult _) fun auth _ => .bind .check fun _ _ => .bind .check fun _ _ => ?_
  refine .bind (.storage fun ending a db' h hc => storeCommand_within hO h hc) fun value _ => ?_
  cases flushes with
  | true => exact .bind (flushSchedules_within hO) fun _ _ => .decode
  | false => exact .decode

/-! ## The catalogue -/

theorem toolDefinitions_operation : ∀ tool ∈ toolDefinitions, ∃ operation, toolOperation tool.name = some operation ∧
    tool.inputSchema = requestSchema operation ∧
      (tool.execution = .parallelSafe → operation ∈ ["get_rule", "list_rules", "inspect_execution"]) := by
  intro t ht
  simp only [toolDefinitions, List.mem_cons, List.not_mem_nil, or_false] at ht
  rcases ht with rfl | rfl | rfl | rfl | rfl | rfl | rfl <;> exact ⟨_, rfl, rfl, by decide⟩

/-- What no tool is called is no operation. -/
theorem toolOperation_eq_none {name : String} (h : name ∉ toolDefinitions.map ToolDefinition.name) :
    toolOperation name = none := by
  unfold toolOperation
  split
  all_goals first
    | rfl
    | exact absurd (by decide) h

/-- The organization whose rules a request writes. -/
def Request.managed : Request → Option String
  | .createRule r => some r.organizationId
  | .updateRule r => some r.organizationId
  | .setRuleEnabled r => some r.organizationId
  | .deleteRule r => some r.organizationId
  | _ => none

theorem role_of_tool {name : String} {r : Request} (h : toolOperation name = some r.operation) : r.role = .admin := by
  cases r with
  | receiveEvent | receiveTimer | reconcile =>
    unfold toolOperation at h
    split at h <;> simp [Request.operation] at h
  | _ => rfl

theorem managed_of_operation {r : Request} (h : r.operation ∈ ["get_rule", "list_rules", "inspect_execution"]) :
    r.managed = none := by
  cases r with
  | createRule | updateRule | setRuleEnabled | deleteRule => simp [Request.operation] at h
  | _ => rfl

section Invoked

variable {plugin : ProjectAutomationPlugin} {host : Host} {around : CallAround} {context : Ctx} {request : Request}

theorem invoke_within (hrole : request.role = .admin) (hO : ∀ o, request.managed = some o → O o) :
    (plugin.invoke env host around context request).Has (.within O) w := by
  cases request with
  | createRule r => exact .bind (ruleCommand_within plugin _ _ _ (hO r.organizationId rfl)) fun _ _ => .pure _
  | updateRule r => exact .bind (ruleCommand_within plugin _ _ _ (hO r.organizationId rfl)) fun _ _ => .pure _
  | setRuleEnabled r => exact .bind (ruleCommand_within plugin _ _ _ (hO r.organizationId rfl)) fun _ _ => .pure _
  | deleteRule r => exact .bind (ruleCommand_within plugin _ _ _ (hO r.organizationId rfl)) fun _ _ => .pure _
  | getRule r => exact .bind (getRule_has _ _ _ _ r) fun _ _ => .pure _
  | listRules r => exact .bind (listRules_has _ _ _ _ r) fun _ _ => .pure _
  | inspectExecution r => exact .bind (inspectExecution_has _ _ _ _ r) fun _ _ => .pure _
  | receiveEvent | receiveTimer | reconcile => cases hrole

theorem invoke_still (hrole : request.role = .admin) (hread : request.managed = none) :
    (plugin.invoke env host around context request).Has .still w := by
  cases request with
  | getRule r => exact .bind (getRule_has _ _ _ _ r) fun _ _ => .pure _
  | listRules r => exact .bind (listRules_has _ _ _ _ r) fun _ _ => .pure _
  | inspectExecution r => exact .bind (inspectExecution_has _ _ _ _ r) fun _ _ => .pure _
  | createRule | updateRule | setRuleEnabled | deleteRule => cases hread
  | receiveEvent | receiveTimer | reconcile => cases hrole

end Invoked

/-! ## One call of a tool -/

namespace ToolCall

variable (serializer : Serializer) (plugin : ProjectAutomationPlugin) (call : ToolCall)

/-- The request a call decodes to. -/
def decoded : Option Request :=
  (toolOperation call.request.name).bind (Tools.decode serializer · call.request)

/-- The call decodes to a write of the organization's rules, by a caller entitled to it. -/
def Manages (clock : ℤ) (organizationId : String) : Prop :=
  ∃ r, call.decoded serializer = some r ∧ r.managed = some organizationId ∧
    plugin.config.Entitled call.host call.context ⟨clock, 0⟩ r

variable {serializer plugin call}

theorem decoded_eq {r : Request} (h : call.decoded serializer = some r) :
    toolOperation call.request.name = some r.operation ∧
      Tools.decode serializer r.operation call.request = some r := by
  obtain ⟨operation, hoperation, hdecode⟩ := Option.bind_eq_some_iff.1 h
  obtain ⟨v, -, hread⟩ := Option.bind_eq_some_iff.1 hdecode
  obtain rfl := (Request.wellTyped_of_fromValue hread).1
  exact ⟨hoperation, hdecode⟩

/-- A call that decodes to nothing does nothing. -/
theorem run_of_none (h : call.decoded serializer = none) :
    (call.run serializer plugin env w).sent = [] ∧ (call.run serializer plugin env w).world = w := by
  unfold run Tools.execute
  cases hname : toolOperation call.request.name with
  | none => exact ⟨rfl, rfl⟩
  | some operation =>
    have hdecode : Tools.decode serializer operation call.request = none := by
      rw [decoded, hname] at h
      exact h
    simp only [hdecode, and_self]

/-- Any other is its operation. -/
theorem run_of_some {r : Request} (h : call.decoded serializer = some r) :
    call.run serializer plugin env w =
      let done := plugin.client env call.host call.around call.context r w
      ⟨Tools.answer serializer call.request.name r.operation done.result, done.sent, done.world⟩ := by
  obtain ⟨hname, hdecode⟩ := decoded_eq h
  unfold run Tools.execute
  simp only [hname, hdecode]

theorem has {E : Effect} (h : ∀ r, call.decoded serializer = some r →
    (plugin.invoke env call.host call.around call.context r).Has E w) :
    E.Of w (call.run serializer plugin env w).sent (call.run serializer plugin env w).world := by
  cases hdecoded : call.decoded serializer with
  | none =>
    obtain ⟨hsent, hworld⟩ : (call.run serializer plugin env w).sent = [] ∧
      (call.run serializer plugin env w).world = w := run_of_none hdecoded
    rw [hsent, hworld]
    exact E.idle w
  | some r =>
    rw [run_of_some hdecoded]
    exact h r hdecoded

/-- **A call touches what it manages.** -/
theorem within : (Effect.within (call.Manages serializer plugin w.clock)).Of w (call.run serializer plugin env w).sent
    (call.run serializer plugin env w).world := by
  refine has fun r hr => ?_
  cases hauth : plugin.config.authorization call.host call.context ⟨w.clock, 0⟩ r with
  | error e =>
    unfold Plugin.Has
    rw [invoke_of_refused hauth]
    exact (Effect.within _).idle w
  | ok u =>
    have hentitled := ProjectAutomationConfig.entitled_of_authorization hauth
    exact invoke_within (role_of_tool (decoded_eq hr).1) fun o ho => ⟨r, hr, ho, hentitled⟩

/-- A call that manages nothing changes nothing. -/
theorem still (h : ∀ o, ¬ call.Manages serializer plugin w.clock o) :
    Effect.still.Of w (call.run serializer plugin env w).sent (call.run serializer plugin env w).world := by
  refine has fun r hr => ?_
  cases hauth : plugin.config.authorization call.host call.context ⟨w.clock, 0⟩ r with
  | error e =>
    unfold Plugin.Has
    rw [invoke_of_refused hauth]
    exact Effect.still.idle w
  | ok u =>
    have hentitled := ProjectAutomationConfig.entitled_of_authorization hauth
    refine invoke_still (role_of_tool (decoded_eq hr).1) ?_
    cases hmanaged : r.managed with
    | none => rfl
    | some o => exact absurd ⟨r, hr, hmanaged, hentitled⟩ (h o)

/-- The call is of a tool offered as safe to run in parallel. -/
def parallel (call : ToolCall) : Bool :=
  toolDefinitions.any fun t => t.name = call.request.name && t.execution = .parallelSafe

/-- **Such a call changes nothing**, whoever makes it. -/
theorem still_of_parallel (h : call.parallel = true) :
    Effect.still.Of w (call.run serializer plugin env w).sent (call.run serializer plugin env w).world := by
  refine has fun r hr => ?_
  obtain ⟨t, ht, hmatch⟩ := List.any_eq_true.1 h
  simp only [Bool.and_eq_true, decide_eq_true_eq] at hmatch
  obtain ⟨operation, hoperation, -, hread⟩ := toolDefinitions_operation t ht
  have hname := (decoded_eq hr).1
  rw [hmatch.1, hname] at hoperation
  cases hoperation
  exact invoke_still (role_of_tool hname) (managed_of_operation (hread hmatch.2))

end ToolCall

/-! ## Answers -/

section Answers

variable {ts : String → Bool}

theorem rewritten_eq {F : Format Value α} {v : Value} {a : α} (h : F.read v = some a) : rewritten F v = F.write a := by
  unfold rewritten
  rw [h]
  rfl

/-- What is written conforms as what was read did, and is written the same again. -/
theorem rewritten_conforms {F : Format Value α} {schema : Schema} (h : schema.Takes F) {v : Value}
    (hv : schema.plain v = true) : schema (rewritten F v) = true ∧ rewritten F (rewritten F v) = rewritten F v := by
  obtain ⟨a, hread⟩ := Option.isSome_iff_exists.1 (h.isSome hv)
  rw [rewritten_eq hread]
  exact ⟨h.written (Schema.conforms_of_plain hv) hread, rewritten_eq (F.normal hread)⟩

theorem typedResponse_conforms (hts : ∀ text, Schema.dateTime (.string text) = true → ts text = true)
    {db : Database} (h64 : CountsOK Schema.int64 db) {operation : String} {response : Response}
    (h : Conforms db operation response.toValue) :
    responseSchema operation (typedResponse ts operation response) = true ∧
      typedResponse ts operation (.value (typedResponse ts operation response)) =
        typedResponse ts operation response := by
  obtain ⟨hconforms, hcounts⟩ := h
  unfold typedResponse
  split
  case h_1 | h_2 | h_3 | h_4 => exact rewritten_conforms (RuleResponse.takes hts) hconforms
  case h_5 => exact rewritten_conforms DeleteRuleResponse.takes hconforms
  case h_6 => exact rewritten_conforms (ListRulesResponse.takes hts) hconforms
  case h_7 =>
    have hwritten := rewritten_conforms (InspectExecutionResponse.takes hts) (hcounts rfl _ h64)
    exact ⟨Schema.inspectExecutionResponse_mono (fun v hv => Schema.integer_of_int64 hv) hwritten.1, hwritten.2⟩
  case h_8 =>
    refine ⟨Schema.conforms_of_plain hconforms, ?_⟩
    show Response.toValue _ = _
    split <;> first | contradiction | rfl

end Answers

/-! ## What an agent is told -/

/-- The caller may not do it. -/
def AutomationError.Denies (e : AutomationError) : Prop := e = .forbidden ∨ e = .unauthenticated

/-- An agent can tell the errors of an operation apart, but for the two that deny it. -/
theorem mapDomainError_separates {e e' : AutomationError}
    (h : Tools.mapDomainError (.known e) = Tools.mapDomainError (.known e')) : e = e' ∨ (e.Denies ∧ e'.Denies) := by
  cases e <;> cases e' <;> simp [Tools.mapDomainError, Tools.rejected, AutomationError.Denies] at h ⊢

/-- What an agent is told of an operation that came to `result`. -/
inductive Told (serializer : Serializer) (toolName operation : String) :
    Except PluginError Response → Except ToolError ExecuteResponse → Prop
  /-- a text of its typed response, which conforms to the published schema -/
  | answer {response : Response} {u : Value} : typedResponse serializer.timestamp operation response = u →
      typedResponse serializer.timestamp operation (.value u) = u → responseSchema operation u = true →
      Told serializer toolName operation (.ok response) (Tools.success serializer toolName u)
  /-- an error as which no other one is told, but for those that deny the operation -/
  | refused {e : AutomationError} :
      (∀ e', Tools.mapDomainError (.known e') = Tools.mapDomainError (.known e) → e' = e ∨ (e'.Denies ∧ e.Denies)) →
      Told serializer toolName operation (.error (.domain e)) (.error (.domain (Tools.mapDomainError (.known e))))
  | failed {failure : RuntimeFailure} :
      Told serializer toolName operation (.error (.runtime failure)) (.error (.runtime failure))

theorem told {serializer : Serializer}
    (hts : ∀ text, Schema.dateTime (.string text) = true → serializer.timestamp text = true) {db : Database}
    (h64 : CountsOK Schema.int64 db) {toolName operation : String} {result : Except PluginError Response}
    (h : ∀ response, result = .ok response → Conforms db operation response.toValue) :
    Told serializer toolName operation result
      (Tools.answer serializer toolName operation (result.mapError PluginError.toClient)) := by
  cases result with
  | ok response =>
    obtain ⟨hwritten, hstable⟩ := typedResponse_conforms hts h64 (h response rfl)
    exact .answer rfl hstable hwritten
  | error e =>
    cases e with
    | domain error => exact .refused fun e' => mapDomainError_separates
    | runtime failure => exact .failed

/-- **A tool is its operation**, in every state that rule commands have led to which start their schedules at
date-times. Arguments that conform to the schema it is offered with, with their numbers written as integers, are a
request of its operation, which is made and does what it does; the agent is told its answer or its error, and no
call fails for the reading of either. Others that conform are refused. A name that is not offered is not found, and
nothing is done. -/
theorem tools_relay (plugin : ProjectAutomationPlugin) {env : Env} {serializer : Serializer} (hwrites : env.DateTimeOK)
    (hts : ∀ text, Schema.dateTime (.string text) = true → serializer.timestamp text = true) {events : List Event}
    (hevents : ∀ event ∈ events, event.Dated env)
    (hcounters : (automation (ProjectAutomationPlugin.invoke.queued plugin env)).Along CountersChecked World.init
      events)
    (call : ToolCall) (hreads : call.host.Reads serializer.timestamp) :
    let w := (automation (ProjectAutomationPlugin.invoke.queued plugin env)).run events
    let out := call.run serializer plugin env w
    (call.request.name ∉ toolDefinitions.map ToolDefinition.name → out = ⟨.error (.domain .notFound), [], w⟩) ∧
      ∀ t ∈ toolDefinitions, t.name = call.request.name → ∀ v, serializer.fromStr call.request.argumentsJson = some v →
        t.inputSchema v = true →
          (v.plain = false → out = ⟨.error (.domain .invalidArguments), [], w⟩) ∧
          (v.plain = true → ∃ r, toolOperation t.name = some r.operation ∧
            Request.fromValue serializer.timestamp r.operation v = some r ∧
            let done := plugin.invoke env call.host.trusting call.around call.context r w
            out.sent = done.sent ∧ out.world = done.world ∧
              Told serializer t.name r.operation done.result out.result) := by
  intro w out
  refine ⟨fun hname => ?_, fun t ht hname v hparse hschema => ?_⟩
  · show Tools.execute _ _ _ _ = _
    unfold Tools.execute
    rw [toolOperation_eq_none hname]
  obtain ⟨operation, hoperation, hinput, -⟩ := toolDefinitions_operation t ht
  rw [hinput] at hschema
  have hdecode : Tools.decode serializer operation call.request =
      Request.fromValue serializer.timestamp operation v := by
    unfold Tools.decode
    rw [hparse]
    rfl
  have htaken := Request.taken hts hschema
  refine ⟨fun hplain => ?_, fun hplain => ?_⟩
  · rw [hplain, Option.isSome_iff_ne_none, not_iff_comm] at htaken
    have hnone : Request.fromValue serializer.timestamp operation v = none := htaken.1 Bool.false_ne_true
    show Tools.execute _ _ _ _ = _
    unfold Tools.execute
    simp only [← hname, hoperation, hdecode, hnone]
  · obtain ⟨r, hread⟩ := Option.isSome_iff_exists.1 (htaken.2 hplain)
    have hdated : Schema.Dated r.times := Request.dated_of_conforms (Request.written_conforms hts hschema hread)
    obtain rfl := (Request.wellTyped_of_fromValue hread).1
    refine ⟨r, hoperation, hread, ?_⟩
    have hdecoded : call.decoded serializer = some r := by
      unfold ToolCall.decoded
      rw [← hname, hoperation, Option.bind_some, hdecode]
      exact hread
    obtain ⟨hsame, hconforms⟩ := run_agrees plugin hwrites hts hevents call.host call.around call.context r hdated
    have hsame := hsame ⟨hreads, run_counts hcounters⟩
    rw [← hsame]
    show (call.run serializer plugin env w).sent = _ ∧ (call.run serializer plugin env w).world = _ ∧
      Told _ _ _ _ (call.run serializer plugin env w).result
    rw [ToolCall.run_of_some hdecoded, ← hname]
    exact ⟨rfl, rfl, told hts (run_counts hcounters) hconforms⟩

section Sample

open Sample

/-- What an agent writes to delete the rule. -/
def deletionText : String :=
  "\x7b\"expected_revision\":\"1\",\"idempotency_key\":\"delete-1\"," ++
    "\"organization_id\":\"org-1\",\"rule_id\":\"nightly\"\x7d"

/-- What that says. -/
def deletionArguments : Value :=
  .object [("expected_revision", .string "1"), ("idempotency_key", .string "delete-1"),
    ("organization_id", .string "org-1"), ("rule_id", .string "nightly")]

/-- A serializer that knows what it takes to delete the rule. -/
def deletionSerializer : Serializer where
  fromStr text := if text = deletionText then some deletionArguments else none
  toStringPretty
    | .object [("deleted", .bool true)] => .ok "\x7b\n  \"deleted\": true\n\x7d"
    | _ => .error "not a deletion"
  timestamp text := Schema.dateTime (.string text)

/-- An agent deletes the rule. -/
def deletion : ToolCall where
  host := strictHost
  around := ⟨conn 0 0, quiet, answers fun _ => served⟩
  context := ⟨some "host", some "delete_rule"⟩
  request := ⟨deleteRuleTool, deletionText⟩

/-- It is told so. -/
theorem deletion_told :
    let plugin : ProjectAutomationPlugin := ⟨fourCallers, true⟩
    let w := (automation (ProjectAutomationPlugin.invoke.queued plugin Sample.env)).run
      [atStart, .command (conn 0 0) auth (nightly 120 none)]
    let out := deletion.run deletionSerializer plugin Sample.env w
    out.result = .ok ⟨"\x7b\n  \"deleted\": true\n\x7d", .text, .object [("tool", .string deleteRuleTool)]⟩ ∧
      ∃ r, toolOperation deleteRuleTool = some r.operation ∧
        Told deletionSerializer deleteRuleTool r.operation
          (plugin.invoke Sample.env deletion.host.trusting deletion.around deletion.context r w).result out.result := by
  intro plugin w out
  have hparse : deletionSerializer.fromStr deletion.request.argumentsJson = some deletionArguments := by
    show (if deletionText = deletionText then some deletionArguments else none) = _
    exact if_pos rfl
  have hdecoded : deletion.decoded deletionSerializer =
      some (.deleteRule ⟨"1", "delete-1", "org-1", "nightly"⟩) := by
    unfold ToolCall.decoded Tools.decode
    rw [hparse]
    rfl
  have hout : out.result =
      .ok ⟨"\x7b\n  \"deleted\": true\n\x7d", .text, .object [("tool", .string deleteRuleTool)]⟩ := by
    show (deletion.run deletionSerializer plugin Sample.env w).result = _
    rw [ToolCall.run_of_some hdecoded]
    rfl
  obtain ⟨t, ht, hname, hschema⟩ : ∃ t ∈ toolDefinitions, t.name = deleteRuleTool ∧
      t.inputSchema = Schema.deleteRuleRequest := by simp [toolDefinitions, tool]
  have hconforms : t.inputSchema deletionArguments = true := by
    rw [hschema]
    rfl
  have hts : ∀ text, Schema.dateTime (.string text) = true → deletionSerializer.timestamp text = true := fun _ h => by
    simpa only [deletionSerializer] using h
  have hreads : strictHost.Reads fun text => Schema.dateTime (.string text) := fun _ _ h => if_pos h
  have hevents : ∀ event ∈ [atStart, .command (conn 0 0) auth (nightly 120 none)], event.Dated Sample.env :=
    List.forall_mem_cons.2 ⟨fun _ _ _ he => (by cases he), List.forall_mem_singleton.2 dated_nightly⟩
  have hoffered := (tools_relay plugin dateTimeOK hts hevents (by decide) deletion hreads).2
  obtain ⟨r, hoperation, -, -, -, htold⟩ := (hoffered t ht hname deletionArguments hparse hconforms).2 rfl
  rw [hname] at hoperation htold
  exact ⟨hout, r, hoperation, htold⟩

end Sample

/-! ## Schedules of calls and events -/

/-- A call of a tool offered as safe to run in parallel. -/
def AgentInput.parallel : AgentInput → Bool
  | .event _ => false
  | .call c => c.parallel

section Schedules

variable (serializer : Serializer) (plugin : ProjectAutomationPlugin) (env : Env)

theorem silent_of_parallel (input : AgentInput) (h : (!input.parallel) = false) :
    (agents serializer plugin env).Silent input := by
  intro w
  cases input with
  | event event => exact absurd h (by simp [AgentInput.parallel])
  | call call => exact (call.still_of_parallel (by simpa [AgentInput.parallel] using h)).2

/-- **Parallel tools run in parallel.** Left out of a schedule of calls and events, wherever they stand in it,
the calls of tools offered as safe to run in parallel change nothing of the world it leads to and of what
everybody else is told; and what such a call is told does not depend on the others. -/
theorem parallel_tools_erase (inputs : List AgentInput) (w : World) :
    let m := agents serializer plugin env
    let rest := inputs.filter (!·.parallel)
    m.runFrom w rest = m.runFrom w inputs ∧
      m.answers w rest = (m.answers w inputs).filter (!·.1.parallel) ∧
      ∀ (call : ToolCall), call.parallel = true →
        m.reply (m.runFrom w rest) (.call call) = m.reply (m.runFrom w inputs) (.call call) ∧
          ∃ result, m.reply (m.runFrom w inputs) (.call call) = .answer result [] := by
  intro m rest
  have hrun : m.runFrom w rest = m.runFrom w inputs :=
    Machine.runFrom_filter (silent_of_parallel serializer plugin env) w inputs
  refine ⟨hrun, Machine.answers_filter (silent_of_parallel serializer plugin env) w inputs, fun call hcall => ?_⟩
  refine ⟨by rw [hrun], (call.run serializer plugin env (m.runFrom w inputs)).result, ?_⟩
  show AgentReply.answer _ (call.run serializer plugin env (m.runFrom w inputs)).sent = _
  rw [(call.still_of_parallel hcall).1]

/-- **What agents can reach.** Whatever tools they call, in whatever order and from whatever state, nothing that
runs is touched: no trigger, execution, attempt, receipt or call of a provider is made, changed or lost, and
no command forgotten. The rules that change and the jobs that are asked for are of organizations whose rules
one of the callers is entitled to manage, and without such a call nothing changes at all. -/
theorem agents_stay_within (calls : List ToolCall) (w : World) :
    let m := agents serializer plugin env
    let managed := fun organizationId => ∃ call ∈ calls, call.Manages serializer plugin w.clock organizationId
    Touches managed w (m.runFrom w (calls.map .call)) ∧
      (∀ call result sent, (AgentInput.call call, AgentReply.answer result sent) ∈ m.answers w (calls.map .call) →
        ∀ request ∈ sent, call.Manages serializer plugin w.clock request.payload.organizationId) ∧
      ((∀ organizationId, ¬ managed organizationId) → m.runFrom w (calls.map .call) = w) := by
  intro m managed
  induction calls generalizing w with
  | nil => exact ⟨.refl _ w, fun _ _ _ h => absurd h List.not_mem_nil, fun _ => rfl⟩
  | cons call rest ih =>
    have hcall : (Effect.within (call.Manages serializer plugin w.clock)).Of w (call.run serializer plugin env w).sent
        (call.run serializer plugin env w).world := call.within
    obtain ⟨hrest, hsent, hstill⟩ := ih (call.run serializer plugin env w).world
    -- the calls that follow are judged by the same clock
    rw [hcall.1.clock] at hrest hsent hstill
    refine ⟨?_, fun call' result sent hmem => ?_, fun hno => ?_⟩
    · exact (hcall.1.mono fun _ h => ⟨call, List.mem_cons_self, h⟩).trans
        (hrest.mono fun _ ⟨c, hc, h⟩ => ⟨c, List.mem_cons_of_mem _ hc, h⟩)
    · rcases List.mem_cons.1 hmem with heq | hmem
      · cases heq
        exact hcall.2
      · exact hsent call' result sent hmem
    · have hw : (call.run serializer plugin env w).world = w :=
        (call.still fun o h => hno o ⟨call, List.mem_cons_self, h⟩).2
      exact (hstill fun o ⟨c, hc, h⟩ => hno o ⟨c, List.mem_cons_of_mem _ hc, h⟩).trans hw

end Schedules

end ProjectAutomation

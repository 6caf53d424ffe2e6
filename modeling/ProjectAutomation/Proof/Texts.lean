import ProjectAutomation.Proof.Authority
import ProjectAutomation.Proof.Batch
import ProjectAutomation.Proof.CommandLedger
import ProjectAutomation.Proof.DispatchLedger
import ProjectAutomation.Proof.Endpoints
import ProjectAutomation.Proof.FirstFire
import ProjectAutomation.Proof.Sufficiency
import ProjectAutomation.Spec.Sample
import ProjectAutomation.Spec.Texts

/-!
# No accepted request makes PostgreSQL reject its text

* `Request.checked`: a text of an accepted request holds no U+0000, or is a time the parser took.
* `Request.storable_iff`: what is left is the character between the date and the time.
* `run_texts`: the columns that requests fill.
* `accepted_texts_storable`: which accepted requests PostgreSQL takes the texts of.
-/

namespace ProjectAutomation

open Relational

variable {env : Env} {w w' : World} {event : Event} {s : Session} {P : String → Prop}

/-! ## What the checks refuse -/

theorem storable_of_validId {text : String} (h : validId text = true) : Storable text := by
  intro hmem
  simp only [validId, Bool.and_eq_true, List.all_eq_true] at h
  have hchar : validIdChar '\x00' = true := h.2 '\x00' hmem
  exact absurd hchar (by decide)

theorem storable_of_validText {text : String} {max : ℕ} (h : validText text max = true) : Storable text := by
  simp only [validText, Bool.and_eq_true, Bool.not_eq_true', List.contains_eq_mem, decide_eq_false_iff_not] at h
  exact h.2

theorem storable_of_validOptionalId {o : Option String} (h : validOptionalId o = true) :
    ∀ text, o = some text → Storable text := by
  rintro text rfl
  exact storable_of_validId h

theorem storable_of_validOptionalText {o : Option String} {max : ℕ} (h : validOptionalText o max = true) :
    ∀ text, o = some text → Storable text := by
  rintro text rfl
  exact storable_of_validText h

/-! The words of the contract. -/

theorem storable_eventType (e : EventType) : Storable e.name := by cases e <;> decide

theorem storable_priority (p : Priority) : Storable p.name := by cases p <;> decide

theorem storable_actionKind (k : ActionKind) : Storable k.name := by cases k <;> decide

/-! ## Rules -/

/-- A start is the only time of a rule. -/
theorem validTrigger_startAt {parses : String → Bool} {t : Trigger} (h : validTrigger parses t = true) :
    ∀ text, t.startAt = some text → parses text = true := by
  intro text htext
  cases hk : t.kind with
  | event => simp [validTrigger, hk, htext] at h
  | schedule => exact (validTrigger_schedule h hk).2 text htext

theorem Trigger.all_toValue {t : Trigger} (hP : ∀ text, Storable text → P text)
    (hstart : ∀ text, t.startAt = some text → P text) : t.toValue.All P := by
  have hkind : Storable t.kind.name := by cases t.kind <;> decide
  refine Value.all_object.2 ⟨?_, ?_⟩
  · have hnames : ∀ name ∈ ["event_types", "interval_seconds", "kind", "start_at"], Storable name := by decide
    exact fun name hname => hP name (hnames name hname)
  · simp only [List.map_cons, List.map_nil, List.forall_mem_cons, Value.all_array, Value.all_ofOption,
      Value.all_string, Value.all_number, List.forall_mem_map]
    exact ⟨fun e _ => hP _ (storable_eventType e), fun _ _ => trivial, hP _ hkind, hstart, fun _ h => by cases h⟩

theorem Condition.all_toValue {c : Condition} (h : Storable c.value) : c.toValue.All Storable := by
  have hfield : Storable c.field.name := by cases c.field <;> decide
  have hoperator : Storable c.operator.name := by cases c.operator <;> decide
  refine Value.all_object.2 ⟨?_, ?_⟩
  · show ∀ name ∈ ["field", "operator", "value"], Storable name
    decide
  · simp only [List.map_cons, List.map_nil, List.forall_mem_cons, Value.all_string]
    exact ⟨hfield, hoperator, h, fun _ h => by cases h⟩

theorem storedConditions_all {conditions : List Condition} (h : validConditions conditions = true) :
    (storedConditions conditions).All Storable := by
  simp only [validConditions, Bool.and_eq_true, List.all_eq_true] at h
  refine Value.all_array.2 (List.forall_mem_map.2 fun c hc => ?_)
  exact c.all_toValue (storable_of_validText (h.2 c hc).1)

/-- **An accepted action has no other text.** -/
theorem Action.all_toValue {a : Action} (h : validAction a = true) : a.toValue.All Storable := by
  unfold validAction at h
  simp only at h
  split at h
  · cases h
  rename_i hchecks
  simp only [Bool.or_eq_true, not_or, Bool.not_eq_true', Bool.not_eq_false, Bool.and_eq_true, List.all_eq_true,
    List.forall_mem_cons] at hchecks
  obtain ⟨⟨⟨⟨⟨⟨⟨⟨⟨hissue, hproject, hteam, hworkflow, hstatus, -⟩, -⟩, hlabels⟩, -⟩, htitle⟩, hdescription⟩, hcomment⟩,
    hname⟩, hsummary⟩ := hchecks
  refine Value.all_object.2 ⟨?_, ?_⟩
  · show ∀ name ∈ ["comment_body", "description", "issue_id", "kind", "label_ids", "priority", "project_id",
      "project_name", "project_summary", "replace_labels", "status_id", "team_id", "title", "workflow_state_id"],
      Storable name
    decide
  · simp only [List.map_cons, List.map_nil, List.forall_mem_cons, Value.all_array, Value.all_ofOption,
      Value.all_string, Value.all_bool, List.forall_mem_map]
    exact ⟨storable_of_validOptionalText hcomment, storable_of_validOptionalText hdescription,
      storable_of_validOptionalId hissue, storable_actionKind a.kind,
      fun id hid => storable_of_validId (hlabels id hid), fun p _ => storable_priority p,
      storable_of_validOptionalId hproject, storable_of_validOptionalText hname,
      storable_of_validOptionalText hsummary, trivial, storable_of_validOptionalId hstatus,
      storable_of_validOptionalId hteam, storable_of_validOptionalText htitle,
      storable_of_validOptionalId hworkflow, fun _ h => by cases h⟩

theorem storedActions_all {t : Trigger} {actions : List Action} (h : validActionsForTrigger t actions = true) :
    (storedActions actions).All Storable := by
  have hvalid := (validActions_iff.1 (validActionsForTrigger_iff.1 h).1).2.2
  exact Value.all_array.2 (List.forall_mem_map.2 fun a ha => Action.all_toValue (hvalid a ha))

theorem storable_of_validCommandIdentity {organizationId ruleId idempotencyKey : String}
    (h : validCommandIdentity organizationId ruleId idempotencyKey = true) :
    ∀ text ∈ [organizationId, ruleId, idempotencyKey], Storable text :=
  fun text htext => storable_of_validId (List.all_eq_true.1 h text htext)

/-- What `create_rule` and `update_rule` check of a definition. -/
theorem definition_all {identity : List String} {name : String} {trigger : Trigger} {conditions : List Condition}
    {actions : List Action} {parses : String → Bool} (hP : ∀ text, Storable text → P text)
    (htime : ∀ text, trigger.startAt = some text → parses text = true → P text)
    (hidentity : ∀ text ∈ identity, Storable text) (hname : validText name 300 = true)
    (htrigger : validTrigger parses trigger = true) (hconditions : validConditions conditions = true)
    (hactions : validActionsForTrigger trigger actions = true) :
    ∀ text ∈ identity ++ [name] ++ trigger.toValue.texts ++ (storedConditions conditions).texts ++
      (storedActions actions).texts, P text := by
  simp only [List.forall_mem_append, List.forall_mem_singleton]
  refine ⟨⟨⟨⟨fun text htext => hP text (hidentity text htext), hP name (storable_of_validText hname)⟩, ?_⟩, ?_⟩, ?_⟩
  · exact Trigger.all_toValue hP fun text htext => htime text htext (validTrigger_startAt htrigger text htext)
  · exact (storedConditions_all hconditions).mono hP
  · exact (storedActions_all hactions).mono hP

/-! ## Deliveries -/

theorem ReceiveEventRequest.all_toValue {r : ReceiveEventRequest} {parses : String → Bool}
    (h : validEvent parses r = true) (hP : ∀ text, Storable text → P text)
    (htime : parses r.occurredAt = true → P r.occurredAt) :
    ∀ text ∈ [r.organizationId, r.dedupeKey] ++ r.toValue.texts, P text := by
  simp only [validEvent, Bool.and_eq_true, List.all_eq_true, List.forall_mem_cons] at h
  obtain ⟨⟨⟨⟨⟨⟨⟨horganization, hdedupe, hentity, -⟩, hproject, hteam, hworkflow, hstatus, -⟩, -⟩, hlabels⟩, -⟩,
    hparses⟩, -⟩ := h
  have hid : ∀ text, validId text = true → P text := fun text h => hP text (storable_of_validId h)
  have hoption : ∀ {o : Option String}, validOptionalId o = true → ∀ text, o = some text → P text :=
    fun h text htext => hP text (storable_of_validOptionalId h text htext)
  have hkind : Storable r.entityKind.name := by cases r.entityKind <;> decide
  refine List.forall_mem_append.2 ⟨?_, Value.all_object.2 ⟨?_, ?_⟩⟩
  · simp only [List.forall_mem_cons]
    exact ⟨hid _ horganization, hid _ hdedupe, fun _ h => by cases h⟩
  · have hnames : ∀ name ∈ ["dedupe_key", "entity_id", "entity_kind", "event_type", "label_ids", "occurred_at",
      "organization_id", "priority", "project_id", "status_id", "team_id", "workflow_state_id"],
      Storable name := by decide
    exact fun name hname => hP name (hnames name hname)
  · simp only [List.map_cons, List.map_nil, List.forall_mem_cons, Value.all_array, Value.all_ofOption,
      Value.all_string, List.forall_mem_map]
    exact ⟨hid _ hdedupe, hid _ hentity, hP _ hkind, hP _ (storable_eventType r.eventType),
      fun id h => hid id (hlabels id h), htime hparses, hid _ horganization,
      fun p _ => hP _ (storable_priority p), hoption hproject, hoption hstatus, hoption hteam, hoption hworkflow,
      fun _ h => by cases h⟩

theorem ReceiveTimerRequest.all_toValue {r : ReceiveTimerRequest} (h : r.valid = true)
    (hP : ∀ text, Storable text → P text) (htime : P r.scheduledFor) :
    ∀ text ∈ [r.organizationId, r.ruleId, r.dedupeKey] ++ r.toValue.texts, P text := by
  simp only [ReceiveTimerRequest.valid, Bool.and_eq_true] at h
  obtain ⟨⟨horganization, hrule⟩, hdedupe⟩ := h
  have hid : ∀ text, validId text = true → P text := fun text h => hP text (storable_of_validId h)
  refine List.forall_mem_append.2 ⟨?_, Value.all_object.2 ⟨?_, ?_⟩⟩
  · simp only [List.forall_mem_cons]
    exact ⟨hid _ horganization, hid _ hrule, hid _ hdedupe, fun _ h => by cases h⟩
  · have hnames : ∀ name ∈ ["dedupe_key", "organization_id", "rule_id", "scheduled_for"], Storable name := by decide
    exact fun name hname => hP name (hnames name hname)
  · simp only [List.map_cons, List.map_nil, List.forall_mem_cons, Value.all_string]
    exact ⟨hid _ hdedupe, hid _ horganization, hid _ hrule, htime, fun _ h => by cases h⟩

/-! ## Requests -/

/-- A text is storable, or a time the parser took. -/
def Env.Checked (env : Env) (times : List String) (text : String) : Prop :=
  Storable text ∨ text ∈ times ∧ (env.parseRfc3339 text).isSome = true

theorem CommandRequest.checked {request : CommandRequest} (h : request.valid env = true) :
    ∀ text ∈ request.texts, env.Checked request.times text := by
  have hstorable : ∀ text, Storable text → env.Checked request.times text := fun _ => Or.inl
  cases request with
  | create r =>
    simp only [CommandRequest.valid, validCreateRule, Bool.and_eq_true] at h
    obtain ⟨⟨⟨⟨hidentity, hname⟩, htrigger⟩, hconditions⟩, hactions⟩ := h
    exact definition_all hstorable (fun text ht hp => Or.inr ⟨Option.mem_toList.2 ht, hp⟩)
      (storable_of_validCommandIdentity hidentity) hname htrigger hconditions hactions
  | update r =>
    simp only [CommandRequest.valid, validUpdateRule, Bool.and_eq_true] at h
    obtain ⟨⟨⟨⟨⟨hidentity, -⟩, hname⟩, htrigger⟩, hconditions⟩, hactions⟩ := h
    exact definition_all hstorable (fun text ht hp => Or.inr ⟨Option.mem_toList.2 ht, hp⟩)
      (storable_of_validCommandIdentity hidentity) hname htrigger hconditions hactions
  | setEnabled r | delete r =>
    simp only [CommandRequest.valid, Bool.and_eq_true] at h
    exact fun text htext => Or.inl (storable_of_validCommandIdentity h.1 text htext)

/-- **No text of an accepted request holds a U+0000, unless the parser took it for a time.** -/
theorem Request.checked {plugin : ProjectAutomationPlugin} {host : Host} {request : Request}
    (h : request.valid plugin env host = true) : ∀ text ∈ request.texts, env.Checked request.times text := by
  have hstorable : ∀ text, Storable text → env.Checked request.times text := fun _ => Or.inl
  have hid : ∀ text, validId text = true → env.Checked request.times text := fun text h =>
    Or.inl (storable_of_validId h)
  cases request with
  | createRule r => exact CommandRequest.checked (show (CommandRequest.create r).valid env = true from h)
  | updateRule r => exact CommandRequest.checked (show (CommandRequest.update r).valid env = true from h)
  | setRuleEnabled r => exact CommandRequest.checked (show (CommandRequest.setEnabled r).valid env = true from h)
  | deleteRule r => exact CommandRequest.checked (show (CommandRequest.delete r).valid env = true from h)
  | receiveEvent r =>
    have h : validEvent (fun text => (env.parseRfc3339 text).isSome) r = true := h
    exact r.all_toValue h hstorable fun hp => Or.inr ⟨List.mem_singleton.2 rfl, hp⟩
  | receiveTimer r =>
    simp only [Request.valid, Bool.and_eq_true] at h
    exact r.all_toValue h.1 hstorable (Or.inr ⟨List.mem_singleton.2 rfl, h.2⟩)
  | getRule r =>
    simp only [Request.valid, GetRuleRequest.valid, Bool.and_eq_true] at h
    simp only [Request.texts, List.forall_mem_cons]
    exact ⟨hid _ h.1, hid _ h.2, fun _ h => by cases h⟩
  | listRules r =>
    simp only [Request.valid, ListRulesRequest.valid, Bool.and_eq_true] at h
    exact List.forall_mem_singleton.2 (hid _ h.1.1)
  | inspectExecution r =>
    simp only [Request.valid, InspectExecutionRequest.valid, Bool.and_eq_true] at h
    exact List.forall_mem_singleton.2 (hid _ h.2.1.1)
  | reconcile r =>
    simp only [Request.valid, ReconcileRequest.valid, Bool.and_eq_true] at h
    exact List.forall_mem_singleton.2 (hid _ h.1)

/-! ## Times -/

theorem Env.Rfc3339OK.whole (h : env.Rfc3339OK) : env.Rfc3339Whole := fun text hp =>
  Text.Rfc3339.shaped_of_separated (h text hp)

/-- Of the texts the parser takes, those are storable that have no U+0000 between date and time. -/
theorem Env.Rfc3339Whole.storable_iff (h : env.Rfc3339Whole) {text : String}
    (hp : (env.parseRfc3339 text).isSome = true) :
    Storable text ↔ Text.Rfc3339.separator text.toList ≠ some '\x00' :=
  not_congr (Text.Rfc3339.mem_shaped (by decide) (by decide) (h text hp))

theorem storable_of_dateTime {text : String} (h : Text.Rfc3339.dateTime text.toList = true) : Storable text := by
  intro hmem
  have hshape := Text.Rfc3339.shaped_of_separated (Text.Rfc3339.separated_of_dateTime h)
  have hnul : Text.Rfc3339.separator text.toList = some '\x00' :=
    (Text.Rfc3339.mem_shaped (by decide) (by decide) hshape).1 hmem
  simp [Text.Rfc3339.dateTime, Text.Rfc3339.marked, hnul] at h

theorem Trigger.startAt_mem {t : Trigger} {text : String} (h : text ∈ t.startAt.toList) : text ∈ t.toValue.texts := by
  rw [Option.mem_toList] at h
  simp [Trigger.toValue, Value.texts, textsOfFields_eq, Value.ofOption, Option.mem_def.1 h]

/-- The times of a request are among its texts. -/
theorem CommandRequest.times_subset (request : CommandRequest) : ∀ text ∈ request.times, text ∈ request.texts := by
  intro text htext
  cases request with
  | create r | update r =>
    simp only [CommandRequest.texts, List.mem_append]
    exact Or.inl (Or.inl (Or.inr (Trigger.startAt_mem htext)))
  | setEnabled | delete => cases htext

theorem Request.times_subset (request : Request) : ∀ text ∈ request.times, text ∈ request.texts := by
  cases request with
  | createRule r => exact (CommandRequest.create r).times_subset
  | updateRule r => exact (CommandRequest.update r).times_subset
  | receiveEvent r =>
    refine List.forall_mem_singleton.2 (List.mem_append_right _ ?_)
    simp [ReceiveEventRequest.toValue, Value.texts, textsOfFields_eq]
  | receiveTimer r =>
    refine List.forall_mem_singleton.2 (List.mem_append_right _ ?_)
    simp [ReceiveTimerRequest.toValue, Value.texts, textsOfFields_eq]
  | getRule | listRules | setRuleEnabled | deleteRule | inspectExecution | reconcile =>
    exact fun text htext => absurd htext List.not_mem_nil

/-- What decides whether an accepted request is storable. -/
theorem Request.storable_iff (hrfc : env.Rfc3339Whole) {plugin : ProjectAutomationPlugin} {host : Host}
    {request : Request} (h : request.valid plugin env host = true) : (∀ text ∈ request.texts, Storable text) ↔
      ∀ text ∈ request.times, Text.Rfc3339.separator text.toList ≠ some '\x00' := by
  constructor
  · intro hall text htext hnul
    exact hall text (request.times_subset text htext) (List.mem_of_getElem? hnul)
  · intro htimes text htext
    rcases Request.checked h text htext with hstorable | ⟨hmem, hp⟩
    · exact hstorable
    · exact (hrfc.storable_iff hp).2 (htimes text hmem)

/-! ## Columns -/

/-- The times that an event brings and the parser takes. -/
def Event.TimesStorable (env : Env) (event : Event) : Prop :=
  ∀ text ∈ event.times, (env.parseRfc3339 text).isSome = true → Storable text

theorem CommandRequest.texts_storable {conn : Connection} {auth : Authorized} {request : CommandRequest}
    (hg : (Event.command conn auth request).TimesStorable env) (h : request.valid env = true) :
    ∀ text ∈ request.texts, Storable text := fun text htext =>
  (CommandRequest.checked h text htext).elim id fun ⟨hmem, hp⟩ => hg text hmem hp

/-- A rule that is written has the texts of the request and of the rule that was there. -/
theorem Written.texts_cases {request : CommandRequest} {old : Option RuleRow} {new : RuleRow}
    {next : Option OffsetDateTime} (h : Written s request old new next) :
    ∀ text ∈ new.texts, text ∈ request.texts ∨ ∃ o, old = some o ∧ text ∈ o.texts := by
  intro text htext
  cases h with
  | create =>
    left
    simp only [RuleRow.texts, newRule, List.mem_append, List.mem_cons] at htext
    simp only [CommandRequest.texts, List.mem_append, List.mem_cons]
    tauto
  | @update r old =>
    simp only [RuleRow.texts, RuleRow.redefine, List.mem_append, List.mem_cons] at htext
    simp only [CommandRequest.texts, RuleRow.texts, Option.some.injEq, exists_eq_left', List.mem_append, List.mem_cons]
    tauto
  | setEnabled => exact Or.inr ⟨_, rfl, htext⟩
  | delete => exact Or.inr ⟨_, rfl, htext⟩

theorem step_rule_texts (hg : event.TimesStorable env) (h : Step env w event w')
    (hi : ∀ r ∈ w.db.rules, ∀ text ∈ r.texts, Storable text) :
    ∀ r ∈ w'.db.rules, ∀ text ∈ r.texts, Storable text := by
  refine step_each_rule (P := fun r => ∀ text ∈ r.texts, Storable text) (fun he hv hwr hold text htext => ?_)
    (fun _ _ _ _ hr => hr) h hi
  rcases hwr.texts_cases text htext with htext | ⟨o, ho, htext⟩
  · exact CommandRequest.texts_storable (he ▸ hg) hv text htext
  · exact hold o ho text htext

theorem formatTime_storable (hwrites : env.DateTimeOK) {t : OffsetDateTime} {text : String}
    (h : formatTime env t = .ok text) : Storable text := by
  unfold formatTime at h
  cases hf : env.formatRfc3339 t with
  | none =>
    rw [hf] at h
    cases h
  | some text' =>
    rw [hf] at h
    cases h
    exact storable_of_dateTime (hwrites t text hf)

/-- What `rule_json` adds to a rule are times. -/
theorem ruleJson_ok {r : RuleRow} {v : Value} (h : ruleJson env r = .ok v) :
    ∃ nextFireAt createdAt updatedAt, (nextFireAt = .null ∨
        ∃ t text, formatTime env t = .ok text ∧ nextFireAt = .string text) ∧
      formatTime env (decodeTimestamptz r.createdAt) = .ok createdAt ∧
      formatTime env (decodeTimestamptz r.updatedAt) = .ok updatedAt ∧
      v = .object [("rule_id", .string r.ruleId), ("organization_id", .string r.organizationId),
        ("name", .string r.name), ("enabled", .bool r.enabled), ("trigger", r.trigger),
        ("conditions", r.conditions), ("actions", r.actions), ("revision", .string (toString r.revision)),
        ("next_fire_at", nextFireAt), ("created_at", .string createdAt), ("updated_at", .string updatedAt)] := by
  unfold ruleJson at h
  cases hn : r.nextFireAt with
  | none =>
    simp only [hn, except_bind_eq_ok] at h
    obtain ⟨_, hnull, createdAt, hcreated, updatedAt, hupdated, h⟩ := h
    cases hnull
    cases h
    exact ⟨_, _, _, Or.inl rfl, hcreated, hupdated, rfl⟩
  | some t =>
    simp only [hn, except_bind_eq_ok] at h
    obtain ⟨_, hnext, createdAt, hcreated, updatedAt, hupdated, h⟩ := h
    cases hf : formatTime env (decodeTimestamptz t) with
    | error e =>
      rw [hf] at hnext
      cases hnext
    | ok text =>
      rw [hf] at hnext
      cases hnext
      cases h
      exact ⟨_, _, _, Or.inr ⟨_, _, hf, rfl⟩, hcreated, hupdated, rfl⟩

/-- What is shown of a rule is storable with the rule. -/
theorem ruleJson_storable (hwrites : env.DateTimeOK) {r : RuleRow} {v : Value} (h : ruleJson env r = .ok v)
    (hr : ∀ text ∈ r.texts, Storable text) : v.All Storable := by
  obtain ⟨nextFireAt, createdAt, updatedAt, hnext, hcreated, hupdated, rfl⟩ := ruleJson_ok h
  simp only [RuleRow.texts, List.forall_mem_append, List.forall_mem_cons] at hr
  obtain ⟨⟨⟨⟨hid, horganization, hname, -⟩, htrigger⟩, hconditions⟩, hactions⟩ := hr
  have hfire : nextFireAt.All Storable := by
    rcases hnext with rfl | ⟨t, text, htext, rfl⟩
    · exact Value.all_null
    · exact Value.all_string.2 (formatTime_storable hwrites htext)
  have hrevision : Storable (toString r.revision) := Text.not_mem_int (by decide) (by decide) r.revision
  refine Value.all_object.2 ⟨?_, ?_⟩
  · have hnames : ∀ name ∈ ["rule_id", "organization_id", "name", "enabled", "trigger", "conditions", "actions",
      "revision", "next_fire_at", "created_at", "updated_at"], Storable name := by decide
    exact hnames
  · simp only [List.map_cons, List.map_nil, List.forall_mem_cons, Value.all_string, Value.all_bool]
    exact ⟨hid, horganization, hname, trivial, htrigger, hconditions, hactions, hrevision, hfire,
      formatTime_storable hwrites hcreated, formatTime_storable hwrites hupdated, fun _ h => by cases h⟩

theorem Answers.storable (hwrites : env.DateTimeOK) {request : CommandRequest} {new : RuleRow} {response : Value}
    (h : Answers env request new response) (hnew : ∀ text ∈ new.texts, Storable text) :
    response.All Storable := by
  cases request with
  | create | update | setEnabled => exact ruleJson_storable hwrites h hnew
  | delete =>
    have hdeleted : response = deletedJson := h
    have hwords : ∀ text ∈ deletedJson.texts, Storable text := by decide
    exact hdeleted ▸ hwords

theorem CommandRequest.idempotencyKey_mem (request : CommandRequest) : request.idempotencyKey ∈ request.texts := by
  cases request <;> simp [CommandRequest.idempotencyKey, CommandRequest.texts]

/-- A stored command has the key of its request, and a response that shows the rule. -/
theorem step_command_texts (hwrites : env.DateTimeOK) (hg : event.TimesStorable env) (h : Step env w event w')
    (hrules : ∀ r ∈ w'.db.rules, ∀ text ∈ r.texts, Storable text)
    (hi : ∀ c ∈ w.db.commands, ∀ text ∈ c.texts, Storable text) :
    ∀ c ∈ w'.db.commands, ∀ text ∈ c.texts, Storable text := by
  intro c hc
  rcases step_commands h with hsame | ⟨conn, auth, request, _, rfl, -⟩
  · exact hi c (hsame ▸ hc)
  cases h with
  | idle => exact hi c hc
  | command hv hw ha =>
    obtain ⟨_, new, _, -, hwrite, hanswers⟩ := hw
    rcases (mem_answered ha).1 hc with hc | rfl
    · exact hi c hc
    · exact List.forall_mem_cons.2 ⟨CommandRequest.texts_storable hg hv _ request.idempotencyKey_mem,
        hanswers.storable hwrites (hrules new hwrite.rules.mem)⟩

theorem intake_trigger_texts {trigger : TriggerRow} {es : List ExecutionRow} {db db' : Database}
    (h : Intake s trigger es db db') (hnew : ∀ text ∈ trigger.texts, Storable text)
    (hi : ∀ t ∈ db.triggers, ∀ text ∈ t.texts, Storable text) :
    ∀ t ∈ db'.triggers, ∀ text ∈ t.texts, Storable text := by
  intro t ht
  rcases h.mem_triggers.1 ht with ht | rfl
  · exact hi t ht
  · exact hnew

/-- A trigger has the texts of its delivery. -/
theorem step_trigger_texts (hg : event.TimesStorable env) (h : Step env w event w')
    (htimer : ∀ conn request, event = .receiveTimer conn request → request.valid = true)
    (hi : ∀ t ∈ w.db.triggers, ∀ text ∈ t.texts, Storable text) :
    ∀ t ∈ w'.db.triggers, ∀ text ∈ t.texts, Storable text := by
  cases h with
  | idle | tick | pendingDispatches | enqueued | lost | flushEnds | marked | noted | failed | givesUp
  | statusRead | called | recorded | closes => exact hi
  | command _ hw _ => exact hw.frame.1 ▸ hi
  | @receiveEvent _ request _ _ _ hv hin _ =>
    exact intake_trigger_texts hin (request.all_toValue hv (fun _ => id) (hg _ (List.mem_singleton.2 rfl))) hi
  | @receiveTimer _ request _ _ _ _ hparse _ _ hin =>
    have htexts := request.all_toValue (htimer _ _ rfl) (fun _ => id)
      (hg _ (List.mem_singleton.2 rfl) (by rw [hparse]; rfl))
    refine intake_trigger_texts hin (fun text htext => htexts text ?_) hi
    simp only [TriggerRow.texts, newTrigger, Option.toList_some, List.mem_append, List.mem_cons] at htext
    simp only [List.mem_append, List.mem_cons]
    tauto
  | claimed _ hl => exact hl.frame.2.2.1 ▸ hi
  | released _ hleft => exact hleft.triggers ▸ hi
  | completed _ _ hleft _ _ hsettled =>
    simp only [World.setTask]
    rw [hsettled.frame.2.1, hleft.triggers]
    exact hi

/-- A timer that fails its checks changes nothing. -/
theorem next_timer_invalid {conn : Connection} {request : ReceiveTimerRequest} (h : request.valid = false) :
    (automation env).next w (.receiveTimer conn request) = w := by
  rcases w.transact_snd_cases (takeTimer (w.session env conn) request) with hsame | ⟨_, _, db', hb, -⟩
  · exact hsame
  · have hchecks : [request.organizationId, request.ruleId, request.dedupeKey].all validId = false := by
      simpa [ReceiveTimerRequest.valid, Bool.and_assoc] using h
    unfold takeTimer at hb
    rw [hchecks] at hb
    exact absurd hb Txn.throw_ne_ok

theorem next_trigger_texts (hr : RefsOK env w) (hg : event.TimesStorable env)
    (hi : ∀ t ∈ w.db.triggers, ∀ text ∈ t.texts, Storable text) :
    ∀ t ∈ ((automation env).next w event).db.triggers, ∀ text ∈ t.texts, Storable text := by
  by_cases hrefused : ∃ conn request, event = .receiveTimer conn request ∧ request.valid = false
  · obtain ⟨conn, request, rfl, hinvalid⟩ := hrefused
    rw [next_timer_invalid hinvalid]
    exact hi
  · refine step_trigger_texts hg (step_cases hr.linked event) (fun conn request he => ?_) hi
    exact Bool.of_not_eq_false fun hinvalid => hrefused ⟨conn, request, he, hinvalid⟩

/-- An execution has the texts of its rule. -/
theorem step_execution_texts (h : Step env w event w')
    (hrules : ∀ r ∈ w.db.rules, ∀ text ∈ r.texts, Storable text)
    (hi : ∀ e ∈ w.db.executions, ∀ text ∈ e.texts, Storable text) :
    ∀ e ∈ w'.db.executions, ∀ text ∈ e.texts, Storable text := by
  intro e he
  cases step_origin h he with
  | @old x hx hc =>
    have htexts : e.texts = x.texts := by
      unfold ExecutionRow.texts
      rw [hc.organizationId, hc.ruleId, hc.actions]
    exact htexts ▸ hi x hx
  | opened _ hin hm =>
    obtain ⟨rule, hrule, horganization, -, -, hopened⟩ := hin.opened e hm
    intro text htext
    refine hrules rule hrule text ?_
    rw [hopened.row, ← horganization] at htext
    simp only [ExecutionRow.texts, newExecution, List.mem_append, List.mem_cons] at htext
    simp only [RuleRow.texts, List.mem_append, List.mem_cons]
    tauto

theorem steps_all {e : ExecutionRow} (h : e.actions.All P) : ∀ action ∈ e.steps, action.All P := by
  unfold ExecutionRow.steps
  cases ha : e.actions with
  | array items => exact Value.all_array.1 (ha ▸ h)
  | null | bool | number | decimal | string | object => exact fun _ h => absurd h List.not_mem_nil

/-- **The columns that requests fill are storable** with the times that come in. -/
theorem run_texts (hwrites : env.DateTimeOK) {events : List Event} (hg : ∀ event ∈ events, event.TimesStorable env) :
    TextsOK Storable ((automation env).run events).db := by
  have hrun := Transition.Machine.inv_runFrom (m := automation env) (I := fun w => RefsOK env w ∧
      (∀ r ∈ w.db.rules, ∀ text ∈ r.texts, Storable text) ∧
      (∀ c ∈ w.db.commands, ∀ text ∈ c.texts, Storable text) ∧
      (∀ t ∈ w.db.triggers, ∀ text ∈ t.texts, Storable text) ∧
      ∀ e ∈ w.db.executions, ∀ text ∈ e.texts, Storable text)
    (G := fun _ event => event.TimesStorable env)
    (fun w event hi hg => by
      obtain ⟨hrefs, hrules, hcommands, htriggers, hexecutions⟩ := hi
      have hstep : Step env w event ((automation env).next w event) := step_cases hrefs.linked event
      have hrules' := step_rule_texts hg hstep hrules
      exact ⟨step_refs hrefs hstep, hrules', step_command_texts hwrites hg hstep hrules' hcommands,
        next_trigger_texts hrefs hg htriggers, step_execution_texts hstep hrules hexecutions⟩) events World.init
    ⟨RefsOK.init, fun r hr => absurd hr (Table.not_mem_empty r), fun c hc => absurd hc (Table.not_mem_empty c),
      fun t ht => absurd ht (Table.not_mem_empty t), fun e he => absurd he (Table.not_mem_empty e)⟩
    (Transition.Machine.along_of_mem hg _)
  obtain ⟨hrefs, hrules, hcommands, htriggers, hexecutions⟩ := hrun
  refine ⟨hcommands, hrules, htriggers, hexecutions, fun r hr => ?_, fun d hd => ?_⟩
  · -- the kind of an action of its execution
    obtain ⟨e, he, -, action, haction, hkind⟩ := (hrefs.receipts r hr).execution
    have hall : e.actions.All Storable := fun text htext =>
      hexecutions e he text (List.mem_append_right _ htext)
    exact (steps_all hall action (List.mem_of_getElem? haction)).getStr hkind
  · obtain ⟨r, hr, hid, horganization⟩ := (run_ledger events).1.owned d hd
    have htexts := hrules r hr
    simp only [RuleRow.texts, List.forall_mem_append, List.forall_mem_cons] at htexts
    exact ⟨horganization ▸ htexts.1.1.1.2.1, hid ▸ htexts.1.1.1.1⟩

/-! ## Refusals -/

/-- The call ends at once, with an error and nothing done. -/
def Plugin.Refuses {α : Type} (x : Plugin α) (w : World) : Prop := ∃ e, x w = ⟨.error e, [], w⟩

namespace Plugin.Refuses

variable {α β : Type} {x : Plugin α} {f : α → Plugin β}

theorem bind (h : x.Refuses w) : (x >>= f).Refuses w := h.imp fun _ => Plugin.bind_of_error

theorem authResult {result : OffsetDateTime → Except AuthorizationFailure Authorized} {f : Authorized → Plugin β}
    (hf : ∀ auth, (f auth).Refuses w) : (Plugin.authResult result >>= f).Refuses w := by
  cases hr : result ⟨w.clock, 0⟩ with
  | error e => exact ⟨_, Plugin.bind_of_error (authResult_of_error hr)⟩
  | ok auth =>
    rw [Plugin.Refuses, Plugin.bind_of_silent (authResult_of_ok hr)]
    exact hf auth

theorem check {e : PluginError} {holds : Bool} {f : Unit → Plugin β} (hf : holds = true → (f ()).Refuses w) :
    (Plugin.check e holds >>= f).Refuses w := by
  cases holds with
  | true => exact hf rfl
  | false => exact ⟨e, rfl⟩

theorem okOr {e : PluginError} {o : Option α} (hf : ∀ a, o = some a → (f a).Refuses w) :
    (Plugin.okOr e o >>= f).Refuses w := by
  cases o with
  | some a => exact hf a rfl
  | none => exact ⟨e, rfl⟩

end Plugin.Refuses

section Refusals

variable {plugin : ProjectAutomationPlugin} {host : Host} {around : CallAround} {context : Ctx}

theorem ruleCommand_refuses {operation permission : String} {flushes : Bool} {request : CommandRequest}
    (h : request.valid env = false) :
    (plugin.ruleCommand env host around context operation permission flushes request).Refuses w :=
  .authResult fun _ => .check fun hvalid => by rw [h] at hvalid; cases hvalid

/-- **A request that is not accepted goes no further.** -/
theorem invoke_refuses {request : Request} (h : request.valid plugin env host = false) :
    (plugin.invoke env host around context request).Refuses w := by
  have hno : request.valid plugin env host ≠ true := by simp [h]
  cases request with
  | createRule r => exact .bind (ruleCommand_refuses h)
  | updateRule r => exact .bind (ruleCommand_refuses h)
  | setRuleEnabled r => exact .bind (ruleCommand_refuses h)
  | deleteRule r => exact .bind (ruleCommand_refuses h)
  | getRule r => exact .bind (.authResult fun _ => .check fun hvalid => absurd hvalid hno)
  | listRules r => exact .bind (.authResult fun _ => .check fun hvalid => absurd hvalid hno)
  | receiveEvent r => exact .bind (.check fun _ => .check fun hvalid => absurd hvalid hno)
  | receiveTimer r =>
    refine .bind (.check fun _ => .check fun hvalid => .okOr fun t hparse => absurd ?_ hno)
    exact Bool.and_eq_true_iff.2 ⟨hvalid, Option.isSome_iff_exists.2 ⟨t, hparse⟩⟩
  | inspectExecution r =>
    refine .bind (.authResult fun _ => .okOr fun id hid => .check fun hvalid => absurd ?_ hno)
    exact Bool.and_eq_true_iff.2 ⟨Option.isSome_iff_exists.2 ⟨id, hid⟩, hvalid⟩
  | reconcile r => exact .bind (.authResult fun _ => .check fun hvalid => absurd hvalid hno)

end Refusals

/-! ## No U+0000 -/

/-- **PostgreSQL takes every text of an accepted request** if and only if none of its times has a U+0000 between
date and time; and where no event brings such a time, it takes every column that requests fill. A request that is
not accepted goes no further. -/
theorem accepted_texts_storable (plugin : ProjectAutomationPlugin) {env : Env} (host : Host)
    (hrfc : env.Rfc3339Whole) :
    (∀ request : Request, request.valid plugin env host = true →
      ((∀ text ∈ request.texts, Storable text) ↔
        ∀ text ∈ request.times, Text.Rfc3339.separator text.toList ≠ some '\x00')) ∧
      (∀ (request : Request) (around : CallAround) (context : Ctx) (w : World),
        request.valid plugin env host = false →
          ∃ e, plugin.invoke env host around context request w = ⟨.error e, [], w⟩) ∧
      (env.DateTimeOK → ∀ events : List Event,
        (∀ event ∈ events, ∀ text ∈ event.times, Text.Rfc3339.separator text.toList ≠ some '\x00') →
          TextsOK Storable ((automation env).run events).db) := by
  refine ⟨fun request => Request.storable_iff hrfc, fun request around context w h => invoke_refuses h,
    fun hwrites events htimes => run_texts hwrites fun event he text htext hp => ?_⟩
  exact (hrfc.storable_iff hp).2 (htimes event he text htext)

section Sample

open Sample

/-- `create_rule` of the schedule, under a name. -/
def named (name : String) : CreateRuleRequest :=
  ⟨[comment (some "issue-1")], [], true, "create-1", name, "org-1", "nightly",
    every 60 (some "2030-01-01T00:00:00.0000005Z")⟩

/-- One name is accepted and stored, another is refused. -/
theorem accepted_texts_storable_nightly :
    let plugin : ProjectAutomationPlugin := ⟨fourCallers, true⟩
    let around : CallAround := ⟨conn 0 0, quiet, answers fun _ => served⟩
    let w := (automation Sample.env).run [atStart, .command (conn 0 0) auth (.create (named "Nightly"))]
    (∀ text ∈ (Request.createRule (named "Nightly")).texts, Storable text) ∧
      (∃ e, plugin.invoke Sample.env openHost around ⟨some "host", some "create_rule"⟩
        (.createRule (named "Night\x00ly")) w = ⟨.error e, [], w⟩) ∧
      w.db.rules.rows.map RuleRow.name = ["Nightly"] ∧ TextsOK Storable w.db := by
  intro plugin around w
  obtain ⟨haccepted, hrefused, hcolumns⟩ := accepted_texts_storable plugin openHost rfc3339OK.whole
  have htimes : ∀ text ∈ (Request.createRule (named "Nightly")).times,
      Text.Rfc3339.separator text.toList ≠ some '\x00' := by decide
  have hevents : ∀ event ∈ [atStart, .command (conn 0 0) auth (.create (named "Nightly"))], ∀ text ∈ event.times,
      Text.Rfc3339.separator text.toList ≠ some '\x00' :=
    List.forall_mem_cons.2 ⟨fun text h => absurd h List.not_mem_nil, List.forall_mem_singleton.2 htimes⟩
  exact ⟨(haccepted _ rfl).2 htimes, hrefused _ around _ w rfl, rfl, hcolumns dateTimeOK _ hevents⟩

/-- An event whose time has a U+0000 where a `T` would stand. -/
def splitByNul : ReceiveEventRequest := { created with occurredAt := "2030-01-01\x0000:00:00Z" }

/-- It is accepted, and has a text PostgreSQL does not take. -/
theorem nul_before_time_accepted :
    (Request.receiveEvent splitByNul).valid ⟨fourCallers, true⟩ Sample.env openHost = true ∧
      ∃ text ∈ (Request.receiveEvent splitByNul).texts, ¬Storable text := by
  refine ⟨rfl, splitByNul.occurredAt, Request.times_subset (.receiveEvent splitByNul) _ (List.mem_singleton.2 rfl), ?_⟩
  decide

end Sample

end ProjectAutomation

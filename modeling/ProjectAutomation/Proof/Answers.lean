import ProjectAutomation.Proof.Numbers
import ProjectAutomation.Proof.Receipts
import ProjectAutomation.Proof.Schemas

/-!
# Answers and their schemas

What the operations answer is put together field by field from the rows, and then read
into the types of the contract; `decode` fails the call when that does not work.

* `RuleRow.Published`: what a rule row has to be for its answer to conform.
* `CountsOK`: the counts an answer shows are those of an `i64`.
* `run_published`: so are all rows, and the answers stored with the commands conform, where schedules
  are started at date-times.
* `answers_conform`: there an answer conforms to the schema of its operation, and no call fails for the
  reading of what it answers.
-/

namespace ProjectAutomation

open Relational Codec Serde

variable {env : Env} {w w' : World} {event : Event} {s : Session} {ts : String → Bool}

/-! ## Rules -/

/-- The columns of a rule are what the schema of its answer has. -/
structure RuleRow.Published (r : RuleRow) : Prop where
  revision : 0 < r.revision
  trigger : Schema.trigger.plain r.trigger = true
  conditions : (Schema.array Schema.condition).plain r.conditions = true
  actions : (Schema.array Schema.action).plain r.actions = true

theorem storedConditions_conform (conditions : List Condition) :
    (Schema.array Schema.condition).plain (storedConditions conditions) = true := by
  simp [storedConditions, Schema.condition_toValue]

theorem storedActions_conform (actions : List Action) :
    (Schema.array Schema.action).plain (storedActions actions) = true := by
  simp [storedActions, Schema.action_toValue]

/-- So are those of every rule that is written with a date-time. -/
theorem Written.published {request : CommandRequest} {old : Option RuleRow} {new : RuleRow}
    {next : Option OffsetDateTime} (hdated : Schema.Dated request.times) (hv : request.valid env = true)
    (h : Written s request old new next) (hold : ∀ o, old = some o → o.Published) : new.Published := by
  cases h with
  | create =>
    simp only [CommandRequest.valid, validCreateRule, Bool.and_eq_true] at hv
    exact ⟨one_pos, Schema.trigger_toValue hdated hv.1.1.2, storedConditions_conform _, storedActions_conform _⟩
  | @update _ old =>
    simp only [CommandRequest.valid, validUpdateRule, Bool.and_eq_true] at hv
    exact ⟨lt_trans (hold old rfl).revision (lt_add_one _), Schema.trigger_toValue hdated hv.1.1.2,
      storedConditions_conform _, storedActions_conform _⟩
  | @setEnabled _ old =>
    obtain ⟨hrevision, htrigger, hconditions, hactions⟩ := hold old rfl
    exact ⟨lt_trans hrevision (lt_add_one _), htrigger, hconditions, hactions⟩
  | @delete _ old =>
    obtain ⟨hrevision, htrigger, hconditions, hactions⟩ := hold old rfl
    exact ⟨lt_trans hrevision (lt_add_one _), htrigger, hconditions, hactions⟩

theorem formatTime_dateTime (hwrites : env.DateTimeOK) {t : OffsetDateTime} {text : String}
    (h : formatTime env t = .ok text) : Schema.dateTime (.string text) = true := by
  unfold formatTime at h
  split at h
  case h_1 text' hformat =>
    cases h
    exact hwrites t _ hformat
  case h_2 => cases h

theorem positiveText_repr {n : ℤ} (h : 0 < n) : Schema.positiveText n.repr = true := by
  obtain ⟨m, rfl⟩ := Int.eq_ofNat_of_zero_le h.le
  exact Schema.positiveText_toString (n := m) (by omega)

theorem ruleJson_conforms (hwrites : env.DateTimeOK) {r : RuleRow} {v : Value}
    (h : ruleJson env r = .ok v) (hr : r.Published) : Schema.ruleResponse.plain v = true := by
  obtain ⟨nextFireAt, createdAt, updatedAt, hnext, hcreated, hupdated, rfl⟩ := ruleJson_ok h
  have hfire : (Schema.nullable Schema.dateTime).plain nextFireAt = true := by
    rcases hnext with rfl | ⟨t, text, htext, rfl⟩
    · rfl
    · simpa using formatTime_dateTime hwrites htext
  refine Schema.plain_object_of rfl rfl ?_
  simp [lookup, hfire, hr.trigger, hr.conditions, hr.actions, positiveText_repr hr.revision,
    formatTime_dateTime hwrites hcreated, formatTime_dateTime hwrites hupdated]

/-! ## Commands -/

theorem Answers.conforms (hwrites : env.DateTimeOK) {request : CommandRequest} {new : RuleRow}
    {response : Value} (h : Answers env request new response) (hnew : new.Published) :
    (responseSchema request.operation).plain response = true := by
  cases request with
  | create | update | setEnabled => exact ruleJson_conforms hwrites h hnew
  | delete =>
    have hdeleted : response = deletedJson := h
    rw [hdeleted]
    rfl

/-- The rules are what their schema has, and so are the answers stored with the commands. -/
structure PublishedOK (db : Database) : Prop where
  rules : ∀ r ∈ db.rules, r.Published
  commands : ∀ c ∈ db.commands, ∀ v, c.response = some v → (responseSchema c.scope.operation).plain v = true

/-- An accepted rule command starts its schedule at a date-time. -/
def Event.Dated (env : Env) (event : Event) : Prop :=
  ∀ conn auth request, event = .command conn auth request → request.valid env = true → Schema.Dated request.times

theorem step_published (hwrites : env.DateTimeOK) (hdated : event.Dated env) (h : Step env w event w')
    (hi : PublishedOK w.db) : PublishedOK w'.db := by
  have hrules : ∀ r ∈ w'.db.rules, r.Published := step_each_rule (P := RuleRow.Published)
    (fun he hv hwr hold => hwr.published (hdated _ _ _ he hv) hv hold)
    (fun _ _ _ _ hr => ⟨hr.revision, hr.trigger, hr.conditions, hr.actions⟩) h hi.rules
  refine ⟨hrules, fun c hc v hv => ?_⟩
  rcases step_commands h with hsame | ⟨conn, auth, request, _, rfl, -⟩
  · exact hi.commands c (hsame ▸ hc) v hv
  cases h with
  | idle => exact hi.commands c hc v hv
  | command _ hw ha =>
    obtain ⟨_, new, _, -, hwrite, hanswers⟩ := hw
    rcases (mem_answered ha).1 hc with hc | rfl
    · exact hi.commands c hc v hv
    · cases hv
      exact hanswers.conforms hwrites (hrules new hwrite.rules.mem)

theorem run_published (hwrites : env.DateTimeOK) {events : List Event} (hdated : ∀ event ∈ events, event.Dated env) :
    PublishedOK ((automation env).run events).db :=
  inv_along (I := fun w => PublishedOK w.db) (G := fun _ event => event.Dated env)
    ⟨fun r hr => absurd hr (Table.not_mem_empty r), fun c hc => absurd hc (Table.not_mem_empty c)⟩
    (fun _ hdated hstep hi => step_published hwrites hdated hstep hi) (Transition.Machine.along_of_mem hdated _)

/-- **What a command answers conforms**, whether it does its work or answers again. -/
theorem storeCommand_conforms (hwrites : s.env.DateTimeOK) {auth : Authorized}
    {request : CommandRequest} {db : Database} {ending : Ending Value} {db' : Database} {v : Value}
    (hdated : Schema.Dated request.times) (hv : request.valid s.env = true) (hi : PublishedOK db)
    (h : storeCommand s auth request db = .ok (ending, db')) (hending : ending = .drop v ∨ ending = .commit v) :
    (responseSchema request.operation).plain v = true := by
  rcases storeCommand_ok h with ⟨response, heq, hstored⟩ | ⟨response, heq, hworked, -⟩
  · cases heq
    rcases hending with heq | heq <;> cases heq
    obtain ⟨row, hm, hscope, -, hv⟩ := hstored.stored
    have hconforms := hi.commands row hm v hv
    rw [hscope] at hconforms
    exact hconforms
  · rcases hending with rfl | rfl
    · cases heq.value
    cases heq.value
    obtain ⟨old, new, next, hwritten, hwrite, hanswers⟩ := hworked
    refine hanswers.conforms hwrites (hwritten.published hdated hv ?_)
    rintro o rfl
    exact hi.rules o (Table.find?_eq_some.1 hwrite.found).1

/-! ## Reads -/

/-- What every value made of a list has, all of them have. -/
theorem except_mapM_forall {ε α β : Type} {f : α → Except ε β} {P : β → Prop} {as : List α} {bs : List β}
    (h : as.mapM f = .ok bs) (hf : ∀ a ∈ as, ∀ b, f a = .ok b → P b) : ∀ b ∈ bs, P b := by
  induction as generalizing bs with
  | nil =>
    cases h
    exact fun b hb => absurd hb List.not_mem_nil
  | cons a rest ih =>
    rw [List.mapM_cons] at h
    simp only [except_bind_eq_ok] at h
    obtain ⟨b, hb, bs', hbs, h⟩ := h
    cases h
    exact List.forall_mem_cons.2 ⟨hf a List.mem_cons_self b hb,
      ih hbs fun a ha => hf a (List.mem_cons_of_mem _ ha)⟩

theorem listRules_conforms (hwrites : env.DateTimeOK) {db : Database} {organizationId : String}
    {answer : Value} (hi : PublishedOK db) (h : ListsRulesOf env db organizationId answer) :
    Schema.listRulesResponse.plain answer = true := by
  obtain ⟨rows, items, cursor, hrows, hitems, hcursor, rfl⟩ := h
  have hcursor : (Schema.nullable Schema.string).plain cursor = true := by
    rcases hcursor with rfl | ⟨r, -, -, rfl⟩ <;> rfl
  have hitems : ∀ v ∈ items, Schema.ruleResponse.plain v = true := except_mapM_forall hitems fun r hr v hv =>
    ruleJson_conforms hwrites hv (hi.rules r (hrows r hr).1)
  refine Schema.plain_object_of rfl rfl ?_
  simpa [lookup, hcursor] using hitems

theorem timeJson_conforms (hwrites : env.DateTimeOK) {t : ℤ} {v : Value}
    (h : timeJson env t = .ok v) : Schema.dateTime.plain v = true := by
  unfold timeJson at h
  cases hf : formatTime env (decodeTimestamptz t) with
  | error e =>
    rw [hf] at h
    cases h
  | ok text =>
    rw [hf] at h
    cases h
    simpa using formatTime_dateTime hwrites hf

section Counts

variable {integer : Schema}

/-- The counts an answer shows are integers. -/
structure CountsOK (integer : Schema) (db : Database) : Prop where
  executions : ∀ e ∈ db.executions, integer (.number e.attempts) = true
  attempts : ∀ a ∈ db.attempts, 0 < a.attempt ∧ integer (.number a.attempt) = true
  receipts : ∀ r ∈ db.receipts, integer (.number r.actionIndex) = true ∧ integer (.number r.attempts) = true

theorem attemptJson_conforms (hwrites : env.DateTimeOK) {a : AttemptRow} {v : Value}
    (ha : integer (.number a.attempt) = true) (h : attemptJson env a = .ok v) :
    (Schema.attemptReceipt integer).plain v = true := by
  have hstatus : Schema.enum ["running", "succeeded", "failed", "retryable"] (.string a.status.name) = true := by
    cases a.status <;> rfl
  unfold attemptJson at h
  rw [except_bind_eq_ok] at h
  obtain ⟨startedAt, hstarted, h⟩ := h
  have hstarted : Schema.dateTime.plain startedAt = true := timeJson_conforms hwrites hstarted
  cases hc : a.completedAt with
  | none =>
    rw [hc] at h
    cases h
    refine Schema.plain_object_of rfl rfl ?_
    simp [lookup, ha, hstatus, hstarted]
  | some t =>
    simp only [hc, except_bind_eq_ok] at h
    obtain ⟨completedAt, hcompleted, h⟩ := h
    have hcompleted : (Schema.nullable Schema.dateTime).plain completedAt = true :=
      Schema.plain_nullable (timeJson_conforms hwrites hcompleted)
    cases h
    refine Schema.plain_object_of rfl rfl ?_
    simp [lookup, ha, hstatus, hstarted, hcompleted]

theorem receiptJson_conforms (hwrites : env.DateTimeOK) {r : ActionReceiptRow} {v : Value}
    (hr : integer (.number r.actionIndex) = true ∧ integer (.number r.attempts) = true)
    (h : receiptJson env r = .ok v) : (Schema.actionReceipt integer).plain v = true := by
  have hstatus : Schema.enum ["pending", "succeeded", "failed"] (.string r.status.name) = true := by
    cases r.status <;> rfl
  unfold receiptJson at h
  rw [except_bind_eq_ok] at h
  obtain ⟨updatedAt, hupdated, h⟩ := h
  have hupdated : Schema.dateTime.plain updatedAt = true := timeJson_conforms hwrites hupdated
  cases h
  refine Schema.plain_object_of rfl rfl ?_
  simp [lookup, hr, hstatus, hupdated]

theorem inspectExecution_conforms (hwrites : env.DateTimeOK) {db : Database}
    {organizationId : String} {answer : Value} (hi : CountsOK integer db)
    (h : ShowsExecutionOf env db db db organizationId answer) :
    (Schema.inspectExecutionResponse integer).plain answer = true := by
  obtain ⟨e, he, -, attempts, receipts, attemptReceipts, actions, cursor, hattempts, hreceipts, hmap, hmap', hcursor,
    h⟩ := h
  have hattemptReceipts : ∀ v ∈ attemptReceipts, (Schema.attemptReceipt integer).plain v = true :=
    except_mapM_forall hmap fun a ha v hv => attemptJson_conforms hwrites (hi.attempts a (hattempts a ha).1).2 hv
  have hactions : ∀ v ∈ actions, (Schema.actionReceipt integer).plain v = true :=
    except_mapM_forall hmap' fun r hr v hv => receiptJson_conforms hwrites (hi.receipts r (hreceipts r hr).1) hv
  have hcursor : (Schema.nullable Schema.positive).plain cursor = true := by
    rcases hcursor with rfl | ⟨a, ha, rfl⟩
    · rfl
    · simpa using positiveText_repr (Int.natCast_pos.2 (hi.attempts a (hattempts a ha).1).1)
  have hstatus : Schema.enum ["pending", "running", "succeeded", "failed"] (.string e.status.name) = true := by
    cases e.status <;> rfl
  unfold executionJson at h
  simp only [except_bind_eq_ok] at h
  obtain ⟨createdAt, hcreated, updatedAt, hupdated, h⟩ := h
  have hcreated : Schema.dateTime.plain createdAt = true := timeJson_conforms hwrites hcreated
  have hupdated : Schema.dateTime.plain updatedAt = true := timeJson_conforms hwrites hupdated
  cases h
  refine Schema.plain_object_of rfl rfl ?_
  simpa [lookup, hi.executions e he, hstatus, hcreated, hupdated, hcursor] using ⟨hattemptReceipts, hactions⟩

end Counts

/-! ## Counts -/

/-- The integers of an `i64`. -/
def Schema.int64 : Schema := between (-2 ^ 63) (2 ^ 63 - 1)

theorem Schema.int64_nat {n : ℕ} (h : n < 2 ^ 63) : int64 (.number n) = true := between_number.2 (by omega)

/-- **The counts of a run are those of an `i64`.** -/
theorem run_counts {events : List Event} (hcounters : (automation env).Along CountersChecked World.init events) :
    CountsOK Schema.int64 ((automation env).run events).db := by
  have hfit : ∀ a ∈ ((automation env).run events).db.attempts, 1 ≤ a.attempt ∧ a.attempt ≤ i32Max :=
    run_attempt_fits events
  have hledgers : AttemptsOK ((automation env).run events).db := run_attempts events
  refine ⟨fun e he => Schema.int64_nat ?_, fun a ha => ⟨(hfit a ha).1, Schema.int64_nat ?_⟩, fun r hr => ?_⟩
  · -- the last attempt has the number of the execution's attempts
    rcases Nat.eq_zero_or_pos e.attempts with hzero | hpos
    · omega
    · obtain ⟨a, ha, hkey⟩ := ((hledgers.ledgers e he).numbered e.attempts).2 ⟨hpos, le_rfl⟩
      have hlast : a.attempt = e.attempts := congrArg Prod.snd hkey
      have hle := (hfit a ha).2
      unfold i32Max at hle
      omega
  · have hle := (hfit a ha).2
    unfold i32Max at hle
    omega
  · obtain ⟨e, he, -, action, haction, -⟩ := ((run_refs events).receipts r hr).execution
    have hindex : r.actionIndex ≤ i32Max :=
      ((run_refs events).executions e he).actions.count _ (List.getElem?_eq_some_iff.1 haction).1
    have hattempts := (run_counters hcounters).receipts r hr
    unfold i32Max at hindex hattempts
    exact ⟨Schema.int64_nat (by omega), Schema.int64_nat (by omega)⟩

/-! ## Reading answers -/

theorem int64_takes : Schema.int64.Takes i64 := i64_takes (by decide) (by decide)

theorem DeleteRuleResponse.takes : Schema.deleteRuleResponse.Takes DeleteRuleResponse.format :=
  record_takes rfl <| .congr <| Fields.takes_one bool_takes

section Taken

variable (hts : ∀ text, Schema.dateTime (.string text) = true → ts text = true)

include hts in
theorem RuleResponse.takes : Schema.ruleResponse.Takes (RuleResponse.format ts) :=
  record_takes rfl <| .congr <| (Fields.takes_one (vec_takes Action.takes)).and <|
    (Fields.takes_one (vec_takes Condition.takes)).and <| (Fields.takes_one (timestamp_takes hts)).and <|
    (Fields.takes_one bool_takes).and <| (Fields.takes_one string_takes).and <|
    (Fields.takes_one (option_takes (timestamp_takes hts))).and <| (Fields.takes_one string_takes).and <|
    (Fields.takes_one positive_takes).and <| (Fields.takes_one string_takes).and <|
    (Fields.takes_one (Trigger.takes hts)).and <| Fields.takes_one (timestamp_takes hts)

include hts in
theorem ListRulesResponse.takes : Schema.listRulesResponse.Takes (ListRulesResponse.format ts) :=
  record_takes rfl <| .congr <| (Fields.takes_one (vec_takes (RuleResponse.takes hts))).and <|
    Fields.takes_one optString_takes

include hts in
theorem ActionReceipt.takes : (Schema.actionReceipt Schema.int64).Takes (ActionReceipt.format ts) :=
  record_takes rfl <| .congr <| (Fields.takes_one int64_takes).and <| (Fields.takes_one int64_takes).and <|
    (Fields.takes_one string_takes).and <| (Fields.takes_one string_takes).and <|
    (Fields.takes_one optString_takes).and <| (Fields.takes_one (enum_takes (by decide))).and <|
    Fields.takes_one (timestamp_takes hts)

include hts in
theorem AttemptReceipt.takes : (Schema.attemptReceipt Schema.int64).Takes (AttemptReceipt.format ts) :=
  record_takes rfl <| .congr <| (Fields.takes_one int64_takes).and <|
    (Fields.takes_one (option_takes (timestamp_takes hts))).and <| (Fields.takes_one optString_takes).and <|
    (Fields.takes_one (timestamp_takes hts)).and <| (Fields.takes_one (enum_takes (by decide))).and <|
    Fields.takes_one string_takes

include hts in
theorem InspectExecutionResponse.takes :
    (Schema.inspectExecutionResponse Schema.int64).Takes (InspectExecutionResponse.format ts) :=
  record_takes rfl <| .congr <| (Fields.takes_one (vec_takes (ActionReceipt.takes hts))).and <|
    (Fields.takes_one (vec_takes (AttemptReceipt.takes hts))).and <| (Fields.takes_one int64_takes).and <|
    (Fields.takes_one (timestamp_takes hts)).and <| (Fields.takes_one string_takes).and <|
    (Fields.takes_one optString_takes).and <| (Fields.takes_one (option_takes positive_takes)).and <|
    (Fields.takes_one string_takes).and <| (Fields.takes_one (enum_takes (by decide))).and <|
    (Fields.takes_one string_takes).and <| Fields.takes_one (timestamp_takes hts)

include hts in
theorem command_decodes {request : CommandRequest} {v : Value}
    (h : (responseSchema request.operation).plain v = true) : decodes ts request.operation v = true := by
  cases request with
  | create | update | setEnabled => exact (RuleResponse.takes hts).isSome h
  | delete => exact DeleteRuleResponse.takes.isSome h

end Taken

/-! ## Wider schemas -/

namespace Schema

variable {integer integer' : Schema}

theorem array_mono {items items' : Schema} (h : ∀ v, items v = true → items' v = true) {v : Value}
    (hv : array items v = true) : array items' v = true := by
  cases v with
  | array vs => exact array_array.2 fun x hx => h x (array_array.1 hv x hx)
  | null | bool | number | decimal | string | object => cases hv

/-- Each property takes all the other one takes. -/
def Widens (p p' : String × Schema) : Prop := p.1 = p'.1 ∧ ∀ v, p.2 v = true → p'.2 v = true

theorem lookup_widens {ps ps' : List (String × Schema)} (h : List.Forall₂ Widens ps ps') {name : String} {v : Value}
    (hv : (lookup ps name).any (· v) = true) : (lookup ps' name).any (· v) = true := by
  induction h with
  | nil => exact hv
  | @cons p p' rest rest' hp _ ih =>
    unfold lookup at hv ih ⊢
    by_cases hname : p.1 = name
    · have hname' : p'.1 = name := hp.1 ▸ hname
      simp only [List.find?_cons, hname, hname', decide_true, Option.map_some, Option.any_some] at hv ⊢
      exact hp.2 v hv
    · have hname' : p'.1 ≠ name := hp.1 ▸ hname
      simp only [List.find?_cons, hname, hname', decide_false] at hv ⊢
      exact ih hv

theorem widened {ps ps' : List (String × Schema)} (h : List.Forall₂ Widens ps ps') :
    ∀ p' ∈ ps', ∃ p ∈ ps, Widens p p' := by
  induction h with
  | nil => exact fun p' hp' => absurd hp' List.not_mem_nil
  | cons hp _ ih =>
    refine List.forall_mem_cons.2 ⟨⟨_, List.mem_cons_self, hp⟩, fun p' hp' => ?_⟩
    obtain ⟨p, hmem, hwidens⟩ := ih p' hp'
    exact ⟨p, List.mem_cons_of_mem _ hmem, hwidens⟩

theorem object_mono {ps ps' : List (String × Schema)} (h : List.Forall₂ Widens ps ps') {v : Value}
    (hv : object ps v = true) : object ps' v = true := by
  cases v with
  | object fields =>
    simp only [object, Bool.and_eq_true, List.all_eq_true] at hv ⊢
    refine ⟨⟨hv.1.1, fun f hf => lookup_widens h (hv.1.2 f hf)⟩, fun p' hp' => ?_⟩
    obtain ⟨p, hp, hwidens⟩ := widened h p' hp'
    exact hwidens.1 ▸ hv.2 p hp
  | null | bool | number | decimal | string | array => cases hv

theorem integer_of_int64 {v : Value} (h : int64 v = true) : Schema.integer v = true := by
  cases v with
  | number => rfl
  | decimal q =>
    simp only [int64, between, Bool.and_eq_true] at h
    exact h.1.1
  | null | bool | string | array | object => cases h

/-- The counts of an answer may be counted by a wider schema. -/
theorem inspectExecutionResponse_mono (h : ∀ v, integer v = true → integer' v = true) {v : Value}
    (hv : inspectExecutionResponse integer v = true) : inspectExecutionResponse integer' v = true := by
  have hattempt : ∀ v, attemptReceipt integer v = true → attemptReceipt integer' v = true := fun v =>
    object_mono (by simpa [Widens] using h)
  have hreceipt : ∀ v, actionReceipt integer v = true → actionReceipt integer' v = true := fun v =>
    object_mono (by simpa [Widens] using h)
  exact object_mono (by simpa [Widens] using ⟨h, fun _ => array_mono hattempt, fun _ => array_mono hreceipt⟩) hv

end Schema

/-! ## Calls -/

/-- The host, if `decode` read everything. -/
def Host.trusting (host : Host) : Host := { host with decodeError := fun _ _ => none }

/-- What the call answers has `P`, and where `C` holds it does what the other call does. -/
def Plugin.Agrees {α : Type} (C : Prop) (P : α → Prop) (x y : Plugin α) (w : World) : Prop :=
  (C → x w = y w) ∧ ∀ a, (x w).result = .ok a → P a

namespace Plugin.Agrees

variable {α β : Type} {C : Prop} {P : β → Prop} {f g : α → Plugin β}

theorem bind {x : Plugin α} (h : ∀ a, (x w).result = .ok a → Agrees C P (f a) (g a) (x w).world) :
    Agrees C P (x >>= f) (x >>= g) w := by
  cases hr : (x w).result with
  | error e =>
    refine ⟨fun _ => ?_, fun b hb => ?_⟩
    · simp only [Bind.bind, hr]
    · simp only [Bind.bind, hr] at hb
      cases hb
  | ok a =>
    obtain ⟨heq, hP⟩ := h a hr
    refine ⟨fun hC => ?_, fun b hb => hP b ?_⟩
    · simp only [Bind.bind, hr, heq hC]
    · simpa only [Bind.bind, hr] using hb

theorem check {e : PluginError} {holds : Bool} {f g : Unit → Plugin β}
    (h : holds = true → Agrees C P (f ()) (g ()) w) :
    Agrees C P (Plugin.check e holds >>= f) (Plugin.check e holds >>= g) w := by
  cases holds with
  | true => exact h rfl
  | false => exact ⟨fun _ => rfl, fun b hb => by cases hb⟩

theorem okOr {e : PluginError} {o : Option α} (h : ∀ a, o = some a → Agrees C P (f a) (g a) w) :
    Agrees C P (Plugin.okOr e o >>= f) (Plugin.okOr e o >>= g) w := by
  cases o with
  | some a => exact h a rfl
  | none => exact ⟨fun _ => rfl, fun b hb => by cases hb⟩

theorem mono {C' : Prop} {x y : Plugin β} (h : Agrees C P x y w) (hC : C' → C) : Agrees C' P x y w :=
  ⟨fun hC' => h.1 (hC hC'), h.2⟩

theorem refl (x : Plugin β) : Agrees C (fun _ => True) x x w := ⟨fun _ => rfl, fun _ _ => trivial⟩

/-- A call wrapped in another type. -/
theorem map {x y : Plugin α} {Q : α → Prop} {k : α → β} (h : Agrees C Q x y w) (hk : ∀ a, Q a → P (k a)) :
    Agrees C P (x >>= fun a => pure (k a)) (y >>= fun a => pure (k a)) w := by
  refine ⟨fun hC => ?_, fun b hb => ?_⟩
  · simp only [Bind.bind, h.1 hC]
  · cases hr : (x w).result with
    | error e =>
      simp only [Bind.bind, hr] at hb
      cases hb
    | ok a =>
      simp only [Bind.bind, hr] at hb
      cases hb
      exact hk a (h.2 a hr)

theorem decode {P : Value → Prop} {host : Host} {operation : String} {value : Value}
    (hread : C → host.decodeError operation value = none) (h : P value) :
    Agrees C P (Plugin.decode host operation value) (Plugin.decode host.trusting operation value) w := by
  refine ⟨fun hC => ?_, fun v hv => Plugin.decode_ok hv ▸ h⟩
  unfold Plugin.decode
  rw [hread hC]
  rfl

end Plugin.Agrees

theorem triggerReceipt_conforms (r : TriggerReceipt) :
    Schema.triggerReceiptResponse.plain (TriggerReceipt.format.write r) = true := by
  refine Schema.plain_object_of rfl rfl ?_
  simp [lookup]

theorem reconcileResponse_conforms (r : ReconcileResponse) : Schema.reconcileResponse.plain r.toValue = true := rfl

section Calls

variable {plugin : ProjectAutomationPlugin} {host : Host} {around : CallAround} {context : Ctx}

/-- `decode` reads what the types of the contract have room for. -/
def Host.Reads (host : Host) (ts : String → Bool) : Prop :=
  ∀ operation v, decodes ts operation v = true → host.decodeError operation v = none

variable (hwrites : env.DateTimeOK)
  (hts : ∀ text, Schema.dateTime (.string text) = true → ts text = true) (hi : PublishedOK w.db)

include hwrites hts hi

theorem ruleCommand_agrees {permission : String} {flushes : Bool} (request : CommandRequest)
    (hdated : Schema.Dated request.times) :
    Plugin.Agrees (host.Reads ts) ((responseSchema request.operation).plain · = true)
      (plugin.ruleCommand env host around context request.operation permission flushes request)
      (plugin.ruleCommand env host.trusting around context request.operation permission flushes request) w := by
  refine .bind fun auth _ => .check fun hvalid => .check fun _ => .bind fun value hvalue => ?_
  obtain ⟨ending, db', hstore, hending⟩ := transact_answer (Plugin.storage_ok hvalue)
  have hconforms : (responseSchema request.operation).plain value = true :=
    storeCommand_conforms (s := w.session env around.storage) hwrites hdated hvalid hi hstore hending
  have hread : host.Reads ts → host.decodeError request.operation value = none := fun hhost =>
    hhost _ _ (command_decodes hts hconforms)
  cases flushes with
  | true => exact .bind fun _ _ => .decode hread hconforms
  | false => exact .decode hread hconforms

theorem getRule_agrees {request : GetRuleRequest} :
    Plugin.Agrees (host.Reads ts) (Schema.ruleResponse.plain · = true) (plugin.getRule env host around context request)
      (plugin.getRule env host.trusting around context request) w := by
  refine .bind fun auth _ => .check fun _ => .check fun _ => .bind fun value hvalue => ?_
  obtain ⟨ending, db', hget, hending⟩ := transact_answer (Plugin.storage_ok hvalue)
  obtain ⟨rule, hrule, -, v, hjson, heq⟩ := getRule_ok hget
  cases heq
  rcases hending with heq | heq <;> cases heq
  have hconforms : Schema.ruleResponse.plain value = true := ruleJson_conforms hwrites hjson (hi.rules rule hrule)
  exact .decode (fun hhost => hhost "get_rule" _ ((RuleResponse.takes hts).isSome hconforms)) hconforms

theorem listRules_agrees {request : ListRulesRequest} :
    Plugin.Agrees (host.Reads ts) (Schema.listRulesResponse.plain · = true)
      (plugin.listRules env host around context request)
      (plugin.listRules env host.trusting around context request) w := by
  refine .bind fun auth _ => .check fun _ => .check fun _ => .bind fun value hvalue => ?_
  obtain ⟨ending, db', hlist, hending⟩ := transact_answer (Plugin.storage_ok hvalue)
  obtain ⟨v, hlists, heq⟩ := listRules_ok hlist
  cases heq
  rcases hending with heq | heq <;> cases heq
  have hconforms : Schema.listRulesResponse.plain value = true := listRules_conforms hwrites hi hlists
  exact .decode (fun hhost => hhost "list_rules" _ ((ListRulesResponse.takes hts).isSome hconforms)) hconforms

omit hi in
theorem inspectExecution_agrees {request : InspectExecutionRequest} :
    Plugin.Agrees (host.Reads ts ∧ CountsOK Schema.int64 w.db)
      (fun v => ∀ integer, CountsOK integer w.db → (Schema.inspectExecutionResponse integer).plain v = true)
      (plugin.inspectExecution env host around context request)
      (plugin.inspectExecution env host.trusting around context request) w := by
  refine .bind fun auth _ => .okOr fun executionId _ => .check fun _ => .check fun _ => .bind fun value hvalue => ?_
  have hshows : ShowsExecutionOf env w.db w.db w.db request.organizationId value := by
    have hvalue : (inspectExecution (w.session env around.storage) w.db w.db w.db request.organizationId executionId
      request.attemptLimit.toNat request.attemptAfter).mapError mapStorage = .ok value := hvalue
    cases hdone : inspectExecution (w.session env around.storage) w.db w.db w.db request.organizationId executionId
      request.attemptLimit.toNat request.attemptAfter with
    | error e =>
      rw [hdone] at hvalue
      cases hvalue
    | ok value' =>
      rw [hdone] at hvalue
      cases hvalue
      exact inspectExecution_ok (s := w.session env around.storage) (fun howns => ⟨howns, howns⟩) hdone
  have hconforms : ∀ integer, CountsOK integer w.db → (Schema.inspectExecutionResponse integer).plain value = true :=
    fun integer hcounts => inspectExecution_conforms hwrites hcounts hshows
  refine .decode (fun ⟨hhost, h64⟩ => ?_) hconforms
  exact hhost "inspect_execution" _ ((InspectExecutionResponse.takes hts).isSome (hconforms _ h64))

/-- What an operation answers conforms, and the counts in it are as the schema counts them. -/
def Conforms (db : Database) (operation : String) (v : Value) : Prop :=
  (responseSchema operation).plain v = true ∧ (operation = "inspect_execution" →
    ∀ integer, CountsOK integer db → (Schema.inspectExecutionResponse integer).plain v = true)

theorem invoke_agrees (hcounts : CountsOK Schema.integer w.db) {request : Request}
    (hdated : Schema.Dated request.times) (hqueued : ProjectAutomationPlugin.invoke.queued plugin env = env) :
    Plugin.Agrees (host.Reads ts ∧ CountsOK Schema.int64 w.db)
      (fun response => Conforms w.db request.operation response.toValue)
      (plugin.invoke env host around context request) (plugin.invoke env host.trusting around context request) w := by
  have hreads : host.Reads ts ∧ CountsOK Schema.int64 w.db → host.Reads ts := And.left
  have hother : ∀ {operation : String} {v : Value}, (responseSchema operation).plain v = true →
      operation ≠ "inspect_execution" → Conforms w.db operation v := fun h hne => ⟨h, fun heq => absurd heq hne⟩
  unfold ProjectAutomationPlugin.invoke
  simp only [hqueued]
  cases request with
  | createRule r =>
    refine .map ((ruleCommand_agrees hwrites hts hi (.create r) hdated).mono hreads) fun _ h => hother h ?_
    simp [Request.operation]
  | updateRule r =>
    refine .map ((ruleCommand_agrees hwrites hts hi (.update r) hdated).mono hreads) fun _ h => hother h ?_
    simp [Request.operation]
  | setRuleEnabled r =>
    refine .map ((ruleCommand_agrees hwrites hts hi (.setEnabled r) hdated).mono hreads) fun _ h => hother h ?_
    simp [Request.operation]
  | deleteRule r =>
    refine .map ((ruleCommand_agrees hwrites hts hi (.delete r) hdated).mono hreads) fun _ h => hother h ?_
    simp [Request.operation]
  | getRule r =>
    refine .map ((getRule_agrees hwrites hts hi).mono hreads) fun _ h => hother h ?_
    simp [Request.operation]
  | listRules r =>
    refine .map ((listRules_agrees hwrites hts hi).mono hreads) fun _ h => hother h ?_
    simp [Request.operation]
  | inspectExecution r =>
    exact .map (inspectExecution_agrees hwrites hts) fun _ h => ⟨h _ hcounts, fun _ => h⟩
  | receiveEvent r | receiveTimer r =>
    refine .map (.refl _) fun receipt _ => hother (triggerReceipt_conforms receipt) ?_
    simp [Request.operation]
  | reconcile r =>
    refine .map (.refl _) fun response _ => hother (reconcileResponse_conforms response) ?_
    simp [Request.operation]

end Calls

/-- What `invoke_agrees` says holds wherever schedules were started at date-times. -/
theorem run_agrees (plugin : ProjectAutomationPlugin) {env : Env} {ts : String → Bool} (hwrites : env.DateTimeOK)
    (hts : ∀ text, Schema.dateTime (.string text) = true → ts text = true) {events : List Event}
    (hevents : ∀ event ∈ events, event.Dated env) (host : Host) (around : CallAround) (context : Ctx)
    (request : Request) (hrequest : Schema.Dated request.times) :
    let w := (automation (ProjectAutomationPlugin.invoke.queued plugin env)).run events
    Plugin.Agrees (host.Reads ts ∧ CountsOK Schema.int64 w.db)
      (fun response => Conforms w.db request.operation response.toValue)
      (plugin.invoke env host around context request) (plugin.invoke env host.trusting around context request) w := by
  intro w
  -- what the calls run under formats and parses times as `env` does
  have hwrites : (ProjectAutomationPlugin.invoke.queued plugin env).DateTimeOK := hwrites
  have hevents : ∀ event ∈ events, event.Dated (ProjectAutomationPlugin.invoke.queued plugin env) := hevents
  have hfit : ∀ a ∈ w.db.attempts, 1 ≤ a.attempt ∧ a.attempt ≤ i32Max := run_attempt_fits events
  have hcounts : CountsOK Schema.integer w.db :=
    ⟨fun _ _ => rfl, fun a ha => ⟨(hfit a ha).1, rfl⟩, fun _ _ => ⟨rfl, rfl⟩⟩
  have hpublished : PublishedOK w.db := run_published hwrites hevents
  have hagrees : Plugin.Agrees (host.Reads ts ∧ CountsOK Schema.int64 w.db)
      (fun response => Conforms w.db request.operation response.toValue)
      (plugin.invoke (ProjectAutomationPlugin.invoke.queued plugin env) host around context request)
      (plugin.invoke (ProjectAutomationPlugin.invoke.queued plugin env) host.trusting around context request) w :=
    invoke_agrees hwrites hts hpublished hcounts hrequest rfl
  have hsame : ∀ host : Host, plugin.invoke (ProjectAutomationPlugin.invoke.queued plugin env) host around context
      request = plugin.invoke env host around context request := fun host => by cases request <;> rfl
  rw [hsame, hsame] at hagrees
  exact hagrees

/-- **What the operations answer conforms to the published schemas**, in every state that rule commands have led to
which start their schedules at date-times. No call fails for the reading of what it answers, with a `decode` that
reads what the types of the contract have room for. -/
theorem answers_conform (plugin : ProjectAutomationPlugin) {env : Env} {ts : String → Bool} (hwrites : env.DateTimeOK)
    (hts : ∀ text, Schema.dateTime (.string text) = true → ts text = true) {events : List Event}
    (hevents : ∀ event ∈ events, event.Dated env) (host : Host) (around : CallAround) (context : Ctx)
    (request : Request) (hrequest : Schema.Dated request.times) :
    let w := (automation (ProjectAutomationPlugin.invoke.queued plugin env)).run events
    (∀ response, (plugin.invoke env host around context request w).result = .ok response →
      responseSchema request.operation response.toValue = true) ∧
      (host.Reads ts →
        (automation (ProjectAutomationPlugin.invoke.queued plugin env)).Along CountersChecked World.init events →
        plugin.invoke env host around context request w =
          plugin.invoke env host.trusting around context request w) := by
  obtain ⟨hsame, hconforms⟩ := run_agrees plugin hwrites hts hevents host around context request hrequest
  exact ⟨fun response h => Schema.conforms_of_plain (hconforms response h).1,
    fun hhost hcounters => hsame ⟨hhost, run_counts hcounters⟩⟩

section Sample

open Sample

/-- A host that reads nothing but what the types have room for. -/
def strictHost : Host :=
  { openHost with
    decodeError := fun operation v =>
      if decodes (fun text => Schema.dateTime (.string text)) operation v then none else some "invalid response" }

/-- A schedule that starts at once. -/
theorem dated_nightly : (Event.command (conn 0 0) auth (nightly 120 none)).Dated Sample.env := by
  intro conn auth request he _
  cases he
  exact fun text htext => absurd htext List.not_mem_nil

/-- The rules of the organization are listed. -/
theorem listed_rule_conforms :
    let plugin : ProjectAutomationPlugin := ⟨fourCallers, true⟩
    let around : CallAround := ⟨conn 0 0, quiet, answers fun _ => served⟩
    let w := (automation Sample.env).run [atStart, .command (conn 0 0) auth (nightly 120 none)]
    let call := fun host => plugin.invoke Sample.env host around ⟨some "host", some "list_rules"⟩
      (.listRules ⟨none, none, 10, "org-1"⟩) w
    (∃ v, (call strictHost).result = .ok (.value v) ∧ Schema.listRulesResponse v = true) ∧
      call strictHost = call strictHost.trusting := by
  intro plugin around w call
  have hevents : ∀ event ∈ [atStart, .command (conn 0 0) auth (nightly 120 none)], event.Dated Sample.env :=
    List.forall_mem_cons.2 ⟨fun _ _ _ he => (by cases he), List.forall_mem_singleton.2 dated_nightly⟩
  obtain ⟨hconforms, hsame⟩ := answers_conform plugin dateTimeOK
    (show ∀ text, Schema.dateTime (.string text) = true → (fun text => Schema.dateTime (.string text)) text = true from
      fun _ h => h) hevents strictHost around ⟨some "host", some "list_rules"⟩
    (.listRules ⟨none, none, 10, "org-1"⟩) fun text htext => absurd htext List.not_mem_nil
  have hsame : call strictHost = call strictHost.trusting := hsame (fun _ _ h => if_pos h) (by decide)
  obtain ⟨v, hv⟩ : ∃ v, (call strictHost.trusting).result = .ok (.value v) := ⟨_, rfl⟩
  rw [← hsame] at hv
  exact ⟨⟨v, hv, hconforms _ hv⟩, hsame⟩

end Sample

end ProjectAutomation

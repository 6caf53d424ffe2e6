import ProjectAutomation.Proof.Texts
import ProjectAutomation.Proof.Wire
import ProjectAutomation.Spec.Assumptions
import ProjectAutomation.Spec.Schemas

/-!
# Requests and their schemas

The published schemas against the two things the code does with a request: reading it
from JSON, and checking it.

* `object_of`, `record_takes`: when an object that is written conforms, and when a record is
  read from all that conforms.
* `Request.conforms`: what an operation accepts is written as its schema has it.
* `Request.taken`: what conforms is read.
* `requests_conform`: both, for the ten operations.
-/

namespace ProjectAutomation

open Codec Serde

variable {α : Type} {ts : String → Bool}

/-! ## What conforms -/

namespace Schema

@[simp] theorem string_string (s : String) : string (.string s) = true := rfl

@[simp] theorem boolean_bool (b : Bool) : boolean (.bool b) = true := rfl

@[simp] theorem between_number {minimum maximum n : ℤ} :
    between minimum maximum (.number n) = true ↔ minimum ≤ n ∧ n ≤ maximum := by simp [between]

@[simp] theorem positive_string (s : String) : positive (.string s) = positiveText s := rfl

@[simp] theorem array_array {items : Schema} {vs : List Value} :
    array items (.array vs) = true ↔ ∀ v ∈ vs, items v = true := List.all_eq_true

@[simp] theorem nullable_null {schema : Schema} : nullable schema .null = true := rfl

@[simp] theorem nullable_bool {schema : Schema} (b : Bool) : nullable schema (.bool b) = schema (.bool b) := rfl

@[simp] theorem nullable_number {schema : Schema} (n : ℤ) : nullable schema (.number n) = schema (.number n) := rfl

@[simp] theorem nullable_string {schema : Schema} (s : String) :
    nullable schema (.string s) = schema (.string s) := rfl

@[simp] theorem nullable_ofOption {schema : Schema} {f : α → Value} {o : Option α} :
    nullable schema (.ofOption f o) = true ↔ ∀ a ∈ o, nullable schema (f a) = true := by
  cases o <;> simp [Value.ofOption]

theorem nullable_of {schema : Schema} {v : Value} (h : schema v = true) : nullable schema v = true := by
  cases v with
  | null => rfl
  | bool | number | decimal | string | array | object => exact h

/-- An object conforms when its names are those of the properties, and its values conform to them. -/
theorem object_of {properties : List (String × Schema)} {fields : List (String × Value)}
    (hnodup : decide (fields.map Prod.fst).Nodup = true)
    (hrequired : properties.all (fun p => (lookup fields p.1).isSome) = true)
    (h : fields.all (fun f => (lookup properties f.1).any (· f.2)) = true) :
    object properties (.object fields) = true := by
  simp only [object, hnodup, hrequired, h, Bool.and_self]

theorem property_of {properties : List (String × Schema)} {fields : List (String × Value)}
    (h : object properties (.object fields) = true) {f : String × Value} (hf : f ∈ fields) :
    (lookup properties f.1).any (· f.2) = true := by
  simp only [object, Bool.and_eq_true, List.all_eq_true] at h
  exact h.1.2 f hf

/-- The texts are date-times. -/
def Dated (times : List String) : Prop := ∀ text ∈ times, dateTime (.string text) = true

/-- A text the parser takes is a date-time if a `T` stands between its date and its time. -/
theorem dateTime_iff_marked {env : Env} (h : env.Rfc3339OK) {text : String}
    (hp : (env.parseRfc3339 text).isSome = true) :
    dateTime (.string text) = true ↔ Text.Rfc3339.marked text.toList = true := by
  simp [dateTime, Text.Rfc3339.dateTime, h text hp]

/-- The digits of a positive number do not begin with a zero. -/
theorem head_toDigits {n : ℕ} (h : 0 < n) : ∃ c rest, Nat.toDigits 10 n = c :: rest ∧ c ≠ '0' := by
  induction n using Nat.strong_induction_on with
  | _ n ih =>
    rcases lt_or_ge n 10 with hlt | hge
    · exact ⟨_, _, Nat.toDigits_of_lt_base hlt, by rw [Ne, Nat.digitChar_eq_zero]; omega⟩
    · obtain ⟨c, rest, hdigits, hc⟩ := ih (n / 10) (by omega) (by omega)
      exact ⟨c, rest ++ [Nat.digitChar (n % 10)], by rw [Nat.toDigits_of_base_le (by decide) hge, hdigits]; rfl, hc⟩

theorem positiveText_toString {n : ℕ} (h : 0 < n) : positiveText (toString n) = true := by
  have hlist : (toString n).toList = Nat.toDigits 10 n := by rw [Nat.toString_eq_repr, Nat.toList_repr]
  have hdigits : ∀ c ∈ Nat.toDigits 10 n, c.isDigit = true := fun c hc =>
    Nat.isDigit_of_mem_toDigits (by decide) (by decide) hc
  obtain ⟨c, rest, heq, hc⟩ := head_toDigits h
  unfold positiveText
  rw [hlist, heq]
  rw [heq] at hdigits
  simpa [hc] using hdigits

/-- A canonical revision is one of the pattern. -/
theorem positiveText_of_parseRevision {text : String} (h : (parseRevision? text).isSome = true) :
    positiveText text = true := by
  unfold parseRevision? at h
  split at h
  case h_1 n _ =>
    split at h
    case isTrue hn => exact hn.2.2 ▸ positiveText_toString hn.1
    case isFalse => cases h
  case h_2 => cases h

/-! ### What the code writes -/

/-- What conforms with its numbers written as integers. -/
def plain (schema : Schema) : Schema := fun v => schema v && v.plain

section Plain

variable {schema items : Schema}

@[simp] theorem plain_null : schema.plain .null = schema .null := Bool.and_true _

@[simp] theorem plain_bool (b : Bool) : schema.plain (.bool b) = schema (.bool b) := Bool.and_true _

@[simp] theorem plain_number (n : ℤ) : schema.plain (.number n) = schema (.number n) := Bool.and_true _

@[simp] theorem plain_string (s : String) : schema.plain (.string s) = schema (.string s) := Bool.and_true _

@[simp] theorem plain_ofOption {f : α → Value} {o : Option α} :
    (nullable schema).plain (.ofOption f o) = true ↔ ∀ a ∈ o, (nullable schema).plain (f a) = true := by
  cases o <;> simp [Value.ofOption, plain, Value.plain]

@[simp] theorem plain_array {vs : List Value} :
    (array items).plain (.array vs) = true ↔ ∀ v ∈ vs, items.plain v = true := by
  simp only [plain, Bool.and_eq_true, array_array, Value.plain_array, List.all_eq_true]
  exact ⟨fun h v hv => ⟨h.1 v hv, h.2 v hv⟩, fun h => ⟨fun v hv => (h v hv).1, fun v hv => (h v hv).2⟩⟩

theorem conforms_of_plain {v : Value} (h : schema.plain v = true) : schema v = true := (Bool.and_eq_true_iff.1 h).1

theorem plain_nullable {v : Value} (h : schema.plain v = true) : (nullable schema).plain v = true := by
  obtain ⟨hconforms, hplain⟩ := Bool.and_eq_true_iff.1 h
  exact Bool.and_eq_true_iff.2 ⟨nullable_of hconforms, hplain⟩

/-- As `object_of`. -/
theorem plain_object_of {properties : List (String × Schema)} {fields : List (String × Value)}
    (hnodup : decide (fields.map Prod.fst).Nodup = true)
    (hrequired : properties.all (fun p => (lookup fields p.1).isSome) = true)
    (h : fields.all (fun f => (lookup properties f.1).any (plain · f.2)) = true) :
    (object properties).plain (.object fields) = true := by
  rw [List.all_eq_true] at h
  refine Bool.and_eq_true_iff.2 ⟨object_of hnodup hrequired (List.all_eq_true.2 fun f hf => ?_), ?_⟩
  · obtain ⟨schema, hschema, hplain⟩ := (Option.any_eq_true _ _).1 (h f hf)
    exact (Option.any_eq_true _ _).2 ⟨schema, hschema, (Bool.and_eq_true_iff.1 hplain).1⟩
  · rw [Value.plain_object, List.all_eq_true]
    intro f hf
    obtain ⟨schema, -, hplain⟩ := (Option.any_eq_true _ _).1 (h f hf)
    exact (Bool.and_eq_true_iff.1 hplain).2

end Plain

/-! ### Rules -/

@[simp] theorem eventType_name (e : EventType) : eventType (.string e.name) = true := by cases e <;> rfl

@[simp] theorem priority_name (p : Priority) : priority (.string p.name) = true := by cases p <;> rfl

theorem action_toValue (a : Action) : action.plain a.toValue = true := by
  have hkind : enum ["assign_issue_to_team", "update_issue", "move_issue", "add_comment", "update_project"]
      (.string a.kind.name) = true := by cases a.kind <;> rfl
  refine plain_object_of rfl rfl ?_
  simp [lookup, hkind]

theorem condition_toValue (c : Condition) : condition.plain c.toValue = true := by
  have hfield : enum ["event_type", "entity_kind", "team_id", "project_id", "workflow_state_id", "priority",
      "status_id", "label_id"] (.string c.field.name) = true := by cases c.field <;> rfl
  have hoperator : enum ["equals", "not_equals", "contains"] (.string c.operator.name) = true := by
    cases c.operator <;> rfl
  refine plain_object_of rfl rfl ?_
  simp [lookup, hfield, hoperator]

/-- A trigger that is accepted, if its start is a date-time. -/
theorem trigger_toValue {t : Trigger} {parses : String → Bool} (hdated : Dated t.startAt.toList)
    (h : validTrigger parses t = true) : trigger.plain t.toValue = true := by
  have hkind : enum ["event", "schedule"] (.string t.kind.name) = true := by cases t.kind <;> rfl
  have hstart : ∀ text ∈ t.startAt, dateTime (.string text) = true := fun text htext =>
    hdated text (Option.mem_toList.2 htext)
  have hinterval : ∀ n ∈ t.intervalSeconds, 60 ≤ n ∧ n ≤ 31536000 := by
    unfold validTrigger at h
    intro n hn
    have hn : t.intervalSeconds = some n := hn
    cases hk : t.kind <;> simp [hk, hn] at h
    exact h.1.2
  refine plain_object_of rfl rfl ?_
  simpa [lookup, hkind] using ⟨hinterval, hstart⟩

theorem dated_of_trigger {t : Trigger} (h : trigger t.toValue = true) : Dated t.startAt.toList := by
  intro text htext
  have hstart := property_of h (show ("start_at", .ofOption .string t.startAt) ∈ _ by simp)
  have hnullable : nullable dateTime (.ofOption .string t.startAt) = true := hstart
  exact nullable_ofOption.1 hnullable text (Option.mem_toList.1 htext)

end Schema

/-! ## What is accepted conforms -/

namespace Request

variable {plugin : ProjectAutomationPlugin} {env : Env} {host : Host}

/-- **A request that is accepted is written as its schema has it**, if its times are date-times. -/
theorem conforms {request : Request} (hdated : Schema.Dated request.times)
    (hlimit : plugin.config.maxReconcileItems ≤ 100) (h : request.valid plugin env host = true) :
    (requestSchema request.operation).plain (request.toValue ts) = true := by
  cases request with
  | createRule r =>
    simp only [Request.valid, CommandRequest.valid, validCreateRule, Bool.and_eq_true] at h
    have htrigger := Schema.trigger_toValue hdated h.1.1.2
    refine Schema.plain_object_of rfl rfl ?_
    simp [lookup, write_action, write_condition, write_trigger, htrigger, Schema.action_toValue,
      Schema.condition_toValue]
  | updateRule r =>
    simp only [Request.valid, CommandRequest.valid, validUpdateRule, Bool.and_eq_true] at h
    have htrigger := Schema.trigger_toValue hdated h.1.1.2
    have hrevision := Schema.positiveText_of_parseRevision h.1.1.1.1.2
    refine Schema.plain_object_of rfl rfl ?_
    simp [lookup, write_action, write_condition, write_trigger, htrigger, hrevision,
      Schema.action_toValue, Schema.condition_toValue]
  | setRuleEnabled r =>
    simp only [Request.valid, CommandRequest.valid, Bool.and_eq_true] at h
    have hrevision := Schema.positiveText_of_parseRevision h.2
    refine Schema.plain_object_of rfl rfl ?_
    simp [lookup, hrevision]
  | deleteRule r =>
    simp only [Request.valid, CommandRequest.valid, Bool.and_eq_true] at h
    have hrevision := Schema.positiveText_of_parseRevision h.2
    refine Schema.plain_object_of rfl rfl ?_
    simp [lookup, hrevision]
  | getRule r => rfl
  | listRules r =>
    simp only [Request.valid, ListRulesRequest.valid, Bool.and_eq_true, decide_eq_true_eq] at h
    refine Schema.plain_object_of rfl rfl ?_
    simp [lookup, h.1.2]
  | receiveEvent r =>
    simp only [Request.valid, validEvent, Bool.and_eq_true] at h
    have htime := hdated r.occurredAt (List.mem_singleton.2 rfl)
    have hkind : Schema.enum ["issue", "project"] (.string r.entityKind.name) = true := by cases r.entityKind <;> rfl
    refine Schema.plain_object_of rfl rfl ?_
    simp [lookup, EventType.format, EntityKind.format, Priority.format, htime, hkind]
  | receiveTimer r =>
    simp only [Request.valid, Bool.and_eq_true] at h
    have htime := hdated r.scheduledFor (List.mem_singleton.2 rfl)
    refine Schema.plain_object_of rfl rfl ?_
    simp [lookup, htime]
  | inspectExecution r =>
    simp only [Request.valid, InspectExecutionRequest.valid, Bool.and_eq_true, decide_eq_true_eq] at h
    have hafter : ∀ text ∈ r.attemptAfter, Schema.positiveText text = true := fun text htext =>
      Schema.positiveText_of_parseRevision ((Option.all_eq_true _ _).1 h.2.2 text htext)
    refine Schema.plain_object_of rfl rfl ?_
    simpa [lookup, h.2.1.2] using hafter
  | reconcile r =>
    simp only [Request.valid, ReconcileRequest.valid, Bool.and_eq_true, decide_eq_true_eq] at h
    refine Schema.plain_object_of rfl rfl ?_
    simpa [lookup, h.2.1] using le_trans h.2.2 hlimit

/-- The times of what is written as its schema has it are date-times. -/
theorem dated_of_conforms {request : Request} (h : requestSchema request.operation (request.toValue ts) = true) :
    Schema.Dated request.times := by
  cases request with
  | createRule r =>
    have htrigger := Schema.property_of h (show ("trigger", (Trigger.format ts).write r.trigger) ∈ _ by simp)
    exact Schema.dated_of_trigger (write_trigger r.trigger ▸ htrigger)
  | updateRule r =>
    have htrigger := Schema.property_of h (show ("trigger", (Trigger.format ts).write r.trigger) ∈ _ by simp)
    exact Schema.dated_of_trigger (write_trigger r.trigger ▸ htrigger)
  | receiveEvent r =>
    have htime := Schema.property_of h (show ("occurred_at", .string r.occurredAt) ∈ _ by simp)
    exact List.forall_mem_singleton.2 htime
  | receiveTimer r =>
    have htime := Schema.property_of h (show ("scheduled_for", .string r.scheduledFor) ∈ _ by simp)
    exact List.forall_mem_singleton.2 htime
  | getRule | listRules | setRuleEnabled | deleteRule | inspectExecution | reconcile =>
    exact fun text htext => absurd htext List.not_mem_nil

/-- The times of an accepted request are texts the parser takes. -/
theorem parses_of_valid {request : Request} (h : request.valid plugin env host = true) :
    ∀ text ∈ request.times, (env.parseRfc3339 text).isSome = true := by
  cases request with
  | createRule r =>
    simp only [Request.valid, CommandRequest.valid, validCreateRule, Bool.and_eq_true] at h
    exact fun text htext => validTrigger_startAt h.1.1.2 text (Option.mem_toList.1 htext)
  | updateRule r =>
    simp only [Request.valid, CommandRequest.valid, validUpdateRule, Bool.and_eq_true] at h
    exact fun text htext => validTrigger_startAt h.1.1.2 text (Option.mem_toList.1 htext)
  | receiveEvent r =>
    simp only [Request.valid, validEvent, Bool.and_eq_true] at h
    exact List.forall_mem_singleton.2 h.1.2
  | receiveTimer r =>
    simp only [Request.valid, Bool.and_eq_true] at h
    exact List.forall_mem_singleton.2 h.2
  | getRule | listRules | setRuleEnabled | deleteRule | inspectExecution | reconcile =>
    exact fun text htext => absurd htext List.not_mem_nil

/-- **What decides whether an accepted request is written as its schema has it.** -/
theorem conforms_iff (hrfc : env.Rfc3339OK) (hlimit : plugin.config.maxReconcileItems ≤ 100) {request : Request}
    (h : request.valid plugin env host = true) : requestSchema request.operation (request.toValue ts) = true ↔
      ∀ text ∈ request.times, Text.Rfc3339.marked text.toList = true := by
  have hparses := parses_of_valid h
  constructor
  · intro hschema text htext
    exact (Schema.dateTime_iff_marked hrfc (hparses text htext)).1 (dated_of_conforms hschema text htext)
  · intro hmarked
    exact Schema.conforms_of_plain (conforms (fun text htext =>
      (Schema.dateTime_iff_marked hrfc (hparses text htext)).2 (hmarked text htext)) hlimit h)

end Request

/-! ## What conforms is read -/

/-- Of what conforms, the format reads what has its numbers written as integers. -/
abbrev Schema.Takes (schema : Schema) (F : Format Value α) : Prop :=
  Format.Takes F (schema · = true) (Value.plain · = true)

theorem Schema.Takes.isSome {F : Format Value α} {schema : Schema} (h : schema.Takes F) {v : Value}
    (hv : schema.plain v = true) : (F.read v).isSome = true :=
  have ⟨hconforms, hplain⟩ := Bool.and_eq_true_iff.1 hv
  (h.isSome_iff hconforms).2 hplain

namespace Serde

/-- Texts, and what else has no number in it. -/
theorem takes_of {F : Format Value α} {schema : Schema}
    (h : ∀ v, schema v = true → v.plain = true ∧ ∃ a, F.read v = some a ∧ schema (F.write a) = true) :
    schema.Takes F where
  reads v hv _ := (h v hv).2
  only v _ hv _ := (h v hv).1

theorem string_takes : Schema.string.Takes string := by
  refine takes_of ?_
  rintro (_ | _ | _ | _ | text | _ | _) h
  case string => exact ⟨rfl, text, rfl, h⟩
  all_goals cases h

theorem bool_takes : Schema.boolean.Takes bool := by
  refine takes_of ?_
  rintro (_ | b | _ | _ | _ | _ | _) h
  case bool => exact ⟨rfl, b, rfl, h⟩
  all_goals cases h

theorem i64_takes {minimum maximum : ℤ} (hmin : -2 ^ 63 ≤ minimum) (hmax : maximum < 2 ^ 63) :
    (Schema.between minimum maximum).Takes i64 where
  reads := by
    rintro (_ | _ | n | _ | _ | _ | _) h hplain
    case number =>
      obtain ⟨hlo, hhi⟩ := Schema.between_number.1 h
      exact ⟨n, if_pos ⟨le_trans hmin hlo, lt_of_le_of_lt hhi hmax⟩, h⟩
    case decimal => cases hplain
    all_goals cases h
  only := by
    rintro (_ | _ | _ | _ | _ | _ | _) n h hread
    case number => rfl
    -- `visit_f64` is not among what reads an `i64`
    case decimal => cases hread
    all_goals cases h

theorem timestamp_takes (hts : ∀ text, Schema.dateTime (.string text) = true → ts text = true) :
    Schema.dateTime.Takes (timestamp ts) := by
  refine takes_of ?_
  rintro (_ | _ | _ | _ | text | _ | _) h
  case string => exact ⟨rfl, text, Option.filter_eq_some_iff.2 ⟨rfl, hts text h⟩, h⟩
  all_goals cases h

theorem positive_takes : Schema.positive.Takes string := by
  refine takes_of ?_
  rintro (_ | _ | _ | _ | text | _ | _) h
  case string => exact ⟨rfl, text, rfl, h⟩
  all_goals cases h

theorem enum_takes {all : List α} {name : α → String} {hall : ∀ a, a ∈ all}
    {hname : ∀ a ∈ all, ∀ b ∈ all, name a = name b → a = b} {texts : List String} (h : texts ⊆ all.map name) :
    (Schema.enum texts).Takes (enum all name hall hname) := by
  refine takes_of ?_
  rintro (_ | _ | _ | _ | text | _ | _) hv
  case string =>
    obtain ⟨a, -, rfl⟩ := List.mem_map.1 (h (List.contains_iff_mem.1 hv))
    exact ⟨rfl, a, (enum all name hall hname).read_write trivial, hv⟩
  all_goals cases hv

theorem vec_takes {F : Format Value α} {items : Schema} (h : items.Takes F) :
    (Schema.array items).Takes (vec F) where
  reads := by
    rintro (_ | _ | _ | _ | _ | vs | _) hv hplain
    case array =>
      rw [Value.plain_array] at hplain
      obtain ⟨as, has, hall⟩ : ∃ as, (vec F).read (.array vs) = some as ∧ ∀ x ∈ as.map F.write, items x = true :=
        Format.Takes.list h rfl (List.all_eq_true.1 hv) (List.all_eq_true.1 hplain)
      exact ⟨as, has, List.all_eq_true.2 hall⟩
    all_goals cases hv
  only := by
    rintro (_ | _ | _ | _ | _ | vs | _) as hv hread
    case array =>
      have hall : ∀ v ∈ vs, v.plain = true := Format.Takes.list_only h rfl (List.all_eq_true.1 hv) hread
      rw [Value.plain_array]
      exact List.all_eq_true.2 hall
    all_goals cases hv

theorem option_takes {F : Format Value α} {hF : NonNull F} {schema : Schema} (h : schema.Takes F) :
    (Schema.nullable schema).Takes (option F hF) where
  reads v hv hplain := by
    cases v with
    | null => exact ⟨none, rfl, rfl⟩
    | bool | number | decimal | string | array | object =>
      obtain ⟨a, ha, hwritten⟩ := h.reads _ hv hplain
      exact ⟨some a, Option.map_eq_some_iff.2 ⟨a, ha, rfl⟩, Schema.nullable_of hwritten⟩
  only v o hv hread := by
    cases v with
    | null => rfl
    | bool | number | decimal | string | array | object =>
      obtain ⟨a, ha, -⟩ := Option.map_eq_some_iff.1 hread
      exact h.only _ a hv ha

theorem optString_takes : (Schema.nullable Schema.string).Takes optString := option_takes string_takes

/-- What the properties of a schema have under a name. -/
def Property (properties : List (String × Schema)) (name : String) (v : Value) : Prop :=
  (lookup properties name).any (· v) = true

/-- **A record is read from what conforms**, when each field takes what its property is. -/
theorem record_takes {F : Fields String Value α} {hnodup : F.names.Nodup} {properties : List (String × Schema)}
    (hnames : (F.names.all (properties.map Prod.fst).contains && (properties.map Prod.fst).all F.names.contains) = true)
    (h : F.Takes (Property properties) (Value.plain · = true)) :
    (Schema.object properties).Takes (record F hnodup) := by
  obtain ⟨hfield, hproperty⟩ := Bool.and_eq_true_iff.1 hnames
  constructor
  · rintro (_ | _ | _ | _ | _ | _ | fields) hv hplain
    case object =>
      simp only [Schema.object, Bool.and_eq_true, decide_eq_true_eq, List.all_eq_true] at hv
      simp only [Value.plain_object, List.all_eq_true] at hplain
      obtain ⟨⟨hfields, hall⟩, hrequired⟩ := hv
      have hget : ∀ name ∈ F.names, ∃ v, lookup fields name = some v ∧ Property properties name v ∧ v.plain = true := by
        intro name hname
        obtain ⟨p, hp, rfl⟩ := List.mem_map.1 (List.contains_iff_mem.1 (List.all_eq_true.1 hfield name hname))
        obtain ⟨v, hv⟩ := Option.isSome_iff_exists.1 (hrequired p hp)
        exact ⟨v, hv, hall _ (lookup_mem hv), hplain _ (lookup_mem hv)⟩
      obtain ⟨a, ha, hwritten⟩ := h.reads (lookup fields) hget
      have hknown : known F.names (.object fields) = some (lookup fields) := if_pos (hfields.filter _)
      refine ⟨a, ?_, Schema.object_of ?_ (List.all_eq_true.2 fun p hp => ?_) (List.all_eq_true.2 hwritten)⟩
      · show (known F.names (.object fields)).bind F.read = some a
        rw [hknown]
        exact ha
      · rw [F.names_write]
        exact decide_eq_true hnodup
      · have hmem : p.1 ∈ (F.write a).map Prod.fst := by
          rw [F.names_write]
          exact List.contains_iff_mem.1 (List.all_eq_true.1 hproperty _ (List.mem_map_of_mem hp))
        obtain ⟨f, hf, hname⟩ := List.mem_map.1 hmem
        unfold lookup
        rw [Option.isSome_map, List.find?_isSome]
        exact ⟨f, hf, decide_eq_true hname⟩
    all_goals cases hv
  · rintro (_ | _ | _ | _ | _ | _ | fields) a hv hread
    case object =>
      simp only [Schema.object, Bool.and_eq_true, decide_eq_true_eq, List.all_eq_true] at hv
      obtain ⟨⟨hfields, hall⟩, -⟩ := hv
      have hknown : known F.names (.object fields) = some (lookup fields) := if_pos (hfields.filter _)
      replace hread : (known F.names (.object fields)).bind F.read = some a := hread
      rw [hknown, Option.bind_some] at hread
      rw [Value.plain_object, List.all_eq_true]
      -- every entry is of a field of the record, and is the one the field is read from
      intro f hf
      obtain ⟨schema, hschema, -⟩ := (Option.any_eq_true _ _).1 (hall f hf)
      have hname : f.1 ∈ F.names := List.contains_iff_mem.1
        (List.all_eq_true.1 hproperty _ (List.mem_map_of_mem (lookup_mem hschema)))
      have hfound : lookup fields f.1 = some f.2 :=
        lookup_of_mem (p := fun _ => true) (by rwa [List.filter_true]) hf rfl
      exact h.only _ a hread f.1 hname f.2 hfound (hall f hf)
    all_goals cases hv

end Serde

section Taken

variable (hts : ∀ text, Schema.dateTime (.string text) = true → ts text = true)

include hts in
theorem Trigger.takes : Schema.trigger.Takes (Trigger.format ts) :=
  record_takes rfl <| .congr <|
    (Fields.takes_one (vec_takes (enum_takes (by decide)))).and <|
    (Fields.takes_one (option_takes (i64_takes (by decide) (by decide)))).and <|
    (Fields.takes_one (enum_takes (by decide))).and <|
    Fields.takes_one (option_takes (timestamp_takes hts))

theorem Condition.takes : Schema.condition.Takes Condition.format :=
  record_takes rfl <| .congr <| (Fields.takes_one (enum_takes (by decide))).and <|
    (Fields.takes_one (enum_takes (by decide))).and <| Fields.takes_one string_takes

theorem Action.takes : Schema.action.Takes Action.format :=
  record_takes rfl <| .congr <| (Fields.takes_one optString_takes).and <|
    (Fields.takes_one optString_takes).and <| (Fields.takes_one optString_takes).and <|
    (Fields.takes_one (enum_takes (by decide))).and <| (Fields.takes_one (vec_takes string_takes)).and <|
    (Fields.takes_one (option_takes (enum_takes (by decide)))).and <| (Fields.takes_one optString_takes).and <|
    (Fields.takes_one optString_takes).and <| (Fields.takes_one optString_takes).and <|
    (Fields.takes_one bool_takes).and <| (Fields.takes_one optString_takes).and <|
    (Fields.takes_one optString_takes).and <| (Fields.takes_one optString_takes).and <|
    Fields.takes_one optString_takes

include hts in
theorem CreateRuleRequest.takes : Schema.createRuleRequest.Takes (CreateRuleRequest.format ts) :=
  record_takes rfl <| .congr <| (Fields.takes_one (vec_takes Action.takes)).and <|
    (Fields.takes_one (vec_takes Condition.takes)).and <| (Fields.takes_one bool_takes).and <|
    (Fields.takes_one string_takes).and <| (Fields.takes_one string_takes).and <|
    (Fields.takes_one string_takes).and <| (Fields.takes_one string_takes).and <|
    Fields.takes_one (Trigger.takes hts)

include hts in
theorem UpdateRuleRequest.takes : Schema.updateRuleRequest.Takes (UpdateRuleRequest.format ts) :=
  record_takes rfl <| .congr <| (Fields.takes_one (vec_takes Action.takes)).and <|
    (Fields.takes_one (vec_takes Condition.takes)).and <| (Fields.takes_one positive_takes).and <|
    (Fields.takes_one string_takes).and <| (Fields.takes_one string_takes).and <|
    (Fields.takes_one string_takes).and <| (Fields.takes_one string_takes).and <|
    Fields.takes_one (Trigger.takes hts)

theorem SetRuleEnabledRequest.takes : Schema.setRuleEnabledRequest.Takes SetRuleEnabledRequest.format :=
  record_takes rfl <| .congr <| (Fields.takes_one bool_takes).and <| (Fields.takes_one positive_takes).and <|
    (Fields.takes_one string_takes).and <| (Fields.takes_one string_takes).and <| Fields.takes_one string_takes

theorem DeleteRuleRequest.takes : Schema.deleteRuleRequest.Takes DeleteRuleRequest.format :=
  record_takes rfl <| .congr <| (Fields.takes_one positive_takes).and <| (Fields.takes_one string_takes).and <|
    (Fields.takes_one string_takes).and <| Fields.takes_one string_takes

theorem GetRuleRequest.takes : Schema.getRuleRequest.Takes GetRuleRequest.format :=
  record_takes rfl <| .congr <| (Fields.takes_one string_takes).and <| Fields.takes_one string_takes

theorem ListRulesRequest.takes : Schema.listRulesRequest.Takes ListRulesRequest.format :=
  record_takes rfl <| .congr <| (Fields.takes_one optString_takes).and <|
    (Fields.takes_one (option_takes bool_takes)).and <|
    (Fields.takes_one (i64_takes (by decide) (by decide))).and <| Fields.takes_one string_takes

theorem InspectExecutionRequest.takes : Schema.inspectExecutionRequest.Takes InspectExecutionRequest.format :=
  record_takes rfl <| .congr <| (Fields.takes_one (option_takes positive_takes)).and <|
    (Fields.takes_one (i64_takes (by decide) (by decide))).and <| (Fields.takes_one string_takes).and <|
    Fields.takes_one string_takes

include hts in
theorem ReceiveEventRequest.takes : Schema.receiveEventRequest.Takes (ReceiveEventRequest.format ts) :=
  record_takes rfl <| .congr <| (Fields.takes_one string_takes).and <| (Fields.takes_one string_takes).and <|
    (Fields.takes_one (enum_takes (by decide))).and <| (Fields.takes_one (enum_takes (by decide))).and <|
    (Fields.takes_one (vec_takes string_takes)).and <| (Fields.takes_one (timestamp_takes hts)).and <|
    (Fields.takes_one string_takes).and <| (Fields.takes_one (option_takes (enum_takes (by decide)))).and <|
    (Fields.takes_one optString_takes).and <| (Fields.takes_one optString_takes).and <|
    (Fields.takes_one optString_takes).and <| Fields.takes_one optString_takes

include hts in
theorem ReceiveTimerRequest.takes : Schema.receiveTimerRequest.Takes (ReceiveTimerRequest.format ts) :=
  record_takes rfl <| .congr <| (Fields.takes_one string_takes).and <| (Fields.takes_one string_takes).and <|
    (Fields.takes_one string_takes).and <| Fields.takes_one (timestamp_takes hts)

theorem ReconcileRequest.takes : Schema.reconcileRequest.Takes ReconcileRequest.format :=
  record_takes rfl <| .congr <| (Fields.takes_one (i64_takes (by decide) (by decide))).and <|
    Fields.takes_one string_takes

include hts in
/-- **Of what conforms, a request of the operation is read** from what has its numbers written as integers. -/
theorem Request.taken {operation : String} {v : Value} (h : requestSchema operation v = true) :
    (fromValue ts operation v).isSome = true ↔ v.plain = true := by
  unfold requestSchema at h
  unfold fromValue
  split at h
  case h_1 => exact (Bool.eq_iff_iff.1 Option.isSome_map).trans ((CreateRuleRequest.takes hts).isSome_iff h)
  case h_2 => exact (Bool.eq_iff_iff.1 Option.isSome_map).trans (GetRuleRequest.takes.isSome_iff h)
  case h_3 => exact (Bool.eq_iff_iff.1 Option.isSome_map).trans (ListRulesRequest.takes.isSome_iff h)
  case h_4 => exact (Bool.eq_iff_iff.1 Option.isSome_map).trans ((UpdateRuleRequest.takes hts).isSome_iff h)
  case h_5 => exact (Bool.eq_iff_iff.1 Option.isSome_map).trans (SetRuleEnabledRequest.takes.isSome_iff h)
  case h_6 => exact (Bool.eq_iff_iff.1 Option.isSome_map).trans (DeleteRuleRequest.takes.isSome_iff h)
  case h_7 => exact (Bool.eq_iff_iff.1 Option.isSome_map).trans ((ReceiveEventRequest.takes hts).isSome_iff h)
  case h_8 => exact (Bool.eq_iff_iff.1 Option.isSome_map).trans ((ReceiveTimerRequest.takes hts).isSome_iff h)
  case h_9 => exact (Bool.eq_iff_iff.1 Option.isSome_map).trans (InspectExecutionRequest.takes.isSome_iff h)
  case h_10 => exact (Bool.eq_iff_iff.1 Option.isSome_map).trans (ReconcileRequest.takes.isSome_iff h)
  case h_11 => cases h

include hts in
/-- What was read is written as the schema has it. -/
theorem Request.written_conforms {operation : String} {v : Value} {request : Request}
    (h : requestSchema operation v = true) (hread : fromValue ts operation v = some request) :
    requestSchema request.operation (request.toValue ts) = true := by
  unfold requestSchema at h
  unfold fromValue at hread
  split at h
  case h_11 => cases h
  all_goals obtain ⟨r, hr, rfl⟩ := Option.map_eq_some_iff.1 hread
  case h_1 => exact (CreateRuleRequest.takes hts).written h hr
  case h_2 => exact GetRuleRequest.takes.written h hr
  case h_3 => exact ListRulesRequest.takes.written h hr
  case h_4 => exact (UpdateRuleRequest.takes hts).written h hr
  case h_5 => exact SetRuleEnabledRequest.takes.written h hr
  case h_6 => exact DeleteRuleRequest.takes.written h hr
  case h_7 => exact (ReceiveEventRequest.takes hts).written h hr
  case h_8 => exact (ReceiveTimerRequest.takes hts).written h hr
  case h_9 => exact InspectExecutionRequest.takes.written h hr
  case h_10 => exact ReconcileRequest.takes.written h hr

end Taken

/-! ## Requests and schemas -/

theorem ProjectAutomationConfig.validate_limit {config : ProjectAutomationConfig} {host : Host}
    (h : config.validate host = .ok ()) : config.maxReconcileItems ≤ 100 := by
  unfold validate at h
  simp only [except_bind_eq_ok, require_eq_ok] at h
  obtain ⟨-, -, -, -, -, -, -, -, -, -, -, -, -, -, -, -, -, -, hlimit⟩ := h
  simp only [Bool.and_eq_true, decide_eq_true_eq] at hlimit
  exact hlimit.2

/-- **The published schemas agree with the code**, but for the character between date and time and for numbers
with a fraction or an exponent. A request its operation accepts is written as its schema has it if a `T` stands
there in its times; a call with any other is refused and does nothing; and whatever conforms to the schema of an
operation is read as a request of it, if its numbers are written as integers. -/
theorem requests_conform (plugin : ProjectAutomationPlugin) {env : Env} {host : Host} (ts : String → Bool)
    (hrfc : env.Rfc3339OK) (hconfig : plugin.config.validate host = .ok ())
    (hts : ∀ text, Schema.dateTime (.string text) = true → ts text = true) :
    (∀ request : Request, request.valid plugin env host = true →
      (requestSchema request.operation (request.toValue ts) = true ↔
        ∀ text ∈ request.times, Text.Rfc3339.marked text.toList = true)) ∧
      (∀ (request : Request) (around : CallAround) (context : Ctx) (w : World),
        requestSchema request.operation (request.toValue ts) = false →
          (∀ text ∈ request.times, Text.Rfc3339.marked text.toList = true) →
            ∃ e, plugin.invoke env host around context request w = ⟨.error e, [], w⟩) ∧
      ∀ operation v, requestSchema operation v = true →
        ((Request.fromValue ts operation v).isSome = true ↔ v.plain = true) ∧
          ∀ request, Request.fromValue ts operation v = some request →
            request.operation = operation ∧ request.WellTyped ts := by
  have hlimit := ProjectAutomationConfig.validate_limit hconfig
  refine ⟨fun request => Request.conforms_iff hrfc hlimit, fun request around context w h hmarked =>
    invoke_refuses (Bool.eq_false_iff.2 fun hvalid => ?_), fun operation v h => ⟨Request.taken hts h,
    fun request hread => Request.wellTyped_of_fromValue hread⟩⟩
  rw [(Request.conforms_iff hrfc hlimit hvalid).2 hmarked] at h
  cases h

section Sample

open Sample

/-- `create_rule` of a schedule. -/
def scheduled (seconds : ℤ) : Request :=
  .createRule ⟨[comment (some "issue-1")], [], true, "create-1", "Nightly", "org-1", "nightly", every seconds none⟩

/-- A schedule of every minute conforms and is read, one of every second is refused. -/
theorem requests_conform_scheduled :
    let plugin : ProjectAutomationPlugin := ⟨fourCallers, true⟩
    let ts := fun text => Schema.dateTime (.string text)
    let around : CallAround := ⟨conn 0 0, quiet, answers fun _ => served⟩
    requestSchema "create_rule" ((scheduled 60).toValue ts) = true ∧
      (∃ e, plugin.invoke Sample.env openHost around ⟨some "host", some "create_rule"⟩ (scheduled 1) World.init =
        ⟨.error e, [], World.init⟩) ∧
      (Request.fromValue ts "create_rule" ((scheduled 60).toValue ts)).isSome = true := by
  intro plugin ts around
  obtain ⟨hconforms, hrefused, htaken⟩ := requests_conform plugin ts rfc3339OK
    (show fourCallers.validate openHost = .ok () from rfl) fun _ h => h
  have hnone : ∀ seconds, ∀ text ∈ (scheduled seconds).times, Text.Rfc3339.marked text.toList = true :=
    fun _ text htext => absurd htext List.not_mem_nil
  have hminute : requestSchema "create_rule" ((scheduled 60).toValue ts) = true :=
    (hconforms (scheduled 60) rfl).2 (hnone 60)
  exact ⟨hminute, hrefused (scheduled 1) _ _ _ rfl (hnone 1), ((htaken "create_rule" _ hminute).1).2 rfl⟩

/-! A limit of 5.0 conforms and is not read; a start is accepted whatever stands for the `T`. -/

example : let v := Value.object [("limit", .decimal 5), ("organization_id", .string "org-1")]
    requestSchema "reconcile" v = true ∧ Request.fromValue (fun _ => true) "reconcile" v = none := by decide

example : let request := Request.createRule { named "Nightly" with trigger := every 60 (some "2030-01-01X00:00:00Z") }
    request.valid ⟨fourCallers, true⟩ Sample.env openHost = true ∧
      requestSchema "create_rule" (request.toValue fun _ => true) = false := ⟨rfl, rfl⟩

end Sample

end ProjectAutomation

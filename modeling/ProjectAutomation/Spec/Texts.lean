import ProjectAutomation.Spec.Endpoints

/-!
# Texts PostgreSQL stores

TEXT and JSONB hold no U+0000. `Request.texts` are the texts of a request that go to
columns of these types; `TextsOK` is about the columns themselves.
-/

namespace ProjectAutomation

open Relational

variable {P Q : String → Prop}

/-- PostgreSQL takes the text. -/
def Storable (text : String) : Prop := '\x00' ∉ text.toList

instance (text : String) : Decidable (Storable text) := inferInstanceAs (Decidable (_ ∉ text.toList))

/-! ## Texts of a value -/

mutual

/-- The strings of a value and the names of its fields. -/
def Value.texts : Value → List String
  | .string s => [s]
  | .array items => textsOfItems items
  | .object fields => textsOfFields fields
  | .null | .bool _ | .number _ | .decimal _ => []

def textsOfItems : List Value → List String
  | [] => []
  | v :: rest => v.texts ++ textsOfItems rest

def textsOfFields : List (String × Value) → List String
  | [] => []
  | f :: rest => textsOfField f ++ textsOfFields rest

def textsOfField : String × Value → List String
  | (name, v) => name :: v.texts

end

theorem textsOfItems_eq (items : List Value) : textsOfItems items = items.flatMap Value.texts := by
  induction items with
  | nil => rfl
  | cons v rest ih => rw [textsOfItems, ih, List.flatMap_cons]

theorem textsOfFields_eq (fields : List (String × Value)) :
    textsOfFields fields = fields.flatMap (fun f => f.1 :: f.2.texts) := by
  induction fields with
  | nil => rfl
  | cons f rest ih => rw [textsOfFields, ih, List.flatMap_cons, textsOfField]

namespace Value

/-- Every text of the value is one of `P`. -/
def All (P : String → Prop) (v : Value) : Prop := ∀ text ∈ v.texts, P text

theorem All.mono {v : Value} (h : v.All P) (hPQ : ∀ text, P text → Q text) : v.All Q :=
  fun text htext => hPQ text (h text htext)

@[simp] theorem all_null : Value.null.All P := fun _ h => absurd h List.not_mem_nil

@[simp] theorem all_bool (b : Bool) : (Value.bool b).All P := fun _ h => absurd h List.not_mem_nil

@[simp] theorem all_number (n : ℤ) : (Value.number n).All P := fun _ h => absurd h List.not_mem_nil

@[simp] theorem all_string {s : String} : (Value.string s).All P ↔ P s := List.forall_mem_singleton

@[simp] theorem all_ofOption {α : Type} {f : α → Value} {o : Option α} :
    (ofOption f o).All P ↔ ∀ a, o = some a → (f a).All P := by
  cases o with
  | none => simp [ofOption]
  | some a => simp [ofOption]

@[simp] theorem all_array {items : List Value} : (Value.array items).All P ↔ ∀ v ∈ items, v.All P := by
  unfold All
  rw [texts, textsOfItems_eq]
  simp only [List.mem_flatMap]
  exact ⟨fun h v hv text htext => h text ⟨v, hv, htext⟩, fun h text ⟨v, hv, htext⟩ => h v hv text htext⟩

/-- An object is judged by its names and by its values. -/
theorem all_object {fields : List (String × Value)} :
    (Value.object fields).All P ↔ (∀ name ∈ fields.map Prod.fst, P name) ∧ ∀ v ∈ fields.map Prod.snd, v.All P := by
  unfold All
  rw [texts, textsOfFields_eq]
  simp only [List.mem_flatMap, List.forall_mem_map, List.mem_cons]
  constructor
  · intro h
    exact ⟨fun f hf => h f.1 ⟨f, hf, Or.inl rfl⟩, fun f hf text htext => h text ⟨f, hf, Or.inr htext⟩⟩
  · rintro ⟨hnames, hvalues⟩ text ⟨f, hf, rfl | htext⟩
    · exact hnames f hf
    · exact hvalues f hf text htext

/-- A text read from a value is one of its texts. -/
theorem All.getStr {v : Value} {name s : String} (h : v.All P) (hs : v.getStr name = some s) : P s := by
  unfold Value.getStr at hs
  obtain ⟨field, hfield, hs⟩ := Option.bind_eq_some_iff.1 hs
  cases v with
  | object fields =>
    obtain ⟨f, hf, rfl⟩ := Option.map_eq_some_iff.1 hfield
    have hf := (all_object.1 h).2 f.2 (List.mem_map_of_mem (List.mem_of_find?_eq_some hf))
    cases hv : f.2 with
    | string text =>
      rw [hv] at hs hf
      cases hs
      exact all_string.1 hf
    | null | bool | number | decimal | array | object =>
      rw [hv] at hs
      cases hs
  | null | bool | number | decimal | string | array => cases hfield

end Value

/-! ## Texts of a request -/

/-- What a rule command sends; `expected_revision` goes to a BIGINT. -/
def CommandRequest.texts : CommandRequest → List String
  | .create r => [r.organizationId, r.ruleId, r.idempotencyKey, r.name] ++ r.trigger.toValue.texts ++
      (storedConditions r.conditions).texts ++ (storedActions r.actions).texts
  | .update r => [r.organizationId, r.ruleId, r.idempotencyKey, r.name] ++ r.trigger.toValue.texts ++
      (storedConditions r.conditions).texts ++ (storedActions r.actions).texts
  | .setEnabled r => [r.organizationId, r.ruleId, r.idempotencyKey]
  | .delete r => [r.organizationId, r.ruleId, r.idempotencyKey]

/-- The time among them. -/
def CommandRequest.times : CommandRequest → List String
  | .create r => r.trigger.startAt.toList
  | .update r => r.trigger.startAt.toList
  | .setEnabled _ | .delete _ => []

/-- What an operation sends, to be stored or to be compared with what is; an execution id goes to a UUID, a
cursor to a number. -/
def Request.texts : Request → List String
  | .createRule r => (CommandRequest.create r).texts
  | .getRule r => [r.organizationId, r.ruleId]
  | .listRules r => [r.organizationId]
  | .updateRule r => (CommandRequest.update r).texts
  | .setRuleEnabled r => (CommandRequest.setEnabled r).texts
  | .deleteRule r => (CommandRequest.delete r).texts
  | .receiveEvent r => [r.organizationId, r.dedupeKey] ++ r.toValue.texts
  | .receiveTimer r => [r.organizationId, r.ruleId, r.dedupeKey] ++ r.toValue.texts
  | .inspectExecution r => [r.organizationId]
  | .reconcile r => [r.organizationId]

/-- The times among them. -/
def Request.times : Request → List String
  | .createRule r => (CommandRequest.create r).times
  | .updateRule r => (CommandRequest.update r).times
  | .receiveEvent r => [r.occurredAt]
  | .receiveTimer r => [r.scheduledFor]
  | .getRule _ | .listRules _ | .setRuleEnabled _ | .deleteRule _ | .inspectExecution _ | .reconcile _ => []

/-- The times an event brings. -/
def Event.times : Event → List String
  | .command _ _ request => request.times
  | .receiveEvent _ request => [request.occurredAt]
  | .receiveTimer _ request => [request.scheduledFor]
  | .tick _ | .pendingDispatches .. | .flush .. | .claimExecutions .. | .work .. => []

/-! ## Texts of the columns -/

/-- A command's key and its stored response. -/
def CommandRow.texts (c : CommandRow) : List String :=
  c.scope.idempotencyKey :: (c.response.elim [] Value.texts)

def RuleRow.texts (r : RuleRow) : List String :=
  [r.ruleId, r.organizationId, r.name] ++ r.trigger.texts ++ r.conditions.texts ++ r.actions.texts

def TriggerRow.texts (t : TriggerRow) : List String :=
  [t.organizationId, t.dedupeKey] ++ t.ruleId.toList ++ t.payload.texts

def ExecutionRow.texts (e : ExecutionRow) : List String := [e.organizationId, e.ruleId] ++ e.actions.texts

/-- **The columns that requests fill**, with texts of `P` only. The others hold words of the plugin, derived
UUIDs, names of instances, and what Jobs and the providers answered. -/
structure TextsOK (P : String → Prop) (db : Database) : Prop where
  commands : ∀ c ∈ db.commands, ∀ text ∈ c.texts, P text
  rules : ∀ r ∈ db.rules, ∀ text ∈ r.texts, P text
  triggers : ∀ t ∈ db.triggers, ∀ text ∈ t.texts, P text
  executions : ∀ e ∈ db.executions, ∀ text ∈ e.texts, P text
  receipts : ∀ r ∈ db.receipts, P r.kind
  dispatches : ∀ d ∈ db.dispatches, P d.organizationId ∧ P d.ruleId

end ProjectAutomation

import ProjectAutomation.Spec.Wire
import Mathlib.Data.String.Basic

/-!
# Round trips of the contract

What is written is read back, and what is read is stable under being written and read
again, whatever form a client gave it.

* `write_trigger`, `write_condition`, `write_action`: the formats write what the storage
  layer stores.
* `record_of_gives`, `record_of_array`: the trees a record is read from.
* `Request.wellTyped_of_fromValue`: what is read as a request is one of its operation, its numbers
  `i64`s and its times `Timestamp`s.
* `errors_relay`: a domain error that was read stays what it is over any number of hops, and
  none of the eight known errors is taken for an unknown one or conversely.
-/

namespace ProjectAutomation

open Codec Serde

variable {α : Type} {ts : String → Bool}

/-! ## What fits -/

namespace Serde

@[simp] theorem fits_string (s : String) : string.Fits s := trivial

@[simp] theorem fits_bool (b : Bool) : bool.Fits b := trivial

@[simp] theorem fits_i64 {n : ℤ} : i64.Fits n ↔ -2 ^ 63 ≤ n ∧ n < 2 ^ 63 := Iff.rfl

@[simp] theorem fits_timestamp {s : String} : (timestamp ts).Fits s ↔ ts s = true :=
  and_iff_right (fits_string s)

@[simp] theorem fits_vec {F : Format Value α} {as : List α} : (vec F).Fits as ↔ ∀ a ∈ as, F.Fits a := Iff.rfl

@[simp] theorem fits_option {F : Format Value α} {h : NonNull F} {o : Option α} :
    (option F h).Fits o ↔ ∀ a ∈ o, F.Fits a := Iff.rfl

@[simp] theorem fits_enum {all : List α} {name : α → String} {hall : ∀ a, a ∈ all}
    {hname : ∀ a ∈ all, ∀ b ∈ all, name a = name b → a = b} (a : α) : (enum all name hall hname).Fits a := trivial

@[simp] theorem fits_record {F : Fields String Value α} {h : F.names.Nodup} {a : α} :
    (record F h).Fits a ↔ F.Fits a := Iff.rfl

@[simp] theorem fits_optString (o : Option String) : optString.Fits o := fun _ _ => trivial

end Serde

theorem Action.fits (a : Action) : Action.format.Fits a := by
  simp [Action.format, ActionKind.format, Priority.format]

theorem Condition.fits (c : Condition) : Condition.format.Fits c := by
  simp [Condition.format, ConditionField.format, ConditionOperator.format]

/-- The trigger holds an `i64` and a `Timestamp`. -/
def Trigger.WellTyped (ts : String → Bool) (t : Trigger) : Prop :=
  (∀ n ∈ t.intervalSeconds, -2 ^ 63 ≤ n ∧ n < 2 ^ 63) ∧ ∀ text ∈ t.startAt, ts text = true

theorem Trigger.fits_iff {t : Trigger} : (Trigger.format ts).Fits t ↔ t.WellTyped ts := by
  simp [Trigger.format, EventType.format, TriggerKind.format, Trigger.WellTyped]

/-- The numbers of a request are `i64`s and its times `Timestamp`s. -/
def Request.WellTyped (ts : String → Bool) : Request → Prop
  | createRule r => r.trigger.WellTyped ts
  | updateRule r => r.trigger.WellTyped ts
  | listRules r => -2 ^ 63 ≤ r.limit ∧ r.limit < 2 ^ 63
  | inspectExecution r => -2 ^ 63 ≤ r.attemptLimit ∧ r.attemptLimit < 2 ^ 63
  | reconcile r => -2 ^ 63 ≤ r.limit ∧ r.limit < 2 ^ 63
  | receiveEvent r => ts r.occurredAt = true
  | receiveTimer r => ts r.scheduledFor = true
  | getRule _ | setRuleEnabled _ | deleteRule _ => True

theorem CreateRuleRequest.fits_iff {r : CreateRuleRequest} :
    (CreateRuleRequest.format ts).Fits r ↔ r.trigger.WellTyped ts := by
  simp [CreateRuleRequest.format, Action.fits, Condition.fits, Trigger.fits_iff]

theorem UpdateRuleRequest.fits_iff {r : UpdateRuleRequest} :
    (UpdateRuleRequest.format ts).Fits r ↔ r.trigger.WellTyped ts := by
  simp [UpdateRuleRequest.format, Action.fits, Condition.fits, Trigger.fits_iff]

theorem ListRulesRequest.fits_iff {r : ListRulesRequest} :
    ListRulesRequest.format.Fits r ↔ -2 ^ 63 ≤ r.limit ∧ r.limit < 2 ^ 63 := by
  simp [ListRulesRequest.format]

theorem InspectExecutionRequest.fits_iff {r : InspectExecutionRequest} :
    InspectExecutionRequest.format.Fits r ↔ -2 ^ 63 ≤ r.attemptLimit ∧ r.attemptLimit < 2 ^ 63 := by
  simp [InspectExecutionRequest.format]

theorem ReceiveEventRequest.fits_iff {r : ReceiveEventRequest} :
    (ReceiveEventRequest.format ts).Fits r ↔ ts r.occurredAt = true := by
  simp [ReceiveEventRequest.format, EntityKind.format, EventType.format, Priority.format]

theorem ReceiveTimerRequest.fits_iff {r : ReceiveTimerRequest} :
    (ReceiveTimerRequest.format ts).Fits r ↔ ts r.scheduledFor = true := by
  simp [ReceiveTimerRequest.format]

theorem ReconcileRequest.fits_iff {r : ReconcileRequest} :
    ReconcileRequest.format.Fits r ↔ -2 ^ 63 ≤ r.limit ∧ r.limit < 2 ^ 63 := by
  simp [ReconcileRequest.format]

/-! ## What is written -/

namespace Serde

@[simp] theorem write_string (s : String) : string.write s = .string s := rfl

@[simp] theorem write_bool (b : Bool) : bool.write b = .bool b := rfl

@[simp] theorem write_i64 (n : ℤ) : i64.write n = .number n := rfl

@[simp] theorem write_timestamp (s : String) : (timestamp ts).write s = .string s := rfl

@[simp] theorem write_vec {F : Format Value α} (as : List α) : (vec F).write as = .array (as.map F.write) := rfl

@[simp] theorem write_option {F : Format Value α} {h : NonNull F} (o : Option α) :
    (option F h).write o = .ofOption F.write o := by cases o <;> rfl

@[simp] theorem write_optString (o : Option String) : optString.write o = .ofOption .string o := write_option o

@[simp] theorem write_enum {all : List α} {name : α → String} {hall : ∀ a, a ∈ all}
    {hname : ∀ a ∈ all, ∀ b ∈ all, name a = name b → a = b} (a : α) :
    (enum all name hall hname).write a = .string (name a) := rfl

@[simp] theorem write_record {F : Fields String Value α} {h : F.names.Nodup} (a : α) :
    (record F h).write a = .object (F.write a) := rfl

end Serde

theorem write_trigger (t : Trigger) : (Trigger.format ts).write t = t.toValue := by
  simp only [Trigger.format, EventType.format, TriggerKind.format, Trigger.toValue, write_record, Fields.write_congr,
    Fields.write_and, Fields.write_one, write_vec, write_option, write_enum]
  rfl

theorem write_condition (c : Condition) : Condition.format.write c = c.toValue := rfl

theorem write_action (a : Action) : Action.format.write a = a.toValue := by
  simp only [Action.format, ActionKind.format, Priority.format, Action.toValue, write_record, Fields.write_congr,
    Fields.write_and, Fields.write_one, write_vec, write_option, write_optString, write_enum]
  rfl

/-! ## Requests -/

/-- An object that has these fields, each name once, in any order and among any others. -/
def Gives (fields given : List (String × Value)) : Prop :=
  fields ⊆ given ∧ ((given.map Prod.fst).filter ((fields.map Prod.fst).contains ·)).Nodup

namespace Serde

variable {F : Fields String Value α} {hnodup : F.names.Nodup} {a : α}

/-- A record is read from every object that gives its fields. -/
theorem record_of_gives (h : F.Fits a) {given : List (String × Value)} (hgives : Gives (F.write a) given) :
    (record F hnodup).read (.object given) = some a := by
  obtain ⟨hsub, honce⟩ := hgives
  rw [F.names_write] at honce
  have hknown : known F.names (.object given) = some (lookup given) := if_pos honce
  show (known F.names (.object given)).bind F.read = some a
  rw [hknown, Option.bind_some]
  refine F.read_write h fun f hf => lookup_of_mem honce (hsub hf) ?_
  rw [List.contains_iff_mem, ← F.names_write a]
  exact List.mem_map_of_mem hf

/-- A record is read from the array of its fields. -/
theorem record_of_array (h : F.Fits a) : (record F hnodup).read (.array ((F.write a).map Prod.snd)) = some a := by
  have hlength : ((F.write a).map Prod.snd).length = F.names.length := by
    rw [← F.names_write a, List.length_map, List.length_map]
  have hzip : F.write a = F.names.zip ((F.write a).map Prod.snd) := List.zip_of_prod (F.names_write a) rfl
  have hknown : known F.names (.array ((F.write a).map Prod.snd)) =
      some (lookup (F.names.zip ((F.write a).map Prod.snd))) := if_pos hlength
  show (known F.names _).bind F.read = some a
  rw [hknown, ← hzip, Option.bind_some]
  refine F.read_write h fun f hf => lookup_of_mem (p := fun _ => true) ?_ hf rfl
  rw [List.filter_true, F.names_write]
  exact hnodup

end Serde

namespace Request

/-- What is read as a request of an operation is one, and well typed. -/
theorem wellTyped_of_fromValue {operation : String} {v : Value} {r : Request}
    (h : fromValue ts operation v = some r) : r.operation = operation ∧ r.WellTyped ts := by
  unfold fromValue at h
  split at h
  case h_11 => cases h
  all_goals obtain ⟨r, hread, rfl⟩ := Option.map_eq_some_iff.1 h
  case h_1 => exact ⟨rfl, CreateRuleRequest.fits_iff.1 (Format.fits_of_read _ hread)⟩
  case h_2 => exact ⟨rfl, trivial⟩
  case h_3 => exact ⟨rfl, ListRulesRequest.fits_iff.1 (Format.fits_of_read _ hread)⟩
  case h_4 => exact ⟨rfl, UpdateRuleRequest.fits_iff.1 (Format.fits_of_read _ hread)⟩
  case h_5 => exact ⟨rfl, trivial⟩
  case h_6 => exact ⟨rfl, trivial⟩
  case h_7 => exact ⟨rfl, ReceiveEventRequest.fits_iff.1 (Format.fits_of_read _ hread)⟩
  case h_8 => exact ⟨rfl, ReceiveTimerRequest.fits_iff.1 (Format.fits_of_read _ hread)⟩
  case h_9 => exact ⟨rfl, InspectExecutionRequest.fits_iff.1 (Format.fits_of_read _ hread)⟩
  case h_10 => exact ⟨rfl, ReconcileRequest.fits_iff.1 (Format.fits_of_read _ hread)⟩

end Request

/-! ## Domain errors -/

theorem AutomationError.ofName?_name (e : AutomationError) : AutomationError.ofName? e.name = some e := by
  cases e <;> decide

theorem AutomationError.name_of_ofName? {code : String} {e : AutomationError}
    (h : AutomationError.ofName? code = some e) : e.name = code := by
  simpa using List.find?_some h

namespace WireError

/-- A map in the order of its keys, without the two that an unknown error has beside it. -/
def WellFormed : WireError → Prop
  | known _ => True
  | unknown _ _ extra => extra.Pairwise (·.1 < ·.1) ∧ ∀ f ∈ extra, f.1 ≠ "code" ∧ f.1 ≠ "payload"

theorem without_of_ne {name : String} {fields : List (String × Value)} (h : ∀ f ∈ fields, f.1 ≠ name) :
    without name fields = fields := List.filter_eq_self.2 fun f hf => by simpa using h f hf

theorem lookup_of_ne {name : String} {fields : List (String × Value)} (h : ∀ f ∈ fields, f.1 ≠ name) :
    lookup fields name = none := by
  unfold lookup
  rw [List.find?_eq_none.2 fun f hf => by simpa using h f hf]
  rfl

theorem sorted_of_pairwise {fields : List (String × Value)} (h : fields.Pairwise (·.1 < ·.1)) :
    sorted fields = fields := List.Pairwise.insertionSort_eq (h.imp fun hlt => le_of_lt hlt)

theorem mem_sorted {fields : List (String × Value)} {f : String × Value} : f ∈ sorted fields ↔ f ∈ fields :=
  List.mem_insertionSort _

/-- Different keys are sorted strictly. -/
theorem sorted_pairwise {fields : List (String × Value)} (h : (fields.map Prod.fst).Nodup) :
    (sorted fields).Pairwise (·.1 < ·.1) := by
  have hle : (sorted fields).Pairwise (·.1 ≤ ·.1) := List.pairwise_insertionSort _ _
  have hne : (sorted fields).Pairwise (·.1 ≠ ·.1) := by
    have hnodup : ((sorted fields).map Prod.fst).Nodup :=
      ((List.perm_insertionSort _ fields).map Prod.fst).nodup_iff.2 h
    exact List.pairwise_map.1 hnodup
  exact hle.imp₂ (fun a b hle hne => lt_of_le_of_ne hle hne) hne

/-- An unknown error has each key once. -/
theorem entries_nodup {code : String} {payload : Option Value} {extra : List (String × Value)}
    (h : (unknown code payload extra).WellFormed) : ((entries code payload extra).map Prod.fst).Nodup := by
  obtain ⟨hsorted, hne⟩ := h
  have hextra : (extra.map Prod.fst).Nodup := List.pairwise_map.2 (hsorted.imp fun hlt => ne_of_lt hlt)
  have hcode : "code" ∉ extra.map Prod.fst := fun hm => by
    obtain ⟨f, hf, hname⟩ := List.mem_map.1 hm
    exact (hne f hf).1 hname
  have hpayload : "payload" ∉ extra.map Prod.fst := fun hm => by
    obtain ⟨f, hf, hname⟩ := List.mem_map.1 hm
    exact (hne f hf).2 hname
  cases payload with
  | none => exact List.nodup_cons.2 ⟨hcode, hextra⟩
  | some p =>
    refine List.nodup_cons.2 ⟨fun hm => ?_, List.nodup_cons.2 ⟨hpayload, hextra⟩⟩
    rcases List.mem_cons.1 hm with heq | hm
    · exact absurd heq (by decide : "code" ≠ "payload")
    · exact hcode hm

theorem without_code {code : String} {payload : Option Value} {extra : List (String × Value)}
    (h : ∀ f ∈ extra, f.1 ≠ "code") :
    without "code" (entries code payload extra) = payload.toList.map ("payload", ·) ++ extra := by
  have hrest : ∀ f ∈ payload.toList.map ("payload", ·) ++ extra, f.1 ≠ "code" := by
    intro f hf
    rcases List.mem_append.1 hf with hf | hf
    · obtain ⟨_, -, rfl⟩ := List.mem_map.1 hf
      exact (by decide : "payload" ≠ "code")
    · exact h f hf
  exact without_of_ne hrest

/-- **A well-formed error is read back.** -/
theorem fromValue_toValue {e : WireError} (h : e.WellFormed) : fromValue e.toValue = some e := by
  cases e with
  | known error =>
    show some _ = _
    rw [AutomationError.ofName?_name]
  | unknown code payload extra =>
    have hpayload : ∀ f ∈ extra, f.1 ≠ "payload" := fun f hf => (h.2 f hf).2
    have hlookup : lookup (payload.toList.map ("payload", ·) ++ extra) "payload" = payload := by
      cases payload with
      | none => exact lookup_of_ne hpayload
      | some p => rfl
    have hwithout : without "payload" (payload.toList.map ("payload", ·) ++ extra) = extra := by
      cases payload with
      | none => exact without_of_ne hpayload
      | some p => exact without_of_ne hpayload
    have hread : fromValue (toValue (unknown code payload extra)) =
        some (unknown code (lookup (without "code" (entries code payload extra)) "payload")
          (sorted (without "payload" (without "code" (entries code payload extra))))) :=
      if_pos (entries_nodup h)
    rw [hread, without_code fun f hf => (h.2 f hf).1, hlookup, hwithout, sorted_of_pairwise h.1]

/-- **What is read is well formed.** -/
theorem wellFormed_of_fromValue {v : Value} {e : WireError} (h : fromValue v = some e) : e.WellFormed := by
  unfold fromValue at h
  split at h
  case h_1 code =>
    cases h
    cases AutomationError.ofName? code with
    | none => exact ⟨.nil, fun f hf => absurd hf List.not_mem_nil⟩
    | some error => trivial
  case h_2 fields =>
    split at h
    case isFalse => cases h
    case isTrue hnodup =>
      split at h
      case h_2 => cases h
      case h_1 code hcode =>
        cases h
        refine ⟨sorted_pairwise ?_, fun f hf => ?_⟩
        · exact hnodup.sublist ((List.filter_sublist.trans List.filter_sublist).map Prod.fst)
        · obtain ⟨hf, hpayload⟩ := List.mem_filter.1 (mem_sorted.1 hf)
          exact ⟨by simpa using (List.mem_filter.1 hf).2, by simpa using hpayload⟩
  case h_3 => cases h

/-- The eight are read from their texts and from nothing else. -/
theorem fromValue_eq_known {v : Value} {error : AutomationError} :
    fromValue v = some (known error) ↔ v = .string error.name := by
  constructor
  · intro h
    unfold fromValue at h
    split at h
    case h_1 code =>
      cases hname : AutomationError.ofName? code with
      | none => rw [hname] at h; cases h
      | some error' =>
        rw [hname] at h
        cases h
        rw [AutomationError.name_of_ofName? hname]
    case h_2 fields =>
      split at h
      · split at h <;> cases h
      · cases h
    case h_3 => cases h
  · rintro rfl
    exact fromValue_toValue (e := known error) trivial

/-- A domain error after it went over `n` hops, each of which reads it and writes it again. -/
def relayed : ℕ → Value → Option Value
  | 0, v => some v
  | n + 1, v => (fromValue v).bind fun e => relayed n e.toValue

end WireError

/-- **Domain errors keep over any number of hops what they say**, and the eight known ones are never
taken for an unknown one or conversely. -/
theorem errors_relay (v : Value) (e : WireError) (h : WireError.fromValue v = some e) :
    (∀ n, (WireError.relayed n v).bind WireError.fromValue = some e) ∧
      ∀ error, e = .known error ↔ v = .string error.name := by
  constructor
  · intro n
    induction n generalizing v with
    | zero => exact h
    | succ n ih =>
      show ((WireError.fromValue v).bind fun e => WireError.relayed n e.toValue).bind _ = _
      rw [h, Option.bind_some]
      exact ih _ (WireError.fromValue_toValue (WireError.wellFormed_of_fromValue h))
  · intro error
    rw [← WireError.fromValue_eq_known, h, Option.some.injEq]

/-- An unknown code that spells a known error stays unknown. -/
theorem forbidden_object_stays_unknown :
    let v := Value.object [("retry", .bool true), ("code", .string "forbidden")]
    let e := WireError.unknown "forbidden" none [("retry", .bool true)]
    (∀ n, (WireError.relayed n v).bind WireError.fromValue = some e) ∧
      ∀ error, e = .known error ↔ v = .string error.name := errors_relay _ _ rfl

end ProjectAutomation

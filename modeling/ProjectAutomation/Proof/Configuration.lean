import ProjectAutomation.Proof.Schemas
import ProjectAutomation.Spec.Configuration

/-!
# The configuration and its schema

What `configuration.schema.json` admits against what serde reads and `validate` accepts.

* `read_iff`: a configuration is read from the object it is written as, with its fields in any order,
  from the array of its values, and from nothing else.
* `taken`: which of what conforms is read, and `within_bounds` for the numbers that `validate` checks.
* `configuration_agrees`: what is accepted conforms, and what conforms is refused only for what the
  schema does not say.
-/

namespace ProjectAutomation

open Codec Serde

/-! ## Exact formats -/

namespace Serde

theorem string_exact : string.Exact := by
  rintro (_ | _ | _ | _ | text | _ | _) a h
  case string => exact congrArg Value.string (Option.some.inj h).symm
  all_goals cases h

theorem i64_exact : i64.Exact := by
  rintro (_ | _ | n | _ | _ | _ | _) a h
  case number =>
    simp only [i64, Value.asI64] at h
    split at h
    · exact congrArg Value.number (Option.some.inj h).symm
    · cases h
  all_goals cases h

theorem vec_exact {α : Type} {F : Format Value α} (h : F.Exact) : (vec F).Exact := by
  refine Format.Exact.list h ?_
  rintro (_ | _ | _ | _ | _ | vs | _) a ha
  case array => exact congrArg Value.array (Option.some.inj ha).symm
  all_goals cases ha

theorem vec_length {α : Type} {F : Format Value α} {vs : List Value} {as : List α}
    (h : (vec F).read (.array vs) = some as) : as.length = vs.length := by
  have hread : vs.mapM F.read = some as := h
  exact (mapM_eq_some.1 hread).length_eq.symm

theorem sized_takes {α : Type} {F : Format Value α} {items : Schema} {m n : ℕ} (h : items.Takes F) :
    (Schema.sized m n items).Takes (vec F) where
  reads := by
    rintro (_ | _ | _ | _ | _ | vs | _) hv hplain
    case array =>
      simp only [Schema.sized, Bool.and_eq_true, decide_eq_true_eq] at hv
      obtain ⟨as, has, hall⟩ := (vec_takes h).reads (.array vs) hv.2 hplain
      refine ⟨as, has, ?_⟩
      have hlength : (as.map F.write).length = vs.length := by rw [List.length_map, vec_length has]
      show (_ ≤ (as.map F.write).length && (as.map F.write).length ≤ _ && (as.map F.write).all items) = true
      simp only [hlength, Bool.and_eq_true, decide_eq_true_eq]
      exact ⟨hv.1, hall⟩
    all_goals cases hv
  only := by
    rintro (_ | _ | _ | _ | _ | vs | _) as hv hread
    case array =>
      simp only [Schema.sized, Bool.and_eq_true, decide_eq_true_eq] at hv
      exact (vec_takes h).only (.array vs) as hv.2 hread
    all_goals cases hv

/-- Nothing that conforms has the name of another field. -/
theorem unknown_of_conforms {names : List String} {properties : List (String × Schema)} {v : Value}
    (hnames : (properties.map Prod.fst).all names.contains = true) (hv : Schema.object properties v = true) :
    unknown names v = false := by
  cases v with
  | object entries =>
    refine List.any_eq_false.2 fun f hf => ?_
    obtain ⟨schema, hschema, -⟩ := (Option.any_eq_true _ _).1 (Schema.property_of hv hf)
    have hmem : f.1 ∈ properties.map Prod.fst := List.mem_map_of_mem (lookup_mem hschema)
    have hname := List.all_eq_true.1 hnames _ hmem
    simpa using hname
  | null | bool | number | decimal | string | array => rfl

/-- As `record_takes`. -/
theorem closed_takes {α : Type} {F : Fields String Value α} {hnodup : F.names.Nodup}
    {properties : List (String × Schema)}
    (hnames : (F.names.all (properties.map Prod.fst).contains && (properties.map Prod.fst).all F.names.contains) = true)
    (h : F.Takes (Property properties) (Value.plain · = true)) :
    (Schema.object properties).Takes (closed F hnodup) := by
  have hread : ∀ v, Schema.object properties v = true → (closed F hnodup).read v = (record F hnodup).read v := by
    intro v hv
    refine if_neg ?_
    rw [unknown_of_conforms (Bool.and_eq_true_iff.1 hnames).2 hv]
    exact Bool.false_ne_true
  constructor
  · intro v hv hplain
    rw [hread v hv]
    exact (record_takes hnames h).reads v hv hplain
  · intro v a hv ha
    exact (record_takes hnames h).only v a hv ((hread v hv).symm.trans ha)

end Serde

namespace Schema

/-- The order of the fields does not matter. -/
theorem object_perm {properties : List (String × Schema)} {fields entries : List (String × Value)}
    (hperm : entries.Perm fields) (h : object properties (.object fields) = true) :
    object properties (.object entries) = true := by
  simp only [object, Bool.and_eq_true, decide_eq_true_eq, List.all_eq_true] at h
  obtain ⟨⟨hnodup, hall⟩, hrequired⟩ := h
  refine object_of (decide_eq_true ((hperm.map _).nodup_iff.2 hnodup)) (List.all_eq_true.2 fun p hp => ?_)
    (List.all_eq_true.2 fun f hf => hall f (hperm.mem_iff.1 hf))
  obtain ⟨v, hv⟩ := Option.isSome_iff_exists.1 (hrequired p hp)
  have hmem : (p.1, v) ∈ entries := hperm.mem_iff.2 (lookup_mem hv)
  unfold lookup
  rw [Option.isSome_map, List.find?_isSome]
  exact ⟨_, hmem, decide_eq_true rfl⟩

end Schema

namespace ProjectAutomationConfig

variable {config : ProjectAutomationConfig} {host : Host} {v : Value}

theorem fields_exact : fields.Exact :=
  .congr <| (Fields.exact_one string_exact).and <| (Fields.exact_one string_exact).and <|
    (Fields.exact_one string_exact).and <| (Fields.exact_one string_exact).and <|
    (Fields.exact_one (vec_exact string_exact)).and <| (Fields.exact_one (vec_exact string_exact)).and <|
    (Fields.exact_one (vec_exact string_exact)).and <| (Fields.exact_one (vec_exact string_exact)).and <|
    (Fields.exact_one string_exact).and <| (Fields.exact_one i64_exact).and <|
    (Fields.exact_one i64_exact).and <| Fields.exact_one i64_exact

/-- **The object of a configuration**, but for the order of its fields. -/
theorem read_object {entries : List (String × Value)} (h : format.read (.object entries) = some config) :
    entries.Perm (fields.write config) := by
  simp only [format, closed] at h
  split at h
  · cases h
  · rename_i hknown
    obtain ⟨get, hget, hread⟩ := Option.bind_eq_some_iff.1 h
    simp only [known] at hget
    split at hget
    · rename_i hnodup
      cases hget
      have hnames : ∀ f ∈ entries, f.1 ∈ fields.names := by
        simpa [unknown] using hknown
      rw [List.filter_eq_self.2 (by simpa using hnames)] at hnodup
      refine perm_of_lookup hnodup ?_ ?_ (fields_exact _ _ hread)
      · rw [fields.names_write]
        decide
      · rw [fields.names_write]
        exact hnames
    · cases hget

/-- Its array has its values in the order of the source. -/
theorem read_array {items : List Value} (h : format.read (.array items) = some config) :
    items = (fields.write config).map Prod.snd := by
  obtain ⟨get, hget, hread⟩ : ∃ get, known fields.names (.array items) = some get ∧ fields.read get = some config :=
    Option.bind_eq_some_iff.1 h
  simp only [known] at hget
  split at hget
  · rename_i hlength
    cases hget
    exact values_of_lookup (by decide) hlength (fields.names_write config) (fields_exact _ _ hread)
  · cases hget

/-- **All that a configuration is read from**: its object in any order, and its array. -/
theorem read_iff : format.read v = some config ↔ format.Fits config ∧
    ((∃ entries, v = .object entries ∧ entries.Perm (fields.write config)) ∨
      v = .array ((fields.write config).map Prod.snd)) := by
  constructor
  · intro h
    refine ⟨format.fits_of_read h, ?_⟩
    cases v with
    | object entries => exact .inl ⟨entries, rfl, read_object h⟩
    | array items => exact .inr (congrArg Value.array (read_array h))
    | null | bool | number | decimal | string => cases h
  · rintro ⟨hfits, ⟨entries, rfl, hperm⟩ | rfl⟩
    · have hnames : (entries.map Prod.fst).Perm fields.names := fields.names_write config ▸ hperm.map _
      have hknown : unknown fields.names (.object entries) = false := by
        refine List.any_eq_false.2 fun f hf => ?_
        have hname : f.1 ∈ fields.names := hnames.mem_iff.1 (List.mem_map_of_mem hf)
        simpa using hname
      have hgives : Gives (fields.write config) entries :=
        ⟨fun _ hf => hperm.mem_iff.2 hf, (hnames.nodup_iff.2 (by decide)).filter _⟩
      exact (if_neg (by rw [hknown]; exact Bool.false_ne_true)).trans (record_of_gives hfits hgives)
    · have hread : (record fields (by decide)).read (.array ((fields.write config).map Prod.snd)) = some config :=
        record_of_array hfits
      exact hread

/-! ## What conforms -/

theorem sized_callers {callers : List String} (h : validCallers callers = true) :
    Schema.sized 1 64 Schema.string (.array (callers.map .string)) = true := by
  simp only [validCallers, maxCallers, Bool.and_eq_true, Bool.not_eq_true'] at h
  obtain ⟨⟨⟨hne, hmax⟩, -⟩, -⟩ := h
  have hpos : 1 ≤ callers.length := List.length_pos_iff.2 (List.isEmpty_eq_false_iff.1 hne)
  simp [Schema.sized, hpos, of_decide_eq_true hmax]

/-- The numbers are in the ranges that the schema and `validate` have. -/
structure Bounded (config : ProjectAutomationConfig) : Prop where
  lease : 30 ≤ config.executionLeaseSeconds ∧ config.executionLeaseSeconds ≤ 3600
  attempts : 1 ≤ config.jobMaxAttempts ∧ config.jobMaxAttempts ≤ 100
  items : 1 ≤ config.maxReconcileItems ∧ config.maxReconcileItems ≤ 100

theorem accepted (h : config.validate host = .ok ()) :
    (∀ callers ∈ config.roles, validCallers callers = true) ∧ config.Bounded := by
  unfold validate at h
  simp only [except_bind_eq_ok, require_eq_ok] at h
  obtain ⟨-, -, -, -, -, -, -, -, -, hroles, -, -, -, -, -, hlease, -, hattempts, hitems⟩ := h
  simp only [Bool.and_eq_true, decide_eq_true_eq] at hlease hattempts hitems
  exact ⟨List.all_eq_true.1 hroles, hlease, hattempts, hitems⟩

theorem conforms_of_valid (h : config.validate host = .ok ()) :
    Schema.configuration (format.write config) = true := by
  obtain ⟨hroles, hlease, hattempts, hitems⟩ := accepted h
  simp only [roles, List.forall_mem_cons] at hroles
  obtain ⟨hadmin, hevent, htimer, hexecution, -⟩ := hroles
  refine Schema.object_of rfl rfl ?_
  simp [fields, lookup, string, i64, hlease, hattempts, hitems, sized_callers hadmin, sized_callers hevent,
    sized_callers htimer, sized_callers hexecution]

theorem fits_of_bounded (h : config.Bounded) : format.Fits config := by
  have hnumber : ∀ n : ℤ, 1 ≤ n → n ≤ 3600 → i64.Fits n := fun n hlo hhi => ⟨by omega, by omega⟩
  have hlease : i64.Fits config.executionLeaseSeconds := hnumber _ (by have := h.lease; omega) h.lease.2
  have hattempts : i64.Fits config.jobMaxAttempts := hnumber _ h.attempts.1 (by have := h.attempts; omega)
  have hitems : i64.Fits config.maxReconcileItems := hnumber _ h.items.1 (by have := h.items; omega)
  exact ⟨trivial, trivial, trivial, trivial, fun _ _ => trivial, fun _ _ => trivial, fun _ _ => trivial,
    fun _ _ => trivial, trivial, hlease, hattempts, hitems⟩

theorem bounded_of_conforms (h : Schema.configuration (format.write config) = true) : config.Bounded := by
  have hlease := Schema.property_of h
    (show ("execution_lease_seconds", .number config.executionLeaseSeconds) ∈ fields.write config by simp [fields, i64])
  have hattempts := Schema.property_of h
    (show ("job_max_attempts", .number config.jobMaxAttempts) ∈ fields.write config by simp [fields, i64])
  have hitems := Schema.property_of h
    (show ("max_reconcile_items", .number config.maxReconcileItems) ∈ fields.write config by simp [fields, i64])
  exact ⟨Schema.between_number.1 hlease, Schema.between_number.1 hattempts, Schema.between_number.1 hitems⟩

/-- What conforms passes the checks of the three numbers. -/
theorem within_bounds (hbounded : config.Bounded) {e : ProjectAutomationConfigError}
    (h : config.validate host = .error e) :
    e ≠ .invalidLease ∧ e ≠ .invalidJobAttempts ∧ e ≠ .invalidReconcileLimit := by
  obtain ⟨hlease, hattempts, hitems⟩ := hbounded
  unfold validate at h
  simp only [except_bind_eq_error, require_eq_ok, require_eq_error, hlease, hattempts, hitems] at h
  -- what is left are the checks before the three
  grind

theorem taken : Schema.configuration.Takes format :=
  closed_takes rfl <| .congr <| (Fields.takes_one string_takes).and <| (Fields.takes_one string_takes).and <|
    (Fields.takes_one string_takes).and <| (Fields.takes_one string_takes).and <|
    (Fields.takes_one (sized_takes string_takes)).and <| (Fields.takes_one (sized_takes string_takes)).and <|
    (Fields.takes_one (sized_takes string_takes)).and <| (Fields.takes_one (sized_takes string_takes)).and <|
    (Fields.takes_one string_takes).and <| (Fields.takes_one (i64_takes (by decide) (by decide))).and <|
    (Fields.takes_one (i64_takes (by decide) (by decide))).and <|
    Fields.takes_one (i64_takes (by decide) (by decide))

end ProjectAutomationConfig

/-! ## The schema and the code -/

/-- **The configuration schema agrees with the code**, but for numbers with a fraction or an exponent. What
`validate` accepts is written as the schema has it, and read again; what conforms is read if its numbers are written
as integers, and not refused for them; a configuration is read from its object, in any order of its fields, from the
array of its values, and from nothing else; and an object that is read and accepted conforms. -/
theorem configuration_agrees (host : Host) :
    (∀ config : ProjectAutomationConfig, config.validate host = .ok () →
      Schema.configuration (ProjectAutomationConfig.format.write config) = true ∧
        ProjectAutomationConfig.format.read (ProjectAutomationConfig.format.write config) = some config) ∧
    (∀ v, Schema.configuration v = true →
      ((ProjectAutomationConfig.format.read v).isSome = true ↔ v.plain = true) ∧
        ∀ config e, ProjectAutomationConfig.format.read v = some config → config.validate host = .error e →
          e ≠ .invalidLease ∧ e ≠ .invalidJobAttempts ∧ e ≠ .invalidReconcileLimit) ∧
    (∀ v config, ProjectAutomationConfig.format.read v = some config ↔
      ProjectAutomationConfig.format.Fits config ∧
        ((∃ entries, v = .object entries ∧ entries.Perm (ProjectAutomationConfig.fields.write config)) ∨
          v = .array ((ProjectAutomationConfig.fields.write config).map Prod.snd))) ∧
    ∀ entries config, ProjectAutomationConfig.format.read (.object entries) = some config →
      config.validate host = .ok () → Schema.configuration (.object entries) = true := by
  refine ⟨fun config h => ?_, fun v h => ⟨ProjectAutomationConfig.taken.isSome_iff h, fun config e hread he => ?_⟩,
    fun v config => ProjectAutomationConfig.read_iff, fun entries config h hvalid => ?_⟩
  · exact ⟨ProjectAutomationConfig.conforms_of_valid h,
      ProjectAutomationConfig.format.read_write (ProjectAutomationConfig.fits_of_bounded
        (ProjectAutomationConfig.accepted h).2)⟩
  · have hconforms := ProjectAutomationConfig.taken.written h hread
    exact ProjectAutomationConfig.within_bounds (ProjectAutomationConfig.bounded_of_conforms hconforms) he
  · exact Schema.object_perm (ProjectAutomationConfig.read_object h)
      (ProjectAutomationConfig.conforms_of_valid hvalid)

end ProjectAutomation

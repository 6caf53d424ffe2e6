import ProjectAutomation.Spec.Schemas
import ProjectAutomation.Spec.Wire

/-!
# The configuration document

A plan holds the configuration of the plugin as JSON. `configuration.schema.json` says what
it may be, and serde reads `ProjectAutomationConfig` from it, unknown fields denied.
-/

namespace ProjectAutomation

open Codec Serde

variable {α : Type}

namespace Serde

/-- A field of an object has another name. -/
def unknown (names : List String) : Value → Bool
  | .object fields => fields.any fun f => !names.contains f.1
  | _ => false

/-- A struct with `#[serde(deny_unknown_fields)]`. -/
def closed (F : Fields String Value α) (hnodup : F.names.Nodup) : Format Value α where
  write := (record F hnodup).write
  read v := if unknown F.names v then none else (record F hnodup).read v
  Fits := F.Fits
  read_write {a} h := by
    have hknown : unknown F.names (.object (F.write a)) = false := by
      refine List.any_eq_false.2 fun f hf => ?_
      have hname : f.1 ∈ F.names := F.names_write a ▸ List.mem_map_of_mem hf
      simpa using hname
    have hwrite : (record F hnodup).write a = .object (F.write a) := rfl
    rw [hwrite, hknown, ← hwrite]
    exact (record F hnodup).read_write h
  fits_of_read h := by
    split at h
    · cases h
    · exact (record F hnodup).fits_of_read h

end Serde

namespace ProjectAutomationConfig

/-- The fields, in the order of the source. -/
def fields : Fields String Value ProjectAutomationConfig :=
  ((Fields.one "schema" string).and <| (Fields.one "database_url_secret" string).and <|
    (Fields.one "auth_issuer" string).and <| (Fields.one "auth_assertion_public_key" string).and <|
    (Fields.one "admin_callers" (vec string)).and <| (Fields.one "event_callers" (vec string)).and <|
    (Fields.one "timer_callers" (vec string)).and <| (Fields.one "execution_callers" (vec string)).and <|
    (Fields.one "jobs_queue" string).and <| (Fields.one "execution_lease_seconds" i64).and <|
    (Fields.one "job_max_attempts" i64).and <| Fields.one "max_reconcile_items" i64).congr
      ⟨fun (a, b, c, d, e, f, g, h, i, j, k, l) => ⟨a, b, c, d, e, f, g, h, i, j, k, l⟩,
        fun c => (c.schema, c.databaseUrlSecret, c.authIssuer, c.authAssertionPublicKey, c.adminCallers,
          c.eventCallers, c.timerCallers, c.executionCallers, c.jobsQueue, c.executionLeaseSeconds,
          c.jobMaxAttempts, c.maxReconcileItems), fun _ => rfl, fun _ => rfl⟩

def format : Format Value ProjectAutomationConfig := closed fields (by decide)

end ProjectAutomationConfig

namespace Schema

/-- An array with `minItems` and `maxItems`. -/
def sized (minItems maxItems : ℕ) (items : Schema) : Schema
  | .array vs => minItems ≤ vs.length && vs.length ≤ maxItems && vs.all items
  | _ => false

/-- `configuration.schema.json`. -/
def configuration : Schema :=
  object [("schema", string), ("database_url_secret", string), ("auth_issuer", string),
    ("auth_assertion_public_key", string), ("admin_callers", sized 1 64 string),
    ("event_callers", sized 1 64 string), ("timer_callers", sized 1 64 string),
    ("execution_callers", sized 1 64 string), ("jobs_queue", string),
    ("execution_lease_seconds", between 30 3600), ("job_max_attempts", between 1 100),
    ("max_reconcile_items", between 1 100)]

end Schema

end ProjectAutomation

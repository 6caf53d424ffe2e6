import ProjectAutomation.Spec.World
import ProjectAutomation.Text.Rfc3339

/-!
# What is taken of the code outside the repository

Each is documented behaviour of a library, and a hypothesis of the results that
need it; none is part of the model.
-/

namespace ProjectAutomation

namespace Env

variable (env : Env)

/-- UUIDv5 does not collide. -/
def UuidOK : Prop :=
  ∀ ns ns' name name', env.newV5 ns name = env.newV5 ns' name' → ns = ns' ∧ name = name'

/-- RFC 3339 text reads back as the instant it was written for. -/
def TimeOK : Prop :=
  ∀ t text, env.formatRfc3339 t = some text →
    ∃ t', env.parseRfc3339 text = some t' ∧ t'.unixNanos = t.unixNanos

/-- RFC 3339 writes every UTC instant of the years 0 to 9999. -/
def FormatOK : Prop := ∀ t : OffsetDateTime, t.offset = 0 → t.Datable → (env.formatRfc3339 t).isSome = true

/-- RFC 3339 writing gives a date-time. -/
def DateTimeOK : Prop :=
  ∀ t text, env.formatRfc3339 t = some text → Text.Rfc3339.dateTime text.toList = true

/-- RFC 3339 parsing consumes the whole text: what it takes is a date and a time from end to end. Between them it
takes any one character. -/
def Rfc3339Whole : Prop :=
  ∀ text, (env.parseRfc3339 text).isSome = true → Text.Rfc3339.shaped text.toList = true

/-- And it checks their numbers against the calendar and the clock. -/
def Rfc3339OK : Prop :=
  ∀ text, (env.parseRfc3339 text).isSome = true → Text.Rfc3339.separated text.toList = true

/-- SHA-256 of the serialized request is injective on the requests of one operation. -/
def HashOK : Prop :=
  ∀ r r' : CommandRequest, r.operation = r'.operation → env.requestHash r = env.requestHash r' → r = r'

end Env

/-- As `Display` writes a UUID: 36 hexadecimal digits and dashes. It is asked of single ids, since
`UuidOK` tells more names apart than there are such texts. -/
def Uuid.Displayed (id : Uuid) : Prop :=
  id.text.utf8ByteSize = 36 ∧ id.text.toList.all (fun c =>
    c == '-' || c.isDigit || ['a', 'b', 'c', 'd', 'e', 'f'].contains c)

/-- An identity column of type `BIGINT` counts up from 1. -/
def Connection.CountsRows (conn : Connection) : Prop := 0 < conn.nextRowSeq ∧ conn.nextRowSeq < 2 ^ 63

/-- UUIDv4 never repeats: the ids handed out during a transaction are new and distinct. -/
structure Connection.FreshIds (conn : Connection) (db : Database) : Prop where
  injective : Function.Injective conn.newV4
  triggers : ∀ n, ∀ t ∈ db.triggers, t.triggerId ≠ conn.newV4 n
  executions : ∀ n, ∀ e ∈ db.executions, e.executionId ≠ conn.newV4 n

/-- The `attempts` that the `UPDATE` of an event counts up, and the statement it is. -/
def counting (w : World) : Event → Option (Connection × String × List ℕ)
  | .work conn executionId attempt _ =>
    match w.tasks (executionId, attempt) with
    | some ⟨claim, .status index⟩ =>
      some (conn, "begin action attempt",
        (w.db.receipts.rows.filter (ActionReceiptRow.at claim.executionId index)).map ActionReceiptRow.attempts)
    | _ => none
  | .flush conn index _ =>
    match w.flushes[index]? with
    | some ⟨c, .mark _⟩ => some (conn, "complete schedule dispatch", selected c .pending)
    | some ⟨c, .noteCancelled _⟩ => some (conn, "record cancelled schedule enqueue", selected c .cancelled)
    | some ⟨c, .noteFailure _⟩ => some (conn, "record schedule dispatch failure", selected c .pending)
    | _ => none
  | _ => none
where
  selected (c : ScheduleDispatch) (state : DispatchState) : List ℕ :=
    (w.db.dispatches.rows.filter (c.selects state)).map DispatchRow.attempts

/-- PostgreSQL refuses an `UPDATE` that counts an `INTEGER` past its range. -/
def CountersChecked (w : World) (event : Event) : Prop :=
  ∀ update ∈ counting w event, (∃ n ∈ update.2.2, i32Max ≤ n) → update.1.faults update.2.1 ≠ none

instance (w : World) (event : Event) : Decidable (CountersChecked w event) :=
  inferInstanceAs (Decidable (∀ update ∈ counting w event, (∃ n ∈ update.2.2, i32Max ≤ n) →
    update.1.faults update.2.1 ≠ none))

end ProjectAutomation

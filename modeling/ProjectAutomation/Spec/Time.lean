import Mathlib.Data.Int.Init
import Mathlib.Tactic.NormNum

/-!
# Time

`OffsetDateTime` is an instant in nanoseconds with the offset it is shown in. A
`TIMESTAMPTZ` column is an integer, the whole microseconds since 2000-01-01: the
driver divides the distance to that epoch and drops the rest, so a column can hold
an earlier instant than the one it was given. It shifts the time to UTC first, which
only a time whose date there is still one of `time`'s survives (`Bindable`).
-/

namespace ProjectAutomation

/-- `time::OffsetDateTime`. Two of them are equal in the source when `unixNanos` is. -/
structure OffsetDateTime where
  unixNanos : ℤ
  /-- seconds east of UTC -/
  offset : ℤ
deriving DecidableEq

def nanosPerSecond : ℤ := 1000000000

namespace OffsetDateTime

/-- The local date-times `time` represents: years -9999 to 9999. -/
def minLocalNanos : ℤ := -377705116800 * nanosPerSecond
def maxLocalNanos : ℤ := 253402300800 * nanosPerSecond - 1

/-- `checked_add(Duration::seconds(seconds))`: none outside the local date range. -/
def checkedAdd (t : OffsetDateTime) (seconds : ℤ) : Option OffsetDateTime :=
  let unixNanos := t.unixNanos + seconds * nanosPerSecond
  let localNanos := unixNanos + t.offset * nanosPerSecond
  if minLocalNanos ≤ localNanos ∧ localNanos ≤ maxLocalNanos then some ⟨unixNanos, t.offset⟩ else none

/-- `(a - b).whole_seconds()`: rounds toward zero. -/
def wholeSecondsSince (a b : OffsetDateTime) : ℤ := (a.unixNanos - b.unixNanos).tdiv nanosPerSecond

theorem checkedAdd_eq_some {t t' : OffsetDateTime} {seconds : ℤ} (h : t.checkedAdd seconds = some t') :
    t'.unixNanos = t.unixNanos + seconds * nanosPerSecond := by
  unfold checkedAdd at h
  simp only at h
  split at h
  · cases h; rfl
  · cases h

/-- The instant `seconds` later, at the same offset. -/
def plus (t : OffsetDateTime) (seconds : ℤ) : OffsetDateTime := ⟨t.unixNanos + seconds * nanosPerSecond, t.offset⟩

/-- The local date is one `time` has; so is that of every `OffsetDateTime` the source can hold. -/
def Representable (t : OffsetDateTime) : Prop :=
  let localNanos := t.unixNanos + t.offset * nanosPerSecond
  minLocalNanos ≤ localNanos ∧ localNanos ≤ maxLocalNanos

instance (t : OffsetDateTime) : Decidable t.Representable := inferInstanceAs (Decidable (_ ∧ _))

theorem checkedAdd_eq (t : OffsetDateTime) (seconds : ℤ) :
    t.checkedAdd seconds = if (t.plus seconds).Representable then some (t.plus seconds) else none := rfl

/-- The date at UTC is one `time` has. -/
def Bindable (t : OffsetDateTime) : Prop := minLocalNanos ≤ t.unixNanos ∧ t.unixNanos ≤ maxLocalNanos

instance (t : OffsetDateTime) : Decidable t.Bindable := inferInstanceAs (Decidable (_ ∧ _))

/-- 0000-01-01T00:00:00Z. -/
def yearZeroNanos : ℤ := -62167219200 * nanosPerSecond

/-- The year of the instant, at UTC and at its own offset, is one that RFC 3339 has. -/
def Datable (t : OffsetDateTime) : Prop :=
  (yearZeroNanos ≤ t.unixNanos ∧ t.unixNanos ≤ maxLocalNanos) ∧
    let localNanos := t.unixNanos + t.offset * nanosPerSecond
    yearZeroNanos ≤ localNanos ∧ localNanos ≤ maxLocalNanos

instance (t : OffsetDateTime) : Decidable t.Datable := inferInstanceAs (Decidable (_ ∧ _))

theorem Datable.bindable {t : OffsetDateTime} (h : t.Datable) : t.Bindable :=
  ⟨le_trans (by decide) h.1.1, h.1.2⟩

end OffsetDateTime

/-- 2000-01-01T00:00:00Z. -/
def pgEpochNanos : ℤ := 946684800 * nanosPerSecond

def microsPerSecond : ℤ := 1000000

/-- What the driver writes for an `OffsetDateTime` it can bind. -/
def encodeTimestamptz (t : OffsetDateTime) : ℤ := (t.unixNanos - pgEpochNanos).tdiv 1000

/-- How the driver reads a `TIMESTAMPTZ` back. -/
def decodeTimestamptz (m : ℤ) : OffsetDateTime := ⟨pgEpochNanos + m * 1000, 0⟩

/-- A whole number of microseconds. -/
def OffsetDateTime.WholeMicros (t : OffsetDateTime) : Prop := (1000 : ℤ) ∣ t.unixNanos

instance (t : OffsetDateTime) : Decidable t.WholeMicros :=
  inferInstanceAs (Decidable ((1000 : ℤ) ∣ t.unixNanos))

theorem thousand_mul_tdiv (a : ℤ) : a.tdiv 1000 * 1000 = a ↔ (1000 : ℤ) ∣ a := by
  constructor
  · intro h; exact ⟨a.tdiv 1000, by rw [← h]; simp [mul_comm]⟩
  · intro h; exact Int.tdiv_mul_cancel h

theorem decodeTimestamptz_wholeMicros (m : ℤ) : (decodeTimestamptz m).WholeMicros := by
  unfold OffsetDateTime.WholeMicros decodeTimestamptz pgEpochNanos nanosPerSecond
  simp only; omega

/-- **A column returns the instant it was given exactly when that is a whole
microsecond.** -/
theorem decode_encode_iff {t : OffsetDateTime} :
    (decodeTimestamptz (encodeTimestamptz t)).unixNanos = t.unixNanos ↔ t.WholeMicros := by
  have h := thousand_mul_tdiv (t.unixNanos - pgEpochNanos)
  unfold OffsetDateTime.WholeMicros decodeTimestamptz encodeTimestamptz
  unfold pgEpochNanos nanosPerSecond at *
  simp only; omega

theorem encode_decode (m : ℤ) : encodeTimestamptz (decodeTimestamptz m) = m := by
  unfold decodeTimestamptz encodeTimestamptz
  simp

/-- Seconds added before or after storing. -/
theorem encode_add_seconds {t t' : OffsetDateTime} {seconds : ℤ} (hw : t.WholeMicros)
    (h : t'.unixNanos = t.unixNanos + seconds * nanosPerSecond) :
    encodeTimestamptz t' = encodeTimestamptz t + seconds * microsPerSecond := by
  have h₁ := (thousand_mul_tdiv (t.unixNanos - pgEpochNanos)).2
  have h₂ := (thousand_mul_tdiv (t'.unixNanos - pgEpochNanos)).2
  unfold OffsetDateTime.WholeMicros at hw
  unfold encodeTimestamptz microsPerSecond
  unfold pgEpochNanos nanosPerSecond at *
  have := h₁ (by omega)
  have := h₂ (by omega)
  omega

end ProjectAutomation

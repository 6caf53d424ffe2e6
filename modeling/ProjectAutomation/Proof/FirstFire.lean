import ProjectAutomation.Proof.Schedule
import ProjectAutomation.Recurrence.Next
import ProjectAutomation.Spec.Sample

/-!
# The first fire time

`initial_next_fire` counts whole seconds, divides, and multiplies back with checked
arithmetic. What it finds is the next round of the schedule (`Recurrence.IsNext`).

* `gridFits_of_representable`: the arithmetic stays within `i64` when there is such a date.
* `nextGridPoint_eq`: the division finds the next round, or there is no date for it.
* `first_fire`: what `initial_next_fire` answers for every admitted trigger.
-/

namespace ProjectAutomation

open Recurrence

variable {env : Env} {start now : OffsetDateTime} {interval : ℤ}

/-- No step of the arithmetic of a grid point saturates or leaves `i64`. -/
structure GridFits (start now : OffsetDateTime) (interval : ℤ) : Prop where
  elapsed : i64Min ≤ now.wholeSecondsSince start ∧ now.wholeSecondsSince start ≤ i64Max
  succ : saturatingSucc ((now.wholeSecondsSince start).tdiv interval) = (now.wholeSecondsSince start).tdiv interval + 1
  product : checkedMul interval ((now.wholeSecondsSince start).tdiv interval + 1) =
    some (interval * ((now.wholeSecondsSince start).tdiv interval + 1))

/-- The rounds of a schedule, in nanoseconds. -/
def periodNanos (interval : ℤ) : ℤ := interval * nanosPerSecond

/-- The seconds from the start to the round after `now`. -/
def secondsToNext (start now : OffsetDateTime) (interval : ℤ) : ℤ :=
  ((now.unixNanos - start.unixNanos) / periodNanos interval + 1) * interval

/-- Past the start, the whole seconds count the rounds. -/
theorem wholeSeconds_tdiv (interval : ℤ) (hle : start.unixNanos ≤ now.unixNanos) :
    0 ≤ now.wholeSecondsSince start ∧
      (now.wholeSecondsSince start).tdiv interval = (now.unixNanos - start.unixNanos) / periodNanos interval := by
  have hel : now.wholeSecondsSince start = (now.unixNanos - start.unixNanos) / nanosPerSecond :=
    Int.tdiv_eq_ediv_of_nonneg (by omega)
  have hpos : 0 ≤ now.wholeSecondsSince start := by
    rw [hel]
    exact Int.ediv_nonneg (by omega) (by decide)
  refine ⟨hpos, ?_⟩
  rw [Int.tdiv_eq_ediv_of_nonneg hpos, hel]
  exact ediv_ticks (by decide) _ _

theorem checkedMul_of_le {a b : ℤ} (hlow : i64Min ≤ a * b) (hhigh : a * b ≤ i64Max) :
    checkedMul a b = some (a * b) := if_pos ⟨hlow, hhigh⟩

/-- **The arithmetic fits** when the next round has a date. -/
theorem gridFits_of_representable (hi : 0 < interval) (hle : start.unixNanos ≤ now.unixNanos)
    (hstart : start.Representable) (hnext : (start.plus (secondsToNext start now interval)).Representable) :
    GridFits start now interval := by
  obtain ⟨hpos, hq⟩ := wholeSeconds_tdiv interval hle
  have hlow := hstart.1
  have hhigh := hnext.2
  simp only [OffsetDateTime.plus, secondsToNext] at hhigh
  rw [← hq] at hhigh
  -- the elapsed seconds lie in the round that ends next
  have helapsed := Int.lt_ediv_add_one_mul_self (now.wholeSecondsSince start) hi
  rw [← Int.tdiv_eq_ediv_of_nonneg hpos] at helapsed
  have hquot : 0 ≤ (now.wholeSecondsSince start).tdiv interval := Int.tdiv_nonneg hpos hi.le
  constructor
  all_goals
    generalize (now.wholeSecondsSince start).tdiv interval = q at *
    have hround : q + 1 ≤ (q + 1) * interval := le_mul_of_one_le_right (by omega) (by omega)
    have hspan : (q + 1) * interval ≤ 700000000000 := by
      unfold OffsetDateTime.minLocalNanos OffsetDateTime.maxLocalNanos nanosPerSecond at *
      omega
  · unfold i64Min i64Max
    omega
  · unfold saturatingSucc i64Max
    omega
  · rw [mul_comm] at hround hspan
    refine checkedMul_of_le ?_ ?_
    · unfold i64Min
      omega
    · unfold i64Max
      omega

/-- **A grid point** is the next round, when there is such a date. -/
theorem nextGridPoint_eq (hi : 2 ≤ interval) (hle : start.unixNanos ≤ now.unixNanos) (hstart : start.Representable) :
    nextGridPoint start now interval =
      if (start.plus (secondsToNext start now interval)).Representable then
        .ok (start.plus (secondsToNext start now interval))
      else .error (.domain .invalidRequest) := by
  have hseconds : secondsToNext start now interval =
      interval * ((now.wholeSecondsSince start).tdiv interval + 1) := by
    rw [(wholeSeconds_tdiv interval hle).2, mul_comm]
    rfl
  by_cases hnext : (start.plus (secondsToNext start now interval)).Representable
  · have hfits := gridFits_of_representable (by omega) hle hstart hnext
    rw [if_pos hnext]
    unfold nextGridPoint
    simp only
    rw [if_neg (by omega), hfits.succ, hfits.product, ← hseconds]
    show orInvalid (start.checkedAdd (secondsToNext start now interval)) = _
    rw [OffsetDateTime.checkedAdd_eq, if_pos hnext]
    rfl
  · rw [if_neg hnext]
    cases hresult : nextGridPoint start now interval with
    | error e => rw [nextGridPoint_error hi hresult]
    | ok n =>
      unfold nextGridPoint at hresult
      simp only at hresult
      rw [if_neg (by omega), except_bind_eq_ok] at hresult
      obtain ⟨seconds, hs, hn⟩ := hresult
      obtain ⟨-, rfl⟩ := saturatingSucc_of_product hi (orInvalid_eq_ok.1 hs)
      rw [orInvalid_eq_ok, ← hseconds, OffsetDateTime.checkedAdd_eq, if_neg hnext] at hn
      cases hn

/-- The round after `now`, past the start. -/
theorem isNext_secondsToNext (hi : 0 < interval) (hle : start.unixNanos ≤ now.unixNanos) :
    IsNext start.unixNanos (periodNanos interval) now.unixNanos
      (start.plus (secondsToNext start now interval)).unixNanos := by
  have hperiod : 0 < periodNanos interval := Int.mul_pos hi (by decide)
  have hnext := isNext_ediv hperiod hle
  have hnanos : (start.plus (secondsToNext start now interval)).unixNanos = start.unixNanos +
      ((now.unixNanos - start.unixNanos) / periodNanos interval + 1) * periodNanos interval := by
    show _ + secondsToNext start now interval * nanosPerSecond = _
    unfold secondsToNext
    rw [mul_assoc]
    rfl
  rw [hnanos]
  exact hnext

/-! ## Admitted triggers -/

/-- What the endpoint admits as a schedule. -/
theorem validTrigger_schedule {t : Trigger} {parses : String → Bool} (hv : validTrigger parses t = true)
    (hk : t.kind = .schedule) :
    (∃ interval, t.intervalSeconds = some interval ∧ 60 ≤ interval ∧ interval ≤ 31536000) ∧
      ∀ text, t.startAt = some text → parses text = true := by
  unfold validTrigger at hv
  simp only [hk, Bool.and_eq_true] at hv
  obtain ⟨⟨-, hinterval⟩, hstart⟩ := hv
  refine ⟨?_, fun text ht => ?_⟩
  · cases hi : t.intervalSeconds with
    | none => simp [hi] at hinterval
    | some i => exact ⟨i, rfl, by simpa [hi] using hinterval⟩
  · rw [ht] at hstart
    exact hstart

theorem getStr_startAt (t : Trigger) : t.toValue.getStr "start_at" = t.startAt := by
  show (Value.ofOption Value.string t.startAt).asStr = t.startAt
  cases t.startAt <;> rfl

/-- The first fire of an enabled schedule is computed from its interval and its start. -/
theorem initialNextFire_schedule {t : Trigger} (hk : t.kind = .schedule) (ht : t.intervalSeconds = some interval)
    (hi : 60 ≤ interval ∧ interval ≤ 31536000) :
    initialNextFire env now t.toValue true = do
      match ← startAt env t.toValue with
      | some start =>
        if start.unixNanos > now.unixNanos then return some start
        else return some (← nextGridPoint start now interval)
      | none => return some (← orInvalid (now.checkedAdd interval)) := by
  have hkind : triggerKind t.toValue = some "schedule" := by
    rw [triggerKind_toValue, hk]
    rfl
  have hok : intervalSeconds t.toValue = some interval := by
    have hget : t.toValue.get "interval_seconds" = some (.number interval) := by
      show some (Value.ofOption .number t.intervalSeconds) = _
      rw [ht]
      rfl
    unfold intervalSeconds
    rw [hget]
    exact if_pos (by omega)
  unfold initialNextFire
  rw [if_neg (by simp [hkind]), hok]
  rfl

/-- The fire time, or a rejected request when `time` has no such date. -/
def dated (next : OffsetDateTime) : Except StorageError (Option OffsetDateTime) :=
  if next.Representable then .ok (some next) else .error (.domain .invalidRequest)

theorem initialNextFire_none {t : Trigger} {enabled : Bool} :
    initialNextFire env now t.toValue enabled = .ok none ↔ enabled = false ∨ t.kind = .event := by
  have hkind : triggerKind t.toValue = some "schedule" ↔ t.kind = .schedule := by
    rw [triggerKind_toValue]
    cases t.kind <;> decide
  constructor
  · intro h
    have hsome := initialNextFire_isSome h
    rw [hkind] at hsome
    cases enabled with
    | false => exact Or.inl rfl
    | true =>
      cases hk : t.kind with
      | event => exact Or.inr rfl
      | schedule => exact absurd (hsome.2 ⟨rfl, hk⟩) (by decide)
  · rintro (rfl | hk)
    · rfl
    · unfold initialNextFire
      rw [if_pos]
      rw [triggerKind_toValue, hk]
      cases enabled <;> decide

/-- Without a start, the interval is counted from the clock. -/
theorem initialNextFire_now {t : Trigger} (hk : t.kind = .schedule) (ht : t.intervalSeconds = some interval)
    (hi : 60 ≤ interval ∧ interval ≤ 31536000) (hstart : t.startAt = none) :
    initialNextFire env now t.toValue true = dated (now.plus interval) := by
  have hnone : startAt env t.toValue = .ok none := by
    unfold startAt
    rw [getStr_startAt, hstart]
  rw [initialNextFire_schedule hk ht hi, hnone]
  show (do return some (← orInvalid (now.checkedAdd interval)) : Except _ _) = _
  rw [OffsetDateTime.checkedAdd_eq]
  unfold dated
  split <;> rfl

/-- With a start, the rounds are counted from it. -/
theorem initialNextFire_start {t : Trigger} (hk : t.kind = .schedule) (ht : t.intervalSeconds = some interval)
    (hi : 60 ≤ interval ∧ interval ≤ 31536000) {text : String} (htext : t.startAt = some text)
    (hparse : env.parseRfc3339 text = some start) (hstart : start.Representable) :
    ∃ next : OffsetDateTime, IsNext start.unixNanos (periodNanos interval) now.unixNanos next.unixNanos ∧
      next.offset = start.offset ∧ initialNextFire env now t.toValue true = dated next ∧
      (next.Representable → start.unixNanos ≤ now.unixNanos → GridFits start now interval) := by
  have hsome : startAt env t.toValue = .ok (some start) := by
    unfold startAt
    rw [getStr_startAt, htext]
    show (parseTime env text).map some = _
    unfold parseTime
    rw [hparse]
    rfl
  rw [initialNextFire_schedule hk ht hi, hsome]
  by_cases hgt : now.unixNanos < start.unixNanos
  · refine ⟨start, isNext_first (Int.mul_pos (by omega) (by decide)) hgt, rfl, ?_, fun _ hle => absurd hgt (by omega)⟩
    show (if now.unixNanos < start.unixNanos then _ else _) = _
    unfold dated
    rw [if_pos hgt, if_pos hstart]
    rfl
  · have hle : start.unixNanos ≤ now.unixNanos := by omega
    refine ⟨start.plus (secondsToNext start now interval), isNext_secondsToNext (by omega) hle, rfl, ?_,
      fun hnext _ => gridFits_of_representable (by omega) hle hstart hnext⟩
    show (if now.unixNanos < start.unixNanos then _ else _) = _
    rw [if_neg hgt, nextGridPoint_eq (by omega) hle hstart]
    unfold dated
    split <;> rfl

/-- **The first fire time.** A disabled rule and an event rule get none. An enabled schedule gets the next
round after the clock, counted from its start, or one interval from now when it has none: every time there is
such a date, and with no step of the arithmetic outside `i64`. -/
theorem first_fire {t : Trigger} (now : OffsetDateTime)
    (hv : validTrigger (fun text => (env.parseRfc3339 text).isSome) t = true) :
    (∀ enabled, initialNextFire env now t.toValue enabled = .ok none ↔ enabled = false ∨ t.kind = .event) ∧
      (t.kind = .schedule → ∃ interval, t.intervalSeconds = some interval ∧ 0 < interval ∧
        (t.startAt = none → initialNextFire env now t.toValue true = dated (now.plus interval)) ∧
        ∀ text, t.startAt = some text → ∃ start, env.parseRfc3339 text = some start ∧
          (start.Representable → ∃ next : OffsetDateTime,
            IsNext start.unixNanos (periodNanos interval) now.unixNanos next.unixNanos ∧
            next.offset = start.offset ∧ initialNextFire env now t.toValue true = dated next ∧
            (next.Representable → start.unixNanos ≤ now.unixNanos → GridFits start now interval))) := by
  refine ⟨fun enabled => initialNextFire_none, fun hk => ?_⟩
  obtain ⟨⟨interval, ht, hi⟩, hparses⟩ := validTrigger_schedule hv hk
  refine ⟨interval, ht, by omega, initialNextFire_now hk ht hi, fun text htext => ?_⟩
  obtain ⟨start, hparse⟩ := Option.isSome_iff_exists.1 (hparses text htext)
  exact ⟨start, hparse, initialNextFire_start hk ht hi htext hparse⟩

open Sample in
/-- A schedule of two minutes that started half a microsecond past a full minute, five minutes ago. -/
theorem first_fire_nightly :
    let started : OffsetDateTime := ⟨Sample.start + 500, 0⟩
    let now : OffsetDateTime := ⟨Sample.start + 300 * nanosPerSecond, 0⟩
    let fires : OffsetDateTime := ⟨Sample.start + 500 + 360 * nanosPerSecond, 0⟩
    let t := every 120 (some "2030-01-01T00:00:00.0000005Z")
    IsNext started.unixNanos (periodNanos 120) now.unixNanos fires.unixNanos ∧
      initialNextFire Sample.env now t.toValue true = .ok (some fires) := by
  intro started now fires t
  have hruns : initialNextFire Sample.env now t.toValue true = .ok (some fires) := rfl
  obtain ⟨interval, ht, -, -, hstart⟩ := (first_fire (t := t) now (show validTrigger
    (fun text => (Sample.env.parseRfc3339 text).isSome) t = true from rfl)).2 rfl
  obtain ⟨start, hparse, hnext⟩ := hstart _ rfl
  have hstarted : started = start := Option.some.inj hparse
  obtain ⟨next, hleast, -, hdated, -⟩ := hnext (hstarted ▸ by decide)
  have hinterval : (120 : ℤ) = interval := Option.some.inj ht
  have hfires : next = fires := by
    rw [hruns] at hdated
    unfold dated at hdated
    split at hdated
    · exact (Option.some.inj (Except.ok.inj hdated)).symm
    · cases hdated
  rw [hfires, ← hinterval, ← hstarted] at hleast
  exact ⟨hleast, hruns⟩

end ProjectAutomation

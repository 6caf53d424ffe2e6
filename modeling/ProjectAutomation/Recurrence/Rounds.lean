import Mathlib.Algebra.Order.Group.Defs
import Mathlib.Algebra.Order.Monoid.NatCast
import Mathlib.Algebra.Group.Nat.Defs
import Mathlib.Order.Monotone.Basic
import Mathlib.Data.List.Basic

/-!
# Recurring work, one round at a time

The rounds of a schedule are due at `first`, `first + period`, and so on. A round is
waited for, then under way, then ended, and only then is the next one waited for.

* `Standing`, `Moves`: where the schedule stands, and how it goes on.
* `Moves.begun_cases`, `Moves.ended_cases`: rounds begin and end one by one, and one
  begins only when all before it have ended.
* `point`: the time of a round; two rounds have different times (`point_inj`).
-/

namespace Recurrence

/-- Where a recurring schedule stands. -/
inductive Standing where
  /-- round `k` is waited for -/
  | waits (k : ℕ)
  /-- round `k` is under way -/
  | runs (k : ℕ)

namespace Standing

/-- The number of rounds that have begun. -/
def begun : Standing → ℕ
  | .waits k => k
  | .runs k => k + 1

/-- The number of rounds that have ended. -/
def ended : Standing → ℕ
  | .waits k | .runs k => k

/-- How a schedule goes on. -/
inductive Moves : Standing → Standing → Prop
  | stays (c : Standing) : Moves c c
  | begins (k : ℕ) : Moves (.waits k) (.runs k)
  | ends (k : ℕ) : Moves (.runs k) (.waits (k + 1))

variable {c c' : Standing}

/-- A round begins only when all before it have ended. -/
theorem Moves.begun_cases (h : Moves c c') :
    c'.begun = c.begun ∨ (c'.begun = c.begun + 1 ∧ c.ended = c.begun) := by
  cases h with
  | stays => exact Or.inl rfl
  | begins k => exact Or.inr ⟨rfl, rfl⟩
  | ends k => exact Or.inl rfl

theorem Moves.ended_cases (h : Moves c c') : c'.ended = c.ended ∨ c'.ended = c.ended + 1 := by
  cases h with
  | stays => exact Or.inl rfl
  | begins k => exact Or.inl rfl
  | ends k => exact Or.inr rfl

end Standing

section Points

variable {α : Type} [AddCommMonoid α]

/-- The time of a round. -/
def point (first period : α) (k : ℕ) : α := first + k • period

@[simp] theorem point_zero (first period : α) : point first period 0 = first := by
  unfold point; rw [zero_nsmul, add_zero]

/-- Rounds are a period apart. -/
theorem point_succ (first period : α) (k : ℕ) : point first period (k + 1) = point first period k + period := by
  unfold point; rw [succ_nsmul, add_assoc]

/-- The times of the first `k` rounds. -/
def points (first period : α) (k : ℕ) : List α := (List.range k).map (point first period)

theorem points_succ (first period : α) (k : ℕ) :
    points first period (k + 1) = points first period k ++ [point first period k] := by
  unfold points; rw [List.range_succ, List.map_append]; rfl

variable [PartialOrder α] [IsOrderedCancelAddMonoid α] {first period : α}

theorem point_strictMono (h : 0 < period) : StrictMono (point first period) := by
  refine strictMono_nat_of_lt_succ fun k => ?_
  rw [point_succ]
  exact lt_add_of_pos_right _ h

/-- **Two rounds have different times.** -/
theorem point_inj (h : 0 < period) {j k : ℕ} : point first period j = point first period k ↔ j = k :=
  (point_strictMono h).injective.eq_iff

theorem first_le_point (h : 0 < period) (k : ℕ) : first ≤ point first period k := by
  calc
    first = point first period 0 := (point_zero first period).symm
    _ ≤ point first period k := (point_strictMono h).monotone (Nat.zero_le k)

end Points

end Recurrence

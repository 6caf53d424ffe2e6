import Mathlib.Order.Bounds.Basic
import Mathlib.Tactic.Ring
import ProjectAutomation.Recurrence.Rounds

/-!
# The next round of a schedule

The first round later than now, as the least element of a set, and how to compute it:
divide what has elapsed by the period and add one.

* `IsNext`: the least round later than now; there is at most one (`IsNext.unique`).
* `isNext_first`, `isNext_succ`: it is the first round, or the one after a round that is not later.
* `isNext_ediv`: in whole numbers, the round that division finds.
* `ediv_ticks`: the division may be made in ticks of a coarser clock.
-/

namespace Recurrence

section Order

variable {α : Type} [AddCommMonoid α] [LinearOrder α] {first period now t t' : α}

/-- The rounds later than now. -/
def later (first period now : α) : Set α := {t | now < t ∧ ∃ k, t = point first period k}

/-- **The next round**: the least one later than now. -/
def IsNext (first period now t : α) : Prop := IsLeast (later first period now) t

theorem IsNext.unique (h : IsNext first period now t) (h' : IsNext first period now t') : t = t' :=
  IsLeast.unique h h'

variable [IsOrderedCancelAddMonoid α]

/-- Before the first round, that is the next. -/
theorem isNext_first (hp : 0 < period) (h : now < first) : IsNext first period now first := by
  refine ⟨⟨h, 0, (point_zero first period).symm⟩, ?_⟩
  rintro t ⟨-, k, rfl⟩
  exact first_le_point hp k

/-- Between two rounds, the second is the next. -/
theorem isNext_succ (hp : 0 < period) {k : ℕ} (hle : point first period k ≤ now)
    (hlt : now < point first period (k + 1)) : IsNext first period now (point first period (k + 1)) := by
  refine ⟨⟨hlt, k + 1, rfl⟩, ?_⟩
  rintro t ⟨hafter, j, rfl⟩
  have hkj : k < j := (point_strictMono hp).lt_iff_lt.1 (hle.trans_lt hafter)
  exact (point_strictMono hp).monotone hkj

end Order

section Int

variable {first period now : ℤ}

theorem point_int (first period : ℤ) (k : ℕ) : point first period k = first + k * period := by
  unfold point
  rw [nsmul_eq_mul]

/-- **The next round, by division.** -/
theorem isNext_ediv (hp : 0 < period) (hle : first ≤ now) :
    IsNext first period now (first + ((now - first) / period + 1) * period) := by
  obtain ⟨k, hk⟩ := Int.eq_ofNat_of_zero_le (Int.ediv_nonneg (by omega : 0 ≤ now - first) hp.le)
  have hlow := Int.ediv_mul_le (now - first) hp.ne'
  have hhigh := Int.lt_ediv_add_one_mul_self (now - first) hp
  rw [hk] at hlow hhigh ⊢
  have hpoint : first + ((k : ℤ) + 1) * period = point first period (k + 1) := by
    rw [point_int, Nat.cast_add, Nat.cast_one]
  rw [hpoint]
  refine isNext_succ hp ?_ ?_
  · rw [point_int]
    omega
  · rw [← hpoint]
    omega

/-- Ticks of `unit` count the periods of `period * unit`. -/
theorem ediv_ticks {unit : ℤ} (hu : 0 < unit) (elapsed period : ℤ) :
    elapsed / unit / period = elapsed / (period * unit) := by
  rw [Int.ediv_ediv, if_neg (fun h => absurd h.1 (by omega)), sub_zero, mul_comm]

end Int

end Recurrence

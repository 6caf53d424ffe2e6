import Mathlib.Algebra.Order.Ring.Int
import Mathlib.Data.List.Nodup

/-!
# Compare-and-swap registers

A register holds a state under a revision. A swap names the revision it expects and
changes the state only there; each success takes the revision one further. `replay`
carries out a list of swaps that all succeed.

* `replay_revision`: the revision counts the swaps.
* `replay_expected`: they name consecutive revisions, so no two the same one.
-/

namespace Versioned

/-- A state under a revision. -/
structure Register (α : Type) where
  revision : ℤ
  state : α

/-- A change that expects a revision. -/
structure Swap (α : Type) where
  expected : ℤ
  change : α → α

namespace Register

variable {α : Type} {r r' : Register α} {s : Swap α} {ss ts : List (Swap α)}

/-- One compare-and-swap; none when another revision is current. -/
def swap (r : Register α) (s : Swap α) : Option (Register α) :=
  if s.expected = r.revision then some ⟨r.revision + 1, s.change r.state⟩ else none

/-- Swaps one after the other, while all succeed. -/
def replay (r : Register α) : List (Swap α) → Option (Register α)
  | [] => some r
  | s :: ss => (r.swap s).bind (fun r' => r'.replay ss)

theorem swap_eq_some : r.swap s = some r' ↔
    s.expected = r.revision ∧ r' = ⟨r.revision + 1, s.change r.state⟩ := by
  unfold swap
  split
  · rename_i h
    rw [Option.some.injEq, eq_comm (a := r')]
    exact ⟨fun he => ⟨h, he⟩, fun he => he.2⟩
  · rename_i h
    exact ⟨fun he => (by cases he), fun he => absurd he.1 h⟩

theorem replay_append : r.replay (ss ++ ts) = (r.replay ss).bind (fun r' => r'.replay ts) := by
  induction ss generalizing r with
  | nil => rfl
  | cons s ss ih =>
    simp only [List.cons_append, replay]
    cases r.swap s with
    | none => rfl
    | some r₁ => exact ih

theorem replay_cons_eq_some : r.replay (s :: ss) = some r' ↔
    s.expected = r.revision ∧ (Register.mk (r.revision + 1) (s.change r.state)).replay ss = some r' := by
  simp only [replay, Option.bind_eq_some_iff, swap_eq_some]
  constructor
  · rintro ⟨_, ⟨he, rfl⟩, h⟩; exact ⟨he, h⟩
  · rintro ⟨he, h⟩; exact ⟨_, ⟨he, rfl⟩, h⟩

/-- **The revision counts the swaps.** -/
theorem replay_revision (h : r.replay ss = some r') : r'.revision = r.revision + ss.length := by
  induction ss generalizing r with
  | nil => cases h; simp
  | cons s ss ih =>
    have hrest : r'.revision = r.revision + 1 + ss.length := ih (replay_cons_eq_some.1 h).2
    rw [List.length_cons]
    omega

/-- Swaps name the revisions from the first one on, one each. -/
theorem replay_expected (h : r.replay ss = some r') :
    ∀ (i : ℕ) (s : Swap α), ss[i]? = some s → s.expected = r.revision + i := by
  induction ss generalizing r with
  | nil => intro i s hs; cases hs
  | cons s₀ ss ih =>
    obtain ⟨he, h⟩ := replay_cons_eq_some.1 h
    intro i s hs
    cases i with
    | zero => cases hs; simpa using he
    | succ i =>
      have hrest : s.expected = r.revision + 1 + i := ih h i s hs
      omega

/-- **No two swaps expect the same revision.** -/
theorem replay_nodup (h : r.replay ss = some r') : (ss.map Swap.expected).Nodup := by
  induction ss generalizing r with
  | nil => simp
  | cons s ss ih =>
    obtain ⟨he, h⟩ := replay_cons_eq_some.1 h
    rw [List.map_cons, List.nodup_cons]
    refine ⟨fun hm => ?_, ih h⟩
    -- the later swaps expect later revisions
    obtain ⟨t, ht, hte⟩ := List.mem_map.1 hm
    obtain ⟨i, hi⟩ := List.getElem?_of_mem ht
    have hlater : t.expected = r.revision + 1 + i := replay_expected h i t hi
    omega

/-- A revision has one state. -/
theorem replay_eq_of_revision (h : r.replay ss = some r') (hr : r'.revision = r.revision) : r' = r := by
  have hlen := replay_revision h
  have : ss = [] := List.length_eq_zero_iff.1 (by omega)
  subst this
  exact (Option.some.inj h).symm

end Register

end Versioned

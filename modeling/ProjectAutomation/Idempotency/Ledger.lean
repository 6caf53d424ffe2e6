import Mathlib.Logic.Basic

/-!
# Idempotent calls

A service that answers each key once keeps a ledger: for a key, the fingerprint of
the request it was answered for and the response. The `verdict` on a call is read off
the ledger alone, and a ledger that only grows never changes a verdict other than
`fresh` (`Grows.verdict_eq`).
-/

namespace Idempotency

variable {κ η α : Type}

/-- The calls answered so far, by key. -/
abbrev Ledger (κ η α : Type) := κ → Option (η × α)

/-- What a ledger says of a call. -/
inductive Verdict (α : Type) where
  | fresh
  | replay (response : α)
  | conflict

namespace Ledger

/-- The verdict on a call with fingerprint `f` under key `k`. -/
def verdict [DecidableEq η] (L : Ledger κ η α) (k : κ) (f : η) : Verdict α :=
  match L k with
  | none => .fresh
  | some (f', response) => if f' = f then .replay response else .conflict

/-- What is answered stays answered, the same way. -/
def Grows (L L' : Ledger κ η α) : Prop := ∀ k v, L k = some v → L' k = some v

theorem Grows.refl (L : Ledger κ η α) : L.Grows L := fun _ _ h => h

theorem Grows.trans {L₁ L₂ L₃ : Ledger κ η α} (h : L₁.Grows L₂) (h' : L₂.Grows L₃) : L₁.Grows L₃ :=
  fun k v hv => h' k v (h k v hv)

variable [DecidableEq η] {L L' : Ledger κ η α} {k : κ} {f : η} {response : α}

theorem verdict_eq_fresh : L.verdict k f = .fresh ↔ L k = none := by
  unfold verdict
  cases L k with
  | none => simp
  | some v => obtain ⟨f', response⟩ := v; by_cases h : f' = f <;> simp [h]

theorem verdict_eq_replay : L.verdict k f = .replay response ↔ L k = some (f, response) := by
  unfold verdict
  cases L k with
  | none => simp
  | some v => obtain ⟨f', response'⟩ := v; by_cases h : f' = f <;> simp [h]

theorem verdict_eq_conflict : L.verdict k f = .conflict ↔ ∃ f' response, L k = some (f', response) ∧ f' ≠ f := by
  unfold verdict
  cases L k with
  | none => simp
  | some v => obtain ⟨f', response⟩ := v; by_cases h : f' = f <;> simp [h]

/-- **A verdict that is not fresh stays.** -/
theorem Grows.verdict_eq (hg : L.Grows L') (h : L.verdict k f ≠ .fresh) : L'.verdict k f = L.verdict k f := by
  cases hv : L.verdict k f with
  | fresh => exact absurd hv h
  | replay response => exact verdict_eq_replay.2 (hg _ _ (verdict_eq_replay.1 hv))
  | conflict =>
    obtain ⟨f', response, hl, hne⟩ := verdict_eq_conflict.1 hv
    exact verdict_eq_conflict.2 ⟨f', response, hg _ _ hl, hne⟩

end Ledger

end Idempotency

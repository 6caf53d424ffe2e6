import Mathlib.Data.List.Basic

/-!
# Queues served in rounds

Each round takes a quota from the front of a queue and leaves the rest as it was. After any rounds the
queue has lost what their quotas come to (`Rounds.drained`), so an item waits exactly until the round
whose quota reaches its place (`round_of`), and quotas that come to the length empty the queue.
-/

namespace Progress

variable {σ ι α : Type} {serve : σ → ι → σ} {queue : σ → List α} {quota : ι → ℕ} {Good : σ → Prop}
  {Fits : ι → Prop}

/-- What the rounds take together. -/
def quotas (quota : ι → ℕ) : List ι → ℕ
  | [] => 0
  | i :: rounds => quota i + quotas quota rounds

@[simp] theorem quotas_nil : quotas quota [] = 0 := rfl

@[simp] theorem quotas_cons (i : ι) (rounds : List ι) : quotas quota (i :: rounds) = quota i + quotas quota rounds :=
  rfl

/-- A round that fits a good state leaves a good one, and takes its quota from the front. -/
structure Rounds (serve : σ → ι → σ) (queue : σ → List α) (quota : ι → ℕ) (Good : σ → Prop) (Fits : ι → Prop) :
    Prop where
  good : ∀ s i, Good s → Fits i → Good (serve s i)
  takes : ∀ s i, Good s → Fits i → queue (serve s i) = (queue s).drop (quota i)

/-- **What rounds leave.** -/
theorem Rounds.drained (h : Rounds serve queue quota Good Fits) {s : σ} (hs : Good s) {rounds : List ι}
    (hf : ∀ i ∈ rounds, Fits i) :
    Good (rounds.foldl serve s) ∧ queue (rounds.foldl serve s) = (queue s).drop (quotas quota rounds) := by
  induction rounds generalizing s with
  | nil => exact ⟨hs, rfl⟩
  | cons i rounds ih =>
    have hi := hf i List.mem_cons_self
    obtain ⟨hgood, hqueue⟩ := ih (h.good s i hs hi) fun j hj => hf j (List.mem_cons_of_mem i hj)
    refine ⟨hgood, ?_⟩
    rw [quotas_cons, ← List.drop_drop, ← h.takes s i hs hi]
    exact hqueue

/-- **The round that reaches a place.** -/
theorem round_of {rounds : List ι} {place : ℕ} (h : place < quotas quota rounds) : ∃ before i after,
    rounds = before ++ i :: after ∧ quotas quota before ≤ place ∧ place < quotas quota before + quota i := by
  induction rounds generalizing place with
  | nil => exact absurd h (Nat.not_lt_zero _)
  | cons i rounds ih =>
    rw [quotas_cons] at h
    by_cases hi : place < quota i
    · exact ⟨[], i, rounds, rfl, Nat.zero_le _, by rw [quotas_nil]; omega⟩
    · have hrest : place - quota i < quotas quota rounds := by omega
      obtain ⟨before, j, after, rfl, hle, hlt⟩ := ih hrest
      refine ⟨i :: before, j, after, rfl, ?_, ?_⟩ <;> rw [quotas_cons] <;> omega

end Progress

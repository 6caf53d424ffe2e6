import Mathlib.Data.List.Range
import Mathlib.Logic.Function.Basic

/-!
# Steps carried out in order

A sequence of steps has a mark for each. `At σ k`: the steps below `k` are done, those
above it are still to do, and whatever happened, happened to step `k`. A worker that
starts over skips the done steps and comes to the same `k` (`Ordered.at`), and marking
that step keeps the order (`At.step`, `At.mark`).

A `Pass` goes over the steps once: it does those that were not done, in order, up to the one it
stopped at. However many passes it takes, each step is done once and in order (`Pass.reached`).

A loop over a list that counts its turns has the rest of the list at each (`drop_eq_cons`).
-/

namespace Progress

variable {μ : Type} (todo done : μ)

/-- The sequence has come to step `k`. -/
structure At (σ : ℕ → μ) (k : ℕ) : Prop where
  below : ∀ i < k, σ i = done
  above : ∀ i, k < i → σ i = todo

/-- The sequence has come to some step. -/
def Ordered (σ : ℕ → μ) : Prop := ∃ k, At todo done σ k

variable {todo done} {σ : ℕ → μ} {k : ℕ}

/-- Nothing has been done yet. -/
theorem ordered_of_todo (h : ∀ i, σ i = todo) : Ordered todo done σ :=
  ⟨0, fun _ hi => absurd hi (Nat.not_lt_zero _), fun i _ => h i⟩

/-- **The first step that is not done** is the one the sequence has come to. -/
theorem Ordered.at (h : Ordered todo done σ) (hbelow : ∀ i < k, σ i = done) (hk : σ k ≠ done) :
    At todo done σ k := by
  obtain ⟨j, hj⟩ := h
  refine ⟨hbelow, fun i hi => hj.above i ?_⟩
  have : j ≤ k := Nat.not_lt.1 fun hlt => hk (hj.below k hlt)
  omega

/-- A mark on the step the sequence has come to. -/
theorem At.mark (h : At todo done σ k) (m : μ) : At todo done (Function.update σ k m) k := by
  refine ⟨fun i hi => ?_, fun i hi => ?_⟩
  · rw [Function.update_of_ne (Nat.ne_of_lt hi)]; exact h.below i hi
  · rw [Function.update_of_ne (Nat.ne_of_gt hi)]; exact h.above i hi

/-- Once its step is done, the sequence has come to the next. -/
theorem At.step (h : At todo done σ k) : At todo done (Function.update σ k done) (k + 1) := by
  refine ⟨fun i hi => ?_, fun i hi => ?_⟩
  · rcases Nat.lt_or_eq_of_le (Nat.le_of_lt_succ hi) with hlt | rfl
    · rw [Function.update_of_ne (Nat.ne_of_lt hlt)]; exact h.below i hlt
    · exact Function.update_self ..
  · rw [Function.update_of_ne (by omega)]; exact h.above i (by omega)

/-! ## Passes -/

section Pass

variable {n m stop : ℕ} {did : List ℕ} {fin fin' : ℕ → Bool}

/-- A pass over `n` steps, of which `fin` were done, that stopped at `stop`. -/
structure Pass (n : ℕ) (fin fin' : ℕ → Bool) (stop : ℕ) (did : List ℕ) : Prop where
  within : stop ≤ n
  did_eq : did = (List.range stop).filter (fun i => !fin i)
  after : ∀ i < n, fin' i = (fin i || decide (i < stop))

/-- The steps that are done are those below `m`. -/
structure Reached (n : ℕ) (fin : ℕ → Bool) (m : ℕ) : Prop where
  within : m ≤ n
  fin_iff : ∀ i < n, fin i = decide (i < m)

/-- What a pass does of the first `stop` steps, when those below `m` were done. -/
theorem range_append_filter (m stop : ℕ) :
    List.range m ++ (List.range stop).filter (fun i => !decide (i < m)) = List.range (max m stop) := by
  induction stop with
  | zero => simp
  | succ stop ih =>
    rw [List.range_succ, List.filter_append, ← List.append_assoc, ih]
    by_cases hlt : stop < m
    · have hskip : max m (stop + 1) = max m stop := by omega
      rw [hskip]
      simp [hlt]
    · have hmax : max m stop = stop := by omega
      have hnext : max m (stop + 1) = stop + 1 := by omega
      rw [hmax, hnext, List.range_succ]
      simp [hlt]

/-- **A pass goes on where the last one stopped.** -/
theorem Pass.reached (h : Pass n fin fin' stop did) (hm : Reached n fin m) :
    Reached n fin' (max m stop) ∧ List.range m ++ did = List.range (max m stop) := by
  have hwithin := h.within
  have hfin : ∀ i < stop, fin i = decide (i < m) := fun i hi => hm.fin_iff i (by omega)
  constructor
  · refine ⟨max_le hm.within h.within, fun i hi => ?_⟩
    rw [h.after i hi, hm.fin_iff i hi, Bool.eq_iff_iff]
    simp only [Bool.or_eq_true, decide_eq_true_eq]
    omega
  · rw [h.did_eq, ← range_append_filter]
    congr 1
    apply List.filter_congr
    intro i hi
    rw [hfin i (List.mem_range.1 hi)]

end Pass

/-! ## Loops -/

/-- A loop that has come to `index`, and still has `a :: rest` before it. -/
theorem drop_eq_cons {α : Type} {l rest : List α} {index : ℕ} {a : α} (h : l.drop index = a :: rest) :
    index < l.length ∧ l[index]? = some a ∧ l.drop (index + 1) = rest := by
  have hlt : index < l.length := by
    by_contra hge
    rw [List.drop_eq_nil_iff.2 (by omega)] at h
    cases h
  rw [List.drop_eq_getElem_cons hlt] at h
  obtain ⟨ha, hrest⟩ := List.cons.inj h
  exact ⟨hlt, by rw [List.getElem?_eq_getElem hlt, ha], hrest⟩

end Progress

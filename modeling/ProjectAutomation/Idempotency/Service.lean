import Mathlib.Data.List.Nodup
import Mathlib.Data.List.Infix

/-!
# A service that takes each key once

What a service took is a log of requests, in order; a request under a key it has
taken before is not taken again. A client with steps to do, one key each, wants them
taken in order.

* `take`: one more request, unless its key was taken; `nodup_take`, `mem_keys_take`.
* `InOrder`: of the keys of a client, the service has taken the first ones, in their order.
* `InOrder.next`: it stays so if no step is asked for before the earlier ones are taken.
* `InOrder.all`: once they are all taken, each was taken once, in order.
-/

namespace Idempotency

variable {κ α : Type} [DecidableEq κ] {key : α → κ}

/-- A request is taken unless its key was. -/
def take (key : α → κ) (a : α) (log : List α) : List α :=
  if key a ∈ log.map key then log else log ++ [a]

section Take

variable {a x : α} {log : List α}

theorem take_of_mem (h : key a ∈ log.map key) : take key a log = log := if_pos h

theorem take_of_not_mem (h : key a ∉ log.map key) : take key a log = log ++ [a] := if_neg h

theorem mem_take (h : x ∈ take key a log) : x ∈ log ∨ x = a := by
  unfold take at h
  split at h
  · exact Or.inl h
  · exact (List.mem_append.1 h).imp id List.mem_singleton.1

/-- The key was taken, by this request or before. -/
theorem mem_keys_take (a : α) (log : List α) : key a ∈ (take key a log).map key := by
  by_cases h : key a ∈ log.map key
  · rw [take_of_mem h]
    exact h
  · rw [take_of_not_mem h, List.map_append]
    simp

theorem keys_subset_take {k : κ} (h : k ∈ log.map key) : k ∈ (take key a log).map key := by
  unfold take
  split
  · exact h
  · rw [List.map_append]
    exact List.mem_append_left _ h

theorem prefix_take : log <+: take key a log := by
  unfold take
  split
  · exact List.prefix_refl log
  · exact List.prefix_append log [a]

/-- **No key is taken twice.** -/
theorem nodup_take (h : (log.map key).Nodup) : ((take key a log).map key).Nodup := by
  by_cases ha : key a ∈ log.map key
  · rw [take_of_mem ha]
    exact h
  · rw [take_of_not_mem ha, List.map_append, List.nodup_append]
    refine ⟨h, by simp, ?_⟩
    rintro k hk k' hk' rfl
    have hk' : k = key a := by simpa using hk'
    exact ha (hk' ▸ hk)

end Take

/-! ## The steps of one client -/

/-- Of the keys `ks`, in the order of their steps, the log has the first ones, in that order. -/
def InOrder (ks log : List κ) : Prop := log.filter (fun k => k ∈ ks) <+: ks

section InOrder

variable {ks log : List κ} {k : κ}

/-- Nothing of the client was taken. -/
theorem inOrder_of_disjoint (h : ∀ x ∈ log, x ∉ ks) : InOrder ks log := by
  have hnone : log.filter (fun x => x ∈ ks) = [] :=
    List.filter_eq_nil_iff.2 fun x hx => by simpa using h x hx
  unfold InOrder
  rw [hnone]
  exact List.nil_prefix

/-- A key of another client. -/
theorem InOrder.skip (h : InOrder ks log) (hk : k ∉ ks) : InOrder ks (log ++ [k]) := by
  unfold InOrder at h ⊢
  have hnone : [k].filter (fun x => x ∈ ks) = [] := by simp [hk]
  rwa [List.filter_append, hnone, List.append_nil]

omit [DecidableEq κ] in
/-- A key is split off where it stands. -/
theorem nodup_split {p t : List κ} {x : κ} (hks : (p ++ x :: t).Nodup) : x ∉ p :=
  fun hx => (List.nodup_append.1 hks).2.2 x hx x List.mem_cons_self rfl

/-- **The next step is taken.** The key at `i` is new, and those before it were taken. -/
theorem InOrder.next {i : ℕ} (h : InOrder ks log) (hks : ks.Nodup) (hi : ks[i]? = some k)
    (hbefore : ∀ j < i, ∀ x, ks[j]? = some x → x ∈ log) (hnew : k ∉ log) : InOrder ks (log ++ [k]) := by
  have hmem : k ∈ ks := List.mem_of_getElem? hi
  obtain ⟨t, ht⟩ := h
  have hp : ∀ x, x ∈ log.filter (fun x => x ∈ ks) ↔ x ∈ log ∧ x ∈ ks := fun x => by simp
  have hkp : k ∉ log.filter (fun x => x ∈ ks) := fun hk => hnew ((hp k).1 hk).1
  unfold InOrder
  have hlast : [k].filter (fun x => x ∈ ks) = [k] := by simp [hmem]
  rw [List.filter_append, hlast]
  generalize log.filter (fun x => x ∈ ks) = p at ht hp hkp
  cases t with
  | nil =>
    -- every step was taken, this one too
    rw [List.append_nil] at ht
    exact absurd (ht ▸ hmem) hkp
  | cons x t =>
    have hx : ks[p.length]? = some x := by
      rw [← ht, List.getElem?_append_right (Nat.le_refl _), Nat.sub_self]
      rfl
    have hxp : x ∉ p := nodup_split (ht ▸ hks)
    -- the step asked for is the first that was not taken
    have hpos : i = p.length := by
      rcases Nat.lt_trichotomy i p.length with hlt | heq | hgt
      · rw [← ht, List.getElem?_append_left hlt] at hi
        exact absurd (List.mem_of_getElem? hi) hkp
      · exact heq
      · have hxlog := hbefore p.length hgt x hx
        exact absurd ((hp x).2 ⟨hxlog, List.mem_of_getElem? hx⟩) hxp
    have hxk : x = k := by
      rw [hpos, hx] at hi
      exact Option.some.inj hi
    refine ⟨t, ?_⟩
    rw [← ht, hxk, List.append_assoc]
    rfl

/-- **All steps taken**: each once, in order. -/
theorem InOrder.all (h : InOrder ks log) (hks : ks.Nodup) (hall : ∀ x ∈ ks, x ∈ log) :
    log.filter (fun k => k ∈ ks) = ks := by
  obtain ⟨t, ht⟩ := h
  cases t with
  | nil => rwa [List.append_nil] at ht
  | cons x t =>
    have hx : x ∈ ks := by
      rw [← ht]
      exact List.mem_append_right _ List.mem_cons_self
    have hxp : x ∈ log.filter (fun k => k ∈ ks) := List.mem_filter.2 ⟨hall x hx, by simpa using hx⟩
    generalize log.filter (fun k => k ∈ ks) = p at ht hxp
    exact absurd hxp (nodup_split (ht ▸ hks))

end InOrder

end Idempotency

import Mathlib.Data.List.Basic
import Mathlib.Data.Nat.Notation
import Mathlib.Data.Int.Notation

/-!
# Texts made of parts

A text made of a free part, a separator and a number determines both: the number's
digits cannot hold the separator, so the last separator is where they begin.

* `join_inj`: the rule for a last part without the separator.
* `join_int_inj`, `join_nat_inj`: with a number as the last part.
-/

namespace Text

theorem list_append_cons_inj {α : Type} {c : α} {a b x y : List α} (hx : c ∉ x) (hy : c ∉ y)
    (h : a ++ c :: x = b ++ c :: y) : a = b ∧ x = y := by
  induction a generalizing b with
  | nil =>
    cases b with
    | nil => simpa using h
    | cons d b =>
      rw [List.nil_append, List.cons_append, List.cons.injEq] at h
      exact absurd (by rw [h.2]; simp) hx
  | cons d a ih =>
    cases b with
    | nil =>
      rw [List.nil_append, List.cons_append, List.cons.injEq] at h
      exact absurd (by rw [← h.2]; simp) hy
    | cons e b =>
      rw [List.cons_append, List.cons_append, List.cons.injEq] at h
      obtain ⟨rfl, h⟩ := h
      obtain ⟨rfl, rfl⟩ := ih h
      exact ⟨rfl, rfl⟩

/-- **The separator splits the text in one way.** -/
theorem join_inj {sep a b x y : String} {c : Char} (hsep : sep.toList = [c]) (hx : c ∉ x.toList)
    (hy : c ∉ y.toList) (h : a ++ sep ++ x = b ++ sep ++ y) : a = b ∧ x = y := by
  have hl : a.toList ++ c :: x.toList = b.toList ++ c :: y.toList := by
    simpa [hsep] using congrArg String.toList h
  obtain ⟨ha, hx⟩ := list_append_cons_inj hx hy hl
  exact ⟨String.toList_inj.1 ha, String.toList_inj.1 hx⟩

theorem not_mem_nat {c : Char} (hc : c.isDigit = false) (n : ℕ) : c ∉ (toString n).toList := by
  intro h
  rw [Nat.toString_eq_repr, Nat.toList_repr] at h
  rw [Nat.isDigit_of_mem_toDigits (by decide) (by decide) h] at hc
  cases hc

theorem not_mem_int {c : Char} (hc : c.isDigit = false) (hm : c ≠ '-') (n : ℤ) :
    c ∉ (toString n).toList := by
  intro h
  rw [Int.toString_eq_repr, Int.repr_eq_if] at h
  split at h
  · exact not_mem_nat hc _ (by simpa using h)
  · rw [String.toList_append, List.mem_append] at h
    rcases h with h | h
    · exact hm (by simpa using h)
    · exact not_mem_nat hc _ (by simpa using h)

theorem toString_nat_inj {n m : ℕ} (h : toString n = toString m) : n = m := by
  have hl : Nat.toDigits 10 n = Nat.toDigits 10 m := by
    simpa only [Nat.toString_eq_repr, Nat.toList_repr] using congrArg String.toList h
  simpa using congrArg (fun ds => Nat.ofDigitChars 10 ds 0) hl

theorem toString_int_inj {n m : ℤ} (h : toString n = toString m) : n = m := by
  have hminus : ∀ k l : ℕ, k.repr ≠ "-" ++ l.repr := by
    intro k l hk
    apply not_mem_nat (c := '-') (by decide) k
    rw [Nat.toString_eq_repr, hk]
    simp
  rw [Int.toString_eq_repr, Int.toString_eq_repr, Int.repr_eq_if, Int.repr_eq_if] at h
  split at h <;> split at h
  · have := toString_nat_inj h; omega
  · exact absurd h (hminus _ _)
  · exact absurd h.symm (hminus _ _)
  · have hl : (-n).toNat.repr = (-m).toNat.repr := by
      simpa using h
    have := toString_nat_inj hl; omega

theorem join_nat_inj {sep a b : String} {c : Char} {n m : ℕ} (hsep : sep.toList = [c])
    (hc : c.isDigit = false) (h : a ++ sep ++ toString n = b ++ sep ++ toString m) : a = b ∧ n = m := by
  obtain ⟨ha, hn⟩ := join_inj hsep (not_mem_nat hc n) (not_mem_nat hc m) h
  exact ⟨ha, toString_nat_inj hn⟩

theorem join_int_inj {sep a b : String} {c : Char} {n m : ℤ} (hsep : sep.toList = [c])
    (hc : c.isDigit = false) (hm : c ≠ '-') (h : a ++ sep ++ toString n = b ++ sep ++ toString m) :
    a = b ∧ n = m := by
  obtain ⟨ha, hn⟩ := join_inj hsep (not_mem_int hc hm n) (not_mem_int hc hm m) h
  exact ⟨ha, toString_int_inj hn⟩

end Text

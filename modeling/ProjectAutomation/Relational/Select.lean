import Mathlib.Data.List.Sort
import Mathlib.Data.Prod.Lex
import ProjectAutomation.Relational.Table

/-!
# Ordered selections

`SELECT … WHERE p ORDER BY r` over a table, for an order given by a reading `f` of the
rows in a linear order. When `f` tells the selected rows apart, the answer is the only list
of these rows that increases strictly in `f` (`select_eq`). So numbers without a gap are read off
one after the other (`select_numbered`), and a write of its first row either leaves the rest
(`select_put_unselected`) or puts the new row first (`select_put_selected`).
-/

namespace Relational

/-- The rows in the order of a reading. -/
structure OrderedBy {ρ ο : Type} [LE ο] (r : ρ → ρ → Prop) (f : ρ → ο) : Prop where
  iff : ∀ a b, r a b ↔ f a ≤ f b

namespace Table

variable {ρ κ ο : Type} {key : ρ → κ} [LinearOrder ο] {t t' : Table key} {p : ρ → Bool} {r : ρ → ρ → Prop}
  [DecidableRel r] {f : ρ → ο}

/-- `SELECT … WHERE p ORDER BY r`. -/
def select (t : Table key) (p : ρ → Bool) (r : ρ → ρ → Prop) [DecidableRel r] : List ρ :=
  (t.rows.filter p).insertionSort r

theorem mem_select {x : ρ} : x ∈ t.select p r ↔ x ∈ t ∧ p x = true := by
  unfold select
  rw [List.mem_insertionSort, List.mem_filter, mem_rows]

/-- The reading tells the selected rows apart. -/
def Separates (t : Table key) (p : ρ → Bool) (f : ρ → ο) : Prop :=
  ∀ a ∈ t, ∀ b ∈ t, p a = true → p b = true → f a = f b → a = b

omit [LinearOrder ο] in
/-- A reading that determines the key separates every selection. -/
theorem separates_of_key (h : ∀ a b, f a = f b → key a = key b) : t.Separates p f :=
  fun _ ha _ hb _ _ he => eq_of_key ha hb (h _ _ he)

/-- **The answer increases strictly.** -/
theorem select_strict (hr : OrderedBy r f) (hf : t.Separates p f) :
    (t.select p r).Pairwise (fun a b => f a < f b) := by
  have : Std.Total r := ⟨fun a b => by rw [hr.iff, hr.iff]; exact le_total _ _⟩
  have : IsTrans ρ r := ⟨fun a b c hab hbc => by rw [hr.iff] at *; exact hab.trans hbc⟩
  have hle : (t.select p r).Pairwise r := List.pairwise_insertionSort r _
  have hrows : t.rows.Nodup := t.nodup.of_map
  have hnodup : (t.select p r).Nodup :=
    (List.perm_insertionSort r _).nodup_iff.2 (hrows.filter _)
  refine (hle.and hnodup).imp_of_mem fun {a b} ha hb h => ?_
  obtain ⟨hab, hne⟩ := h
  rw [hr.iff] at hab
  have ha := mem_select.1 ha
  have hb := mem_select.1 hb
  exact lt_of_le_of_ne hab fun he => hne (hf a ha.1 b hb.1 ha.2 hb.2 he)

/-- **The answer is the strictly increasing list of the rows.** -/
theorem select_eq (hr : OrderedBy r f) (hf : t.Separates p f) {l : List ρ}
    (hl : l.Pairwise (fun a b => f a < f b)) (hmem : ∀ x, x ∈ l ↔ x ∈ t ∧ p x = true) : t.select p r = l := by
  have : Std.Irrefl (fun a b : ρ => f a < f b) := ⟨fun _ => lt_irrefl _⟩
  have : Std.Antisymm (fun a b : ρ => f a < f b) := ⟨fun _ _ h h' => absurd h h'.asymm⟩
  exact (select_strict hr hf).eq_of_mem_iff hl fun x => mem_select.trans (hmem x).symm

/-- **Numbers without a gap** are read off the answer one after the other. -/
theorem select_numbered {g : ρ → ℕ} (hr : OrderedBy r g) (hg : t.Separates p g) {first n : ℕ}
    (h : ∀ i, (∃ x ∈ t, p x = true ∧ g x = i) ↔ first ≤ i ∧ i < first + n) :
    (t.select p r).map g = List.range' first n := by
  have hstrict : ((t.select p r).map g).Pairwise (· < ·) := List.pairwise_map.2 (select_strict hr hg)
  refine hstrict.eq_of_mem_iff List.pairwise_lt_range' fun i => ?_
  rw [List.mem_map, List.mem_range'_1, ← h i]
  constructor
  · rintro ⟨x, hx, rfl⟩
    exact ⟨x, (mem_select.1 hx).1, (mem_select.1 hx).2, rfl⟩
  · rintro ⟨x, hx, hp, rfl⟩
    exact ⟨x, mem_select.2 ⟨hx, hp⟩, rfl⟩

section Put

variable {x x' : ρ} {rest : List ρ}

/-- Behind its first row an answer has the rows with another key. -/
theorem mem_select_tail (hr : OrderedBy r f) (hf : t.Separates p f) (hsel : t.select p r = x :: rest) {y : ρ} :
    y ∈ rest ↔ (y ∈ t ∧ key y ≠ key x) ∧ p y = true := by
  have hstrict := select_strict hr hf
  have hmem : ∀ y, y ∈ x :: rest ↔ y ∈ t ∧ p y = true := fun y => by
    rw [← hsel]
    exact mem_select
  rw [hsel] at hstrict
  constructor
  · intro hy
    obtain ⟨hyt, hpy⟩ := (hmem y).1 (List.mem_cons_of_mem x hy)
    refine ⟨⟨hyt, fun he => ?_⟩, hpy⟩
    have hyx : y = x := eq_of_key hyt ((hmem x).1 List.mem_cons_self).1 he
    exact lt_irrefl _ (hyx ▸ List.rel_of_pairwise_cons hstrict hy)
  · rintro ⟨⟨hyt, hne⟩, hpy⟩
    refine (List.mem_cons.1 ((hmem y).2 ⟨hyt, hpy⟩)).resolve_left ?_
    rintro rfl
    exact hne rfl

/-- The first row of an answer is written so that it is no longer selected: the others remain. -/
theorem select_put_unselected (hr : OrderedBy r f) (hf : t.Separates p f) (hf' : t'.Separates p f)
    (hsel : t.select p r = x :: rest) (hput : t.Put x' t') (hkey : key x' = key x) (hp : p x' = false) :
    t'.select p r = rest := by
  have hstrict := select_strict hr hf
  rw [hsel] at hstrict
  refine select_eq hr hf' hstrict.of_cons fun y => ?_
  rw [mem_select_tail hr hf hsel, hput y, hkey]
  constructor
  · rintro ⟨hy, hpy⟩
    exact ⟨Or.inr hy, hpy⟩
  · rintro ⟨rfl | hy, hpy⟩
    · rw [hp] at hpy
      cases hpy
    · exact ⟨hy, hpy⟩

/-- The first row of an answer is written at its place: it is still the first. -/
theorem select_put_selected (hr : OrderedBy r f) (hf : t.Separates p f) (hf' : t'.Separates p f)
    (hsel : t.select p r = x :: rest) (hput : t.Put x' t') (hkey : key x' = key x) (hp : p x' = true)
    (hplace : f x' = f x) : t'.select p r = x' :: rest := by
  have hstrict := select_strict hr hf
  rw [hsel, List.pairwise_cons, ← hplace] at hstrict
  refine select_eq hr hf' (List.pairwise_cons.2 hstrict) fun y => ?_
  rw [List.mem_cons, mem_select_tail hr hf hsel, hput y, hkey]
  constructor
  · rintro (rfl | ⟨hy, hpy⟩)
    · exact ⟨Or.inl rfl, hp⟩
    · exact ⟨Or.inr hy, hpy⟩
  · rintro ⟨rfl | hy, hpy⟩
    · exact Or.inl rfl
    · exact Or.inr ⟨hy, hpy⟩

end Put

end Table

end Relational

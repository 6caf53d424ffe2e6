import Mathlib.Data.List.Nodup
import Mathlib.Data.List.Sort

/-!
# Tables with a primary key

A `Table key` is a list of rows in insertion order, at most one for each value of
the primary key `key`. The operations are the statements a relational store
offers, and each keeps the key unique, so no later proof has to show it again.

* `insert?`: `INSERT`, refused when the key is taken.
* `update`: `UPDATE … SET f WHERE p`, for an assignment that leaves the key alone.
* `find?`: the row at a key.
* `affected`: the number of rows a condition selects.
* `Put`: one table is another with a row at its key, however it got there.
-/

namespace Relational

/-- Rows in insertion order, at most one for each key. -/
structure Table {ρ κ : Type} (key : ρ → κ) where
  rows : List ρ
  nodup : (rows.map key).Nodup

namespace Table

variable {ρ κ : Type} {key : ρ → κ}

instance : Membership ρ (Table key) := ⟨fun t r => r ∈ t.rows⟩

theorem mem_rows {t : Table key} {r : ρ} : r ∈ t.rows ↔ r ∈ t := Iff.rfl

theorem mem_of_rows_append {t t' : Table key} {rs : List ρ} (h : t'.rows = t.rows ++ rs) {x : ρ} :
    x ∈ t' ↔ x ∈ t ∨ x ∈ rs := by
  rw [← mem_rows, h, List.mem_append, mem_rows]

theorem ext {t t' : Table key} (h : t.rows = t'.rows) : t = t' := by
  cases t; cases t'; cases h; rfl

/-- The table with no row. -/
def empty : Table key := ⟨[], by simp⟩

@[simp] theorem not_mem_empty (r : ρ) : r ∉ (empty : Table key) := by
  show r ∉ ([] : List ρ); simp

/-- **Rows with the same key are the same row.** -/
theorem eq_of_key {t : Table key} {r r' : ρ} (h : r ∈ t) (h' : r' ∈ t) (hk : key r = key r') :
    r = r' :=
  List.inj_on_of_nodup_map t.nodup h h' hk

/-! ## Reading -/

section Find

variable [DecidableEq κ]

/-- The row at a key. -/
def find? (t : Table key) (k : κ) : Option ρ := t.rows.find? (fun r => key r = k)

theorem find?_eq_some {t : Table key} {k : κ} {r : ρ} : t.find? k = some r ↔ r ∈ t ∧ key r = k := by
  constructor
  · intro h
    exact ⟨List.mem_of_find?_eq_some h, by simpa using List.find?_some h⟩
  · rintro ⟨hr, hk⟩
    cases hf : t.find? k with
    | none =>
      have := List.find?_eq_none.1 hf r hr
      simp [hk] at this
    | some r' =>
      have hr' : r' ∈ t := List.mem_of_find?_eq_some hf
      have hk' : key r' = k := by simpa using List.find?_some hf
      rw [eq_of_key hr hr' (hk.trans hk'.symm)]

theorem find?_eq_none {t : Table key} {k : κ} : t.find? k = none ↔ ∀ r ∈ t, key r ≠ k := by
  unfold find?
  rw [List.find?_eq_none]
  simp only [decide_eq_true_eq]
  exact Iff.rfl

/-- Two tables with the same rows at a key find the same row there. -/
theorem find?_congr {t t' : Table key} {k : κ} (h : ∀ r, key r = k → (r ∈ t' ↔ r ∈ t)) :
    t'.find? k = t.find? k := by
  cases hf : t.find? k with
  | none =>
    rw [find?_eq_none] at hf ⊢
    exact fun r hr hk => hf r ((h r hk).1 hr) hk
  | some r =>
    rw [find?_eq_some] at hf ⊢
    exact ⟨(h r hf.2).2 hf.1, hf.2⟩

theorem find?_of_mem {t : Table key} {r : ρ} (h : r ∈ t) : t.find? (key r) = some r :=
  find?_eq_some.2 ⟨h, rfl⟩

end Find

/-- The number of rows a condition selects. -/
def affected (t : Table key) (p : ρ → Bool) : ℕ := t.rows.countP p

theorem affected_pos {t : Table key} {p : ρ → Bool} : 0 < t.affected p ↔ ∃ r ∈ t, p r = true :=
  List.countP_pos_iff

/-- A condition that fixes the key selects at most one row. -/
theorem affected_le_one {t : Table key} {p : ρ → Bool} {k : κ} (hp : ∀ r ∈ t, p r = true → key r = k) :
    t.affected p ≤ 1 := by
  unfold affected
  rw [List.countP_eq_length_filter]
  have hn : ((t.rows.filter p).map key).Nodup :=
    t.nodup.sublist (List.Sublist.map key List.filter_sublist)
  have hk : ∀ r ∈ t.rows.filter p, key r = k := fun r hr =>
    hp r (List.mem_of_mem_filter hr) (List.mem_filter.1 hr).2
  match hl : t.rows.filter p with
  | [] => simp
  | [_] => simp
  | a :: b :: l =>
    rw [hl] at hn hk
    have := hk a (by simp)
    have := hk b (by simp)
    simp_all

theorem affected_eq_one {t : Table key} {p : ρ → Bool} {k : κ} (hp : ∀ r ∈ t, p r = true → key r = k) :
    t.affected p = 1 ↔ ∃ r ∈ t, p r = true := by
  have h1 := affected_le_one hp
  rw [← affected_pos]; omega

/-! ## Writing -/

/-- `INSERT`: the row goes last; none when its key is taken. -/
def insert? [DecidableEq κ] (t : Table key) (r : ρ) : Option (Table key) :=
  if h : key r ∈ t.rows.map key then none
  else some ⟨t.rows ++ [r], by
    rw [List.map_append, List.nodup_append]
    refine ⟨t.nodup, by simp, ?_⟩
    rintro a ha b hb rfl
    simp only [List.map_cons, List.map_nil, List.mem_singleton] at hb
    exact h (hb ▸ ha)⟩

section Insert

variable [DecidableEq κ]

theorem insert?_eq_some {t t' : Table key} {r : ρ} :
    t.insert? r = some t' ↔ (∀ r' ∈ t, key r' ≠ key r) ∧ t'.rows = t.rows ++ [r] := by
  unfold insert?
  split
  · rename_i h
    obtain ⟨r', hr', hk⟩ := List.mem_map.1 h
    simp only [reduceCtorEq, false_iff, not_and]
    intro hne _
    exact hne r' hr' hk
  · rename_i h
    simp only [Option.some.injEq]
    constructor
    · rintro rfl
      exact ⟨fun r' hr' hk => h (List.mem_map.2 ⟨r', hr', hk⟩), rfl⟩
    · rintro ⟨-, h'⟩
      exact ext h'.symm

theorem insert?_eq_none {t : Table key} {r : ρ} : t.insert? r = none ↔ ∃ r' ∈ t, key r' = key r := by
  unfold insert?
  split
  · rename_i h
    simp only [true_iff]
    exact List.mem_map.1 h
  · rename_i h
    simp only [reduceCtorEq, false_iff, not_exists, not_and]
    exact fun r' hr' hk => h (List.mem_map.2 ⟨r', hr', hk⟩)

theorem mem_insert? {t t' : Table key} {r x : ρ} (h : t.insert? r = some t') :
    x ∈ t' ↔ x ∈ t ∨ x = r := by
  rw [mem_of_rows_append (insert?_eq_some.1 h).2, List.mem_singleton]

end Insert

/-- An assignment that leaves the primary key alone. -/
structure KeepsKey (key : ρ → κ) (f : ρ → ρ) : Prop where
  key_eq : ∀ r, key (f r) = key r

/-- `UPDATE … SET f WHERE p`. -/
def update (t : Table key) (p : ρ → Bool) (f : ρ → ρ) (hf : KeepsKey key f) : Table key :=
  ⟨t.rows.map (fun r => if p r then f r else r), by
    rw [List.map_map]
    have : (key ∘ fun r => if p r then f r else r) = key := by
      funext r
      simp only [Function.comp_apply]
      split
      · exact hf.key_eq r
      · rfl
    rw [this]; exact t.nodup⟩

section Update

variable {t : Table key} {p : ρ → Bool} {f : ρ → ρ} {hf : KeepsKey key f}

theorem rows_update : (t.update p f hf).rows = t.rows.map (fun r => if p r then f r else r) := rfl

theorem mem_update {x : ρ} : x ∈ t.update p f hf ↔ ∃ r ∈ t, (if p r then f r else r) = x :=
  List.mem_map

/-- A row outside the condition is left alone. -/
theorem mem_update_of_not {r : ρ} (h : r ∈ t) (hp : p r = false) : r ∈ t.update p f hf :=
  mem_update.2 ⟨r, h, by simp [hp]⟩

theorem mem_update_of {r : ρ} (h : r ∈ t) (hp : p r = true) : f r ∈ t.update p f hf :=
  mem_update.2 ⟨r, h, by simp [hp]⟩

/-- An update whose condition selects nothing changes nothing. -/
theorem update_eq_self (h : ∀ r ∈ t, p r = false) : t.update p f hf = t := by
  apply ext
  rw [rows_update]
  conv_rhs => rw [← List.map_id t.rows]
  apply List.map_congr_left
  intro r hr
  simp [h r hr]

/-- What an update leaves alone on every row it also leaves alone on the whole table. -/
theorem map_update {β : Type} {g : ρ → β} (hf : KeepsKey key f) (h : ∀ r, p r = true → g (f r) = g r) :
    (t.update p f hf).rows.map g = t.rows.map g := by
  rw [rows_update, List.map_map]
  apply List.map_congr_left
  intro r _
  simp only [Function.comp_apply]
  split
  · exact h r (by assumption)
  · rfl

end Update

/-! ## One row written -/

/-- `t'` is `t` with `r` at its key, in place of the row that was there, if any. -/
def Put (t : Table key) (r : ρ) (t' : Table key) : Prop :=
  ∀ x, x ∈ t' ↔ x = r ∨ (x ∈ t ∧ key x ≠ key r)

section Put

variable {t t' : Table key} {r x : ρ}

theorem Put.mem (h : t.Put r t') : r ∈ t' := (h r).2 (Or.inl rfl)

theorem Put.of_ne (h : t.Put r t') (hx : x ∈ t) (hk : key x ≠ key r) : x ∈ t' := (h x).2 (Or.inr ⟨hx, hk⟩)

theorem Put.cases (h : t.Put r t') (hx : x ∈ t') : x = r ∨ (x ∈ t ∧ key x ≠ key r) := (h x).1 hx

theorem Put.exists_key {k : κ} (h : t.Put r t') (hk : ∃ x ∈ t, key x = k) : ∃ x ∈ t', key x = k := by
  obtain ⟨x, hx, rfl⟩ := hk
  by_cases hr : key x = key r
  · exact ⟨r, h.mem, hr.symm⟩
  · exact ⟨x, h.of_ne hx hr, rfl⟩

theorem put_of_insert? [DecidableEq κ] (h : t.insert? r = some t') : t.Put r t' := by
  intro x
  rw [mem_insert? h]
  constructor
  · rintro (hx | rfl)
    · exact Or.inr ⟨hx, (insert?_eq_some.1 h).1 x hx⟩
    · exact Or.inl rfl
  · rintro (rfl | ⟨hx, -⟩)
    · exact Or.inr rfl
    · exact Or.inl hx

/-- An update that selects `o`, and no row with another key, puts the new row in its place. -/
theorem put_of_update {p : ρ → Bool} {f : ρ → ρ} (hf : KeepsKey key f) {o : ρ} (ho : o ∈ t)
    (hpo : p o = true) (hkey : ∀ x ∈ t, p x = true → key x = key o) : t.Put (f o) (t.update p f hf) := by
  have hp : ∀ x ∈ t, p x = true ↔ x = o := by
    intro x hx
    exact ⟨fun hpx => eq_of_key hx ho (hkey x hx hpx), fun he => he ▸ hpo⟩
  intro x
  rw [mem_update]
  constructor
  · rintro ⟨y, hy, rfl⟩
    by_cases hpy : p y = true
    · rw [if_pos hpy, (hp y hy).1 hpy]; exact Or.inl rfl
    · rw [if_neg hpy]
      refine Or.inr ⟨hy, fun hk => hpy ((hp y hy).2 ?_)⟩
      exact eq_of_key hy ho (hk.trans (hf.key_eq o))
  · rintro (rfl | ⟨hx, hk⟩)
    · exact ⟨o, ho, by rw [if_pos ((hp o ho).2 rfl)]⟩
    · refine ⟨x, hx, if_neg fun hpx => hk ?_⟩
      rw [(hp x hx).1 hpx, hf.key_eq o]

/-- The row that was put is the one found at its key. -/
theorem Put.find?_eq [DecidableEq κ] (h : t.Put r t') (k : κ) :
    t'.find? k = if key r = k then some r else t.find? k := by
  split
  · rename_i hk
    exact find?_eq_some.2 ⟨h.mem, hk⟩
  · rename_i hk
    apply find?_congr
    intro x hx
    rw [h x]
    constructor
    · rintro (rfl | ⟨hm, -⟩)
      · exact absurd hx hk
      · exact hm
    · exact fun hm => Or.inr ⟨hm, fun he => hk (he.symm.trans hx)⟩

/-- The row put last at a key is the one that counts. -/
theorem Put.put {t'' : Table key} {r' : ρ} (h : t.Put r t') (h' : t'.Put r' t'') (hk : key r = key r') :
    t.Put r' t'' := by
  intro x
  rw [h' x, h x, hk]
  constructor
  · rintro (hx | ⟨rfl | hx, hne⟩)
    · exact Or.inl hx
    · exact absurd hk hne
    · exact Or.inr hx
  · rintro (hx | hx)
    · exact Or.inl hx
    · exact Or.inr ⟨Or.inr hx, hx.2⟩

/-- A row that is there stands where it would be put. -/
theorem put_self (hr : r ∈ t) : t.Put r t := by
  intro x
  by_cases hk : key x = key r
  · have hx : x ∈ t ↔ x = r := ⟨fun hx => eq_of_key hx hr hk, fun hx => hx ▸ hr⟩
    rw [hx]
    exact ⟨Or.inl, fun h => h.elim id fun h => absurd hk h.2⟩
  · exact ⟨fun hx => Or.inr ⟨hx, hk⟩, fun h => h.elim (fun hx => hx ▸ hr) And.left⟩

end Put

end Table

end Relational

import ProjectAutomation.Relational.Table

/-!
# Rows a statement leaves alone

`t.Agree p t'`: the rows of the class `p` are the same in both tables. A class is a
tenant, a shard, whatever the rows are told apart by; the lemmas are the frame rules
of the statements.

* `agree_of_append`, `agree_of_put`, `agree_of_map`, `agree_of_update`, `agree_of_images`: a statement
  that neither reads nor makes a row of the class leaves it alone.
* `Agree.trans`: one statement after the other.
-/

namespace Relational

namespace Table

variable {ρ κ : Type} {key : ρ → κ} {p q : ρ → Prop} {t t' t'' : Table key}

/-- The two tables have the same rows of the class `p`. -/
def Agree (p : ρ → Prop) (t t' : Table key) : Prop := ∀ r, p r → (r ∈ t' ↔ r ∈ t)

theorem Agree.refl (p : ρ → Prop) (t : Table key) : Agree p t t := fun _ _ => Iff.rfl

theorem agree_of_eq (h : t' = t) : Agree p t t' := h ▸ .refl p t

theorem Agree.trans (h : Agree p t t') (h' : Agree p t' t'') : Agree p t t'' :=
  fun r hp => (h' r hp).trans (h r hp)

/-- `INSERT` of rows outside the class. -/
theorem agree_of_append {rs : List ρ} (h : t'.rows = t.rows ++ rs) (hrs : ∀ r ∈ rs, ¬ p r) : Agree p t t' := by
  intro r hp
  rw [mem_of_rows_append h]
  exact ⟨fun hr => hr.resolve_right (fun hm => hrs r hm hp), Or.inl⟩

/-- A row outside the class, put in the place of one outside it. -/
theorem agree_of_put {new : ρ} (h : t.Put new t') (hnew : ¬ p new)
    (hold : ∀ r ∈ t, key r = key new → ¬ p r) : Agree p t t' := by
  intro r hp
  constructor
  · intro hr
    rcases h.cases hr with rfl | ⟨hr, -⟩
    · exact absurd hp hnew
    · exact hr
  · exact fun hr => h.of_ne hr (fun hk => hold r hr hk hp)

/-- Rows rewritten one by one, with rows outside the class added. -/
theorem agree_of_images {f : ρ → ρ} {new : ρ → Prop} (h : ∀ r, r ∈ t' ↔ (∃ r₀ ∈ t, f r₀ = r) ∨ new r)
    (hf : ∀ r ∈ t, p r ∨ p (f r) → f r = r) (hnew : ∀ r, new r → ¬ p r) : Agree p t t' := by
  intro r hp
  rw [h r]
  constructor
  · rintro (⟨r₀, hr₀, rfl⟩ | hn)
    · rw [hf r₀ hr₀ (Or.inr hp)]
      exact hr₀
    · exact absurd hp (hnew r hn)
  · exact fun hr => Or.inl ⟨r, hr, hf r hr (Or.inl hp)⟩

theorem agree_of_map {f : ρ → ρ} (h : t'.rows = t.rows.map f) (hf : ∀ r ∈ t, p r ∨ p (f r) → f r = r) :
    Agree p t t' := by
  have himages : ∀ r, r ∈ t' ↔ (∃ r₀ ∈ t, f r₀ = r) ∨ False := by
    intro r
    rw [← mem_rows, h, List.mem_map, or_false]
    exact Iff.rfl
  exact agree_of_images himages hf (fun _ hn => hn.elim)

/-- `UPDATE … SET f WHERE c`, when the condition selects no row of the class and makes none. -/
theorem agree_of_update {c : ρ → Bool} {f : ρ → ρ} {hf : KeepsKey key f}
    (h : ∀ r ∈ t, c r = true → ¬ p r ∧ ¬ p (f r)) : Agree p t (t.update c f hf) := by
  refine agree_of_map rows_update (fun r hr hp => ?_)
  by_cases hc : c r = true
  · rw [if_pos hc] at hp
    exact absurd hp (not_or.2 (h r hr hc))
  · exact if_neg hc

end Table

end Relational

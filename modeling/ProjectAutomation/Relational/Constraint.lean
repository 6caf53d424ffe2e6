import ProjectAutomation.Relational.Table
import ProjectAutomation.Relational.Transaction

/-!
# Constraints

What a schema declares of its tables, and how a transaction keeps it.

* `Txn.Keeps`: a body that succeeds on a store of `I` ends in a store of `I`; one rule for
  each way a body is built.
* `transact_keeps`: so does its transaction, however it ends.
* `Table.Unique`: `UNIQUE` on columns other than the key.
* `Table.References`: `FOREIGN KEY`.
-/

namespace Relational

/-! ## What a body keeps -/

namespace Txn

variable {σ ε α β : Type} {I : σ → Prop}

/-- From a store of `I`, the body fails or ends in a store of `I`. -/
def Keeps (I : σ → Prop) (x : Txn σ ε α) : Prop := ∀ s r, I s → x s = .ok r → I r.2

theorem keeps_pure (a : α) : Keeps I (pure a : Txn σ ε α) := by
  intro s r hs h
  rw [pure_eq_ok.1 h]
  exact hs

theorem keeps_throw (e : ε) : Keeps I (throw e : Txn σ ε α) :=
  fun _ _ _ h => absurd h throw_ne_ok

theorem keeps_bind {x : Txn σ ε α} {f : α → Txn σ ε β} (hx : Keeps I x) (hf : ∀ a, Keeps I (f a)) :
    Keeps I (x >>= f) := by
  intro s r hs h
  obtain ⟨a, s₁, hrun, hrest⟩ := bind_eq_ok.1 h
  exact hf a s₁ r (hx s _ hs hrun) hrest

/-- What follows a read of the store may depend on what it read. -/
theorem keeps_get_bind {f : σ → Txn σ ε α} (hf : ∀ s r, I s → f s s = .ok r → I r.2) :
    Keeps I ((get : Txn σ ε σ) >>= f) := by
  intro s r hs h
  rw [get_bind] at h
  exact hf s r hs h

theorem keeps_modify {f : σ → σ} (hf : ∀ s, I s → I (f s)) : Keeps I (modify f : Txn σ ε PUnit) := by
  intro s r hs h
  rw [modify_eq_ok.1 h]
  exact hf s hs

theorem keeps_ite {c : Prop} [Decidable c] {x y : Txn σ ε α} (hx : c → Keeps I x) (hy : ¬ c → Keeps I y) :
    Keeps I (if c then x else y) := by
  split
  · exact hx ‹_›
  · exact hy ‹_›

end Txn

section Transact

variable {σ ε α : Type} {I : σ → Prop} {body : Txn σ ε (Ending ε α)}

/-- **A transaction keeps what its body keeps**, committed or not. -/
theorem transact_keeps (h : Txn.Keeps I body) {s : σ} (hs : I s) : I (transact body s).2 := by
  rcases transact_cases body s with heq | ⟨ending, a, s', hrun, -, heq⟩
  · rw [heq]
    exact hs
  · rw [heq]
    exact h s _ hs hrun

end Transact

namespace Table

variable {ρ κ ρ' κ' γ : Type} {key : ρ → κ} {key' : ρ' → κ'}

/-! ## `UNIQUE` -/

/-- No two rows have the same `g`. -/
def Unique (t : Table key) (g : ρ → γ) : Prop := ∀ r ∈ t, ∀ r' ∈ t, g r = g r' → r = r'

section Unique

variable {t t' : Table key} {g : ρ → γ} {r : ρ}

theorem unique_empty : (empty : Table key).Unique g := fun r hr => absurd hr (not_mem_empty r)

/-- A row may be put where no row at another key has its `g`. -/
theorem Unique.put (h : t.Unique g) (hput : t.Put r t') (hfree : ∀ x ∈ t, key x ≠ key r → g x ≠ g r) :
    t'.Unique g := by
  intro x hx y hy hxy
  rcases hput.cases hx with rfl | ⟨hx, hkx⟩
  · rcases hput.cases hy with rfl | ⟨hy, hky⟩
    · rfl
    · exact absurd hxy.symm (hfree y hy hky)
  · rcases hput.cases hy with rfl | ⟨hy, -⟩
    · exact absurd hxy (hfree x hx hkx)
    · exact h x hx y hy hxy

theorem Unique.insert [DecidableEq κ] (h : t.Unique g) (hi : t.insert? r = some t')
    (hfree : ∀ x ∈ t, g x ≠ g r) : t'.Unique g :=
  h.put (put_of_insert? hi) fun x hx _ => hfree x hx

/-- An assignment that leaves `g` alone keeps it unique. -/
theorem Unique.update {p : ρ → Bool} {f : ρ → ρ} (h : t.Unique g) (hk : KeepsKey key f)
    (hf : ∀ r, g (f r) = g r) : (t.update p f hk).Unique g := by
  have himage : ∀ r, g (if p r then f r else r) = g r := by
    intro r
    split
    · exact hf r
    · rfl
  intro x hx y hy hxy
  obtain ⟨a, ha, rfl⟩ := mem_update.1 hx
  obtain ⟨b, hb, rfl⟩ := mem_update.1 hy
  rw [himage a, himage b] at hxy
  rw [h a ha b hb hxy]

end Unique

/-! ## `FOREIGN KEY` -/

/-- The row a row refers to, if it refers to any, is there. -/
def References (t : Table key) (ref : ρ → Option κ') (t' : Table key') : Prop :=
  ∀ r ∈ t, ∀ k, ref r = some k → ∃ x ∈ t', key' x = k

section References

variable {t t₁ : Table key} {ref : ρ → Option κ'} {t' t'₁ : Table key'}

theorem references_empty : (empty : Table key).References ref t' :=
  fun r hr => absurd hr (not_mem_empty r)

/-- A reference stands while the keys it may point at do. -/
theorem References.grow (h : t.References ref t')
    (hkeys : ∀ x ∈ t', ∃ y ∈ t'₁, key' y = key' x) : t.References ref t'₁ := by
  intro r hr k hk
  obtain ⟨x, hx, rfl⟩ := h r hr k hk
  exact hkeys x hx

theorem References.insert [DecidableEq κ] {r : ρ} (h : t.References ref t') (hi : t.insert? r = some t₁)
    (hr : ∀ k, ref r = some k → ∃ x ∈ t', key' x = k) : t₁.References ref t' := by
  intro x hx k hk
  rcases (mem_insert? hi).1 hx with hx | rfl
  · exact h x hx k hk
  · exact hr k hk

end References

/-- Putting a row leaves every key where it was. -/
theorem Put.keys {t t' : Table key} {r : ρ} (h : t.Put r t') : ∀ x ∈ t, ∃ y ∈ t', key y = key x :=
  fun x hx => h.exists_key ⟨x, hx, rfl⟩

theorem update_keys {t : Table key} {p : ρ → Bool} {f : ρ → ρ} (hf : KeepsKey key f) :
    ∀ x ∈ t, ∃ y ∈ t.update p f hf, key y = key x := by
  intro x hx
  refine ⟨_, mem_update.2 ⟨x, hx, rfl⟩, ?_⟩
  split
  · exact hf.key_eq x
  · rfl

end Table

end Relational

import Mathlib.Data.List.Basic

/-!
# Transactions

A transaction body runs over a private copy of the store `σ` and may fail with an
`ε`. It ends by asking for a `commit` or by being dropped; `transact` is what the
store looks like afterwards. Only a commit is visible: a failure and a dropped
transaction both leave the store as it was. A commit whose answer is `lost` is
visible too, but its caller is told of an error: an error alone does not say that
nothing was written.

The inversion lemmas (`bind_eq_ok` and its kin) take a successful run of a
`do` block apart into the successful runs of its statements.
-/

namespace Relational

variable {σ ε α β : Type}

/-- A transaction body. -/
abbrev Txn (σ ε α : Type) := StateT σ (Except ε) α

/-- How a body that did not fail ends. `lost` is a commit that is carried out while its answer does not
reach the caller, who is told of `error`. -/
inductive Ending (ε α : Type) where
  | commit (value : α)
  | lost (value : α) (error : ε)
  | drop (value : α)

namespace Ending

/-- The value a body was committed with. -/
def committed : Ending ε α → Option α
  | .commit a | .lost a _ => some a
  | .drop _ => none

/-- What the caller is told. -/
def answer : Ending ε α → Except ε α
  | .commit a | .drop a => .ok a
  | .lost _ e => .error e

@[simp] theorem committed_commit {a : α} : (commit a : Ending ε α).committed = some a := rfl
@[simp] theorem committed_lost {a : α} {e : ε} : (lost a e).committed = some a := rfl
@[simp] theorem committed_drop {a : α} : (drop a : Ending ε α).committed = none := rfl
@[simp] theorem answer_commit {a : α} : (commit a : Ending ε α).answer = .ok a := rfl
@[simp] theorem answer_lost {a : α} {e : ε} : (lost a e).answer = .error e := rfl
@[simp] theorem answer_drop {a : α} : (drop a : Ending ε α).answer = .ok a := rfl

theorem committed_eq_some {ending : Ending ε α} {a : α} :
    ending.committed = some a ↔ ending = .commit a ∨ ∃ e, ending = .lost a e := by
  cases ending <;> simp

/-- An answer to a commit is the value committed. -/
theorem answer_eq_ok {ending : Ending ε α} {a b : α} (hc : ending.committed = some a)
    (h : ending.answer = .ok b) : b = a := by
  rcases committed_eq_some.1 hc with rfl | ⟨e, rfl⟩
  · exact (Except.ok.inj h).symm
  · cases h

end Ending

/-- Run a body as one transaction. -/
def transact (body : Txn σ ε (Ending ε α)) (s : σ) : Except ε α × σ :=
  match body s with
  | .error e => (.error e, s)
  | .ok (.drop a, _) => (.ok a, s)
  | .ok (.commit a, s') => (.ok a, s')
  | .ok (.lost _ e, s') => (.error e, s')

theorem transact_of_error {body : Txn σ ε (Ending ε α)} {s : σ} {e : ε} (h : body s = .error e) :
    transact body s = (.error e, s) := by
  unfold transact; rw [h]

theorem transact_of_drop {body : Txn σ ε (Ending ε α)} {s s₁ : σ} {a : α}
    (h : body s = .ok (.drop a, s₁)) : transact body s = (.ok a, s) := by
  unfold transact; rw [h]

theorem transact_of_commit {body : Txn σ ε (Ending ε α)} {s s' : σ} {a : α}
    (h : body s = .ok (.commit a, s')) : transact body s = (.ok a, s') := by
  unfold transact; rw [h]

/-- A committed body is visible, whatever its caller is told. -/
theorem transact_of_committed {body : Txn σ ε (Ending ε α)} {s s' : σ} {ending : Ending ε α} {a : α}
    (h : body s = .ok (ending, s')) (hc : ending.committed = some a) :
    transact body s = (ending.answer, s') := by
  rcases Ending.committed_eq_some.1 hc with rfl | ⟨e, rfl⟩
  · exact transact_of_commit h
  · unfold transact; rw [h]; rfl

/-- **What a transaction can leave**: the old store, or the store its body committed. -/
theorem transact_cases (body : Txn σ ε (Ending ε α)) (s : σ) :
    (transact body s).2 = s ∨
      ∃ ending a s', body s = .ok (ending, s') ∧ ending.committed = some a ∧
        transact body s = (ending.answer, s') := by
  cases h : body s with
  | error e => left; rw [transact_of_error h]
  | ok r =>
    obtain ⟨ending, s'⟩ := r
    cases hc : ending.committed with
    | none =>
      left
      cases ending with
      | drop a => rw [transact_of_drop h]
      | commit a => cases hc
      | lost a e => cases hc
    | some a => right; exact ⟨ending, a, s', rfl, hc, transact_of_committed h hc⟩

/-! ## Inversion -/

namespace Txn

theorem bind_eq_ok {x : Txn σ ε α} {f : α → Txn σ ε β} {s : σ} {r : β × σ} :
    (x >>= f) s = .ok r ↔ ∃ a s₁, x s = .ok (a, s₁) ∧ f a s₁ = .ok r := by
  show (StateT.bind x f) s = .ok r ↔ _
  unfold StateT.bind
  cases hx : x s with
  | error e => simp [bind, Except.bind]
  | ok p =>
    obtain ⟨a, s₁⟩ := p
    simp [bind, Except.bind]

theorem bind_eq_error {x : Txn σ ε α} {f : α → Txn σ ε β} {s : σ} {e : ε} :
    (x >>= f) s = .error e ↔ x s = .error e ∨ ∃ a s₁, x s = .ok (a, s₁) ∧ f a s₁ = .error e := by
  show (StateT.bind x f) s = .error e ↔ _
  unfold StateT.bind
  cases hx : x s with
  | error e' => simp [bind, Except.bind]
  | ok p =>
    obtain ⟨a, s₁⟩ := p
    simp [bind, Except.bind]

theorem bind_of_ok {x : Txn σ ε α} {f : α → Txn σ ε β} {s s₁ : σ} {a : α} (h : x s = .ok (a, s₁)) :
    (x >>= f) s = f a s₁ := by
  show (StateT.bind x f) s = _
  unfold StateT.bind
  rw [h]; rfl

theorem pure_eq_ok {a : α} {s : σ} {r : α × σ} :
    (pure a : Txn σ ε α) s = .ok r ↔ r = (a, s) := by
  show (Except.ok (a, s) : Except ε (α × σ)) = .ok r ↔ _
  rw [Except.ok.injEq, eq_comm]

theorem throw_ne_ok {e : ε} {s : σ} {r : α × σ} : (throw e : Txn σ ε α) s ≠ .ok r := by
  intro h; cases h

theorem throw_eq_ok {e : ε} {s : σ} {r : α × σ} : (throw e : Txn σ ε α) s = .ok r ↔ False :=
  iff_false_intro throw_ne_ok

theorem set_eq_ok {s s' : σ} {r : PUnit × σ} : (set s' : Txn σ ε PUnit) s = .ok r ↔ r = (⟨⟩, s') := by
  show (Except.ok (⟨⟩, s') : Except ε (PUnit × σ)) = .ok r ↔ _
  rw [Except.ok.injEq, eq_comm]

theorem modify_eq_ok {s : σ} {f : σ → σ} {r : PUnit × σ} :
    (modify f : Txn σ ε PUnit) s = .ok r ↔ r = (⟨⟩, f s) := by
  show (Except.ok (⟨⟩, f s) : Except ε (PUnit × σ)) = .ok r ↔ _
  rw [Except.ok.injEq, eq_comm]

/-! A statement at the head of a body is run away by `simp`. -/

@[simp] theorem get_bind {f : σ → Txn σ ε β} {s : σ} : ((get : Txn σ ε σ) >>= f) s = f s s :=
  bind_of_ok rfl

@[simp] theorem set_bind {f : PUnit → Txn σ ε β} {s s' : σ} :
    ((set s' : Txn σ ε PUnit) >>= f) s = f ⟨⟩ s' :=
  bind_of_ok rfl

@[simp] theorem modify_bind {g : σ → σ} {f : PUnit → Txn σ ε β} {s : σ} :
    ((modify g : Txn σ ε PUnit) >>= f) s = f ⟨⟩ (g s) :=
  bind_of_ok rfl

end Txn

end Relational

import Mathlib.Logic.Relation
import Mathlib.Order.Lattice
import Mathlib.Data.Nat.Init

/-!
# Leases with fencing tokens

A piece of work is free, held by an owner under a numbered token until some time, or
closed. It may be acquired while free or after the holder's time has passed, and only
the holder, in time, may give it back or close it.

* `Holds.not_acquirable`: a lease is never open to its holder and to others at once.
* `Evolves.issued_le`: tokens only grow.
* `Evolves.not_holds_of_lt`: so a token that was overtaken never holds again.
-/

namespace Fencing

variable {ω τ : Type}

/-- A leased piece of work, with the number of tokens issued for it. -/
inductive Lease (ω τ : Type) where
  | free (issued : ℕ)
  | held (token : ℕ) (owner : ω) (expires : τ)
  | closed (issued : ℕ)

namespace Lease

/-- The number of tokens issued; the last one is the current token. -/
def issued : Lease ω τ → ℕ
  | .free n | .held n _ _ | .closed n => n

variable [LinearOrder τ]

/-- The lease may be acquired at `now`. -/
def Acquirable (now : τ) : Lease ω τ → Prop
  | .free _ => True
  | .held _ _ expires => expires < now
  | .closed _ => False

/-- `owner` holds the lease under `token`, in time. -/
def Holds (now : τ) (token : ℕ) (owner : ω) : Lease ω τ → Prop
  | .held token' owner' expires => token' = token ∧ owner' = owner ∧ now ≤ expires
  | .free _ | .closed _ => False

variable {now : τ} {token : ℕ} {owner : ω} {l : Lease ω τ}

theorem Holds.issued_eq (h : l.Holds now token owner) : l.issued = token := by
  cases l with
  | held _ _ _ => exact h.1
  | free _ => exact h.elim
  | closed _ => exact h.elim

/-- **A lease is never open to its holder and to others at once.** -/
theorem Holds.not_acquirable (h : l.Holds now token owner) : ¬ l.Acquirable now := by
  cases l with
  | held _ _ _ => exact not_lt.2 h.2.2
  | free _ => exact h.elim
  | closed _ => exact h.elim

/-- What may happen to a lease at `now`. -/
inductive Moves (now : τ) : Lease ω τ → Lease ω τ → Prop
  | stays (l : Lease ω τ) : Moves now l l
  | acquired {l : Lease ω τ} (owner : ω) (expires : τ) : l.Acquirable now →
      Moves now l (.held (l.issued + 1) owner expires)
  | released {l : Lease ω τ} {token : ℕ} {owner : ω} : l.Holds now token owner →
      Moves now l (.free token)
  | finished {l : Lease ω τ} {token : ℕ} {owner : ω} : l.Holds now token owner →
      Moves now l (.closed token)

namespace Moves

variable {l' : Lease ω τ}

/-- Tokens only grow. -/
theorem issued_le (h : Moves now l l') : l.issued ≤ l'.issued := by
  cases h with
  | stays => exact Nat.le_refl _
  | acquired _ _ _ => exact Nat.le_succ _
  | released hh => exact Nat.le_of_eq hh.issued_eq
  | finished hh => exact Nat.le_of_eq hh.issued_eq

end Moves

/-- Any number of moves, each at its own time. -/
def Evolves : Lease ω τ → Lease ω τ → Prop := Relation.ReflTransGen (fun l l' => ∃ now, Moves now l l')

namespace Evolves

variable {l' : Lease ω τ}

protected theorem refl (l : Lease ω τ) : l.Evolves l := Relation.ReflTransGen.refl

protected theorem trans {l₁ l₂ l₃ : Lease ω τ} (h : l₁.Evolves l₂) (h' : l₂.Evolves l₃) : l₁.Evolves l₃ :=
  Relation.ReflTransGen.trans h h'

theorem of_moves (h : Moves now l l') : l.Evolves l' :=
  Relation.ReflTransGen.single ⟨now, h⟩

theorem issued_le (h : l.Evolves l') : l.issued ≤ l'.issued := by
  induction h with
  | refl => exact Nat.le_refl _
  | tail _ hm ih =>
    obtain ⟨_, hm⟩ := hm
    exact Nat.le_trans ih hm.issued_le

/-- **An overtaken token never holds again.** -/
theorem not_holds_of_lt (h : l.Evolves l') (hlt : token < l.issued) : ¬ l'.Holds now token owner := by
  intro hh
  have := h.issued_le
  rw [hh.issued_eq] at this
  omega

end Evolves

end Lease

end Fencing

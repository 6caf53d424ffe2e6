import Mathlib.Logic.Basic
import Mathlib.Data.List.Basic
import Mathlib.Data.List.Induction

/-!
# Runs of a machine with inputs

A machine takes one input at a time; the input carries every choice the
environment makes, so a run is the list of its inputs. `Along guard s is` says
that each input of the run meets `guard` at the state it finds.

* `inv_runFrom`: an invariant kept by every guarded step holds after every
  guarded run.
* `rel_runFrom`: so does a reflexive and transitive relation to the first state.
* `history`: a property of the run so far and its state, kept by one more input, holds of
  every run.
* `Reaches`: some inputs lead from one state to another.
* `Happened`: some input of a run met a condition at the state it found.
* `observe`: a machine with an observer beside it; `inv_observe`: what the observer notes agrees
  with the state of every run.
* `runFrom_filter`, `answers_filter`: inputs that leave every state as it is can be left out, and
  the others are answered the same.
-/

namespace Transition

/-- A machine: a first state, and what each input does and answers. -/
structure Machine (σ ι ο : Type) where
  init : σ
  step : σ → ι → σ × ο

namespace Machine

variable {σ ι ο : Type} (m : Machine σ ι ο)

/-- The state an input leads to. -/
def next (s : σ) (i : ι) : σ := (m.step s i).1

/-- What an input is answered. -/
def reply (s : σ) (i : ι) : ο := (m.step s i).2

/-- The state after a list of inputs. -/
def runFrom (s : σ) (is : List ι) : σ := is.foldl m.next s

/-- The state after a run from the first state. -/
def run (is : List ι) : σ := m.runFrom m.init is

@[simp] theorem runFrom_nil (s : σ) : m.runFrom s [] = s := rfl

@[simp] theorem runFrom_cons (s : σ) (i : ι) (is : List ι) :
    m.runFrom s (i :: is) = m.runFrom (m.next s i) is := rfl

theorem runFrom_append (s : σ) (is js : List ι) :
    m.runFrom s (is ++ js) = m.runFrom (m.runFrom s is) js := List.foldl_append

theorem run_append (is js : List ι) : m.run (is ++ js) = m.runFrom (m.run is) js :=
  m.runFrom_append _ is js

/-- Every input of the run meets `guard` at the state it finds. -/
def Along (guard : σ → ι → Prop) : σ → List ι → Prop
  | _, [] => True
  | s, i :: is => guard s i ∧ Along guard (m.next s i) is

/-- A run can be checked against a decidable guard. -/
def decidableAlong (guard : σ → ι → Prop) [∀ s i, Decidable (guard s i)] :
    ∀ (s : σ) (is : List ι), Decidable (m.Along guard s is)
  | _, [] => isTrue trivial
  | s, i :: is =>
    have := decidableAlong guard (m.next s i) is
    inferInstanceAs (Decidable (guard s i ∧ m.Along guard (m.next s i) is))

instance (guard : σ → ι → Prop) [∀ s i, Decidable (guard s i)] (s : σ) (is : List ι) :
    Decidable (m.Along guard s is) := m.decidableAlong guard s is

variable {m} {G G' : σ → ι → Prop} {I : σ → Prop}

theorem along_append {s : σ} {is js : List ι} :
    m.Along G s (is ++ js) ↔ m.Along G s is ∧ m.Along G (m.runFrom s is) js := by
  induction is generalizing s with
  | nil => simp [Along]
  | cons i is ih => simp only [List.cons_append, Along, runFrom_cons, ih, and_assoc]

theorem along_mono (h : ∀ s i, G s i → G' s i) {s : σ} {is : List ι}
    (ha : m.Along G s is) : m.Along G' s is := by
  induction is generalizing s with
  | nil => trivial
  | cons i is ih => exact ⟨h s i ha.1, ih ha.2⟩

theorem along_true (s : σ) (is : List ι) : m.Along (fun _ _ => True) s is := by
  induction is generalizing s with
  | nil => trivial
  | cons i is ih => exact ⟨trivial, ih _⟩

theorem along_and {s : σ} {is : List ι} (h : m.Along G s is) (h' : m.Along G' s is) :
    m.Along (fun s i => G s i ∧ G' s i) s is := by
  induction is generalizing s with
  | nil => trivial
  | cons i is ih => exact ⟨⟨h.1, h'.1⟩, ih h.2 h'.2⟩

/-- A condition on the inputs alone. -/
theorem along_of_mem {P : ι → Prop} {is : List ι} (h : ∀ i ∈ is, P i) (s : σ) :
    m.Along (fun _ i => P i) s is := by
  induction is generalizing s with
  | nil => trivial
  | cons i is ih => exact ⟨h i List.mem_cons_self, ih (fun j hj => h j (List.mem_cons_of_mem _ hj)) _⟩

/-- **Invariants hold along guarded runs.** -/
theorem inv_runFrom (hstep : ∀ s i, I s → G s i → I (m.next s i)) :
    ∀ (is : List ι) (s : σ), I s → m.Along G s is → I (m.runFrom s is) := by
  intro is
  induction is with
  | nil => intro s hs _; exact hs
  | cons i is ih => intro s hs ha; exact ih _ (hstep s i hs ha.1) ha.2

/-- Invariants kept by every step hold after every run. -/
theorem inv_run (hinit : I m.init) (hstep : ∀ s i, I s → I (m.next s i)) (is : List ι) :
    I (m.run is) :=
  inv_runFrom (G := fun _ _ => True) (fun s i h _ => hstep s i h) is _ hinit (along_true _ _)

/-- **Properties of a run and the state it leads to**, kept when the run goes one input on. -/
theorem history {I : List ι → σ → Prop} (hinit : I [] m.init)
    (hstep : ∀ is i, I is (m.run is) → I (is ++ [i]) (m.next (m.run is) i)) (is : List ι) :
    I is (m.run is) := by
  induction is using List.reverseRecOn with
  | nil => exact hinit
  | append_singleton is i ih =>
    rw [m.run_append]
    exact hstep is i ih

/-- **Relations along guarded runs**: what every step does to a state of the
invariant, the run does. -/
theorem rel_runFrom {R : σ → σ → Prop} (refl : ∀ s, R s s)
    (trans : ∀ s₁ s₂ s₃, R s₁ s₂ → R s₂ s₃ → R s₁ s₃)
    (hinv : ∀ s i, I s → G s i → I (m.next s i))
    (hstep : ∀ s i, I s → G s i → R s (m.next s i)) :
    ∀ (is : List ι) (s : σ), I s → m.Along G s is → R s (m.runFrom s is) := by
  intro is
  induction is with
  | nil => intro s _ _; exact refl s
  | cons i is ih =>
    intro s hs ha
    exact trans _ _ _ (hstep s i hs ha.1) (ih _ (hinv s i hs ha.1) ha.2)

/-! ## Reaching a state -/

variable (m) in
/-- Some inputs lead from `s` to `s'`. -/
def Reaches (s s' : σ) : Prop := ∃ is, m.runFrom s is = s'

theorem Reaches.refl (s : σ) : m.Reaches s s := ⟨[], rfl⟩

theorem Reaches.trans {s₁ s₂ s₃ : σ} (h : m.Reaches s₁ s₂) (h' : m.Reaches s₂ s₃) : m.Reaches s₁ s₃ := by
  obtain ⟨is, rfl⟩ := h
  obtain ⟨js, rfl⟩ := h'
  exact ⟨is ++ js, m.runFrom_append _ is js⟩

/-- One input, and then more. -/
theorem Reaches.head {s s₁ s' : σ} {i : ι} (hi : m.next s i = s₁) (h : m.Reaches s₁ s') : m.Reaches s s' := by
  obtain ⟨is, rfl⟩ := h
  exact ⟨i :: is, by rw [runFrom_cons, hi]⟩

theorem Reaches.one {s s' : σ} {i : ι} (hi : m.next s i = s') : m.Reaches s s' := .head hi (.refl s')

/-- What a run reaches, a run leads to. -/
theorem Reaches.run {is : List ι} {s' : σ} (h : m.Reaches (m.run is) s') : ∃ js, m.run js = s' := by
  obtain ⟨js, rfl⟩ := h
  exact ⟨is ++ js, m.run_append is js⟩

/-! ## What happened in a run -/

section Happened

variable {P : σ → ι → Prop} {is : List ι} {i : ι}

variable (m) in
/-- Some input of the run met `P` at the state it found. -/
def Happened (P : σ → ι → Prop) (is : List ι) : Prop :=
  ∃ before i after, is = before ++ i :: after ∧ P (m.run before) i

/-- What happened stays so. -/
theorem Happened.snoc (h : m.Happened P is) (i : ι) : m.Happened P (is ++ [i]) := by
  obtain ⟨before, j, after, rfl, hj⟩ := h
  exact ⟨before, j, after ++ [i], by simp, hj⟩

/-- The last input of a run. -/
theorem happened_last (h : P (m.run is) i) : m.Happened P (is ++ [i]) := ⟨is, i, [], rfl, h⟩

end Happened

/-! ## Inputs that change nothing -/

section Silent

variable {p : ι → Bool}

variable (m) in
/-- The input leaves every state as it is. -/
def Silent (i : ι) : Prop := ∀ s, m.next s i = s

variable (m) in
/-- The inputs of a run, each with what it was answered. -/
def answers : σ → List ι → List (ι × ο)
  | _, [] => []
  | s, i :: is => (i, m.reply s i) :: answers (m.next s i) is

/-- Silent inputs can be left out. -/
theorem runFrom_filter (hp : ∀ i, p i = false → m.Silent i) (s : σ) (is : List ι) :
    m.runFrom s (is.filter p) = m.runFrom s is := by
  induction is generalizing s with
  | nil => rfl
  | cons i is ih =>
    cases hi : p i with
    | true => rw [List.filter_cons_of_pos hi, runFrom_cons, runFrom_cons, ih]
    | false => rw [List.filter_cons_of_neg (by simp [hi]), runFrom_cons, hp i hi s, ih]

/-- **Nobody else can tell silent inputs were there.** -/
theorem answers_filter (hp : ∀ i, p i = false → m.Silent i) (s : σ) (is : List ι) :
    m.answers s (is.filter p) = (m.answers s is).filter (p ·.1) := by
  induction is generalizing s with
  | nil => rfl
  | cons i is ih =>
    cases hi : p i with
    | true => simp only [answers, List.filter_cons, hi, if_true, ih]
    | false => simp only [answers, List.filter_cons, hi, Bool.false_eq_true, if_false, hp i hi s, ih]

end Silent

/-! ## Observers -/

section Observe

variable {κ τ : Type} {input : κ → ι} {first : τ} {note : σ → κ → τ → τ}

variable (m) in
/-- The machine with an observer beside it, who notes something of every input and may know more of
it than the machine. -/
def observe (input : κ → ι) (first : τ) (note : σ → κ → τ → τ) : Machine (σ × τ) κ ο where
  init := (m.init, first)
  step reached k :=
    let done := m.step reached.1 (input k)
    ((done.1, note reached.1 k reached.2), done.2)

/-- The machine does not know that it is observed. -/
theorem run_observe_fst (ks : List κ) : ((m.observe input first note).run ks).1 = m.run (ks.map input) := by
  induction ks using List.reverseRecOn with
  | nil => rfl
  | append_singleton ks k ih =>
    rw [run_append, List.map_append, run_append, ← ih]
    rfl

/-- **What is noted agrees with the state**, if every input to a state of runs keeps it so. -/
theorem inv_observe {J : σ → Prop} {I : σ → τ → Prop} (hJ : ∀ is, J (m.run is)) (hinit : I m.init first)
    (hstep : ∀ s k t, J s → I s t → I (m.next s (input k)) (note s k t)) (ks : List κ) :
    I (m.run (ks.map input)) ((m.observe input first note).run ks).2 := by
  rw [← run_observe_fst ]
  induction ks using List.reverseRecOn with
  | nil => exact hinit
  | append_singleton ks k ih =>
    rw [run_append]
    refine hstep _ k _ ?_ ih
    rw [run_observe_fst]
    exact hJ _

end Observe

end Machine

end Transition

import ProjectAutomation.Proof.Once
import ProjectAutomation.Proof.Pages
import ProjectAutomation.Spec.Sample

/-!
# What an inspection shows

`inspect_execution` reads the execution, a page of its attempts and its receipts with three
statements, each on a connection of its own; workers go on between them.

* `attempts_numbered`, `receipts_numbered`: what the second and the third statement find.
* `Fits`: which pages of attempts and which receipts can stand beside an execution.
* `inspections_fit`: whatever happened in between, the three parts of an answer fit.
-/

namespace ProjectAutomation

open Relational Paging

variable {env : Env} {w w' : World} {s : Session} {organizationId : String} {executionId : Uuid} {e e' : ExecutionRow}

/-! ## The attempts and the receipts -/

theorem afterNumber_nonneg (after : Option String) : 0 ≤ afterNumber after := by
  unfold afterNumber
  cases h : after.bind parseRevision? with
  | none => exact le_refl _
  | some n =>
    obtain ⟨text, -, hn⟩ := Option.bind_eq_some_iff.1 h
    unfold parseRevision? at hn
    split at hn
    · split at hn
      · rename_i hpos
        cases hn
        exact Int.natCast_nonneg _
      · cases hn
    · cases hn

/-- The attempts behind a number are the next ones, up to the count of the execution. -/
theorem attempts_numbered (hi : AttemptLedger w.db.attempts e) (n : ℕ) :
    (attemptsBehind w.db e.executionId n).map (·.attempt) = List.range' (n + 1) (e.attempts - n) := by
  refine Table.select_numbered ⟨fun a b => Iff.rfl⟩ (fun a ha b hb hpa hpb he => ?_) fun i => ?_
  · simp only [Bool.and_eq_true, decide_eq_true_eq] at hpa hpb
    exact Table.eq_of_key ha hb (Prod.ext (hpa.1.trans hpb.1.symm) he)
  · simp only [Bool.and_eq_true, decide_eq_true_eq, Int.ofNat_lt]
    constructor
    · rintro ⟨a, ha, ⟨hid, hlt⟩, rfl⟩
      have := hi.attempt_le ha hid
      omega
    · intro hrange
      obtain ⟨a, ha, hk⟩ := (hi.numbered i).2 (by omega)
      obtain ⟨hid, rfl⟩ := Prod.mk.inj hk
      exact ⟨a, ha, ⟨hid, by omega⟩, rfl⟩

/-- The receipts of an execution, in order. -/
def receiptsOf (db : Database) (executionId : Uuid) : List ActionReceiptRow :=
  db.receipts.select (fun r => r.executionId = executionId) (fun a b => a.actionIndex ≤ b.actionIndex)

theorem receipts_numbered (hr : RefsOK env w) (he : e ∈ w.db.executions) :
    (receiptsOf w.db e.executionId).map (·.actionIndex) = List.range e.steps.length := by
  rw [List.range_eq_range']
  refine Table.select_numbered ⟨fun a b => Iff.rfl⟩ (fun a ha b hb hpa hpb heq => ?_) fun i => ?_
  · simp only [decide_eq_true_eq] at hpa hpb
    exact Table.eq_of_key ha hb (Prod.ext (hpa.trans hpb.symm) heq)
  · simp only [decide_eq_true_eq]
    constructor
    · rintro ⟨r, hm, hid, rfl⟩
      obtain ⟨action, hstep, -⟩ := receipt_action hr he hm hid
      have := (List.getElem?_eq_some_iff.1 hstep).1
      omega
    · intro hrange
      obtain ⟨r, hm, hk⟩ := hr.covered e he i (by omega)
      exact ⟨r, hm, congrArg Prod.fst hk, congrArg Prod.snd hk⟩

/-- A reading of the indices of a list, mapped over it. -/
theorem map_range_getElem? {α β : Type} (g : α → Option β) (l : List α) :
    (List.range l.length).map (fun i => l[i]?.bind g) = l.map g := by
  refine List.ext_getElem (by simp) fun i hi _ => ?_
  have hlt : i < l.length := by simpa using hi
  simp [hlt]

/-- The receipts carry the kinds and the keys of the actions. -/
theorem receipts_match (hr : RefsOK env w) (he : e ∈ w.db.executions) :
    (receiptsOf w.db e.executionId).map (·.idempotencyKey) = e.keys env ∧
      (receiptsOf w.db e.executionId).map (fun r => some r.kind) = e.steps.map (·.getStr "kind") := by
  have hmem : ∀ r ∈ receiptsOf w.db e.executionId, r ∈ w.db.receipts ∧ r.executionId = e.executionId := by
    intro r hm
    obtain ⟨hm, hid⟩ := Table.mem_select.1 hm
    exact ⟨hm, of_decide_eq_true hid⟩
  constructor
  · unfold ExecutionRow.keys
    rw [← receipts_numbered hr he, List.map_map]
    refine List.map_congr_left fun r hm => ?_
    obtain ⟨hm, hid⟩ := hmem r hm
    rw [(hr.receipts r hm).idempotencyKey, hid]
    rfl
  · rw [← map_range_getElem? _ e.steps, ← receipts_numbered hr he, List.map_map]
    refine List.map_congr_left fun r hm => ?_
    obtain ⟨hm, hid⟩ := hmem r hm
    obtain ⟨action, hstep, hkind⟩ := receipt_action hr he hm hid
    rw [Function.comp_apply, hstep, Option.bind_some, hkind]

/-! ## Side by side -/

/-- A page of attempts behind a number and receipts that can stand beside an execution. -/
structure Fits (env : Env) (e : ExecutionRow) (after : ℕ) (attempts : List AttemptRow) (cursor : Option ℤ)
    (receipts : List ActionReceiptRow) : Prop where
  /-- the attempts are the next ones, without a gap -/
  numbered : attempts.map (·.attempt) = List.range' (after + 1) attempts.length
  /-- a last page reaches the count of the execution -/
  reached : cursor = none → e.attempts ≤ after + attempts.length
  /-- an attempt below the count is over, and was not the last word -/
  earlier : ∀ a ∈ attempts, a.attempt < e.attempts → a.status = .retryable ∧ a.completedAt ≠ none
  /-- only the last attempt of all can be going on, or have ended the execution -/
  final : ∀ a ∈ attempts, a.status ≠ .retryable → cursor = none ∧ ∀ b ∈ attempts, b.attempt ≤ a.attempt
  /-- an execution that is over ended with the attempt it counts last -/
  ended : e.status.terminal = true → ∀ a ∈ attempts, a.attempt ≤ e.attempts ∧
    (a.attempt = e.attempts → a.status = lastAttempt e.status ∧ a.completedAt ≠ none)
  /-- one receipt for each action, in order -/
  indices : receipts.map (·.actionIndex) = List.range e.steps.length
  kinds : receipts.map (fun r => some r.kind) = e.steps.map (·.getStr "kind")
  keys : receipts.map (·.idempotencyKey) = e.keys env

/-- **What three reads find fits**, when the execution went on from one to the next. -/
theorem fits_of_continues {w₁ w₂ : World} {e₁ e₂ : ExecutionRow} {limit n : ℕ} (hlimit : 0 < limit)
    (he₁ : e₁ ∈ w₁.db.executions) (hc₁ : e.Continues e₁) (hattempts : AttemptsOK w₁.db)
    (he₂ : e₂ ∈ w₂.db.executions) (hc₂ : e.Continues e₂) (hr : RefsOK env w₂) :
    Fits env e n ((attemptsBehind w₁.db e.executionId n).take limit)
      (cursorOf AttemptRow.number limit (attemptsBehind w₁.db e.executionId n)) (receiptsOf w₂.db e.executionId) := by
  have hledger : AttemptLedger w₁.db.attempts e₁ := hattempts.ledgers e₁ he₁
  have hnumbers := attempts_numbered hledger n
  rw [hc₁.executionId] at hnumbers
  have hpage : Page AttemptRow.number (attemptsOf e.executionId w₁) n limit _ _ :=
    page_of_strict hlimit attemptsBehind_strict fun a => mem_attemptsBehind
  have htable : ∀ a ∈ (attemptsBehind w₁.db e.executionId n).take limit,
      a ∈ w₁.db.attempts ∧ a.executionId = e₁.executionId := fun a ha =>
    ⟨(hpage.selected a ha).1.1, (hpage.selected a ha).1.2.trans hc₁.executionId.symm⟩
  have hnumbered : ((attemptsBehind w₁.db e.executionId n).take limit).map (·.attempt) =
      List.range' (n + 1) ((attemptsBehind w₁.db e.executionId n).take limit).length := by
    have hlength : (attemptsBehind w₁.db e.executionId n).length = e₁.attempts - n := by
      rw [← List.length_map (·.attempt), hnumbers, List.length_range']
    rw [List.map_take, hnumbers, List.length_take, hlength]
    rcases Nat.le_total limit (e₁.attempts - n) with hle | hle
    · rw [List.take_range'_of_length_ge hle, Nat.min_eq_left hle]
    · rw [List.take_range'_of_length_le hle, Nat.min_eq_right hle]
  have hclosed : ∀ a ∈ (attemptsBehind w₁.db e.executionId n).take limit, a.status ≠ .running →
      a.completedAt ≠ none := fun a ha hne hnone =>
    hne ((hledger.completed a (htable a ha).1 (htable a ha).2).1 hnone)
  obtain ⟨hkeys, hkinds⟩ := receipts_match hr he₂
  have hindices := receipts_numbered hr he₂
  rw [hc₂.executionId] at hkeys hkinds hindices
  rw [hc₂.steps] at hkinds hindices
  refine ⟨hnumbered, fun hnone => ?_, fun a ha hlt => ?_, fun a ha hne => ?_, fun hterminal a ha => ?_, hindices,
    hkinds, hkeys.trans hc₂.keys⟩
  · -- the attempt the execution counts last is shown, or lies before the page
    by_contra hmissing
    have hle := hc₁.attempts
    obtain ⟨a, ha, hk⟩ := (hledger.numbered e₁.attempts).2 (by omega)
    obtain ⟨hid, hlast⟩ := Prod.mk.inj hk
    have hbehind : (n : ℤ) < a.number := by
      unfold AttemptRow.number
      omega
    rcases hpage.complete a ⟨ha, hid.trans hc₁.executionId⟩ hbehind with hshown | ⟨c, hc, -⟩
    · have hm := List.mem_map_of_mem (f := fun a : AttemptRow => a.attempt) hshown
      rw [hnumbered, List.mem_range'_1] at hm
      omega
    · exact absurd (hnone.symm.trans hc) (by simp)
  · obtain ⟨hm, hid⟩ := htable a ha
    have hretryable := hledger.earlier a hm hid (by have := hc₁.attempts; omega)
    exact ⟨hretryable, hclosed a ha (by rw [hretryable]; decide)⟩
  · obtain ⟨hm, hid⟩ := htable a ha
    have hlast : a.attempt = e₁.attempts := by
      have hle := (hledger.attempt_le hm hid).2
      have hnot : ¬ a.attempt < e₁.attempts := fun hlt => hne (hledger.earlier a hm hid hlt)
      omega
    refine ⟨?_, fun b hb => hlast ▸ (hledger.attempt_le (htable b hb).1 (htable b hb).2).2⟩
    -- a cursor would have an attempt behind it
    cases hcursor : cursorOf AttemptRow.number limit (attemptsBehind w₁.db e.executionId n) with
    | none => rfl
    | some c =>
      obtain ⟨-, hbound, b, hb, hlt⟩ := hpage.cursor c hcursor
      have hle := (hledger.attempt_le hb.1 (hb.2.trans hc₁.executionId.symm)).2
      have hac := hbound a ha
      unfold AttemptRow.number at hlt hac
      omega
  · have hsame : e₁ = e := hc₁.terminal hterminal
    obtain ⟨hm, hid⟩ := htable a ha
    rw [hsame] at hledger hid
    refine ⟨(hledger.attempt_le hm hid).2, fun hlast => ?_⟩
    have hstatus := hledger.last a hm hid hlast
    refine ⟨hstatus, hclosed a ha ?_⟩
    rw [hstatus]
    revert hterminal
    cases e.status <;> decide

/-- **Whatever happens between its statements, what an inspection shows fits.** -/
theorem inspections_fit (events later later' : List Event) {limit : ℕ} {after : Option String} {answer : Value}
    (hlimit : 0 < limit)
    (h : inspectExecution s ((automation s.env).run events).db ((automation s.env).run (events ++ later)).db
      ((automation s.env).run (events ++ later ++ later')).db organizationId executionId limit after = .ok answer) :
    ∃ e ∈ ((automation s.env).run events).db.executions, e.organizationId = organizationId ∧
      e.executionId = executionId ∧
      ∃ attempts receipts attemptReceipts actions cursor,
        attempts.mapM (attemptJson s.env) = .ok attemptReceipts ∧ receipts.mapM (receiptJson s.env) = .ok actions ∧
        executionJson s.env e attemptReceipts (cursorJson cursor) actions = .ok answer ∧
        Fits s.env e (afterNumber after).toNat attempts cursor receipts := by
  unfold inspectExecution at h
  rw [except_bind_eq_ok] at h
  obtain ⟨⟨e, _⟩, hread, h⟩ := h
  simp only [except_bind_eq_ok] at h
  obtain ⟨n, hn, ⟨rows, _⟩, hrows, attemptReceipts, hattempts, ⟨receipts, _⟩, hreceipts, actions, hactions, h⟩ := h
  obtain ⟨hm, horganization, hid⟩ := readExecution_ok hread
  cases afterCursor_ok hn
  have hselect : rows = (attemptsBehind ((automation s.env).run (events ++ later)).db executionId
      (afterNumber after)).take (limit + 1) := readAttempts_ok hrows
  have hlisted : receipts = receiptsOf ((automation s.env).run (events ++ later ++ later')).db executionId :=
    readReceipts_ok hreceipts
  rw [hselect, take_take_succ] at hattempts
  rw [hselect] at h
  rw [hlisted] at hactions
  have hshown : executionJson s.env e attemptReceipts (cursorJson (cursorOf AttemptRow.number limit
      (attemptsBehind ((automation s.env).run (events ++ later)).db executionId (afterNumber after)))) actions =
      .ok answer := by
    rw [← nextCursor_eq]
    exact h
  refine ⟨e, hm, horganization, hid, _, _, attemptReceipts, actions, _, hattempts, hactions, hshown, ?_⟩
  obtain ⟨e₁, he₁, hc₁⟩ := run_continues (run_refs events) later hm
  obtain ⟨e₂, he₂, hc₂⟩ := run_continues (run_refs events) (later ++ later') hm
  rw [← Transition.Machine.run_append] at he₁ he₂
  rw [← List.append_assoc] at he₂
  have hnumber : ((afterNumber after).toNat : ℤ) = afterNumber after := Int.toNat_of_nonneg (afterNumber_nonneg after)
  rw [← hid, ← hnumber]
  exact fits_of_continues hlimit he₁ hc₁ (run_attempts _) he₂ hc₂ (run_refs _)

section Sample

open Sample

/-- The execution is claimed again after the first statement, and its worker goes on after the second. -/
theorem inspections_fit_claimed :
    ∃ answer, inspectExecution (World.init.session Sample.env (conn 0 0))
        ((automation Sample.env).run (opening (comment none))).db
        ((automation Sample.env).run (opening (comment none) ++ [claims 120])).db
        ((automation Sample.env).run (opening (comment none) ++ [claims 120] ++ works 120 2 served 1)).db
        "org-1" (uuid 1 1) 10 none = .ok answer ∧ answer.get "attempts" = some (.number 1) ∧
      ∃ e ∈ ((automation Sample.env).run (opening (comment none))).db.executions, ∃ attempts cursor receipts,
        Fits Sample.env e 0 attempts cursor receipts := by
  have hanswer : ∃ answer, inspectExecution (World.init.session Sample.env (conn 0 0))
      ((automation Sample.env).run (opening (comment none))).db
      ((automation Sample.env).run (opening (comment none) ++ [claims 120])).db
      ((automation Sample.env).run (opening (comment none) ++ [claims 120] ++ works 120 2 served 1)).db
      "org-1" (uuid 1 1) 10 none = .ok answer ∧ answer.get "attempts" = some (.number 1) := ⟨_, rfl, rfl⟩
  obtain ⟨answer, hanswer, hshown⟩ := hanswer
  obtain ⟨e, hm, -, -, attempts, receipts, _, _, cursor, -, -, -, hfits⟩ :=
    inspections_fit (opening (comment none)) [claims 120] (works 120 2 served 1) (by decide) hanswer
  exact ⟨answer, hanswer, hshown, e, hm, attempts, cursor, receipts, hfits⟩

end Sample

end ProjectAutomation

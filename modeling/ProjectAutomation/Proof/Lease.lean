import ProjectAutomation.Spec.Execution
import ProjectAutomation.Proof.Commands

/-!
# What claiming, reporting and leaving do

* `claimExecutions_ok`: the executions a batch leases, one after the other
  (`claimRow_ok`).
* `actionStatus_ok`, `completeAction_ok`: one receipt is written.
* `leaveExecution_ok`: the fence; the execution must still be held by the claim.
* `completeExecution_ok`: with the schedule advance behind it.
-/

namespace ProjectAutomation

open Relational

variable {env : Env} {s : Session}

/-! ## Claiming -/

/-- The lease of a claim ends here. -/
def leaseEnd (s : Session) (leaseSeconds : ℤ) : ℤ := s.transactionTimestamp + leaseSeconds * microsPerSecond

/-- The attempt a claim opens. -/
def newAttempt (s : Session) (worker : String) (e : ExecutionRow) : AttemptRow :=
  ⟨e.executionId, e.attempts + 1, worker, .running, none, s.transactionTimestamp, none⟩

/-- What reclaiming `e` makes of an attempt row. -/
def expire (s : Session) (e : ExecutionRow) (a : AttemptRow) : AttemptRow :=
  if 0 < e.attempts ∧ a.executionId = e.executionId ∧ a.attempt = e.attempts ∧ a.status = .running then
    a.close .retryable (some "lease_expired") s.transactionTimestamp
  else a

/-- A worker's copy of an execution it has just leased. -/
def claimOf (worker : String) (e : ExecutionRow) (payload : Value) (actions : List Value) : ClaimedExecution :=
  ⟨e.executionId, e.ruleId, e.triggerId, e.attempts + 1, worker, payload, actions⟩

/-- The rule and the trigger an execution was opened for. -/
def ExecutionRow.link (e : ExecutionRow) : String × Uuid := (e.ruleId, e.triggerId)

/-- One execution is leased. -/
structure LeasedOne (s : Session) (worker : String) (leaseSeconds : ℤ) (e : ExecutionRow)
    (db db' : Database) : Prop where
  executions : db.executions.Put
    (e.lease (e.attempts + 1) worker (leaseEnd s leaseSeconds) s.transactionTimestamp) db'.executions
  fresh : ∀ a ∈ db.attempts, a.key ≠ (e.executionId, e.attempts + 1)
  attempts : ∀ x, x ∈ db'.attempts ↔ (∃ a ∈ db.attempts, expire s e a = x) ∨ x = newAttempt s worker e
  commands : db'.commands = db.commands
  rules : db'.rules = db.rules
  triggers : db'.triggers = db.triggers
  receipts : db'.receipts = db.receipts
  dispatches : db'.dispatches = db.dispatches
  links : db'.executions.rows.map ExecutionRow.link = db.executions.rows.map ExecutionRow.link

theorem expire_key (e : ExecutionRow) (a : AttemptRow) : (expire s e a).key = a.key := by
  unfold expire; split <;> rfl

theorem expirePreviousAttempt_ok {e : ExecutionRow} {db : Database} {r : Unit × Database}
    (h : expirePreviousAttempt s e db = .ok r) :
    ∃ attempts, r = ((), { db with attempts }) ∧ attempts.rows = db.attempts.rows.map (expire s e) := by
  unfold expirePreviousAttempt at h
  split at h
  · -- a reclaim: the attempt whose lease ran out is closed
    rename_i hpos
    rw [statement_bind_eq_ok, Txn.get_bind, Txn.set_eq_ok] at h
    refine ⟨_, h.2, ?_⟩
    rw [Table.rows_update]
    apply List.map_congr_left
    intro a _
    simp [expire, AttemptRow.at, hpos, and_assoc]
  · rename_i hpos
    rw [Txn.pure_eq_ok] at h
    refine ⟨db.attempts, h, ?_⟩
    conv_lhs => rw [← List.map_id db.attempts.rows]
    apply List.map_congr_left
    intro a _
    simp [expire, hpos]

/-- A turn of the claim loop that succeeds closes the attempt whose lease ran out, numbers the next one within
`i32` and leases the execution for it. -/
theorem claimRow_cases {worker : String} {leaseSeconds : ℤ} {e : ExecutionRow} {payload : Value} {db : Database}
    {r : ClaimedExecution × Database} (h : claimRow s worker leaseSeconds e payload db = .ok r) :
    ∃ (attempts₁ attempts : Table AttemptRow.key) (actions : List Value),
      attempts₁.rows = db.attempts.rows.map (expire s e) ∧ e.attempts + 1 ≤ i32Max ∧
      attempts₁.insert? (newAttempt s worker e) = some attempts ∧ e.actions.asArray = some actions ∧
      r = (claimOf worker e payload actions, { db with
        attempts
        executions := db.executions.update (fun x => x.executionId = e.executionId)
          (ExecutionRow.lease (e.attempts + 1) worker (leaseEnd s leaseSeconds) s.transactionTimestamp)
          ⟨fun _ => rfl⟩ }) := by
  unfold claimRow at h
  rw [Txn.bind_eq_ok] at h
  obtain ⟨_, db₁, he, h⟩ := h
  obtain ⟨attempts₁, he, hrows⟩ := expirePreviousAttempt_ok he
  cases he
  simp only at h
  split at h
  · exact absurd h Txn.throw_ne_ok
  rename_i hcount
  split at h
  · exact absurd h Txn.throw_ne_ok
  rw [statement_bind_eq_ok, Txn.get_bind, statement_bind_eq_ok] at h
  obtain ⟨-, -, h⟩ := h
  simp only at h
  cases hinsert : attempts₁.insert? ⟨e.executionId, e.attempts + 1, worker, .running, none,
      s.transactionTimestamp, none⟩ with
  | none =>
    rw [hinsert] at h
    exact absurd h Txn.throw_ne_ok
  | some attempts =>
    rw [hinsert] at h
    simp only [Txn.set_bind] at h
    cases ha : e.actions.asArray with
    | none =>
      rw [ha] at h
      exact absurd h Txn.throw_ne_ok
    | some actions =>
      rw [ha] at h
      simp only [Txn.pure_eq_ok] at h
      exact ⟨attempts₁, attempts, actions, hrows, Nat.le_of_not_lt hcount, hinsert, rfl, h⟩

/-- **One turn of the claim loop**, on an execution that is there. -/
theorem claimRow_ok {worker : String} {leaseSeconds : ℤ} {e : ExecutionRow} {payload : Value} {db : Database}
    {r : ClaimedExecution × Database} (hm : e ∈ db.executions)
    (h : claimRow s worker leaseSeconds e payload db = .ok r) :
    LeasedOne s worker leaseSeconds e db r.2 ∧
      ∃ actions, e.actions.asArray = some actions ∧ r.1 = claimOf worker e payload actions := by
  obtain ⟨attempts₁, attempts, actions, hrows, -, hinsert, ha, rfl⟩ := claimRow_cases h
  have hkey : ∀ x, x ∈ attempts₁ ↔ ∃ a ∈ db.attempts, expire s e a = x := by
    intro x
    rw [← Table.mem_rows, hrows, List.mem_map]
    rfl
  -- the update names the execution's id, and the insert found no attempt at its key
  refine ⟨⟨?_, ?_, ?_, rfl, rfl, rfl, rfl, rfl, ?_⟩, actions, ha, rfl⟩
  · exact Table.put_of_update (f := ExecutionRow.lease _ _ _ _) ⟨fun _ => rfl⟩ hm
      (decide_eq_true rfl) (fun x _ hx => of_decide_eq_true hx)
  · intro a ha' hk
    apply (Table.insert?_eq_some.1 hinsert).1 (expire s e a) ((hkey _).2 ⟨a, ha', rfl⟩)
    rw [expire_key, hk]
    rfl
  · intro x
    rw [Table.mem_insert? hinsert, hkey]
  · exact Table.map_update (f := ExecutionRow.lease _ _ _ _) ⟨fun _ => rfl⟩ (fun _ _ => rfl)

/-- The executions a batch takes, with their payloads. -/
structure Candidates (db : Database) (organizationId : String) (now : ℤ)
    (rows : List (ExecutionRow × Value)) : Prop where
  nodup : (rows.map (fun c => c.1.executionId)).Nodup
  there : ∀ c ∈ rows, c.1 ∈ db.executions ∧ c.1.organizationId = organizationId ∧
    c.1.claimable now = true ∧ ∃ t ∈ db.triggers, t.triggerId = c.1.triggerId ∧ t.payload = c.2

theorem claimCandidates_ok (db : Database) (organizationId : String) (locked : Uuid → Bool) (now : ℤ) :
    Candidates db organizationId now (claimCandidates db organizationId locked now) := by
  unfold claimCandidates
  constructor
  · -- the candidates are a selection of the executions, whose ids are distinct
    refine List.Nodup.sublist ?_ db.executions.nodup
    rw [List.map_filterMap]
    generalize db.executions.rows = rows
    induction rows with
    | nil => simp
    | cons e rest ih =>
      rw [List.filterMap_cons, List.map_cons]
      cases hc : Option.map (fun c : ExecutionRow × Value => c.1.executionId)
          (if (e.organizationId = organizationId && e.claimable now && !locked e.executionId) = true then
            (db.triggers.find? e.triggerId).map (fun t => (e, t.payload)) else none) with
      | none => exact ih.cons _
      | some id =>
        have : id = e.executionId := by
          split at hc
          · cases hf : db.triggers.find? e.triggerId with
            | none => rw [hf] at hc; cases hc
            | some t => rw [hf] at hc; exact (Option.some.inj hc).symm
          · cases hc
        rw [this]
        exact ih.cons_cons _
  · intro c hc
    obtain ⟨e, he, hc⟩ := List.mem_filterMap.1 hc
    split at hc
    · rename_i hcond
      simp only [Bool.and_eq_true, decide_eq_true_eq] at hcond
      cases hf : db.triggers.find? e.triggerId with
      | none => rw [hf] at hc; cases hc
      | some t =>
        rw [hf] at hc
        cases hc
        obtain ⟨ht, hk⟩ := Table.find?_eq_some.1 hf
        exact ⟨he, hcond.1.1, hcond.1.2, t, ht, hk, rfl⟩
    · cases hc

/-- A batch leased one execution after the other. -/
inductive LeasedAll (s : Session) (worker : String) (leaseSeconds : ℤ) :
    List (ExecutionRow × Value) → List ClaimedExecution → Database → Database → Prop
  | nil {db : Database} : LeasedAll s worker leaseSeconds [] [] db db
  | cons {e : ExecutionRow} {payload : Value} {actions : List Value} {rest : List (ExecutionRow × Value)}
      {claims : List ClaimedExecution} {db db₁ db' : Database} :
    e ∈ db.executions → LeasedOne s worker leaseSeconds e db db₁ → e.actions.asArray = some actions →
    LeasedAll s worker leaseSeconds rest claims db₁ db' →
    LeasedAll s worker leaseSeconds ((e, payload) :: rest) (claimOf worker e payload actions :: claims)
      db db'

theorem LeasedOne.lease_key {worker : String} {leaseSeconds : ℤ} {e : ExecutionRow} {db db' : Database}
    (h : LeasedOne s worker leaseSeconds e db db') {x : ExecutionRow} (hx : x ∈ db'.executions) :
    x = e.lease (e.attempts + 1) worker (leaseEnd s leaseSeconds) s.transactionTimestamp ∨
      (x ∈ db.executions ∧ x.executionId ≠ e.executionId) := h.executions.cases hx

theorem claimRows_ok {worker : String} {leaseSeconds : ℤ} {rows : List (ExecutionRow × Value)} {db : Database}
    {r : List ClaimedExecution × Database} (hnodup : (rows.map (fun c => c.1.executionId)).Nodup)
    (hthere : ∀ c ∈ rows, c.1 ∈ db.executions) (h : claimRows s worker leaseSeconds rows db = .ok r) :
    LeasedAll s worker leaseSeconds rows r.1 db r.2 := by
  induction rows generalizing db r with
  | nil =>
    unfold claimRows at h
    rw [Txn.pure_eq_ok] at h
    subst h; exact .nil
  | cons c rest ih =>
    obtain ⟨e, payload⟩ := c
    obtain ⟨hnotin, hrest⟩ := List.nodup_cons.1 hnodup
    unfold claimRows at h
    rw [Txn.bind_eq_ok] at h
    obtain ⟨claim, db₁, hc, h⟩ := h
    rw [Txn.bind_eq_ok] at h
    obtain ⟨claims, db₂, hr, h⟩ := h
    rw [Txn.pure_eq_ok] at h
    subst h
    have he : e ∈ db.executions := hthere _ List.mem_cons_self
    obtain ⟨hone, actions, ha, hclaim⟩ := claimRow_ok he hc
    simp only at hclaim
    subst hclaim
    refine .cons he hone ha (ih hrest ?_ hr)
    -- the rest of the batch names other executions, which this turn leaves alone
    intro c hc
    refine hone.executions.of_ne (hthere c (List.mem_cons_of_mem _ hc)) ?_
    intro hk
    exact hnotin (List.mem_map.2 ⟨c, hc, hk⟩)

namespace LeasedAll

variable {worker : String} {leaseSeconds : ℤ} {rows : List (ExecutionRow × Value)}
  {claims : List ClaimedExecution} {db db' : Database}

/-- What a batch does not touch. -/
theorem frame (h : LeasedAll s worker leaseSeconds rows claims db db') :
    db'.commands = db.commands ∧ db'.rules = db.rules ∧ db'.triggers = db.triggers ∧
      db'.receipts = db.receipts ∧ db'.dispatches = db.dispatches := by
  induction h with
  | nil => exact ⟨rfl, rfl, rfl, rfl, rfl⟩
  | cons _ h₁ _ _ ih =>
    obtain ⟨hc, hr, ht, hre, hd⟩ := ih
    exact ⟨hc.trans h₁.commands, hr.trans h₁.rules, ht.trans h₁.triggers, hre.trans h₁.receipts,
      hd.trans h₁.dispatches⟩

/-- A batch keeps the order and the links of the executions. -/
theorem links (h : LeasedAll s worker leaseSeconds rows claims db db') :
    db'.executions.rows.map ExecutionRow.link = db.executions.rows.map ExecutionRow.link := by
  induction h with
  | nil => rfl
  | cons _ h₁ _ _ ih => exact ih.trans h₁.links

/-- **An execution after a batch** was not in it, or is leased by it. -/
theorem executions_cases (h : LeasedAll s worker leaseSeconds rows claims db db') {x : ExecutionRow}
    (hx : x ∈ db'.executions) :
    (x ∈ db.executions ∧ ∀ c ∈ rows, c.1.executionId ≠ x.executionId) ∨
      ∃ c ∈ rows, x = c.1.lease (c.1.attempts + 1) worker (leaseEnd s leaseSeconds) s.transactionTimestamp := by
  induction h with
  | nil => exact Or.inl ⟨hx, by simp⟩
  | @cons e payload _ _ _ _ _ _ _ h₁ _ _ ih =>
    rcases ih hx with ⟨hx₁, hne⟩ | ⟨c, hc, hxc⟩
    · rcases h₁.lease_key hx₁ with hxe | ⟨hx₀, hk⟩
      · exact Or.inr ⟨(e, payload), List.mem_cons_self, hxe⟩
      · refine Or.inl ⟨hx₀, ?_⟩
        intro c hc
        rcases List.mem_cons.1 hc with rfl | hc
        · exact fun h => hk h.symm
        · exact hne c hc
    · exact Or.inr ⟨c, List.mem_cons_of_mem _ hc, hxc⟩

/-- An execution that is not in the batch stays. -/
theorem mem_of_ne (h : LeasedAll s worker leaseSeconds rows claims db db') {x : ExecutionRow}
    (hx : x ∈ db.executions) (hne : ∀ c ∈ rows, c.1.executionId ≠ x.executionId) : x ∈ db'.executions := by
  induction h with
  | nil => exact hx
  | cons _ h₁ _ _ ih =>
    refine ih (h₁.executions.of_ne hx ?_) (fun c hc => hne c (List.mem_cons_of_mem _ hc))
    exact fun hk => hne _ List.mem_cons_self hk.symm

/-- The claims are those of the batch. -/
theorem claims_cases (h : LeasedAll s worker leaseSeconds rows claims db db') {claim : ClaimedExecution}
    (hc : claim ∈ claims) :
    ∃ c ∈ rows, ∃ actions, c.1.actions.asArray = some actions ∧ claim = claimOf worker c.1 c.2 actions := by
  induction h with
  | nil => cases hc
  | cons _ _ ha _ ih =>
    rcases List.mem_cons.1 hc with rfl | hc
    · exact ⟨_, List.mem_cons_self, _, ha, rfl⟩
    · obtain ⟨c, hm, hr⟩ := ih hc
      exact ⟨c, List.mem_cons_of_mem _ hm, hr⟩

end LeasedAll

/-- **What `claim_executions` does**, when it succeeds. -/
theorem claimExecutions_ok {organizationId worker : String} {limit : ℕ} {leaseSeconds : ℤ}
    {locked : Uuid → Bool} {db : Database} {r : Ending (List ClaimedExecution) × Database}
    (h : claimExecutions s organizationId worker limit leaseSeconds locked db = .ok r) :
    ∃ rows claims, s.Committed r.1 claims ∧ LeasedAll s worker leaseSeconds rows claims db r.2 ∧
      Candidates db organizationId s.transactionTimestamp rows := by
  unfold claimExecutions at h
  rw [statement_bind_eq_ok, statement_bind_eq_ok, Txn.get_bind] at h
  obtain ⟨-, -, h⟩ := h
  rw [Txn.bind_eq_ok] at h
  obtain ⟨claims, db₁, hc, h⟩ := h
  obtain ⟨ending, hcommitted, rfl⟩ := commit_eq_ok h
  have hcand := claimCandidates_ok db organizationId locked s.transactionTimestamp
  -- sorting and cutting the candidates keeps what is known of each
  have hrows : Candidates db organizationId s.transactionTimestamp
      (((claimCandidates db organizationId locked s.transactionTimestamp).insertionSort
        ExecutionRow.before).take limit) := by
    constructor
    · have hp := List.perm_insertionSort ExecutionRow.before
        (claimCandidates db organizationId locked s.transactionTimestamp)
      refine List.Nodup.sublist ((List.take_sublist _ _).map _) ?_
      exact ((hp.map (fun c => c.1.executionId)).nodup_iff).2 hcand.nodup
    · intro c hc
      exact hcand.there c ((List.mem_insertionSort _).1 (List.mem_of_mem_take hc))
  exact ⟨_, claims, hcommitted, claimRows_ok hrows.nodup (fun c hc => (hrows.there c hc).1) hc, hrows⟩

/-! ## Receipts -/

theorem actionStatus_ok {executionId : Uuid} {index : ℕ} {db : Database}
    {r : Ending (ReceiptStatus × String) × Database} (h : actionStatus s executionId index db = .ok r) :
    s.faults "begin action attempt" = none ∧
      ∃ row receipts, row ∈ db.receipts ∧ row.key = (executionId, index) ∧
        db.receipts.Put (row.attempt s.transactionTimestamp) receipts ∧
        r = (.commit (row.status, row.idempotencyKey), { db with receipts }) := by
  unfold actionStatus at h
  rw [statement_bind_eq_ok, Txn.get_bind] at h
  obtain ⟨hserved, h⟩ := h
  cases hf : db.receipts.find? (executionId, index) with
  | none => rw [hf] at h; exact absurd h Txn.throw_ne_ok
  | some row =>
    rw [hf] at h
    simp only [Txn.set_bind, Txn.pure_eq_ok] at h
    obtain ⟨hm, hk⟩ := Table.find?_eq_some.1 hf
    refine ⟨hserved, row, _, hm, hk, ?_, h⟩
    exact Table.put_of_update (f := ActionReceiptRow.attempt _) ⟨fun _ => rfl⟩ hm
      (ActionReceiptRow.at_iff.2 hk) (fun x _ hx => (ActionReceiptRow.at_iff.1 hx).trans hk.symm)

/-- The status `complete_action` writes. -/
def outcomeStatus (succeeded : Bool) : ReceiptStatus := if succeeded then .succeeded else .failed

theorem completeAction_ok {executionId : Uuid} {index : ℕ} {succeeded : Bool} {response : Option Value}
    {failure : Option String} {db : Database} {r : Ending Unit × Database}
    (h : completeAction s executionId index succeeded response failure db = .ok r) :
    s.faults "complete action" = none ∧ ∃ receipts, r = (.commit (), { db with receipts }) ∧
      ((∀ x ∈ db.receipts, x.key ≠ (executionId, index)) ∧ receipts = db.receipts ∨
        ∃ row ∈ db.receipts, row.key = (executionId, index) ∧
          db.receipts.Put
            (row.complete (outcomeStatus succeeded) response failure s.transactionTimestamp) receipts) := by
  unfold completeAction at h
  rw [statement_bind_eq_ok, Txn.get_bind] at h
  obtain ⟨hserved, h⟩ := h
  simp only [Txn.set_bind, Txn.pure_eq_ok] at h
  refine ⟨hserved, _, h, ?_⟩
  by_cases hrow : ∃ row ∈ db.receipts, row.key = (executionId, index)
  · obtain ⟨row, hm, hk⟩ := hrow
    refine Or.inr ⟨row, hm, hk, ?_⟩
    exact Table.put_of_update (f := ActionReceiptRow.complete _ _ _ _) ⟨fun _ => rfl⟩ hm
      (ActionReceiptRow.at_iff.2 hk) (fun x _ hx => (ActionReceiptRow.at_iff.1 hx).trans hk.symm)
  · -- `complete_action` does not count the rows it wrote: none is no error
    have hne : ∀ x ∈ db.receipts, x.key ≠ (executionId, index) := fun x hx hk => hrow ⟨x, hx, hk⟩
    refine Or.inl ⟨hne, Table.update_eq_self fun x hx => ?_⟩
    rw [← Bool.not_eq_true, ActionReceiptRow.at_iff]
    exact hne x hx

/-! ## Leaving -/

/-- The execution a claim still held has been left with `status`, and its attempt closed. -/
structure Left (s : Session) (claim : ClaimedExecution) (status : ExecutionStatus)
    (attemptStatus : AttemptStatus) (failure : Option String) (e : ExecutionRow) (db db' : Database) :
    Prop where
  there : e ∈ db.executions
  held : e.heldBy claim s.transactionTimestamp = true
  executions : db.executions.Put (e.leave status failure s.transactionTimestamp) db'.executions
  attempts : db'.attempts.rows = db.attempts.rows.map (fun a =>
    if a.key = (claim.executionId, claim.attempt) then
      a.close attemptStatus failure s.transactionTimestamp else a)
  commands : db'.commands = db.commands
  rules : db'.rules = db.rules
  triggers : db'.triggers = db.triggers
  receipts : db'.receipts = db.receipts
  dispatches : db'.dispatches = db.dispatches
  links : db'.executions.rows.map ExecutionRow.link = db.executions.rows.map ExecutionRow.link

/-- **The fence**: only the claim that holds the lease leaves the execution. -/
theorem leaveExecution_ok {operation attemptOperation : String} {claim : ClaimedExecution}
    {status : ExecutionStatus} {attemptStatus : AttemptStatus} {failure : Option String} {db : Database}
    {r : Unit × Database}
    (h : leaveExecution s operation attemptOperation claim status attemptStatus failure db = .ok r) :
    (s.faults operation = none ∧ s.faults attemptOperation = none) ∧
      ∃ e, Left s claim status attemptStatus failure e db r.2 := by
  unfold leaveExecution at h
  rw [statement_bind_eq_ok, Txn.get_bind] at h
  obtain ⟨hserved, h⟩ := h
  simp only at h
  split at h
  · exact absurd h Txn.throw_ne_ok
  rename_i hone
  rw [statement_bind_eq_ok, Txn.set_eq_ok] at h
  obtain ⟨hserved', rfl⟩ := h
  -- `rows_affected() == 1`: exactly one execution is held by the claim
  have hkey : ∀ x ∈ db.executions, x.heldBy claim s.transactionTimestamp = true →
      x.executionId = claim.executionId := fun x _ hx => (heldBy_iff.1 hx).1
  obtain ⟨e, hm, hp⟩ := (Table.affected_eq_one hkey).1 (not_ne_iff.1 hone)
  refine ⟨⟨hserved, hserved'⟩, e, hm, hp, ?_, ?_, rfl, rfl, rfl, rfl, rfl, ?_⟩
  · exact Table.put_of_update (f := ExecutionRow.leave _ _ _) ⟨fun _ => rfl⟩ hm hp
      (fun x hx hpx => (hkey x hx hpx).trans (hkey e hm hp).symm)
  · show List.map _ db.attempts.rows = _
    apply List.map_congr_left
    intro a _
    simp [AttemptRow.at, AttemptRow.key]
  · exact Table.map_update (f := ExecutionRow.leave _ _ _) ⟨fun _ => rfl⟩ (fun _ _ => rfl)

theorem releaseExecutionForRetry_ok {claim : ClaimedExecution} {failure : String} {db : Database}
    {r : Ending Unit × Database} (h : releaseExecutionForRetry s claim failure db = .ok r) :
    s.Committed r.1 () ∧ ∃ e, Left s claim .pending .retryable (some failure) e db r.2 := by
  unfold releaseExecutionForRetry at h
  rw [statement_bind_eq_ok, Txn.bind_eq_ok] at h
  obtain ⟨-, _, db₁, hl, h⟩ := h
  obtain ⟨ending, hcommitted, rfl⟩ := commit_eq_ok h
  exact ⟨hcommitted, (leaveExecution_ok hl).2⟩

/-! ## The schedule advance -/

theorem awaits_iff {scheduledFor : Option OffsetDateTime} {r : RuleRow} :
    r.awaits scheduledFor = true ↔ r.enabled = true ∧ triggerKind r.trigger = some "schedule" ∧
      r.nextFireAt.map (fun t => (decodeTimestamptz t).unixNanos) = scheduledFor.map (·.unixNanos) := by
  simp [RuleRow.awaits, and_assoc]

/-- The statements that move a rule on. -/
def advanceStatements : List String :=
  ["lock recurring rule", "advance recurring rule", "cancel superseded schedule", "create schedule dispatch"]

/-- The other statements of `complete_execution`. -/
def completeStatements : List String :=
  ["begin complete execution", "complete execution", "complete attempt", "read trigger source",
    "commit complete execution"]

/-- What completing a timer execution does to its rule. -/
inductive Advanced (s : Session) (claim : ClaimedExecution) (db db' : Database) : Prop
  | kept : db' = db →
      (∀ rule ∈ db.rules, rule.ruleId = claim.ruleId → rule.live = true →
        ∃ scheduledFor, payloadScheduledFor s.env claim.payload = .ok scheduledFor ∧
          rule.awaits scheduledFor = false) →
      Advanced s claim db db'
  | moved {rule : RuleRow} {scheduledFor next : OffsetDateTime} {interval : ℤ} :
      rule ∈ db.rules → rule.ruleId = claim.ruleId → rule.live = true →
      payloadScheduledFor s.env claim.payload = .ok (some scheduledFor) →
      rule.awaits (some scheduledFor) = true → intervalSeconds rule.trigger = some interval →
      scheduledFor.checkedAdd interval = some next →
      RuleWrite s.env (some rule) (rule.advance (encodeTimestamptz next) s.transactionTimestamp)
        (some next) db db' →
      s.ServesAll advanceStatements → Advanced s claim db db'

/-- The end of `complete_execution`: only a timer's execution advances its rule. -/
inductive Settled (s : Session) (claim : ClaimedExecution) (trigger : TriggerRow) (db db' : Database) : Prop
  | event : trigger.source = .event → db' = db → Settled s claim trigger db db'
  | timer : trigger.source = .timer → Advanced s claim db db' → Settled s claim trigger db db'

/-- What the advance of a schedule leaves alone. -/
theorem Settled.frame {claim : ClaimedExecution} {trigger : TriggerRow} {db db' : Database}
    (h : Settled s claim trigger db db') :
    db'.commands = db.commands ∧ db'.triggers = db.triggers ∧ db'.executions = db.executions ∧
      db'.attempts = db.attempts ∧ db'.receipts = db.receipts := by
  cases h with
  | event _ he => rw [he]; exact ⟨rfl, rfl, rfl, rfl, rfl⟩
  | timer _ ha =>
    cases ha with
    | kept he _ => rw [he]; exact ⟨rfl, rfl, rfl, rfl, rfl⟩
    | moved _ _ _ _ _ _ _ hw _ => exact ⟨hw.commands, hw.triggers, hw.executions, hw.attempts, hw.receipts⟩

theorem advanceRule_ok {claim : ClaimedExecution} {db : Database} {r : Unit × Database}
    (h : advanceRule s claim db = .ok r) : Advanced s claim db r.2 := by
  unfold advanceRule at h
  rw [statement_bind_eq_ok, Txn.get_bind] at h
  obtain ⟨hlock, h⟩ := h
  cases hf : db.rules.rows.find? (fun r => r.ruleId = claim.ruleId && r.live) with
  | none =>
    rw [hf] at h
    simp only [Txn.pure_eq_ok] at h
    subst h
    refine .kept rfl ?_
    intro rule hm hr hl
    exact absurd (List.find?_eq_none.1 hf rule hm) (by simp [hr, hl])
  | some rule =>
    have hm : rule ∈ db.rules := List.mem_of_find?_eq_some hf
    have hp : rule.ruleId = claim.ruleId ∧ rule.live = true := by
      simpa using List.find?_some hf
    rw [hf] at h
    simp only at h
    rw [ofExcept_bind_eq_ok] at h
    obtain ⟨scheduledFor, hs, h⟩ := h
    split at h
    · -- the rule still waits for this occurrence: its next fire time is written
      rename_i hawait
      rw [ofExcept_bind_eq_ok] at h
      obtain ⟨interval, hi, h⟩ := h
      rw [ofExcept_bind_eq_ok] at h
      obtain ⟨current, hc, h⟩ := h
      rw [ofExcept_bind_eq_ok] at h
      obtain ⟨next, hn, h⟩ := h
      simp only [ofExcept_bind_eq_ok, bindTimestamptz_eq_ok, statement_bind_eq_ok, Txn.get_bind, Txn.set_bind] at h
      obtain ⟨_, ⟨-, rfl⟩, hadvance, h⟩ := h
      rw [orInvalid_eq_ok] at hi hc
      subst hc
      have hadd : current.checkedAdd interval = some next := by
        unfold orRuntime at hn
        cases hk : current.checkedAdd interval with
        | none => rw [hk] at hn; cases hn
        | some n => rw [hk] at hn; cases hn; rfl
      refine .moved hm hp.1 hp.2 hs hawait hi hadd ?_ (by
        simpa [Connection.ServesAll, advanceStatements, hlock, hadvance] using replacePendingSchedule_served h)
      have hfound : db.rules.find? (rule.advance (encodeTimestamptz next) s.transactionTimestamp).ruleId =
          some rule := Table.find?_of_mem hm
      refine ruleWrite_of hfound ?_ rfl ?_ rfl hp.1 h
      · rintro o ⟨⟩; exact ⟨hp.2, rfl⟩
      · exact Table.put_of_update (f := RuleRow.advance _ _) ⟨fun _ => rfl⟩ hm (decide_eq_true hp.1)
          (fun x _ hx => (of_decide_eq_true hx).trans hp.1.symm)
    · -- the rule was disabled, redefined or already advanced
      rename_i hno
      rw [Txn.pure_eq_ok] at h
      subst h
      refine .kept rfl ?_
      intro rule' hm' hr' _
      rw [Table.eq_of_key hm' hm (hr'.trans hp.1.symm)]
      exact ⟨scheduledFor, hs, by simpa using hno⟩

/-- The status `complete_execution` writes. -/
def finalStatus (succeeded : Bool) : ExecutionStatus := if succeeded then .succeeded else .failed
def finalAttempt (succeeded : Bool) : AttemptStatus := if succeeded then .succeeded else .failed

/-- **What `complete_execution` does**, when it succeeds. -/
theorem completeExecution_ok {claim : ClaimedExecution} {succeeded : Bool} {failure : Option String}
    {db : Database} {r : Ending Unit × Database} (h : completeExecution s claim succeeded failure db = .ok r) :
    s.Committed r.1 () ∧ s.ServesAll completeStatements ∧ ∃ e db₁ trigger,
      Left s claim (finalStatus succeeded) (finalAttempt succeeded) failure e db db₁ ∧
      trigger ∈ db.triggers ∧ trigger.triggerId = claim.triggerId ∧ Settled s claim trigger db₁ r.2 := by
  unfold completeExecution at h
  rw [statement_bind_eq_ok] at h
  obtain ⟨hbegin, h⟩ := h
  simp only at h
  rw [Txn.bind_eq_ok] at h
  obtain ⟨_, db₁, hl, h⟩ := h
  obtain ⟨hserved, e, hleft⟩ := leaveExecution_ok hl
  rw [statement_bind_eq_ok, Txn.get_bind] at h
  obtain ⟨hread, h⟩ := h
  -- every statement was served, the commit too
  have hall : s.faults "commit complete execution" = none → s.ServesAll completeStatements := fun hcommit => by
    simpa [Connection.ServesAll, completeStatements, hbegin, hread, hcommit] using hserved
  cases hf : db₁.triggers.find? claim.triggerId with
  | none => rw [hf] at h; exact absurd h Txn.throw_ne_ok
  | some trigger =>
    rw [hf] at h
    obtain ⟨hm, hk⟩ := Table.find?_eq_some.1 hf
    have htriggers : db₁.triggers = db.triggers := hleft.triggers
    rw [htriggers] at hm
    simp only at h
    split at h
    · rename_i hsource
      rw [Txn.bind_eq_ok] at h
      obtain ⟨_, db₂, ha, h⟩ := h
      have hcommit := commit_served h
      obtain ⟨ending, hcommitted, rfl⟩ := commit_eq_ok h
      exact ⟨hcommitted, hall hcommit, e, db₁, trigger, hleft, hm, hk, .timer hsource (advanceRule_ok ha)⟩
    · rename_i hsource
      have hcommit := commit_served h
      obtain ⟨ending, hcommitted, rfl⟩ := commit_eq_ok h
      have hevent : trigger.source = .event := by
        cases hs : trigger.source with
        | event => rfl
        | timer => exact absurd hs hsource
      exact ⟨hcommitted, hall hcommit, e, db₁, trigger, hleft, hm, hk, .event hevent rfl⟩

end ProjectAutomation

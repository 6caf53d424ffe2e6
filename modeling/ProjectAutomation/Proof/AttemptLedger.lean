import ProjectAutomation.Lease.Fencing
import ProjectAutomation.Proof.Structure

/-!
# The attempt ledger

* `AttemptLedger`: the attempts of an execution are numbered `1..attempts`, all but the
  last are over, and the last one mirrors the status of the execution.
* `toLease`: an execution is a lease with fencing tokens, its attempts the tokens.
  `step_moves_lease`: every step of the machine is one of the moves of that lease.
* `attempts_fenced`: both, along every run.
-/

namespace ProjectAutomation

open Relational Fencing

variable {env : Env} {w w' : World} {event : Event} {s : Session}

/-! ## The ledger of one execution -/

/-- The status of the last attempt of an execution. -/
def lastAttempt : ExecutionStatus → AttemptStatus
  | .pending => .retryable
  | .running => .running
  | .succeeded => .succeeded
  | .failed => .failed

structure AttemptLedger (t : Table AttemptRow.key) (e : ExecutionRow) : Prop where
  /-- the attempts are exactly `1..attempts` -/
  numbered : ∀ n, (∃ a ∈ t, a.key = (e.executionId, n)) ↔ 1 ≤ n ∧ n ≤ e.attempts
  earlier : ∀ a ∈ t, a.executionId = e.executionId → a.attempt < e.attempts → a.status = .retryable
  last : ∀ a ∈ t, a.executionId = e.executionId → a.attempt = e.attempts → a.status = lastAttempt e.status
  started : e.status ≠ .pending → 1 ≤ e.attempts
  held : e.status = .running → (∃ t, e.leaseUntil = some t) ∧ ∃ a ∈ t, a.executionId = e.executionId ∧
    a.attempt = e.attempts ∧ e.leaseOwner = some a.workerInstance
  idle : e.status ≠ .running → e.leaseOwner = none ∧ e.leaseUntil = none
  completed : ∀ a ∈ t, a.executionId = e.executionId → (a.completedAt = none ↔ a.status = .running)

/-- Every execution has its ledger, and no attempt is outside one. -/
structure AttemptsOK (db : Database) : Prop where
  ledgers : ∀ e ∈ db.executions, AttemptLedger db.attempts e
  owned : ∀ a ∈ db.attempts, ∃ e ∈ db.executions, e.executionId = a.executionId

theorem AttemptsOK.init : AttemptsOK Database.init :=
  ⟨fun e he => absurd he (Table.not_mem_empty e), fun a ha => absurd ha (Table.not_mem_empty a)⟩

/-- The ledger reads only the attempts of its execution. -/
theorem AttemptLedger.congr {t t' : Table AttemptRow.key} {e : ExecutionRow} (hi : AttemptLedger t e)
    (h : ∀ a : AttemptRow, a.executionId = e.executionId → (a ∈ t' ↔ a ∈ t)) : AttemptLedger t' e := by
  refine ⟨?_, ?_, ?_, hi.started, ?_, hi.idle, ?_⟩
  · intro n
    rw [← hi.numbered n]
    constructor
    · rintro ⟨a, ha, hk⟩; exact ⟨a, (h a (congrArg Prod.fst hk)).1 ha, hk⟩
    · rintro ⟨a, ha, hk⟩; exact ⟨a, (h a (congrArg Prod.fst hk)).2 ha, hk⟩
  · exact fun a ha hid => hi.earlier a ((h a hid).1 ha) hid
  · exact fun a ha hid => hi.last a ((h a hid).1 ha) hid
  · intro hr
    obtain ⟨hl, a, ha, hid, hrest⟩ := hi.held hr
    exact ⟨hl, a, (h a hid).2 ha, hid, hrest⟩
  · exact fun a ha hid => hi.completed a ((h a hid).1 ha) hid

/-- An attempt is numbered within its execution. -/
theorem AttemptLedger.attempt_le {t : Table AttemptRow.key} {e : ExecutionRow} (hi : AttemptLedger t e)
    {a : AttemptRow} (ha : a ∈ t) (hid : a.executionId = e.executionId) :
    1 ≤ a.attempt ∧ a.attempt ≤ e.attempts :=
  (hi.numbered a.attempt).1 ⟨a, ha, Prod.ext hid rfl⟩

/-! ## Claiming -/

theorem expire_of_ne {e : ExecutionRow} {a : AttemptRow} (h : a.executionId ≠ e.executionId) :
    expire s e a = a := by
  unfold expire
  rw [if_neg (fun hc => h hc.2.1)]

/-- Once its execution is reclaimed, an earlier attempt is over. -/
theorem expire_over {t : Table AttemptRow.key} {e : ExecutionRow} {a : AttemptRow} (hi : AttemptLedger t e)
    (hopen : e.status.terminal = false) (ha : a ∈ t) (hid : a.executionId = e.executionId) :
    (expire s e a).status = .retryable ∧ (expire s e a).completedAt ≠ none := by
  obtain ⟨h1, hle⟩ := hi.attempt_le ha hid
  by_cases hr : a.status = .running
  · -- only the last attempt is running, and that is the one reclaiming closes
    have hlast : a.attempt = e.attempts := by
      by_contra hne
      have := hi.earlier a ha hid (by omega)
      rw [hr] at this; cases this
    unfold expire
    rw [if_pos ⟨by omega, hid, hlast, hr⟩]
    exact ⟨rfl, by simp [AttemptRow.close]⟩
  · unfold expire
    rw [if_neg (fun hc => hr hc.2.2.2)]
    refine ⟨?_, fun hn => hr ((hi.completed a ha hid).1 hn)⟩
    rcases Nat.lt_or_eq_of_le hle with hlt | heq
    · exact hi.earlier a ha hid hlt
    · have hl := hi.last a ha hid heq
      cases hs : e.status with
      | pending => rw [hl, hs]; rfl
      | running => rw [hs] at hl; exact absurd hl hr
      | succeeded => rw [hs] at hopen; cases hopen
      | failed => rw [hs] at hopen; cases hopen

/-- The ledger of an execution that is leased: its attempts are those that were there, now over, and
the new one. -/
theorem leasedOne_ledger {worker : String} {leaseSeconds : ℤ} {e : ExecutionRow} {db db' : Database}
    (hle : AttemptLedger db.attempts e) (hopen : e.status.terminal = false)
    (h : LeasedOne s worker leaseSeconds e db db') :
    AttemptLedger db'.attempts
      (e.lease (e.attempts + 1) worker (leaseEnd s leaseSeconds) s.transactionTimestamp) := by
  have hnew : newAttempt s worker e ∈ db'.attempts := (h.attempts _).2 (Or.inr rfl)
  have hrows : ∀ a ∈ db'.attempts, a.executionId = e.executionId →
      (a.status = .retryable ∧ a.completedAt ≠ none ∧ a.attempt ≤ e.attempts) ∨
        a = newAttempt s worker e := by
    intro a ha hid
    rcases (h.attempts a).1 ha with ⟨a₀, ha₀, rfl⟩ | rfl
    · have hk := expire_key (s := s) e a₀
      have hid₀ : a₀.executionId = e.executionId := (congrArg Prod.fst hk).symm.trans hid
      obtain ⟨hs, hc⟩ := expire_over (s := s) hle hopen ha₀ hid₀
      have hn : (expire s e a₀).attempt = a₀.attempt := congrArg Prod.snd hk
      exact Or.inl ⟨hs, hc, hn ▸ (hle.attempt_le ha₀ hid₀).2⟩
    · exact Or.inr rfl
  refine ⟨?_, ?_, ?_, fun _ => Nat.le_add_left 1 _, ?_, fun hr => absurd rfl hr, ?_⟩
  · intro n
    show (∃ a ∈ db'.attempts, a.key = (e.executionId, n)) ↔ 1 ≤ n ∧ n ≤ e.attempts + 1
    constructor
    · rintro ⟨a, ha, hk⟩
      rcases (h.attempts a).1 ha with ⟨a₀, ha₀, rfl⟩ | rfl
      · rw [expire_key] at hk
        have := (hle.numbered n).1 ⟨a₀, ha₀, hk⟩
        omega
      · have : e.attempts + 1 = n := congrArg Prod.snd hk
        omega
    · intro hn
      rcases Nat.lt_or_eq_of_le hn.2 with hlt | rfl
      · obtain ⟨a₀, ha₀, hk⟩ := (hle.numbered n).2 ⟨hn.1, by omega⟩
        exact ⟨expire s e a₀, (h.attempts _).2 (Or.inl ⟨a₀, ha₀, rfl⟩), (expire_key e a₀).trans hk⟩
      · exact ⟨_, hnew, rfl⟩
  · intro a ha hid hlt
    rcases hrows a ha hid with ⟨hs, -⟩ | rfl
    · exact hs
    · exact absurd hlt (Nat.lt_irrefl _)
  · intro a ha hid heq
    rcases hrows a ha hid with ⟨-, -, hle'⟩ | rfl
    · have : a.attempt = e.attempts + 1 := heq
      omega
    · rfl
  · exact fun _ => ⟨⟨_, rfl⟩, _, hnew, rfl, rfl, rfl⟩
  · intro a ha hid
    rcases hrows a ha hid with ⟨hs, hc, -⟩ | rfl
    · rw [hs]
      simp [hc]
    · exact iff_of_true rfl rfl

/-- **A claim keeps the ledgers.** -/
theorem leasedOne_attempts {worker : String} {leaseSeconds : ℤ} {e : ExecutionRow} {db db' : Database}
    (hi : AttemptsOK db) (he : e ∈ db.executions) (hopen : e.status.terminal = false)
    (h : LeasedOne s worker leaseSeconds e db db') : AttemptsOK db' := by
  constructor
  · intro x hx
    rcases h.lease_key hx with rfl | ⟨hx, hne⟩
    · exact leasedOne_ledger (hi.ledgers e he) hopen h
    · -- the attempts of the other executions are untouched
      refine (hi.ledgers x hx).congr ?_
      intro a hid
      rw [h.attempts]
      constructor
      · rintro (⟨a₀, ha₀, rfl⟩ | rfl)
        · have hk := congrArg Prod.fst (expire_key (s := s) e a₀)
          have hne₀ : a₀.executionId ≠ e.executionId := fun hc =>
            hne (hid.symm.trans (hk.trans hc))
          rw [expire_of_ne hne₀]
          exact ha₀
        · exact absurd hid.symm hne
      · intro ha
        exact Or.inl ⟨a, ha, expire_of_ne (fun hc => hne (hid.symm.trans hc))⟩
  · intro a ha
    refine h.executions.exists_key ?_
    rcases (h.attempts a).1 ha with ⟨a₀, ha₀, rfl⟩ | rfl
    · have hk : (expire s e a₀).executionId = a₀.executionId := congrArg Prod.fst (expire_key e a₀)
      rw [hk]
      exact hi.owned a₀ ha₀
    · exact ⟨e, he, rfl⟩

/-- So does a batch: the induction is on the claims, each made of what the ones before left. -/
theorem leasedAll_attempts {worker : String} {leaseSeconds : ℤ} {rows : List (ExecutionRow × Value)}
    {claims : List ClaimedExecution} {db db' : Database}
    (h : LeasedAll s worker leaseSeconds rows claims db db')
    (hopen : ∀ c ∈ rows, c.1.status.terminal = false) (hi : AttemptsOK db) : AttemptsOK db' := by
  induction h with
  | nil => exact hi
  | cons he h₁ _ _ ih =>
    exact ih (fun c hc => hopen c (List.mem_cons_of_mem _ hc))
      (leasedOne_attempts hi he (hopen _ List.mem_cons_self) h₁)

/-! ## Leaving and opening -/

/-- What giving a lease up makes of an attempt row. -/
def leaveAttempt (s : Session) (claim : ClaimedExecution) (attemptStatus : AttemptStatus) (failure : Option String)
    (a : AttemptRow) : AttemptRow :=
  if a.key = (claim.executionId, claim.attempt) then a.close attemptStatus failure s.transactionTimestamp else a

section Leave

variable {claim : ClaimedExecution} {status : ExecutionStatus} {attemptStatus : AttemptStatus}
  {failure : Option String} {e : ExecutionRow} {db db' : Database}

theorem leaveAttempt_key (a : AttemptRow) : (leaveAttempt s claim attemptStatus failure a).key = a.key := by
  unfold leaveAttempt
  split <;> rfl

theorem leaveAttempt_of_ne {a : AttemptRow} (h : a.key ≠ (claim.executionId, claim.attempt)) :
    leaveAttempt s claim attemptStatus failure a = a := if_neg h

/-- An attempt afterwards is one from before, closed when it is the claim's. -/
theorem Left.mem_attempts (h : Left s claim status attemptStatus failure e db db') {a : AttemptRow} :
    a ∈ db'.attempts ↔ ∃ a₀ ∈ db.attempts, leaveAttempt s claim attemptStatus failure a₀ = a := by
  rw [← Table.mem_rows, h.attempts, List.mem_map]
  rfl

/-- The ledger of the execution that is left. -/
theorem left_ledger (hle : AttemptLedger db.attempts e) (h : Left s claim status attemptStatus failure e db db')
    (hstatus : attemptStatus = lastAttempt status) (hleave : status ≠ .running) :
    AttemptLedger db'.attempts (e.leave status failure s.transactionTimestamp) := by
  obtain ⟨hid, hatt, hrun, -, -⟩ := heldBy_iff.1 h.held
  refine ⟨?_, ?_, ?_, fun _ => hle.started (by rw [hrun]; decide), fun hr => absurd hr hleave,
    fun _ => ⟨rfl, rfl⟩, ?_⟩
  · intro n
    show (∃ a ∈ db'.attempts, a.key = (e.executionId, n)) ↔ 1 ≤ n ∧ n ≤ e.attempts
    rw [← hle.numbered n]
    constructor
    · rintro ⟨a, ha, hk⟩
      obtain ⟨a₀, ha₀, rfl⟩ := h.mem_attempts.1 ha
      exact ⟨a₀, ha₀, (leaveAttempt_key a₀).symm.trans hk⟩
    · rintro ⟨a₀, ha₀, hk⟩
      exact ⟨_, h.mem_attempts.2 ⟨a₀, ha₀, rfl⟩, (leaveAttempt_key a₀).trans hk⟩
  · intro a ha hida hlt
    obtain ⟨a₀, ha₀, rfl⟩ := h.mem_attempts.1 ha
    by_cases hc : a₀.key = (claim.executionId, claim.attempt)
    · have hn : (leaveAttempt s claim attemptStatus failure a₀).attempt = claim.attempt :=
        congrArg Prod.snd ((leaveAttempt_key a₀).trans hc)
      have hlt' : (leaveAttempt s claim attemptStatus failure a₀).attempt < e.attempts := hlt
      omega
    · rw [leaveAttempt_of_ne hc] at hida hlt ⊢
      exact hle.earlier a₀ ha₀ hida hlt
  · intro a ha hida heq
    obtain ⟨a₀, ha₀, rfl⟩ := h.mem_attempts.1 ha
    by_cases hc : a₀.key = (claim.executionId, claim.attempt)
    · unfold leaveAttempt
      rw [if_pos hc]
      exact hstatus
    · rw [leaveAttempt_of_ne hc] at hida heq
      exact absurd (Prod.ext (hida.trans hid) (heq.trans hatt)) hc
  · intro a ha hida
    obtain ⟨a₀, ha₀, rfl⟩ := h.mem_attempts.1 ha
    by_cases hc : a₀.key = (claim.executionId, claim.attempt)
    · have hne : attemptStatus ≠ .running := by
        rw [hstatus]
        cases status <;> simp [lastAttempt] at hleave ⊢
      unfold leaveAttempt
      rw [if_pos hc]
      exact iff_of_false (by simp [AttemptRow.close]) hne
    · rw [leaveAttempt_of_ne hc] at hida ⊢
      exact hle.completed a₀ ha₀ hida

/-- **Leaving keeps the ledgers.** -/
theorem left_attempts (hi : AttemptsOK db) (h : Left s claim status attemptStatus failure e db db')
    (hstatus : attemptStatus = lastAttempt status) (hleave : status ≠ .running) : AttemptsOK db' := by
  obtain ⟨hid, -, -, -, -⟩ := heldBy_iff.1 h.held
  constructor
  · intro x hx
    rcases h.executions.cases hx with rfl | ⟨hx, hne⟩
    · exact left_ledger (hi.ledgers e h.there) h hstatus hleave
    · -- the attempts of the other executions are untouched
      refine (hi.ledgers x hx).congr ?_
      intro a hida
      have hnot : ∀ a₀ : AttemptRow, a₀.executionId = x.executionId →
          leaveAttempt s claim attemptStatus failure a₀ = a₀ := fun a₀ h₀ =>
        leaveAttempt_of_ne fun hc => hne (h₀.symm.trans ((congrArg Prod.fst hc).trans hid.symm))
      rw [h.mem_attempts]
      constructor
      · rintro ⟨a₀, ha₀, rfl⟩
        have h₀ : a₀.executionId = x.executionId := (congrArg Prod.fst (leaveAttempt_key a₀)).symm.trans hida
        rw [hnot a₀ h₀]
        exact ha₀
      · exact fun ha => ⟨a, ha, hnot a hida⟩
  · intro a ha
    obtain ⟨a₀, ha₀, rfl⟩ := h.mem_attempts.1 ha
    refine h.executions.exists_key ?_
    have hk : (leaveAttempt s claim attemptStatus failure a₀).executionId = a₀.executionId :=
      congrArg Prod.fst (leaveAttempt_key a₀)
    rw [hk]
    exact hi.owned a₀ ha₀

end Leave

/-- An execution just opened has no attempt. -/
theorem opened_attempts {trigger : TriggerRow} {es : List ExecutionRow} {db db' : Database}
    (hi : AttemptsOK db) (h : Intake s trigger es db db') : AttemptsOK db' := by
  obtain ⟨-, hnew⟩ := h.ids_nodup
  constructor
  · intro e he
    rw [h.attempts]
    rcases h.mem_executions.1 he with he | he
    · exact hi.ledgers e he
    · obtain ⟨rule, -, -, -, -, ho⟩ := h.opened e he
      have hrow := ho.row
      -- an attempt belongs to an execution that was there
      have hnone : ∀ a ∈ db.attempts, a.executionId ≠ e.executionId := by
        intro a ha hid
        obtain ⟨x, hx, hxa⟩ := hi.owned a ha
        exact hnew x hx e he (hxa.trans hid)
      have hzero : e.attempts = 0 := by rw [hrow]; rfl
      have hpending : e.status = .pending := by rw [hrow]; rfl
      refine ⟨?_, fun a ha hid => absurd hid (hnone a ha), fun a ha hid => absurd hid (hnone a ha),
        fun hs => absurd hpending hs, fun hr => ?_, fun _ => ?_, fun a ha hid => absurd hid (hnone a ha)⟩
      · intro n
        rw [hzero]
        constructor
        · rintro ⟨a, ha, hk⟩; exact absurd (congrArg Prod.fst hk) (hnone a ha)
        · rintro ⟨h1, h0⟩; omega
      · rw [hpending] at hr; cases hr
      · rw [hrow]; exact ⟨rfl, rfl⟩
  · intro a ha
    rw [h.attempts] at ha
    obtain ⟨x, hx, hxa⟩ := hi.owned a ha
    exact ⟨x, h.mem_executions.2 (Or.inl hx), hxa⟩

theorem AttemptsOK.of_eq {db db' : Database} (hi : AttemptsOK db) (he : db'.executions = db.executions)
    (ha : db'.attempts = db.attempts) : AttemptsOK db' := by
  constructor
  · rw [he, ha]; exact hi.ledgers
  · rw [he, ha]; exact hi.owned

/-- **Every step keeps the ledgers.** -/
theorem step_attempts (h : Step env w event w') (hi : AttemptsOK w.db) : AttemptsOK w'.db := by
  cases h with
  | idle | tick | pendingDispatches | enqueued | lost | flushEnds | marked | noted | failed | givesUp
  | statusRead | called | recorded | closes => exact hi.of_eq rfl rfl
  | command _ hw _ => exact hi.of_eq hw.frame.2.1 hw.frame.2.2.1
  | receiveEvent _ hin _ => exact opened_attempts hi hin
  | receiveTimer _ _ _ hin => exact opened_attempts hi hin
  | claimed hcand hl =>
    exact leasedAll_attempts hl (fun c hc => not_terminal_of_claimable (hcand.there c hc).2.2.1) hi
  | released _ hleft => exact left_attempts hi hleft rfl (by decide)
  | @completed _ _ _ _ _ _ succeeded _ _ _ _ _ _ _ hleft _ _ hsettled =>
    have hone := left_attempts hi hleft (by cases succeeded <;> rfl) (by cases succeeded <;> decide)
    exact hone.of_eq hsettled.frame.2.2.1 hsettled.frame.2.2.2.1

/-! ## An execution as a lease -/

/-- The lease an execution is; its attempts are the tokens. -/
def ExecutionRow.toLease (e : ExecutionRow) : Lease String ℤ :=
  match e.status, e.leaseOwner, e.leaseUntil with
  | .pending, _, _ => .free e.attempts
  | .running, some owner, some expires => .held e.attempts owner expires
  | .running, _, _ | .succeeded, _, _ | .failed, _, _ => .closed e.attempts

theorem issued_toLease (e : ExecutionRow) : e.toLease.issued = e.attempts := by
  unfold ExecutionRow.toLease
  split <;> rfl

/-- The fence of the storage layer is the holding of the lease. -/
theorem heldBy_toLease {claim : ClaimedExecution} {now : ℤ} {e : ExecutionRow} :
    e.heldBy claim now = true ↔
      e.executionId = claim.executionId ∧ e.toLease.Holds now claim.attempt claim.worker := by
  rw [heldBy_iff]
  refine and_congr_right fun _ => ?_
  unfold ExecutionRow.toLease
  cases e.status with
  | pending => simp [Lease.Holds]
  | running => cases e.leaseOwner <;> cases e.leaseUntil <;> simp [Lease.Holds]
  | succeeded => simp [Lease.Holds]
  | failed => simp [Lease.Holds]

/-- An execution that may be claimed is a lease that may be acquired. -/
theorem acquirable_toLease {t : Table AttemptRow.key} {e : ExecutionRow} {now : ℤ} (hi : AttemptLedger t e) :
    e.claimable now = true ↔ e.toLease.Acquirable now := by
  rw [claimable_iff]
  unfold ExecutionRow.toLease
  cases hs : e.status with
  | pending => simp [Lease.Acquirable]
  | running =>
    obtain ⟨⟨expires, he⟩, a, -, -, -, ho⟩ := hi.held hs
    simp [he, ho, Lease.Acquirable]
  | succeeded => simp [Lease.Acquirable]
  | failed => simp [Lease.Acquirable]

/-- **Every step of the machine moves every lease as leases move.** -/
theorem step_moves_lease (h : Step env w event w') (hi : AttemptsOK w.db) {e : ExecutionRow}
    (he : e ∈ w.db.executions) :
    ∃ e' ∈ w'.db.executions, e'.executionId = e.executionId ∧ ∃ now, e.toLease.Moves now e'.toLease := by
  -- a lease that is not touched stays, and a claim that leaves moves the lease it holds
  have hstay : w'.db.executions = w.db.executions → ∃ e' ∈ w'.db.executions,
      e'.executionId = e.executionId ∧ ∃ now, e.toLease.Moves now e'.toLease :=
    fun heq => ⟨e, heq ▸ he, rfl, 0, .stays _⟩
  have hleave : ∀ {s : Session} {claim : ClaimedExecution} {status : ExecutionStatus}
      {attemptStatus : AttemptStatus} {failure : Option String} {x : ExecutionRow} {db' : Database},
      status ≠ .running → Left s claim status attemptStatus failure x w.db db' →
      ∃ e' ∈ db'.executions, e'.executionId = e.executionId ∧ ∃ now, e.toLease.Moves now e'.toLease := by
    intro s claim status attemptStatus failure x db' hstatus hleft
    by_cases hk : e.executionId = x.executionId
    · have hex : e = x := Table.eq_of_key he hleft.there hk
      subst hex
      obtain ⟨-, hholds⟩ := heldBy_toLease.1 hleft.held
      refine ⟨_, hleft.executions.mem, rfl, s.transactionTimestamp, ?_⟩
      have hatt := (heldBy_iff.1 hleft.held).2.1
      cases status with
      | running => exact absurd rfl hstatus
      | pending =>
        show e.toLease.Moves _ (.free e.attempts)
        rw [hatt]; exact .released hholds
      | succeeded | failed =>
        show e.toLease.Moves _ (.closed e.attempts)
        rw [hatt]; exact .finished hholds
    · exact ⟨e, hleft.executions.of_ne he hk, rfl, 0, .stays _⟩
  cases h with
  | idle | tick | pendingDispatches | enqueued | lost | flushEnds | marked | noted | failed | givesUp
  | statusRead | called | recorded | closes => exact hstay rfl
  | command _ hw _ => exact hstay hw.frame.2.1
  | receiveEvent _ hin _ => exact ⟨e, hin.mem_executions.2 (Or.inl he), rfl, 0, .stays _⟩
  | receiveTimer _ _ _ hin => exact ⟨e, hin.mem_executions.2 (Or.inl he), rfl, 0, .stays _⟩
  | @claimed conn _ worker _ leaseSeconds _ rows _ _ _ hcand hl =>
    by_cases hc : ∃ c ∈ rows, c.1 = e
    · obtain ⟨c, hc, rfl⟩ := hc
      refine ⟨_, hl.mem_lease hcand.nodup hc, rfl, conn.transactionTimestamp, ?_⟩
      have hacq := (acquirable_toLease (hi.ledgers _ he)).1 (hcand.there c hc).2.2.1
      have hm : c.1.toLease.Moves conn.transactionTimestamp
          (.held (c.1.toLease.issued + 1) worker (leaseEnd (w.session env conn) leaseSeconds)) :=
        .acquired _ _ hacq
      rw [issued_toLease] at hm
      exact hm
    · refine ⟨e, hl.mem_of_ne he ?_, rfl, 0, .stays _⟩
      intro c hm hid
      exact hc ⟨c, hm, Table.eq_of_key (hcand.there c hm).1 he hid⟩
  | released _ hleft => exact hleave (by decide) hleft
  | @completed _ _ _ _ _ _ succeeded _ _ _ _ _ _ _ hleft _ _ hsettled =>
    obtain ⟨e', he', hr⟩ := hleave (by cases succeeded <;> decide) hleft
    refine ⟨e', ?_, hr⟩
    simp only [World.setTask]
    rw [hsettled.frame.2.2.1]; exact he'

/-! ## The fence -/

/-- A claim that holds no lease releases nothing. -/
theorem release_unheld {claim : ClaimedExecution} {db : Database}
    (h : ∀ e ∈ db.executions, e.heldBy claim s.transactionTimestamp = false) (failure : String) :
    (transact (releaseExecutionForRetry s claim failure) db).2 = db := by
  rcases transact_cases (releaseExecutionForRetry s claim failure) db with he | ⟨_, _, _, hb, -⟩
  · exact he
  · obtain ⟨-, e, hleft⟩ := releaseExecutionForRetry_ok hb
    have := h e hleft.there
    rw [hleft.held] at this; cases this

/-- Nor does it complete anything. -/
theorem complete_unheld {claim : ClaimedExecution} {db : Database}
    (h : ∀ e ∈ db.executions, e.heldBy claim s.transactionTimestamp = false) (succeeded : Bool)
    (failure : Option String) : (transact (completeExecution s claim succeeded failure) db).2 = db := by
  rcases transact_cases (completeExecution s claim succeeded failure) db with he | ⟨_, _, _, hb, -⟩
  · exact he
  · obtain ⟨-, -, e, _, _, hleft, -⟩ := completeExecution_ok hb
    have := h e hleft.there
    rw [hleft.held] at this; cases this

/-- The worker that moves is the one that holds the lease of `e`. -/
def HolderMoves (w : World) (event : Event) (e : ExecutionRow) : Prop :=
  ∃ conn providers claim phase, event = .work conn e.executionId e.attempts providers ∧
    w.tasks (e.executionId, e.attempts) = some ⟨claim, phase⟩ ∧
    e.heldBy claim conn.transactionTimestamp = true

theorem left_holder {conn : Connection} {executionId : Uuid} {attempt : ℕ} {providers : Providers}
    {claim : ClaimedExecution} {phase : Phase} {status : ExecutionStatus} {attemptStatus : AttemptStatus}
    {failure : Option String} {x e e' : ExecutionRow} {db' : Database} (hr : RefsOK env w)
    (ht : w.tasks (executionId, attempt) = some ⟨claim, phase⟩)
    (hleft : Left (w.session env conn) claim status attemptStatus failure x w.db db')
    (he : e ∈ w.db.executions) (he' : e' ∈ db'.executions) (hid : e'.executionId = e.executionId)
    (hne : e' ≠ e) : HolderMoves w (.work conn executionId attempt providers) e := by
  obtain ⟨hk, -⟩ := hr.tasks _ _ ht
  obtain ⟨rfl, rfl⟩ := Prod.mk.inj hk
  obtain ⟨hclaim, hatt, -⟩ := heldBy_iff.1 hleft.held
  have hx : e = x := by
    rcases hleft.executions.cases he' with rfl | ⟨he', -⟩
    · exact Table.eq_of_key he hleft.there hid.symm
    · exact absurd (Table.eq_of_key he' he hid) hne
  subst hx
  refine ⟨conn, providers, claim, phase, ?_, ?_, hleft.held⟩
  · rw [hclaim, hatt]
  · rw [hclaim, hatt]; exact ht

/-- **Only the holder takes an execution out of `running`.** -/
theorem step_holder (h : Step env w event w') (hr : RefsOK env w) {e e' : ExecutionRow}
    (he : e ∈ w.db.executions) (hrun : e.status = .running) (he' : e' ∈ w'.db.executions)
    (hid : e'.executionId = e.executionId) (hstop : e'.status ≠ .running) : HolderMoves w event e := by
  have hne : e' ≠ e := fun hc => hstop (hc ▸ hrun)
  -- a step that keeps the row, or only adds rows, does not end it
  have hsame : ∀ {t : Table ExecutionRow.executionId}, e' ∈ t → t = w.db.executions → False :=
    fun hm ht => hne (Table.eq_of_key (ht ▸ hm) he hid)
  have hopen : ∀ {s : Session} {trigger : TriggerRow} {es : List ExecutionRow} {db' : Database},
      Intake s trigger es w.db db' → e' ∈ db'.executions → False := by
    intro s trigger es db' hin hm
    exact hne (Table.eq_of_key hm (hin.mem_executions.2 (Or.inl he)) hid)
  cases h with
  | idle | tick | pendingDispatches | enqueued | lost | flushEnds | marked | noted | failed | givesUp
  | statusRead | called | recorded | closes => exact (hsame he' rfl).elim
  | command _ hw _ => exact (hsame he' hw.frame.2.1).elim
  | receiveEvent _ hin _ => exact (hopen hin he').elim
  | receiveTimer _ _ _ hin => exact (hopen hin he').elim
  | claimed _ hl =>
    rcases hl.executions_cases he' with ⟨hx, -⟩ | ⟨c, -, rfl⟩
    · exact absurd (Table.eq_of_key hx he hid) hne
    · exact absurd rfl hstop
  | released ht hleft => exact left_holder hr ht hleft he he' hid hne
  | completed ht _ hleft _ _ hsettled =>
    simp only [World.setTask] at he'
    rw [hsettled.frame.2.2.1] at he'
    exact left_holder hr ht hleft he he' hid hne

/-! ## Runs -/

theorem run_attempts (is : List Event) : AttemptsOK ((automation env).run is).db :=
  inv_always (I := fun w => AttemptsOK w.db) AttemptsOK.init (fun _ hstep hi => step_attempts hstep hi) is

/-- Along a run an execution keeps its identity, its lease evolves, and its end is final. -/
theorem run_evolves (hr : RefsOK env w) (hi : AttemptsOK w.db) (later : List Event) {e : ExecutionRow}
    (he : e ∈ w.db.executions) : ∃ e' ∈ ((automation env).runFrom w later).db.executions,
      e.Continues e' ∧ e.toLease.Evolves e'.toLease := by
  refine rel_along (R := fun w w' => ∀ e ∈ w.db.executions, ∃ e' ∈ w'.db.executions,
    e.Continues e' ∧ e.toLease.Evolves e'.toLease) (I := fun w => AttemptsOK w.db) (G := fun _ _ => True)
    ?_ ?_ (fun _ _ hstep hi => step_attempts hstep hi) ?_ hr hi
    (Transition.Machine.along_true w later) e he
  · exact fun w e he => ⟨e, he, .refl e, .refl _⟩
  · intro w₁ w₂ w₃ h h' e he
    obtain ⟨e₂, he₂, hc, hl⟩ := h e he
    obtain ⟨e₃, he₃, hc', hl'⟩ := h' e₂ he₂
    exact ⟨e₃, he₃, hc.trans hc', hl.trans hl'⟩
  · intro w event w' _ _ hstep hi e he
    obtain ⟨e', he', hc⟩ := step_continues hstep he
    obtain ⟨e₂, he₂, hid, _, hm⟩ := step_moves_lease hstep hi he
    have : e₂ = e' := Table.eq_of_key he₂ he' (hid.trans hc.executionId.symm)
    exact ⟨e', he', hc, .of_moves (this ▸ hm)⟩

/-- **Attempts are counted and fenced.** In every reachable state each execution has its attempt
ledger; a claim that does not hold the lease changes nothing; no execution is open to its holder and
to a reclaim at once; only its holder takes it out of `running`; and in every later state a claim
that was overtaken still holds nothing, and an execution that has ended is as it was. -/
theorem attempts_fenced (is : List Event) :
    let w := (automation env).run is
    (∀ e ∈ w.db.executions, AttemptLedger w.db.attempts e) ∧
    (∀ a ∈ w.db.attempts, ∃ e ∈ w.db.executions, e.executionId = a.executionId) ∧
    (∀ (s : Session) (claim : ClaimedExecution),
      (∀ e ∈ w.db.executions, e.heldBy claim s.transactionTimestamp = false) →
      (∀ failure, (transact (releaseExecutionForRetry s claim failure) w.db).2 = w.db) ∧
      ∀ succeeded failure, (transact (completeExecution s claim succeeded failure) w.db).2 = w.db) ∧
    (∀ e ∈ w.db.executions, ∀ claim now, ¬ (e.heldBy claim now = true ∧ e.claimable now = true)) ∧
    (∀ event, ∀ e ∈ w.db.executions, e.status = .running →
      ∀ e' ∈ ((automation env).next w event).db.executions, e'.executionId = e.executionId →
        e'.status ≠ .running → HolderMoves w event e) ∧
    ∀ later, ∀ e ∈ w.db.executions, ∃ e' ∈ ((automation env).run (is ++ later)).db.executions,
      e'.executionId = e.executionId ∧ (e.status.terminal = true → e' = e) ∧
        ∀ claim now, claim.attempt < e.attempts → e'.heldBy claim now = false := by
  intro w
  have hi : AttemptsOK w.db := run_attempts is
  have hr : RefsOK env w := run_refs is
  refine ⟨hi.ledgers, hi.owned, fun s claim h => ⟨release_unheld h, complete_unheld h⟩, ?_, ?_, ?_⟩
  · rintro e he claim now ⟨hheld, hclaim⟩
    obtain ⟨-, hholds⟩ := heldBy_toLease.1 hheld
    exact hholds.not_acquirable ((acquirable_toLease (hi.ledgers e he)).1 hclaim)
  · intro event e he hrun e' he' hid hstop
    exact step_holder (step_cases hr.linked event) hr he hrun he' hid hstop
  · intro later e he
    rw [Transition.Machine.run_append]
    obtain ⟨e', he', hc, hl⟩ := run_evolves hr hi later he
    refine ⟨e', he', hc.executionId, hc.terminal, ?_⟩
    intro claim now hlt
    rw [← Bool.not_eq_true, heldBy_toLease]
    rintro ⟨-, hholds⟩
    exact hl.not_holds_of_lt (by rw [issued_toLease]; exact hlt) hholds

end ProjectAutomation

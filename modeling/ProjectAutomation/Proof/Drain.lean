import ProjectAutomation.Progress.Queue
import ProjectAutomation.Proof.AttemptLedger
import ProjectAutomation.Proof.Batch
import ProjectAutomation.Proof.Flushing
import ProjectAutomation.Proof.Sufficiency

/-!
# Undisturbed calls drain the backlog

`reconcile` takes the open executions of an organization from the front of a queue, the oldest first.
When nothing but the answers of Projects and Collaboration can fail it, and those do answer, a call
ends every execution it takes, with success or with a failure.

* `openRows`: the queue; `claimExecutions_serves`: what a claim takes of it.
* `settleBatch_finishes`: the batch comes to an end, and so does each of its executions.
* `reconcile_serves`: one call takes its limit from the front.
* `reconcile_drains`: so calls in a row drain the queue, in order and each execution by the call that
  reaches its place.
-/

namespace ProjectAutomation

open Relational Table Progress

variable {env : Env} {w w' : World} {s : Session} {db db' : Database} {organizationId worker : String}

/-! ## The queue -/

/-- An execution of the organization that has not ended. -/
def ExecutionRow.openIn (organizationId : String) (e : ExecutionRow) : Bool :=
  e.organizationId = organizationId && !e.status.terminal

/-- `ORDER BY created_at,execution_id`, on the executions alone. -/
def ExecutionRow.older (a b : ExecutionRow) : Prop :=
  a.createdAt < b.createdAt ∨ (a.createdAt = b.createdAt ∧ a.executionId.text ≤ b.executionId.text)

instance : DecidableRel ExecutionRow.older := fun _ _ => inferInstanceAs (Decidable (_ ∨ (_ ∧ _)))

/-- The place of an execution: its creation, then its id. -/
def ExecutionRow.place (e : ExecutionRow) : ℤ ×ₗ String := toLex (e.createdAt, e.executionId.text)

theorem older_orderedBy : OrderedBy ExecutionRow.older ExecutionRow.place := by
  refine ⟨fun a b => ?_⟩
  unfold ExecutionRow.place
  rw [Prod.Lex.toLex_le_toLex]
  exact Iff.rfl

/-- The open executions of an organization, the oldest first. -/
def openRows (db : Database) (organizationId : String) : List ExecutionRow :=
  db.executions.select (ExecutionRow.openIn organizationId) ExecutionRow.older

theorem openIn_iff {e : ExecutionRow} :
    e.openIn organizationId = true ↔ e.organizationId = organizationId ∧ e.status.terminal = false := by
  simp [ExecutionRow.openIn]

theorem mem_openRows {e : ExecutionRow} : e ∈ openRows db organizationId ↔
    e ∈ db.executions ∧ e.organizationId = organizationId ∧ e.status.terminal = false := by
  unfold openRows
  rw [mem_select, openIn_iff]

theorem openRows_separates (t : Table ExecutionRow.executionId) (organizationId : String) :
    t.Separates (ExecutionRow.openIn organizationId) ExecutionRow.place := by
  refine separates_of_key fun a b h => ?_
  have htext := (Prod.mk.inj (toLex_inj.1 h)).2
  cases ha : a.executionId
  cases hb : b.executionId
  rw [ha, hb] at htext
  exact congrArg Uuid.mk htext

theorem openRows_strict (db : Database) (organizationId : String) :
    (openRows db organizationId).Pairwise (fun a b => a.place < b.place) :=
  select_strict older_orderedBy (openRows_separates _ _)

theorem openRows_ids (db : Database) (organizationId : String) :
    ((openRows db organizationId).map ExecutionRow.executionId).Nodup := by
  refine List.Nodup.map_on (fun a ha b hb h => ?_) ?_
  · exact eq_of_key (mem_openRows.1 ha).1 (mem_openRows.1 hb).1 h
  · refine (openRows_strict db organizationId).imp ?_
    rintro a b h rfl
    exact lt_irrefl _ h

/-- **The queue behind a batch**: what was taken has ended, and nothing else has changed. -/
theorem openRows_drop {taken : ℕ} (hdone : ∀ e ∈ (openRows db organizationId).take taken,
      ∃ e' ∈ db'.executions, e'.executionId = e.executionId ∧ e'.status.terminal = true)
    (hothers : ∀ x, x.executionId ∉ ((openRows db organizationId).take taken).map ExecutionRow.executionId →
      (x ∈ db'.executions ↔ x ∈ db.executions)) :
    openRows db' organizationId = (openRows db organizationId).drop taken := by
  have hsplit := List.take_append_drop taken (openRows db organizationId)
  have hnodup := openRows_ids db organizationId
  rw [← hsplit, List.map_append] at hnodup
  refine select_eq older_orderedBy (openRows_separates _ _)
    ((openRows_strict db organizationId).sublist (List.drop_sublist _ _)) fun x => ?_
  rw [openIn_iff]
  constructor
  · intro hx
    obtain ⟨hm, horg, hopen⟩ := mem_openRows.1 (List.mem_of_mem_drop hx)
    have hnotin : x.executionId ∉ ((openRows db organizationId).take taken).map ExecutionRow.executionId :=
      fun hin => List.disjoint_of_nodup_append hnodup hin (List.mem_map_of_mem hx)
    exact ⟨(hothers x hnotin).2 hm, horg, hopen⟩
  · rintro ⟨hm, horg, hopen⟩
    have hnotin : x.executionId ∉ ((openRows db organizationId).take taken).map ExecutionRow.executionId := by
      intro hin
      obtain ⟨e, he, hid⟩ := List.mem_map.1 hin
      obtain ⟨e', he', hid', hterminal⟩ := hdone e he
      rw [eq_of_key hm he' (hid.symm.trans hid'.symm), hterminal] at hopen
      cases hopen
    have hin : x ∈ openRows db organizationId := mem_openRows.2 ⟨(hothers x hnotin).1 hm, horg, hopen⟩
    rw [← hsplit] at hin
    exact (List.mem_append.1 hin).resolve_left fun hin => hnotin (List.mem_map_of_mem hin)

/-! ## Claiming from the queue -/

/-- With nothing locked and every lease over, the candidates are the queue. -/
theorem candidates_openRows {now : ℤ} (hlinked : Linked db)
    (hfree : ∀ e ∈ db.executions, e.organizationId = organizationId → e.status.terminal = false →
      e.claimable now = true) (limit : ℕ) :
    ((((claimCandidates db organizationId (fun _ => false) now).insertionSort ExecutionRow.before).take limit).map
      Prod.fst) = (openRows db organizationId).take limit := by
  have hmap : (claimCandidates db organizationId (fun _ => false) now).map Prod.fst =
      db.executions.rows.filter (ExecutionRow.openIn organizationId) := by
    unfold claimCandidates
    rw [List.map_filterMap, ← List.filterMap_eq_filter]
    refine List.filterMap_congr fun e he => ?_
    have hlink : (db.triggers.find? e.triggerId).isSome = true := by
      obtain ⟨t, ht, hid⟩ := hlinked e he
      rw [Table.find?_eq_some.2 ⟨ht, hid⟩]
      rfl
    have hiff : e.organizationId = organizationId ∧ e.claimable now = true ↔ e.openIn organizationId = true := by
      rw [openIn_iff]
      exact ⟨fun h => ⟨h.1, not_terminal_of_claimable h.2⟩, fun h => ⟨h.1, hfree e he h.1 h.2⟩⟩
    by_cases hopen : e.openIn organizationId = true
    · obtain ⟨t, ht⟩ := Option.isSome_iff_exists.1 hlink
      obtain ⟨horg, hclaimable⟩ := hiff.2 hopen
      simp [horg, hclaimable, ht, hopen, Option.guard]
    · have hnot : ¬ (e.organizationId = organizationId ∧ e.claimable now = true) := fun h => hopen (hiff.1 h)
      simp only [Bool.not_false, Bool.and_true, Bool.and_eq_true, decide_eq_true_eq]
      rw [if_neg hnot]
      simp [hopen, Option.guard]
  unfold openRows select
  rw [List.map_take, ← hmap]
  congr 1
  exact List.map_insertionSort _ _ _ _ fun a _ b _ => Iff.rfl

section Claim

variable {leaseSeconds : ℤ} {e : ExecutionRow} {payload : Value}

theorem expirePreviousAttempt_serves (hserves : s.Serves) (e : ExecutionRow) (db : Database) :
    ∃ attempts, expirePreviousAttempt s e db = .ok ((), { db with attempts }) ∧
      attempts.rows.map AttemptRow.key = db.attempts.rows.map AttemptRow.key := by
  unfold expirePreviousAttempt
  split
  · rw [statement_bind_serves (hserves _), Txn.get_bind]
    exact ⟨_, rfl, map_update _ fun _ _ => rfl⟩
  · exact ⟨db.attempts, rfl, rfl⟩

/-- The next attempt of an execution can be opened while its number fits. -/
theorem claimRow_serves (hserves : s.Serves) (hfits : fitsI32 leaseSeconds = true) (hmax : e.attempts < i32Max)
    (hledger : AttemptLedger db.attempts e) (harray : e.actions.asArray.isSome = true) :
    ∃ r, claimRow s worker leaseSeconds e payload db = .ok r := by
  obtain ⟨attempts, hexpired, hkeys⟩ := expirePreviousAttempt_serves hserves e db
  obtain ⟨actions, hactions⟩ := Option.isSome_iff_exists.1 harray
  unfold claimRow
  rw [Txn.bind_of_ok hexpired, if_neg (by omega), if_neg (by simp [hfits]), statement_bind_serves (hserves _),
    Txn.get_bind]
  simp only
  rw [statement_bind_serves (hserves _)]
  have hfresh : ∀ a ∈ attempts, a.key ≠ (newAttempt s worker e).key := by
    intro a ha hk
    have hmem : a.key ∈ db.attempts.rows.map AttemptRow.key := hkeys ▸ List.mem_map_of_mem ha
    obtain ⟨a₀, ha₀, hk₀⟩ := List.mem_map.1 hmem
    have := (hledger.numbered (e.attempts + 1)).1 ⟨a₀, ha₀, hk₀.trans hk⟩
    omega
  obtain ⟨t, ht⟩ : ∃ t, attempts.insert? (newAttempt s worker e) = some t := by
    rw [← Option.ne_none_iff_exists', ne_eq, insert?_eq_none]
    rintro ⟨a, ha, hk⟩
    exact hfresh a ha hk
  unfold newAttempt at ht
  rw [ht]
  simp only [Txn.set_bind, hactions]
  exact ⟨_, rfl⟩

/-- The execution can be claimed once more. -/
structure ExecutionRow.Claimable (e : ExecutionRow) : Prop where
  isOpen : e.status.terminal = false
  attempts : e.attempts < i32Max
  isArray : e.actions.asArray.isSome = true

theorem claimRows_serves (hserves : s.Serves) (hfits : fitsI32 leaseSeconds = true) {rows : List (ExecutionRow × Value)}
    (hi : AttemptsOK db) (hnodup : (rows.map (fun c => c.1.executionId)).Nodup)
    (hrows : ∀ c ∈ rows, c.1 ∈ db.executions ∧ c.1.Claimable) :
    ∃ r, claimRows s worker leaseSeconds rows db = .ok r := by
  induction rows generalizing db with
  | nil => exact ⟨_, rfl⟩
  | cons c rest ih =>
    obtain ⟨e, payload⟩ := c
    obtain ⟨hnotin, hrest⟩ := List.nodup_cons.1 hnodup
    obtain ⟨he, hclaimable⟩ := hrows _ List.mem_cons_self
    obtain ⟨⟨claim, db₁⟩, hone⟩ : ∃ r, claimRow s worker leaseSeconds e payload db = .ok r :=
      claimRow_serves hserves hfits hclaimable.attempts (hi.ledgers e he) hclaimable.isArray
    obtain ⟨hleased, -⟩ := claimRow_ok he hone
    have hi₁ : AttemptsOK db₁ := leasedOne_attempts hi he hclaimable.isOpen hleased
    obtain ⟨r, hr⟩ := ih hi₁ hrest fun c hc => by
      obtain ⟨hm, hc'⟩ := hrows c (List.mem_cons_of_mem _ hc)
      refine ⟨hleased.executions.of_ne hm fun hk => hnotin ?_, hc'⟩
      exact List.mem_map.2 ⟨c, hc, hk⟩
    refine ⟨(claim :: r.1, r.2), ?_⟩
    unfold claimRows
    rw [Txn.bind_of_ok hone, Txn.bind_of_ok hr]
    rfl

/-- **A claim takes its limit from the front of the queue.** -/
theorem claimExecutions_serves (hserves : s.Serves) (hanswers : s.Answers)
    (hfits : fitsI32 leaseSeconds = true) (hi : AttemptsOK db) (hlinked : Linked db)
    (hfree : ∀ e ∈ db.executions, e.organizationId = organizationId →
      e.status.terminal = false → e.claimable s.transactionTimestamp = true)
    (hready : ∀ e ∈ openRows db organizationId, e.Claimable) (worker : String) (limit : ℕ) : ∃ rows claims db',
    claimExecutions s organizationId worker limit leaseSeconds (fun _ => false) db = .ok (.commit claims, db') ∧
      LeasedAll s worker leaseSeconds rows claims db db' ∧
      Candidates db organizationId s.transactionTimestamp rows ∧
      rows.map Prod.fst = (openRows db organizationId).take limit := by
  have htaken := candidates_openRows hlinked hfree limit
  have hcand := claimCandidates_ok db organizationId (fun _ => false) s.transactionTimestamp
  generalize hrows : ((claimCandidates db organizationId (fun _ => false) s.transactionTimestamp).insertionSort
    ExecutionRow.before).take limit = rows at htaken
  have hmem : ∀ c ∈ rows, c.1 ∈ openRows db organizationId := fun c hc =>
    List.mem_of_mem_take (htaken ▸ List.mem_map_of_mem hc)
  have hnodup : (rows.map (fun c => c.1.executionId)).Nodup := by
    have h := (openRows_ids db organizationId).sublist ((List.take_sublist limit _).map _)
    rw [← htaken, List.map_map] at h
    exact h
  obtain ⟨⟨claims, db'⟩, hclaims⟩ : ∃ r, claimRows s worker leaseSeconds rows db = .ok r :=
    claimRows_serves hserves hfits hi hnodup fun c hc =>
    ⟨(mem_openRows.1 (hmem c hc)).1, hready _ (hmem c hc)⟩
  have hleased := claimRows_ok hnodup (fun c hc => (mem_openRows.1 (hmem c hc)).1) hclaims
  refine ⟨rows, claims, db', ?_, hleased, ⟨hnodup, fun c hc => hcand.there c ?_⟩, htaken⟩
  · unfold claimExecutions
    rw [statement_bind_serves (hserves _), statement_bind_serves (hserves _), Txn.get_bind, hrows,
      Txn.bind_of_ok hclaims, commit_serves hserves hanswers]
  · rw [← hrows] at hc
    exact (List.mem_insertionSort _).1 (List.mem_of_mem_take hc)

end Claim

/-! ## The batch -/

section Batch

variable {claim : ClaimedExecution} {claims rest : List ClaimedExecution} {expiry : ℤ}

/-- Projects and Collaboration answer, if only with a refusal. -/
structure Providers.Answered (p : Providers) : Prop where
  getIssue : ∀ organizationId issueRef failure, p.getIssue organizationId issueRef ≠ .error (.runtime failure)
  getProject : ∀ organizationId projectId failure, p.getProject organizationId projectId ≠ .error (.runtime failure)
  mutate : ∀ request failure, p.mutate request ≠ .error (.runtime failure)

theorem onIssue_answered {p : Providers} (hp : p.Answered) (organizationId issueId : String)
    (request : Issue → Mutation) (failure : RuntimeFailure) :
    (onIssue p organizationId issueId request).2 ≠ .error (.runtime failure) := by
  unfold onIssue
  cases hread : p.getIssue organizationId issueId with
  | error e =>
    rintro ⟨⟩
    exact hp.getIssue _ _ failure hread
  | ok issue => exact hp.mutate _ failure

theorem onProject_answered {p : Providers} (hp : p.Answered) (organizationId projectId : String)
    (request : Project → Mutation) (failure : RuntimeFailure) :
    (onProject p organizationId projectId request).2 ≠ .error (.runtime failure) := by
  unfold onProject
  cases hread : p.getProject organizationId projectId with
  | error e =>
    rintro ⟨⟩
    exact hp.getProject _ _ failure hread
  | ok project => exact hp.mutate _ failure

/-- An action that is answered does not come to a runtime failure. -/
theorem executeAction_answered {p : Providers} (hp : p.Answered) (executionId : Uuid) (index : ℕ) (key : String)
    (payload : Value) (action : Action) (failure : RuntimeFailure) :
    (executeAction p executionId index key payload action).2 ≠ .error (.runtime failure) := by
  have hrejected : ∀ detail, (rejected detail).2 ≠ .error (.runtime failure) := fun detail h => by cases h
  unfold executeAction
  split
  · exact hrejected _
  split
  · split
    · exact hrejected _
    · exact onIssue_answered hp _ _ _ failure
  · split
    · exact hrejected _
    · exact onIssue_answered hp _ _ _ failure
  · split
    · exact hrejected _
    · exact onIssue_answered hp _ _ _ failure
  · split
    · exact hrejected _
    split
    · exact hrejected _
    · exact hp.mutate _ failure
  · split
    · exact hrejected _
    · exact onProject_answered hp _ _ _ failure

/-- A claim whose actions are answered is not interrupted. -/
theorem Working.not_interrupted (h : Working env w claims) (hc : claim ∈ claims) {turns : ℕ → Turn}
    (hanswered : ∀ i, (turns i).providers.Answered) (db : Database) : ¬ Interrupted turns claim db := by
  rintro ⟨i, hi, -, ⟨failure, hfailure⟩, -⟩
  obtain ⟨is, flushes, tasks, hrun, hopens⟩ := h
  have hclaim : ClaimOK w.db claim := by
    have hrefs : RefsOK env ((automation env).run is) := run_refs is
    rw [hrun] at hrefs
    exact (hrefs.tasks _ _ (hopens claim hc)).2
  have hprepared : ∀ e ∈ w.db.executions, Prepared env w.db e := db_of_amid hrun ▸ run_prepared is
  obtain ⟨actions, hactions, hv, -⟩ := hclaim.prepared hprepared
  obtain ⟨action, -, -, -, hdecode⟩ := prepared_action hactions hv hi
  unfold attempted at hfailure
  rw [hdecode] at hfailure
  exact executeAction_answered (hanswered i) _ _ _ _ _ failure hfailure

/-- **A loop body that answers** has completed its execution. -/
theorem settleExecution_completed {turn : BatchTurn} {succeeded : Bool}
    (h : (settleExecution env turn claim w).result = .ok succeeded) : ∃ failure e trigger db₁,
    let db := (executeActions (w.session env) turn.actions claim 0 claim.actions w.db).db
    Left (w.session env turn.finish) claim (finalStatus succeeded) (finalAttempt succeeded) failure e db db₁ ∧
      trigger ∈ db.triggers ∧ trigger.triggerId = claim.triggerId ∧
      Settled (w.session env turn.finish) claim trigger db₁ (settleExecution env turn claim w).world.db := by
  rw [settleExecution_eq] at h ⊢
  generalize executeActions (w.session env) turn.actions claim 0 claim.actions w.db = out at h ⊢
  have hcomplete : ∀ failure, finishTx (w.session env turn.finish) claim out.result =
        completeExecution (w.session env turn.finish) claim succeeded failure →
      ((w.performed out).transact (finishTx (w.session env turn.finish) claim out.result)).1 = .ok () →
      ∃ e trigger db₁, Left (w.session env turn.finish) claim (finalStatus succeeded) (finalAttempt succeeded)
          failure e out.db db₁ ∧ trigger ∈ out.db.triggers ∧ trigger.triggerId = claim.triggerId ∧
        Settled (w.session env turn.finish) claim trigger db₁
          ((w.performed out).transact (finishTx (w.session env turn.finish) claim out.result)).2.db := by
    intro failure htx hok
    rcases (w.performed out).transact_cases (finishTx (w.session env turn.finish) claim out.result) with
      ⟨e, -, hdone⟩ | ⟨a, db', hb, -⟩ | ⟨ending, a, db', hb, -, hdone⟩
    · rw [hdone] at hok
      cases hok
    · rw [htx] at hb
      cases (completeExecution_ok hb).1.value
    · rw [hdone]
      rw [htx] at hb
      obtain ⟨-, -, e, db₁, trigger, hleft, ht, hid, hsettled⟩ := completeExecution_ok hb
      exact ⟨e, trigger, db₁, hleft, ht, hid, hsettled⟩
  cases hfinish : ((w.performed out).transact (finishTx (w.session env turn.finish) claim out.result)).1 with
  | error e =>
    rw [hfinish] at h
    cases hres : out.result <;> rw [hres] at h <;> cases h
  | ok u =>
    rw [hfinish] at h
    cases hres : out.result with
    | ok u' =>
      rw [hres] at h hcomplete hfinish
      cases h
      obtain ⟨e, trigger, db₁, hrest⟩ := hcomplete none rfl hfinish
      exact ⟨none, e, trigger, db₁, hrest⟩
    | error e =>
      cases e with
      | domain detail =>
        rw [hres] at h hcomplete hfinish
        cases h
        obtain ⟨e, trigger, db₁, hrest⟩ := hcomplete (some detail) rfl hfinish
        exact ⟨some detail, e, trigger, db₁, hrest⟩
      | runtime failure =>
        rw [hres] at h
        cases h

end Batch

/-! ## Dates -/

/-- The longest interval a schedule may have, in seconds. -/
def yearSeconds : ℤ := 31536000

/-- Dispatches and timers have dates that can be written, and timers still have them a year on. -/
structure InRange (env : Env) (db : Database) : Prop where
  dispatches : ∀ d ∈ db.dispatches, d.copy.scheduledFor.Datable
  timers : ∀ t ∈ db.triggers, t.source = .timer → ∀ scheduledFor,
    payloadScheduledFor env t.payload = .ok (some scheduledFor) →
      scheduledFor.Datable ∧ (scheduledFor.plus yearSeconds).Datable

section Dates

variable {t : OffsetDateTime}

theorem plus_datable (h : t.Datable) (h' : (t.plus yearSeconds).Datable) {seconds : ℤ} (hpos : 0 ≤ seconds)
    (hle : seconds ≤ yearSeconds) : (t.plus seconds).Datable := by
  unfold OffsetDateTime.Datable OffsetDateTime.plus at *
  unfold yearSeconds at *
  simp only at *
  unfold nanosPerSecond at *
  omega

theorem representable_of_datable (h : t.Datable) : t.Representable := by
  unfold OffsetDateTime.Datable at h
  unfold OffsetDateTime.Representable
  unfold OffsetDateTime.minLocalNanos OffsetDateTime.yearZeroNanos at *
  simp only at *
  unfold nanosPerSecond at *
  omega

/-- Division that truncates goes toward zero. -/
theorem thousands_between (a : ℤ) : min a 0 ≤ a.tdiv 1000 * 1000 ∧ a.tdiv 1000 * 1000 ≤ max a 0 := by
  rcases le_total 0 a with ha | ha
  · rw [Int.tdiv_eq_ediv_of_nonneg ha]
    omega
  · obtain ⟨b, rfl⟩ : ∃ b, a = -b := ⟨-a, (neg_neg a).symm⟩
    rw [Int.neg_tdiv, Int.tdiv_eq_ediv_of_nonneg (by omega)]
    omega

/-- A column keeps the date: what it drops brings the instant closer to the year 2000. -/
theorem stored_datable (h : t.Datable) : (decodeTimestamptz (encodeTimestamptz t)).Datable := by
  have hbetween := thousands_between (t.unixNanos - pgEpochNanos)
  unfold decodeTimestamptz encodeTimestamptz OffsetDateTime.Datable at *
  unfold OffsetDateTime.maxLocalNanos OffsetDateTime.yearZeroNanos at *
  unfold pgEpochNanos at *
  simp only at *
  unfold nanosPerSecond at *
  omega

/-- The interval of a rule leads from a date to a date. -/
theorem interval_datable {rule : RuleRow} (hok : RuleOK env rule) (hkind : triggerKind rule.trigger = some "schedule")
    (h : t.Datable) (h' : (t.plus yearSeconds).Datable) : ∃ seconds, intervalSeconds rule.trigger = some seconds ∧
      t.checkedAdd seconds = some (t.plus seconds) ∧ (t.plus seconds).Datable := by
  obtain ⟨seconds, hseconds, hlow, hhigh⟩ := hok.trigger.interval hkind
  have hdate : (t.plus seconds).Datable := plus_datable h h' (by omega) hhigh
  refine ⟨seconds, hseconds, ?_, hdate⟩
  rw [OffsetDateTime.checkedAdd_eq, if_pos (representable_of_datable hdate)]

end Dates

/-! ## The batch to its end -/

section Finish

variable {claim : ClaimedExecution} {claims rest : List ClaimedExecution} {expiry : ℤ} {turn : BatchTurn}

theorem Working.rules (h : Working env w claims) : ∀ r ∈ w.db.rules, RuleOK env r := by
  obtain ⟨is, flushes, tasks, hrun, -⟩ := h
  exact db_of_amid hrun ▸ run_rules is

/-- A timer of the batch is in range. -/
theorem InRange.timer (hrange : InRange env db) (hclaim : ClaimOK db claim) {t : TriggerRow} (ht : t ∈ db.triggers)
    (hid : t.triggerId = claim.triggerId) (hsource : t.source = .timer) {scheduledFor : OffsetDateTime}
    (hread : payloadScheduledFor env claim.payload = .ok (some scheduledFor)) :
    scheduledFor.Datable ∧ (scheduledFor.plus yearSeconds).Datable := by
  obtain ⟨t', ht', hid', hpayload⟩ := hclaim.trigger
  obtain rfl : t = t' := eq_of_key ht ht' (hid.trans hid'.symm)
  exact hrange.timers t ht hsource scheduledFor (hpayload ▸ hread)

/-- In range, a schedule finds its next instant. -/
theorem rulesAfter_isSome (hrange : InRange env db) (hrules : ∀ r ∈ db.rules, RuleOK env r)
    (hclaim : ClaimOK db claim) (now : ℤ) : rulesAfter env db.triggers claim now db.rules ≠ none := by
  unfold rulesAfter
  split
  · rename_i htimer
    obtain ⟨t, ht, hsource⟩ := (Option.any_eq_true _ _).1 htimer
    obtain ⟨hmem, hid⟩ := find?_eq_some.1 ht
    unfold advancedRules
    split
    · rename_i rule scheduledFor hfind hread
      split
      · rename_i hawaits
        obtain ⟨hdate, hlater⟩ := hrange.timer hclaim hmem hid (of_decide_eq_true hsource) hread
        obtain ⟨seconds, hseconds, hnext, hdatable⟩ := interval_datable
          (hrules rule (List.mem_of_find?_eq_some hfind)) (awaits_iff.1 hawaits).2.1 hdate hlater
        simp [nextInstant, hseconds, hnext, hdatable.bindable]
      · exact Option.some_ne_none _
    · exact Option.some_ne_none _
  · exact Option.some_ne_none _

/-- The dispatch of a next instant in range is in range. -/
theorem Settled.inRange {trigger : TriggerRow} {db₁ : Database} (h : Settled s claim trigger db₁ db')
    (hrange : InRange s.env db) (hrules : ∀ r ∈ db.rules, RuleOK s.env r) (hclaim : ClaimOK db claim)
    (ht : trigger ∈ db.triggers) (hid : trigger.triggerId = claim.triggerId) (hr : db₁.rules = db.rules)
    (htr : db₁.triggers = db.triggers) (hd : db₁.dispatches = db.dispatches) : InRange s.env db' := by
  refine ⟨?_, by rw [h.frame.2.1, htr]; exact hrange.timers⟩
  cases h with
  | event _ he =>
    rw [he, hd]
    exact hrange.dispatches
  | timer hsource ha =>
    cases ha with
    | kept he _ =>
      rw [he, hd]
      exact hrange.dispatches
    | @moved rule scheduledFor next interval hm _ _ hread hawaits hinterval hadd hwrite =>
      intro d hd'
      rw [hr] at hm
      obtain ⟨hdate, hlater⟩ := hrange.timer hclaim ht hid hsource hread
      obtain ⟨seconds, hseconds, hnext, hdatable⟩ :=
        interval_datable (hrules rule hm) (awaits_iff.1 hawaits).2.1 hdate hlater
      rcases hwrite.dispatches.copy_cases hd' with ⟨d₀, hd₀, hcopy⟩ | ⟨n, hn, rfl, -⟩
      · rw [hd] at hd₀
        rw [← hcopy]
        exact hrange.dispatches d₀ hd₀
      · cases hn
        rw [hinterval] at hseconds
        cases hseconds
        rw [hadd] at hnext
        cases hnext
        exact stored_datable hdatable

/-- The execution of a claim has ended. -/
def Ended (db : Database) (executionId : Uuid) : Prop :=
  ∃ e ∈ db.executions, e.executionId = executionId ∧ e.status.terminal = true

/-- What completing an execution does besides: the schedule of its rule moves on, if it waits for it. -/
structure Concluded (env : Env) (claim : ClaimedExecution) (db db' : Database) : Prop where
  settled : ∃ (s : Session) (trigger : TriggerRow) (db₁ : Database), s.env = env ∧ trigger ∈ db.triggers ∧
    trigger.triggerId = claim.triggerId ∧ db₁.rules = db.rules ∧ Settled s claim trigger db₁ db'
  triggers : db'.triggers = db.triggers
  links : db'.executions.rows.map ExecutionRow.link = db.executions.rows.map ExecutionRow.link

/-- One execution is completed after the other. -/
inductive ConcludedAll (env : Env) : List ClaimedExecution → Database → Database → Prop
  | nil {db : Database} : ConcludedAll env [] db db
  | cons {claim : ClaimedExecution} {claims : List ClaimedExecution} {db db₁ db' : Database} :
      Concluded env claim db db₁ → ConcludedAll env claims db₁ db' → ConcludedAll env (claim :: claims) db db'

theorem ConcludedAll.frame (h : ConcludedAll env claims db db') : db'.triggers = db.triggers ∧
    db'.executions.rows.map ExecutionRow.link = db.executions.rows.map ExecutionRow.link := by
  induction h with
  | nil => exact ⟨rfl, rfl⟩
  | cons hconcluded _ ih => exact ⟨ih.1.trans hconcluded.triggers, ih.2.trans hconcluded.links⟩

/-- **One execution of an undisturbed batch** ends. -/
theorem settleExecution_finishes (huuid : env.UuidOK) (h : Working env w (claim :: rest)) (hserves : turn.Serves)
    (hanswered : ∀ i, (turn.actions i).providers.Answered) (hheld : Held w.db claim expiry)
    (hlease : turn.finish.transactionTimestamp ≤ expiry) (hrange : InRange env w.db) :
    let done := settleExecution env turn claim w
    (∃ succeeded, done.result = .ok succeeded) ∧ Ended done.world.db claim.executionId ∧
      Beside claim w.db done.world.db ∧ InRange env done.world.db ∧ Concluded env claim w.db done.world.db := by
  intro done
  obtain ⟨hclaim, hreceived⟩ := h.claimOK List.mem_cons_self
  obtain ⟨hsettling, hbeside⟩ := settleExecution_settles huuid h hserves hheld hlease
  have hnot : ¬ Interrupted turn.actions claim w.db := h.not_interrupted List.mem_cons_self hanswered _
  have hsome := rulesAfter_isSome hrange h.rules hclaim turn.finish.transactionTimestamp
  have hanswer : ∃ succeeded, done.result = .ok succeeded := by
    generalize hres : (settleExecution env turn claim w).result = result at hsettling
    cases hsettling with
    | released hint _ => exact absurd hint hnot
    | kept _ hnone _ => exact absurd hnone hsome
    | completed _ _ _ => exact ⟨_, rfl⟩
  obtain ⟨succeeded, hres⟩ := hanswer
  obtain ⟨stop, hstop⟩ : ∃ stop, Stopped turn.actions claim 0 w.db
      (executeActions (w.session env) turn.actions claim 0 claim.actions w.db) stop :=
    executeActions_stopped rfl (Nat.zero_le _) hreceived
  obtain ⟨failure, e, trigger, db₁, hleft, ht, hid, hsettled⟩ := settleExecution_completed hres
  generalize executeActions (w.session env) turn.actions claim 0 claim.actions w.db = out at hstop hleft ht
  obtain ⟨hbeside₀, hrules, hexecutions, hdispatches⟩ := hstop.beside
  rw [hbeside₀.triggers] at ht
  refine ⟨⟨succeeded, hres⟩, ?_, hbeside, ?_, ?_⟩
  · have hended : e.leave (finalStatus succeeded) failure turn.finish.transactionTimestamp ∈
        done.world.db.executions := by
      rw [show done.world.db.executions = db₁.executions from hsettled.frame.2.2.1]
      exact hleft.executions.mem
    refine ⟨_, hended, (heldBy_iff.1 hleft.held).1, ?_⟩
    cases succeeded <;> rfl
  · exact hsettled.inRange hrange h.rules hclaim ht hid (hleft.rules.trans hrules)
      (hleft.triggers.trans hbeside₀.triggers) (hleft.dispatches.trans hdispatches)
  · refine ⟨⟨_, trigger, db₁, rfl, ht, hid, hleft.rules.trans hrules, hsettled⟩, hbeside.triggers, ?_⟩
    rw [show done.world.db.executions = db₁.executions from hsettled.frame.2.2.1, hleft.links, hexecutions]

/-- **An undisturbed batch** comes to its end: each execution ends, and counts once. -/
theorem settleBatch_finishes (huuid : env.UuidOK) {turns : ℕ → BatchTurn} (hserves : ∀ k, (turns k).Serves)
    (hanswered : ∀ k i, ((turns k).actions i).providers.Answered)
    (hlease : ∀ k, (turns k).finish.transactionTimestamp ≤ expiry) (index : ℕ) (h : Working env w claims)
    (hnodup : (claims.map ClaimedExecution.executionId).Nodup) (hheld : ∀ c ∈ claims, Held w.db c expiry)
    (hrange : InRange env w.db) : ∃ successes failures,
    let done := settleBatch env turns index claims w
    done.result = .ok (successes, failures) ∧ successes + failures = claims.length ∧
      (∀ c ∈ claims, Ended done.world.db c.executionId) ∧
      (∀ x, x.executionId ∉ claims.map ClaimedExecution.executionId →
        (x ∈ done.world.db.executions ↔ x ∈ w.db.executions)) ∧
      InRange env done.world.db ∧ ConcludedAll env claims w.db done.world.db := by
  induction claims generalizing w index with
  | nil => exact ⟨0, 0, rfl, rfl, fun c hc => (by cases hc), fun _ _ => Iff.rfl, hrange, .nil⟩
  | cons claim rest ih =>
    have hnotin : claim.executionId ∉ rest.map ClaimedExecution.executionId := (List.nodup_cons.1 hnodup).1
    have hne : ∀ c ∈ rest, c.executionId ≠ claim.executionId :=
      fun c hc he => hnotin (List.mem_map.2 ⟨c, hc, he⟩)
    obtain ⟨⟨succeeded, hres⟩, hended, hbeside, hrange₁, hconcluded⟩ := settleExecution_finishes huuid h (hserves index)
      (hanswered index) (hheld claim List.mem_cons_self) (hlease index) hrange
    obtain ⟨successes, failures, hres', hcount, hall, hothers, hrange', hconcluded'⟩ := ih (index + 1)
      (h.settled hnodup (turns index)) (List.nodup_cons.1 hnodup).2
      (fun c hc => hbeside.held (hne c hc) (hheld c (List.mem_cons_of_mem _ hc))) hrange₁
    have hsent : settleExecution env (turns index) claim w =
        ⟨.ok succeeded, [], (settleExecution env (turns index) claim w).world⟩ := by
      rw [← hres, settleExecution_eq]
    have hresult : (settleBatch env turns index (claim :: rest) w).result =
        .ok (if succeeded then (successes + 1, failures) else (successes, failures + 1)) := by
      rw [settleBatch, Plugin.bind_of_silent hsent]
      rcases hgo : settleBatch env turns (index + 1) rest (settleExecution env (turns index) claim w).world with
        ⟨result, sent, w₂⟩
      rw [hgo] at hres'
      cases hres'
      rw [Plugin.bind_of_ok hgo]
      cases succeeded <;> rfl
    have hworld : (settleBatch env turns index (claim :: rest) w).world = _ := settleBatch_cons_ok hres
    refine ⟨if succeeded then successes + 1 else successes, if succeeded then failures else failures + 1, ?_, ?_, ?_,
      fun x hx => ?_, ?_, ?_⟩
    · rw [hresult]
      cases succeeded <;> rfl
    · rw [List.length_cons]
      cases succeeded <;> simp <;> omega
    · intro c hc
      rw [hworld]
      rcases List.mem_cons.1 hc with rfl | hc
      · -- the rest of the batch does not touch it again
        obtain ⟨e, he, hid, hterminal⟩ := hended
        exact ⟨e, (hothers e (hid ▸ hnotin)).2 he, hid, hterminal⟩
      · exact hall c hc
    · rw [hworld, hothers x fun hm => hx (List.mem_cons_of_mem _ hm)]
      exact hbeside.executions x fun he => hx (he ▸ List.mem_cons_self)
    · rw [hworld]
      exact hrange'
    · rw [hworld]
      exact .cons hconcluded hconcluded'

end Finish

/-! ## The call -/

/-- The database serves a flush, and Jobs takes what it sends. -/
structure FlushAround.Undisturbed (around : FlushAround) : Prop where
  pending : around.pending.Serves
  mark : ∀ i, (around.turns i).mark.Serves
  answer : ∀ i, (around.turns i).answer.refusal = none

/-- A call of `reconcile`, and what it meets. -/
structure ReconcileCall where
  around : Around
  worker : String
  limit : ℕ
  leaseSeconds : ℤ

def ReconcileCall.run (env : Env) (organizationId : String) (call : ReconcileCall) : Plugin ReconcileResponse :=
  reconcile env call.around organizationId call.worker call.limit call.leaseSeconds

/-- Nothing disturbs the call: the database serves it, Jobs, Projects and Collaboration answer it, no other
transaction holds a row, its leases last, and those that were held until `horizon` are over. -/
structure ReconcileCall.Undisturbed (horizon : ℤ) (call : ReconcileCall) : Prop where
  before : call.around.before.Undisturbed
  claim : call.around.claim.Serves
  answers : call.around.claim.Answers
  locked : ∀ id, call.around.locked id = false
  fits : fitsI32 call.leaseSeconds = true
  batch : ∀ k, (call.around.batch k).Serves
  answered : ∀ k i, ((call.around.batch k).actions i).providers.Answered
  lasts : ∀ k, (call.around.batch k).finish.transactionTimestamp ≤
    call.around.claim.transactionTimestamp + call.leaseSeconds * microsPerSecond
  after : call.around.after.Undisturbed
  count : call.around.count.Serves
  late : horizon < call.around.claim.transactionTimestamp

/-- A state between two calls whose open executions can all be claimed after `horizon`. -/
structure Ready (env : Env) (organizationId : String) (horizon : ℤ) (w : World) : Prop where
  reachable : ∃ is flushes tasks, (automation env).run is = w.amid flushes tasks
  inRange : InRange env w.db
  attempts : ∀ e ∈ openRows w.db organizationId, e.attempts < i32Max
  leases : ∀ e ∈ openRows w.db organizationId, ∀ t, e.leaseUntil = some t → t ≤ horizon

/-- **An undisturbed flush** comes to its end. -/
theorem flushSchedules_serves (hformat : env.FormatOK) {around : FlushAround} (h : around.Undisturbed)
    (hrange : InRange env w.db) (organizationId : String) (limit : ℕ) :
    let done := flushSchedules env around organizationId limit w
    (∃ count, done.result = .ok count) ∧ InRange env done.world.db ∧ done.world.db.flushed = w.db.flushed := by
  intro done
  have hflushed : done.world.db.flushed = w.db.flushed := flushSchedules_keeps around organizationId limit w
  obtain ⟨stop, jobs, left, hstopped⟩ := flushSchedules_stopped env w around organizationId limit (h.pending _)
  have hwritten : ∀ d ∈ (pendingRows w.db organizationId).take limit, (requestOf env d).isSome = true := by
    intro d hd
    unfold requestOf
    rw [Option.isSome_map]
    exact hformat _ rfl (hrange.dispatches d (mem_pendingRows.1 (List.mem_of_mem_take hd)).1)
  obtain ⟨-, hresult, -⟩ := hstopped.completes h.mark hwritten fun i _ => h.answer _
  refine ⟨⟨_, hresult⟩, ⟨fun d hd => ?_, ?_⟩, hflushed⟩
  · -- a flush changes no copy
    have hcopy : d.copy ∈ w.db.dispatches.rows.map DispatchRow.copy := by
      rw [← hstopped.copies]
      exact List.mem_map_of_mem hd
    obtain ⟨d₀, hd₀, hcopy⟩ := List.mem_map.1 hcopy
    rw [← hcopy]
    exact hrange.dispatches d₀ hd₀
  · rw [show done.world.db.triggers = w.db.triggers from (Database.mk.inj hflushed).2.2.1]
    exact hrange.timers

theorem pendingDispatchCount_serves (env : Env) {conn : Connection} (hserves : conn.Serves) (w : World)
    (organizationId : String) :
    ∃ pending, w.transact (pendingDispatchCount (w.session env conn) organizationId) = (.ok pending, w) := by
  have hcount : ∃ pending, pendingDispatchCount (w.session env conn) organizationId w.db =
      .ok (.drop pending, w.db) := by
    unfold pendingDispatchCount
    rw [statement_bind_serves (s := w.session env conn) (hserves _), Txn.get_bind]
    exact ⟨_, rfl⟩
  obtain ⟨pending, hcount⟩ := hcount
  refine ⟨pending, ?_⟩
  unfold World.transact
  rw [transact_of_drop hcount]

/-- A flush leaves the queue as it is. -/
theorem openRows_of_flushed (h : db'.flushed = db.flushed) (organizationId : String) :
    openRows db' organizationId = openRows db organizationId := by
  have hexecutions : db'.executions = db.executions := (Database.mk.inj h).2.2.2.1
  unfold openRows
  rw [hexecutions]

/-- Once the leases that were held are over, every open execution can be claimed. -/
theorem Ready.claimable {horizon now : ℤ} (h : Ready env organizationId horizon w) (hlate : horizon < now)
    {e : ExecutionRow} (he : e ∈ openRows w.db organizationId) : e.claimable now = true := by
  obtain ⟨is, flushes, tasks, hrun⟩ := h.reachable
  have hattempts : AttemptsOK w.db := db_of_amid hrun ▸ run_attempts is
  obtain ⟨hm, -, hopen⟩ := mem_openRows.1 he
  rw [claimable_iff]
  cases hs : e.status with
  | pending => exact Or.inl rfl
  | running =>
    obtain ⟨⟨t, ht⟩, -⟩ := (hattempts.ledgers e hm).held hs
    exact Or.inr ⟨rfl, t, ht, lt_of_le_of_lt (h.leases e he t ht) hlate⟩
  | succeeded | failed => rw [hs] at hopen; cases hopen

/-- **The claim of an undisturbed call**, after its flush, takes the front of the queue. -/
theorem Ready.claims {horizon : ℤ} {call : ReconcileCall} (h : Ready env organizationId horizon w)
    (hcall : call.Undisturbed horizon) {w₀ : World} (hflushed : w₀.db.flushed = w.db.flushed) :
    let s := w₀.session env call.around.claim
    ∃ rows claims db₁,
      w₀.transact (claimExecutions s organizationId call.worker call.limit call.leaseSeconds call.around.locked) =
        (.ok claims, { w₀ with db := db₁ }) ∧
      LeasedAll s call.worker call.leaseSeconds rows claims w₀.db db₁ ∧
      Candidates w₀.db organizationId s.transactionTimestamp rows ∧
      rows.map Prod.fst = (openRows w.db organizationId).take call.limit := by
  intro s
  obtain ⟨is, flushes, tasks, hrun⟩ := h.reachable
  have hrefs : RefsOK env (w.amid flushes tasks) := hrun ▸ run_refs is
  have hattempts : AttemptsOK w.db := db_of_amid hrun ▸ run_attempts is
  obtain ⟨-, -, htriggers₀, hexecutions₀, hattempts₀, -⟩ := Database.mk.inj hflushed
  have hexecutions₀ : w₀.db.executions = w.db.executions := hexecutions₀
  have hopen₀ := openRows_of_flushed hflushed organizationId
  have hlinked : Linked w₀.db := by
    unfold Linked
    rw [hexecutions₀, show w₀.db.triggers = w.db.triggers from htriggers₀]
    exact hrefs.linked
  have hfree : ∀ e ∈ w₀.db.executions, e.organizationId = organizationId → e.status.terminal = false →
      e.claimable s.transactionTimestamp = true := fun e he horg hopen =>
    h.claimable hcall.late (mem_openRows.2 ⟨hexecutions₀ ▸ he, horg, hopen⟩)
  have hready : ∀ e ∈ openRows w₀.db organizationId, e.Claimable := by
    intro e he
    rw [hopen₀] at he
    obtain ⟨hm, -, hopen⟩ := mem_openRows.1 he
    exact ⟨hopen, h.attempts e he, (hrefs.executions e hm).isArray⟩
  obtain ⟨rows, claims, db₁, hclaims, hleased, hcand, htaken⟩ := claimExecutions_serves (s := s) hcall.claim
    hcall.answers hcall.fits (hattempts.of_eq hexecutions₀ hattempts₀) hlinked hfree hready call.worker call.limit
  refine ⟨rows, claims, db₁, ?_, hleased, hcand, hopen₀ ▸ htaken⟩
  rw [show call.around.locked = fun _ => false from funext hcall.locked]
  unfold World.transact
  rw [transact_of_commit hclaims]

/-- When those that were claimed have ended, and no other was touched, the rest of the queue is left. -/
theorem openRows_claimed {leaseSeconds : ℤ} {limit : ℕ} {rows : List (ExecutionRow × Value)}
    {claims : List ClaimedExecution} {db₀ db₁ : Database}
    (hleased : LeasedAll s worker leaseSeconds rows claims db₀ db₁) (hflushed : db₀.flushed = db.flushed)
    (htaken : rows.map Prod.fst = (openRows db organizationId).take limit)
    (hended : ∀ e ∈ (openRows db organizationId).take limit, Ended db' e.executionId)
    (hothers : ∀ x : ExecutionRow, x.executionId ∉ claims.map ClaimedExecution.executionId →
      (x ∈ db'.executions ↔ x ∈ db₁.executions)) :
    openRows db' organizationId = (openRows db organizationId).drop limit := by
  have hids : ((openRows db organizationId).take limit).map ExecutionRow.executionId =
      claims.map ClaimedExecution.executionId := by
    rw [hleased.ids, ← htaken, List.map_map]
    rfl
  have hexecutions : db₀.executions = db.executions := (Database.mk.inj hflushed).2.2.2.1
  refine openRows_drop hended fun x hx => ?_
  rw [hothers x (hids ▸ hx), ← hexecutions]
  have hne : ∀ c ∈ rows, c.1.executionId ≠ x.executionId := fun c hc he =>
    hx (List.mem_map.2 ⟨c.1, htaken ▸ List.mem_map_of_mem hc, he⟩)
  refine ⟨fun h => ?_, fun h => hleased.mem_of_ne h hne⟩
  rcases hleased.executions_cases h with ⟨h, -⟩ | ⟨c, hc, rfl⟩
  · exact h
  · exact absurd rfl (hne c hc)

/-- A worker's copy of one of some executions, with the payload of its trigger. -/
def ClaimedFrom (db : Database) (taken : List ExecutionRow) (claim : ClaimedExecution) : Prop :=
  ∃ e ∈ taken, claim.executionId = e.executionId ∧ claim.ruleId = e.ruleId ∧ claim.triggerId = e.triggerId ∧
    ∃ t ∈ db.triggers, t.triggerId = e.triggerId ∧ t.payload = claim.payload

/-- What an undisturbed call comes to: it takes its limit from the front of the queue, ends what it takes
and reports it, and concludes one execution after the other between its two flushes. -/
structure ReconcileServed (env : Env) (organizationId : String) (horizon : ℤ) (limit : ℕ) (w w' : World)
    (response : ReconcileResponse) : Prop where
  claimed : response.claimed = min limit (openRows w.db organizationId).length
  counted : response.succeeded + response.failed = response.claimed
  ended : ∀ e ∈ (openRows w.db organizationId).take limit, Ended w'.db e.executionId
  rest : openRows w'.db organizationId = (openRows w.db organizationId).drop limit
  ready : Ready env organizationId horizon w'
  concluded : ∃ claims db₁ db₂,
    claims.map ClaimedExecution.executionId =
        ((openRows w.db organizationId).take limit).map ExecutionRow.executionId ∧
      (∀ c ∈ claims, ClaimedFrom w.db ((openRows w.db organizationId).take limit) c) ∧ db₁.rules = w.db.rules ∧
      db₁.triggers = w.db.triggers ∧
      db₁.executions.rows.map ExecutionRow.link = w.db.executions.rows.map ExecutionRow.link ∧
      ConcludedAll env claims db₁ db₂ ∧ w'.db.flushed = db₂.flushed

/-- **One undisturbed call** serves the front of the queue. -/
theorem reconcile_serves (huuid : env.UuidOK) (hformat : env.FormatOK) {horizon : ℤ} {call : ReconcileCall}
    (hcall : call.Undisturbed horizon) (hready : Ready env organizationId horizon w) : ∃ response,
    let done := call.run env organizationId w
    done.result = .ok response ∧
      ReconcileServed env organizationId horizon call.limit w done.world response := by
  obtain ⟨is, flushes, tasks, hrun⟩ := hready.reachable
  -- the flush before
  obtain ⟨⟨before, hbefore⟩, hrange₀, hflushed⟩ :=
    flushSchedules_serves hformat hcall.before hready.inRange organizationId call.limit
  obtain ⟨flushes₀, hreach₀⟩ :=
    flushSchedules_reaches env w flushes tasks call.around.before organizationId call.limit
  rcases hflush : flushSchedules env call.around.before organizationId call.limit w with ⟨result, sent₀, w₀⟩
  rw [hflush] at hbefore hrange₀ hflushed hreach₀
  obtain rfl : result = .ok before := hbefore
  simp only at hrange₀ hflushed hreach₀
  obtain ⟨-, hrules₀, htriggers₀, hexecutions₀, -⟩ := Database.mk.inj hflushed
  have hexecutions₀ : w₀.db.executions = w.db.executions := hexecutions₀
  -- the claim
  obtain ⟨rows, claims, db₁, hdone, hleased, hcand, htaken⟩ := hready.claims hcall hflushed
  have hids : claims.map ClaimedExecution.executionId =
      ((openRows w.db organizationId).take call.limit).map ExecutionRow.executionId := by
    rw [hleased.ids, ← htaken, List.map_map]
    rfl
  have hnodup : (claims.map ClaimedExecution.executionId).Nodup :=
    hleased.ids ▸ hcand.nodup
  have hlength : claims.length = min call.limit (openRows w.db organizationId).length := by
    have := congrArg List.length hids
    rwa [List.length_map, List.length_map, List.length_take] at this
  -- the batch
  have hclaim := next_claim tasks env w₀ flushes₀ call.around.claim organizationId call.worker call.limit
    call.leaseSeconds call.around.locked
  rw [hdone] at hclaim
  rw [← hrun] at hreach₀
  have hworking : Working env { w₀ with db := db₁ } claims := by
    obtain ⟨js, hjs⟩ := (hreach₀.trans (.one hclaim)).run
    exact ⟨js, flushes₀, _, hjs, openTasks_openFor hnodup⟩
  obtain ⟨-, -, htriggers₁, -, hdispatches₁⟩ := hleased.frame
  obtain ⟨successes, failures, hbatch, hcount, hended, hothers, hrange₂, hconcluded⟩ :=
    settleBatch_finishes huuid hcall.batch hcall.answered
    (show ∀ k, _ ≤ leaseEnd (w₀.session env call.around.claim) call.leaseSeconds from hcall.lasts) 0 hworking
    hnodup (hleased.held hcand.nodup) ⟨hdispatches₁ ▸ hrange₀.dispatches, htriggers₁ ▸ hrange₀.timers⟩
  rcases hsettle : settleBatch env call.around.batch 0 claims { w₀ with db := db₁ } with ⟨result, sent₂, w₂⟩
  rw [hsettle] at hbatch hended hothers hrange₂ hconcluded
  obtain rfl : result = .ok (successes, failures) := hbatch
  -- the flush after, and the count
  obtain ⟨⟨after, hafter⟩, hrange₃, hflushed₃⟩ :=
    flushSchedules_serves hformat hcall.after hrange₂ organizationId call.limit
  rcases hflush₃ : flushSchedules env call.around.after organizationId call.limit w₂ with ⟨result, sent₃, w₃⟩
  rw [hflush₃] at hafter hrange₃ hflushed₃
  obtain rfl : result = .ok after := hafter
  obtain ⟨pending, hpending⟩ := pendingDispatchCount_serves env hcall.count w₃ organizationId
  have hcalled : ∃ sent, call.run env organizationId w =
      ⟨.ok ⟨claims.length, failures, before + after, pending, successes⟩, sent, w₃⟩ := by
    unfold ReconcileCall.run reconcile
    rw [Plugin.bind_of_ok hflush, Plugin.storage_bind hdone]
    simp only
    rw [Plugin.bind_of_ok hsettle]
    simp only
    rw [Plugin.bind_of_ok hflush₃, Plugin.storage_bind hpending]
    exact ⟨_, rfl⟩
  obtain ⟨sent, hcalled⟩ := hcalled
  have hexecutions₃ : w₃.db.executions = w₂.db.executions := (Database.mk.inj hflushed₃).2.2.2.1
  have hended₃ : ∀ e ∈ (openRows w.db organizationId).take call.limit, Ended w₃.db e.executionId := by
    intro e he
    have hid : e.executionId ∈ claims.map ClaimedExecution.executionId := hids ▸ List.mem_map_of_mem he
    obtain ⟨c, hc, hid⟩ := List.mem_map.1 hid
    unfold Ended
    rw [hexecutions₃, ← hid]
    exact hended c hc
  have hopen : openRows w₃.db organizationId = (openRows w.db organizationId).drop call.limit :=
    openRows_claimed hleased hflushed htaken hended₃ fun x hx => hexecutions₃ ▸ hothers x hx
  have hready' : Ready env organizationId horizon w₃ := by
    obtain ⟨flushes', tasks', hreach⟩ := reconcile_reaches env w flushes tasks call.around organizationId call.worker
      call.limit call.leaseSeconds
    rw [← hrun, show reconcile env call.around organizationId call.worker call.limit call.leaseSeconds w = _ from
      hcalled] at hreach
    obtain ⟨js, hjs⟩ := hreach.run
    exact ⟨⟨js, flushes', tasks', hjs⟩, hrange₃,
      fun e he => hready.attempts e (List.mem_of_mem_drop (hopen ▸ he)),
      fun e he => hready.leases e (List.mem_of_mem_drop (hopen ▸ he))⟩
  refine ⟨⟨claims.length, failures, before + after, pending, successes⟩, ?_⟩
  simp only [hcalled]
  refine ⟨trivial, hlength, hcount, hended₃, hopen, hready', claims, db₁, w₂.db, hids, fun c hc => ?_, ?_, ?_, ?_,
    hconcluded, hflushed₃⟩
  · obtain ⟨c, hrow, _, -, rfl⟩ := hleased.claims_cases hc
    obtain ⟨-, -, -, t, ht, hid, hpayload⟩ := hcand.there c hrow
    exact ⟨c.1, htaken ▸ List.mem_map_of_mem hrow, rfl, rfl, rfl, t,
      (show w₀.db.triggers = w.db.triggers from htriggers₀) ▸ ht, hid, hpayload⟩
  · exact hleased.frame.2.1.trans hrules₀
  · exact htriggers₁.trans htriggers₀
  · rw [← hexecutions₀]
    exact hleased.links

/-! ## Calls in a row -/

/-- `reconcile` called again and again. -/
def reconciled (env : Env) (organizationId : String) (calls : List ReconcileCall) (w : World) : World :=
  calls.foldl (fun w call => (call.run env organizationId w).world) w

theorem rounds (huuid : env.UuidOK) (hformat : env.FormatOK) (organizationId : String) (horizon : ℤ) :
    Rounds (fun w (call : ReconcileCall) => (call.run env organizationId w).world)
      (fun w => openRows w.db organizationId) ReconcileCall.limit (Ready env organizationId horizon)
      (ReconcileCall.Undisturbed horizon) where
  good _ _ hready hcall := by
    obtain ⟨_, -, hserved⟩ := reconcile_serves huuid hformat hcall hready
    exact hserved.ready
  takes _ _ hready hcall := by
    obtain ⟨_, -, hserved⟩ := reconcile_serves huuid hformat hcall hready
    exact hserved.rest

/-- **Undisturbed calls drain the backlog**: each takes its limit from the front of what was open, ends
what it takes and reports it, and an execution waits for no longer than the calls before it need. -/
theorem reconcile_drains (huuid : env.UuidOK) (hformat : env.FormatOK) (events : List Event)
    (organizationId : String) (horizon : ℤ) (hrange : InRange env ((automation env).run events).db)
    (hattempts : ∀ e ∈ openRows ((automation env).run events).db organizationId, e.attempts < i32Max)
    (hleases : ∀ e ∈ openRows ((automation env).run events).db organizationId, ∀ t, e.leaseUntil = some t → t ≤ horizon)
    {calls : List ReconcileCall} (hcalls : ∀ call ∈ calls, call.Undisturbed horizon) :
    let w := (automation env).run events
    let queue := openRows w.db organizationId
    openRows (reconciled env organizationId calls w).db organizationId =
        queue.drop (quotas ReconcileCall.limit calls) ∧
      (∀ before call after, calls = before ++ call :: after → ∃ response,
        (call.run env organizationId (reconciled env organizationId before w)).result = .ok response ∧
          response.claimed = min call.limit (queue.length - quotas ReconcileCall.limit before) ∧
          response.succeeded + response.failed = response.claimed) ∧
      ∀ (place : ℕ) (e : ExecutionRow), queue[place]? = some e → place < quotas ReconcileCall.limit calls →
        ∃ before call after, calls = before ++ call :: after ∧
          quotas ReconcileCall.limit before ≤ place ∧
          e ∈ openRows (reconciled env organizationId before w).db organizationId ∧
          Ended (reconciled env organizationId (before ++ [call]) w).db e.executionId := by
  intro w queue
  have hready : Ready env organizationId horizon w := ⟨⟨events, w.flushes, w.tasks, rfl⟩, hrange, hattempts, hleases⟩
  have hrounds := rounds huuid hformat organizationId horizon
  have hbefore : ∀ before call after, calls = before ++ call :: after →
      Ready env organizationId horizon (reconciled env organizationId before w) ∧
        openRows (reconciled env organizationId before w).db organizationId =
          queue.drop (quotas ReconcileCall.limit before) ∧ call.Undisturbed horizon := by
    intro before call after h
    have hcalls' : ∀ c ∈ before, c.Undisturbed horizon := fun c hc => hcalls c (h ▸ List.mem_append_left _ hc)
    obtain ⟨hgood, hqueue⟩ := hrounds.drained hready hcalls'
    exact ⟨hgood, hqueue, hcalls call (h ▸ List.mem_append_right _ List.mem_cons_self)⟩
  refine ⟨(hrounds.drained hready hcalls).2, fun before call after h => ?_, fun place e he hplace => ?_⟩
  · obtain ⟨hgood, hqueue, hcall⟩ := hbefore before call after h
    obtain ⟨response, hresult, hserved⟩ := reconcile_serves huuid hformat hcall hgood
    have hclaimed := hserved.claimed
    rw [hqueue, List.length_drop] at hclaimed
    exact ⟨response, hresult, hclaimed, hserved.counted⟩
  · obtain ⟨before, call, after, h, hle, hlt⟩ := round_of hplace
    obtain ⟨hgood, hqueue, hcall⟩ := hbefore before call after h
    obtain ⟨_, -, hserved⟩ := reconcile_serves huuid hformat hcall hgood
    have hplaced : (queue.drop (quotas ReconcileCall.limit before))[place - quotas ReconcileCall.limit before]? =
        some e := by
      rw [List.getElem?_drop, Nat.add_sub_cancel' hle, he]
    refine ⟨before, call, after, h, hle, hqueue ▸ List.mem_of_getElem? hplaced, ?_⟩
    have htaken : e ∈ (openRows (reconciled env organizationId before w).db organizationId).take call.limit := by
      rw [hqueue]
      refine List.mem_of_getElem? (i := place - quotas ReconcileCall.limit before) ?_
      rw [List.getElem?_take_of_lt (by omega), hplaced]
    rw [show reconciled env organizationId (before ++ [call]) w = _ from List.foldl_append]
    exact hserved.ended e htaken

section Sample

open Sample

/-- `Sample.env`, where every instant can be written. -/
noncomputable def datedEnv : Env :=
  { Sample.env with formatRfc3339 := fun t => (formatRfc3339 t).or (some (toString t.unixNanos)) }

theorem datedEnv_formatOK : datedEnv.FormatOK := by
  intro t _ _
  show ((formatRfc3339 t).or (some (toString t.unixNanos))).isSome = true
  rw [Option.isSome_or]
  exact Bool.or_true _

theorem datedEnv_uuidOK : datedEnv.UuidOK := uuidOK

/-- Jobs takes what it is sent. -/
def taking : FlushAround := ⟨conn 3 0, fun _ => ⟨.ok "job-1", conn 3 0, conn 3 0⟩⟩

/-- A call that takes one execution. -/
def takesOne (p : Providers) : ReconcileCall :=
  ⟨{ answers (fun _ => p) with before := taking, after := taking }, "worker-1", 1, 60⟩

/-- Projects knows the issue, and refuses what is asked of it. -/
def forbidding : Providers := providers "1" (.error (.domain "forbidden"))

theorem forbidding_answered : forbidding.Answered :=
  ⟨fun _ _ _ h => (by cases h), fun _ _ _ h => (by cases h), fun _ _ h => (by cases h)⟩

theorem served_answered : served.Answered :=
  ⟨fun _ _ _ h => (by cases h), fun _ _ _ h => (by cases h), fun _ _ h => (by cases h)⟩

theorem takesOne_undisturbed {p : Providers} (hp : p.Answered) : (takesOne p).Undisturbed 0 where
  before := ⟨conn_serves 3 0, fun _ => conn_serves 3 0, fun _ => rfl⟩
  claim := conn_serves 3 0
  answers := conn_answers 3 0
  locked := fun _ => rfl
  fits := (by decide : fitsI32 60 = true)
  batch := answers_serves _
  answered := fun _ _ => hp
  lasts := fun _ => (by decide : micros 1 ≤ micros 0 + 60 * microsPerSecond)
  after := ⟨conn_serves 3 0, fun _ => conn_serves 3 0, fun _ => rfl⟩
  count := conn_serves 3 1
  late := (by decide : (0 : ℤ) < micros 0)

/-- Two executions wait, and two calls end them, the second with a failure. -/
theorem two_calls_drain_two :
    openRows (reconciled datedEnv "org-1" [takesOne served, takesOne forbidding]
      ((automation datedEnv).run twoWaiting)).db "org-1" = [] := by
  have hrange : InRange datedEnv ((automation datedEnv).run twoWaiting).db := by
    have hdispatches : ((automation datedEnv).run twoWaiting).db.dispatches.rows = [] := by rfl
    have hevents : ∀ t ∈ ((automation datedEnv).run twoWaiting).db.triggers.rows, t.source ≠ .timer := by decide
    exact ⟨fun d hd => absurd (hdispatches ▸ hd : d ∈ ([] : List DispatchRow)) List.not_mem_nil,
      fun t ht hsource => absurd hsource (hevents t ht)⟩
  have hcalls : ∀ call ∈ [takesOne served, takesOne forbidding], call.Undisturbed 0 := by
    intro call hcall
    rcases List.mem_cons.1 hcall with rfl | hcall
    · exact takesOne_undisturbed served_answered
    · obtain rfl := List.mem_singleton.1 hcall
      exact takesOne_undisturbed forbidding_answered
  have hdrained := reconcile_drains datedEnv_uuidOK datedEnv_formatOK twoWaiting "org-1" 0 hrange (by decide)
    (by decide) hcalls
  exact hdrained.1.trans (by decide)

end Sample

end ProjectAutomation

import ProjectAutomation.Progress.Sequence
import ProjectAutomation.Proof.Turns

/-!
# The loop over the actions, taken up again

A run of `execute_actions` is a pass over the receipts of its execution (`Stopped.pass`), and
`Retries` is one run after another that failed, on the receipts it left.

* `Keyed`: the calls for an action all go out under the key on its receipt.
* `actions_resume`: however many runs fail, once one goes through, each action was recorded
  once, in order, and was only ever tried under one key.
-/

namespace ProjectAutomation

open Relational Progress

variable {env : Env} {db : Database}

/-! ## One run -/

section Run

variable {turns : ℕ → Turn} {claim : ClaimedExecution}

/-- With a database that serves, the loop stops only at an action that is not done. -/
theorem Stopped.ok_iff_succeeded {out : Performed} {stop : ℕ} (h : Stopped turns claim 0 db out stop)
    (hserves : ∀ i, (turns i).status.Serves) :
    out.result = .ok () ↔
      ∀ i < claim.actions.length, statusAt out.db.receipts claim.executionId i = .succeeded := by
  rw [h.ok_iff]
  constructor
  · rintro rfl i hi
    obtain ⟨row, row', -, hrow', hp⟩ := h.passed i (Nat.zero_le _) hi
    unfold statusAt
    rw [hrow']
    exact hp.status
  · intro hall
    by_contra hne
    have hlt : stop < claim.actions.length := by
      have := h.within
      omega
    obtain ⟨row, row', e, -, hrow', -, hh⟩ := h.halted hlt
    have hstop := hall stop hlt
    unfold statusAt at hstop
    rw [hrow'] at hstop
    have hdone : row'.status = .succeeded := hstop
    cases hh with
    | refused _ _ hf => rw [hf] at hdone; cases hdone
    | interrupted hs _ hr =>
      rcases hr with ⟨hne, -⟩ | hr
      · exact hne (hs.symm.trans hdone)
      · exact hr (hserves stop)

/-- **A run is a pass** over its actions. -/
theorem Stopped.pass {out : Performed} {stop : ℕ} (h : Stopped turns claim 0 db out stop) :
    Pass claim.actions.length (fun i => !todo db claim i) (fun i => !todo out.db claim i) stop out.successes := by
  refine ⟨h.within, ?_, fun i hi => ?_⟩
  · rw [h.successes, Nat.sub_zero, List.range_eq_range']
    apply List.filter_congr
    intro i _
    rw [Bool.not_not]
  · rcases Nat.lt_trichotomy i stop with hlt | rfl | hgt
    · obtain ⟨row, row', -, hrow', hp⟩ := h.passed i (Nat.zero_le _) hlt
      have hdone : todo out.db claim i = false := by
        rw [todo_of_find? hrow', hp.status]; rfl
      simp [hdone, hlt]
    · -- the action the run stopped at is done after it only if it was before
      obtain ⟨row, row', e, hrow, hrow', -, hh⟩ := h.halted hi
      have hsame : todo out.db claim i = todo db claim i := by
        rw [todo_of_find? hrow', todo_of_find? hrow]
        cases hh with
        | refused hne _ hf => rw [hf]; simp [hne]
        | interrupted hs => rw [hs]
      simp [hsame]
    · have hsame : todo out.db claim i = todo db claim i := by
        unfold todo statusAt
        rw [h.elsewhere _ fun j _ hj _ he => by
          have : i = j := congrArg Prod.snd he
          omega]
      have hnot : ¬ i < stop := by omega
      simp [hsame, hnot]

/-- The receipts are all there after a run. -/
theorem Stopped.received {out : Performed} {stop : ℕ} (h : Stopped turns claim 0 db out stop)
    (hrec : Received db claim) : ∀ i < claim.actions.length,
      ∃ row', out.db.receipts.find? (claim.executionId, i) = some row' ∧ row'.actionIndex ≤ i32Max := by
  intro i hi
  obtain ⟨row, hm, hk, hint⟩ := hrec i hi
  have hidx : row.actionIndex = i := congrArg Prod.snd hk
  have hrow : ∃ row', out.db.receipts.find? (claim.executionId, i) = some row' := by
    rcases Nat.lt_trichotomy i stop with hlt | rfl | hgt
    · obtain ⟨_, row', -, hrow', -⟩ := h.passed i (Nat.zero_le _) hlt
      exact ⟨row', hrow'⟩
    · obtain ⟨_, row', _, -, hrow', -⟩ := h.halted hi
      exact ⟨row', hrow'⟩
    · refine ⟨row, ?_⟩
      rw [h.elsewhere _ fun j _ hj _ he => by
        have : i = j := congrArg Prod.snd he
        omega]
      exact Table.find?_eq_some.2 ⟨hm, hk⟩
  obtain ⟨row', hrow'⟩ := hrow
  have hidx' : row'.actionIndex = i := congrArg Prod.snd (Table.find?_eq_some.1 hrow').2
  exact ⟨row', hrow', by omega⟩

end Run

/-! ## The calls -/

/-- The comment of an action has one id, whatever is read and whenever it is sent. -/
theorem builtRequest_commentId {executionId : Uuid} {index : ℕ} {key : String} {payload : Value} {action : Action}
    {read : Snapshot} {organizationId issueId commentId body key' : String}
    (h : builtRequest executionId index key payload action read =
      some (.addComment organizationId issueId commentId body key')) :
    commentId = "automation-comment-" ++ executionId.text ++ "-" ++ toString index := by
  unfold builtRequest at h
  obtain ⟨organization, -, h⟩ := Option.bind_eq_some_iff.1 h
  cases hk : action.kind with
  | assignIssueToTeam | moveIssue | updateIssue | updateProject =>
    rw [hk] at h
    cases read <;> cases h
  | addComment =>
    rw [hk] at h
    cases read with
    | issue _ => cases h
    | project _ => cases h
    | nothing =>
      obtain ⟨issue, -, h⟩ := Option.bind_eq_some_iff.1 h
      obtain ⟨text, -, h⟩ := Option.map_eq_some_iff.1 h
      cases h
      rfl

/-- A call for an action of an execution goes out under the key `keys` has for it; a comment, under its one id. -/
structure Keyed (executionId : Uuid) (keys : ℕ → String) (c : CallRecord) : Prop where
  execution : c.executionId = executionId
  key : ∀ read r, c.call = .mutate read r → r.idempotencyKey = keys c.index
  commentId : ∀ read organizationId issueId commentId body key,
    c.call = .mutate read (.addComment organizationId issueId commentId body key) →
    commentId = "automation-comment-" ++ executionId.text ++ "-" ++ toString c.index

theorem attempted_keyed {p : Providers} {claim : ClaimedExecution} {index : ℕ} {keys : ℕ → String} {c : CallRecord}
    (h : c ∈ (attempted p claim index (keys index)).1) : Keyed claim.executionId keys c := by
  unfold attempted at h
  cases ha : claim.actions[index]?.bind Action.fromValue with
  | none =>
    rw [ha] at h
    cases h
  | some action =>
    rw [ha] at h
    obtain ⟨call, hcall, rfl⟩ := List.mem_map.1 h
    refine ⟨rfl, ?_, ?_⟩
    · rintro read r rfl
      exact builtRequest_key (executeAction_mutate hcall)
    · rintro read organizationId issueId commentId body key rfl
      exact builtRequest_commentId (executeAction_mutate hcall)

theorem Stopped.keyed {turns : ℕ → Turn} {claim : ClaimedExecution} {out : Performed} {stop : ℕ}
    (h : Stopped turns claim 0 db out stop) {c : CallRecord} (hc : c ∈ out.calls) :
    Keyed claim.executionId (keyAt db.receipts claim.executionId) c := by
  obtain ⟨reached, -, -, -, hcalls⟩ := h.calls
  rw [hcalls] at hc
  obtain ⟨i, -, hc⟩ := List.mem_flatMap.1 hc
  exact attempted_keyed hc

/-! ## Retries -/

/-- One run of `execute_actions`, with the world it begins in. -/
structure Try where
  world : World
  turns : ℕ → Turn
  claim : ClaimedExecution

/-- What the run did. -/
def Try.out (env : Env) (t : Try) : Performed :=
  executeActions (t.world.session env) t.turns t.claim 0 t.claim.actions t.world.db

/-- `t'` takes up what `t` failed at, under a claim of its own: it finds the receipts as `t` left them. -/
structure Retries (env : Env) (t t' : Try) : Prop where
  failed : (t.out env).result ≠ .ok ()
  executionId : t'.claim.executionId = t.claim.executionId
  payload : t'.claim.payload = t.claim.payload
  actions : t'.claim.actions = t.claim.actions
  receipts : ∀ i, t'.world.db.receipts.find? (t.claim.executionId, i) =
    (t.out env).db.receipts.find? (t.claim.executionId, i)

section Try

variable {t t' : Try} {later : List Try}

theorem Try.stopped (env : Env) (hrec : Received t.world.db t.claim) :
    ∃ stop, Stopped t.turns t.claim 0 t.world.db (t.out env) stop :=
  executeActions_stopped rfl (Nat.zero_le _) hrec

theorem Retries.received (h : Retries env t t') (hrec : Received t.world.db t.claim) :
    Received t'.world.db t'.claim := by
  obtain ⟨stop, hstop⟩ := Try.stopped env hrec
  intro i hi
  rw [h.actions] at hi
  obtain ⟨row, hrow, hint⟩ := hstop.received hrec i hi
  rw [← h.receipts i] at hrow
  obtain ⟨hm, hk⟩ := Table.find?_eq_some.1 hrow
  exact ⟨row, hm, by rw [h.executionId]; exact hk, hint⟩

theorem Retries.todo_eq (h : Retries env t t') : todo t'.world.db t'.claim = todo (t.out env).db t.claim := by
  funext i
  unfold todo statusAt
  rw [h.executionId, h.receipts]

/-- The keys are on the receipts for good. -/
theorem Retries.keys (h : Retries env t t') (hrec : Received t.world.db t.claim) :
    keyAt t'.world.db.receipts t'.claim.executionId = keyAt t.world.db.receipts t.claim.executionId := by
  obtain ⟨stop, hstop⟩ := Try.stopped env hrec
  rw [← hstop.keys]
  funext i
  unfold keyAt
  rw [h.executionId, h.receipts]

/-- What is known of each run of a chain of retries. -/
theorem retries_keep (hrec : Received t.world.db t.claim) (hchain : (t :: later).IsChain (Retries env)) :
    ∀ r ∈ t :: later, Received r.world.db r.claim ∧ r.claim.executionId = t.claim.executionId ∧
      keyAt r.world.db.receipts r.claim.executionId = keyAt t.world.db.receipts t.claim.executionId := by
  induction later generalizing t with
  | nil =>
    intro r hr
    obtain rfl := List.mem_singleton.1 hr
    exact ⟨hrec, rfl, rfl⟩
  | cons t' later ih =>
    obtain ⟨hretry, hrest⟩ := List.isChain_cons_cons.1 hchain
    intro r hr
    rcases List.mem_cons.1 hr with rfl | hr
    · exact ⟨hrec, rfl, rfl⟩
    · obtain ⟨h₁, h₂, h₃⟩ := ih (hretry.received hrec) hrest r hr
      exact ⟨h₁, h₂.trans hretry.executionId, h₃.trans (hretry.keys hrec)⟩

/-- Each run goes on where the last one stopped; the one that goes through comes to the end. -/
theorem retries_reach {m : ℕ} (hrec : Received t.world.db t.claim) (hchain : (t :: later).IsChain (Retries env))
    (hm : Reached t.claim.actions.length (fun i => !todo t.world.db t.claim i) m)
    (hlast : (((t :: later).getLast (List.cons_ne_nil _ _)).out env).result = .ok ()) :
    List.range m ++ (t :: later).flatMap (fun r => (r.out env).successes) =
      List.range t.claim.actions.length := by
  induction later generalizing t m with
  | nil =>
    obtain ⟨stop, hstop⟩ := Try.stopped env hrec
    obtain ⟨hreached, hdid⟩ := hstop.pass.reached hm
    have hend : stop = t.claim.actions.length := hstop.ok_iff.1 hlast
    have hmax : max m stop = t.claim.actions.length := by
      have := hm.within
      omega
    simp only [List.flatMap_cons, List.flatMap_nil, List.append_nil]
    rw [hdid, hmax]
  | cons t' later ih =>
    obtain ⟨hretry, hrest⟩ := List.isChain_cons_cons.1 hchain
    obtain ⟨stop, hstop⟩ := Try.stopped env hrec
    obtain ⟨hreached, hdid⟩ := hstop.pass.reached hm
    have hreached' : Reached t'.claim.actions.length (fun i => !todo t'.world.db t'.claim i) (max m stop) := by
      rw [hretry.actions, hretry.todo_eq]
      exact hreached
    have hgo := ih (hretry.received hrec) hrest hreached' (by rwa [List.getLast_cons_cons] at hlast)
    rw [List.flatMap_cons, ← List.append_assoc, hdid, hgo, hretry.actions]

end Try

/-- **The action loop can be taken up again.** Each run of `execute_actions` stops where `Stopped` has it. From
receipts that are all pending, runs that fail, however many, and then one that goes through record
each action once, in order; and no action is ever tried under two keys. -/
theorem actions_resume {first : Try} {later : List Try} (hrec : Received first.world.db first.claim)
    (hchain : (first :: later).IsChain (Retries env)) :
    (∀ t ∈ first :: later, ∃ stop, Stopped t.turns t.claim 0 t.world.db (t.out env) stop) ∧
      (∀ t ∈ first :: later, (∀ i, (t.turns i).status.Serves) → ((t.out env).result = .ok () ↔
        ∀ i < t.claim.actions.length,
          statusAt (t.out env).db.receipts t.claim.executionId i = .succeeded)) ∧
      (∀ t ∈ first :: later, ∀ c ∈ (t.out env).calls, Keyed first.claim.executionId
        (keyAt first.world.db.receipts first.claim.executionId) c) ∧
      ((∀ i < first.claim.actions.length,
          statusAt first.world.db.receipts first.claim.executionId i = .pending) →
        (((first :: later).getLast (List.cons_ne_nil _ _)).out env).result = .ok () →
        (first :: later).flatMap (fun t => (t.out env).successes) = List.range first.claim.actions.length) := by
  have hkeep := retries_keep hrec hchain
  refine ⟨fun t ht => Try.stopped env (hkeep t ht).1, fun t ht hserves => ?_, fun t ht c hc => ?_,
    fun hpending hlast => ?_⟩
  · obtain ⟨stop, hstop⟩ := Try.stopped env (hkeep t ht).1
    exact hstop.ok_iff_succeeded hserves
  · obtain ⟨hrec', hid, hkeys⟩ := hkeep t ht
    obtain ⟨stop, hstop⟩ := Try.stopped env hrec'
    have hkeyed := hstop.keyed hc
    rwa [hid, ← hid, hkeys, hid] at hkeyed
  · have hnone : Reached first.claim.actions.length (fun i => !todo first.world.db first.claim i) 0 := by
      refine ⟨Nat.zero_le _, fun i hi => ?_⟩
      unfold todo
      rw [hpending i hi]
      rfl
    simpa using retries_reach hrec hchain hnone hlast

section Sample

open Sample

/-- The turns of a run whose calls are answered by `p`. -/
def turnsOf (after : ℤ) (p : Providers) : ℕ → Turn := fun _ => ⟨conn 0 after, p, conn 0 after⟩

/-- The claim of the worker on the execution that connection 1 opened. -/
def triageClaim (attempt : ℕ) : ClaimedExecution :=
  ⟨uuid 1 1, "triage", uuid 1 0, attempt, "worker-1", created.toValue, [(comment none).toValue]⟩

/-- The comment is sent, and its answer is lost. -/
noncomputable def interrupted : Try where
  world := (automation Sample.env).run (opening (comment none))
  turns := turnsOf 0 (providers "1" (.error (.runtime (.pluginFailure "connection closed"))))
  claim := triageClaim 1

/-- The next claim sends it again. -/
noncomputable def retried : Try where
  world := { interrupted.world with db := (interrupted.out Sample.env).db }
  turns := turnsOf 1 served
  claim := triageClaim 2

theorem retried_takes_up : [interrupted, retried].IsChain (Retries Sample.env) :=
  .cons_cons ⟨by decide, rfl, rfl, rfl, fun _ => rfl⟩ (.singleton _)

theorem actions_resume_triage :
    (interrupted.out Sample.env).calls.length = 1 ∧ (retried.out Sample.env).calls.length = 1 ∧
      [interrupted, retried].flatMap (fun t => (t.out Sample.env).successes) = List.range 1 :=
  ⟨by decide, by decide,
    (actions_resume (show Received interrupted.world.db interrupted.claim by decide) retried_takes_up).2.2.2
      (by decide) (by decide)⟩

end Sample

end ProjectAutomation

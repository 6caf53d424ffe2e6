import ProjectAutomation.Idempotency.Service
import ProjectAutomation.Proof.Constraints
import ProjectAutomation.Proof.Ordering
import ProjectAutomation.Proof.Requests

/-!
# Every action takes effect once

Projects and Collaboration take a mutation once for each idempotency key. Beside the plugin
stands what they took, in order: a mutation that was answered with success is taken, one that
was refused is not, and one whose answer was lost may be.

* `withEffects`: the plugin and what was taken.
* `ExecutionRow.keys`: the keys of an execution's actions; no two executions share one, by the
  unique constraint on the receipts.
* `effects_once_in_order`: of an execution's actions, the first ones have taken effect, once each
  and in order, and all of them when it succeeded.
-/

namespace ProjectAutomation

open Relational Idempotency

variable {env : Env} {w w' : World} {event : Event} {log : List Mutation}

/-! ## What is taken -/

/-- The mutation a call makes. -/
def Call.mutation : Call → Option Mutation
  | .mutate _ request => some request
  | .getIssue _ _ | .getProject _ _ => none

/-- The mutation an event sends, with what it is answered. -/
def World.sends (w : World) : Event → Option (Mutation × Except ActionFailure Value)
  | .work _ executionId attempt providers =>
    match w.tasks (executionId, attempt) with
    | some ⟨claim, .call index key⟩ =>
      (claim.actions[index]?.bind Action.fromValue).bind fun action =>
        let (calls, result) := executeAction providers claim.executionId index key claim.payload action
        (calls.findSome? Call.mutation).map (·, result)
    | _ => none
  | _ => none

/-- A mutation takes effect when it is answered with success, and may when its answer is lost. -/
def takesEffect (lost : Bool) : Except ActionFailure Value → Bool
  | .ok _ => true
  | .error (.domain _) => false
  | .error (.runtime _) => lost

/-- What was taken after an event. -/
def World.taken (w : World) (event : Event) (lost : Bool) (log : List Mutation) : List Mutation :=
  match w.sends event with
  | some (request, answer) =>
    if takesEffect lost answer then take Mutation.idempotencyKey request log else log
  | none => log

/-- The plugin, and what the capabilities it calls have taken; an input says whether a mutation
whose answer was lost took effect. -/
def withEffects (env : Env) : Transition.Machine (World × List Mutation) (Event × Bool) Reply :=
  (automation env).observe Prod.fst [] fun w input log => w.taken input.1 input.2 log

/-! ## The keys of an execution -/

/-- The keys of the actions of an execution, in order. -/
def ExecutionRow.keys (env : Env) (e : ExecutionRow) : List String :=
  (List.range e.steps.length).map (actionKey env e.executionId)

theorem ExecutionRow.mem_keys {e : ExecutionRow} {k : String} :
    k ∈ e.keys env ↔ ∃ i < e.steps.length, actionKey env e.executionId i = k := by
  simp [ExecutionRow.keys]

theorem ExecutionRow.keys_getElem? {e : ExecutionRow} {i : ℕ} (hi : i < e.steps.length) :
    (e.keys env)[i]? = some (actionKey env e.executionId i) := by
  unfold ExecutionRow.keys
  rw [List.getElem?_map, List.getElem?_range hi]
  rfl

theorem ExecutionRow.Continues.keys {e e' : ExecutionRow} (h : e.Continues e') : e'.keys env = e.keys env := by
  unfold ExecutionRow.keys
  rw [h.steps, h.executionId]

/-- A key stands on the receipt of its action. -/
theorem receipt_of_key (hr : RefsOK env w) {e : ExecutionRow} (he : e ∈ w.db.executions) {i : ℕ}
    (hi : i < e.steps.length) :
    ∃ r ∈ w.db.receipts, r.key = (e.executionId, i) ∧ r.idempotencyKey = actionKey env e.executionId i := by
  obtain ⟨r, hm, hk⟩ := hr.covered e he i hi
  obtain ⟨hid, hindex⟩ := Prod.mk.inj hk
  refine ⟨r, hm, hk, ?_⟩
  rw [(hr.receipts r hm).idempotencyKey, hid, hindex]

/-- **A key is of one action.** The receipts carry the keys, and no two of them the same. -/
theorem action_of_key (hr : RefsOK env w) (hu : Enforced w.db) {e e' : ExecutionRow} (he : e ∈ w.db.executions)
    (he' : e' ∈ w.db.executions) {i i' : ℕ} (hi : i < e.steps.length) (hi' : i' < e'.steps.length)
    (hkey : actionKey env e.executionId i = actionKey env e'.executionId i') : e = e' ∧ i = i' := by
  obtain ⟨r, hm, hk, hrk⟩ := receipt_of_key hr he hi
  obtain ⟨r', hm', hk', hrk'⟩ := receipt_of_key hr he' hi'
  have hsame : r = r' := hu.receiptKeys r hm r' hm' (hrk.trans (hkey.trans hrk'.symm))
  rw [hsame, hk'] at hk
  obtain ⟨hid, hindex⟩ := Prod.mk.inj hk
  exact ⟨Table.eq_of_key he he' hid.symm, hindex.symm⟩

theorem keys_nodup (hr : RefsOK env w) (hu : Enforced w.db) {e : ExecutionRow} (he : e ∈ w.db.executions) :
    (e.keys env).Nodup := by
  unfold ExecutionRow.keys
  refine List.Nodup.map_on ?_ List.nodup_range
  intro i hi j hj hkey
  exact (action_of_key hr hu he he (List.mem_range.1 hi) (List.mem_range.1 hj) hkey).2

theorem keys_disjoint (hr : RefsOK env w) (hu : Enforced w.db) {e e' : ExecutionRow} (he : e ∈ w.db.executions)
    (he' : e' ∈ w.db.executions) {k : String} (hk : k ∈ e.keys env) (hk' : k ∈ e'.keys env) : e = e' := by
  obtain ⟨i, hi, rfl⟩ := ExecutionRow.mem_keys.1 hk
  obtain ⟨i', hi', hkey⟩ := ExecutionRow.mem_keys.1 hk'
  exact (action_of_key hr hu he he' hi hi' hkey.symm).1

/-! ## What an event sends -/

/-- A mutation is sent for an action, under its key, by a worker in the middle of it. -/
theorem sends_cases (hr : RefsOK env w) (hc : CallsOK env w) {m : Mutation} {answer : Except ActionFailure Value}
    (h : w.sends event = some (m, answer)) :
    ∃ executionId index, CarriesOut executionId index answer w event ∧
      m.idempotencyKey = actionKey env executionId index ∧
      ∃ c ∈ ((automation env).next w event).calls, ∃ read, c.call = .mutate read m := by
  cases event with
  | work conn executionId attempt providers =>
    simp only [World.sends] at h
    split at h
    · rename_i claim index key ht
      obtain ⟨action, hdecode, h⟩ := Option.bind_eq_some_iff.1 h
      obtain ⟨request, hfind, heq⟩ := Option.map_eq_some_iff.1 h
      cases heq
      obtain ⟨call, hcall, hmutation⟩ := List.exists_of_findSome?_eq_some hfind
      have hid : claim.executionId = executionId := congrArg Prod.fst (hr.tasks _ _ ht).1
      have hkey : key = actionKey env claim.executionId index := hc.keys _ _ _ _ ht
      cases call with
      | getIssue _ _ => cases hmutation
      | getProject _ _ => cases hmutation
      | mutate read _ =>
        cases hmutation
        refine ⟨executionId, index, ⟨conn, attempt, providers, claim, key, action, rfl, ht, hdecode, rfl⟩, ?_, ?_⟩
        · rw [builtRequest_key (executeAction_mutate hcall), hkey, hid]
        · refine ⟨⟨claim.executionId, claim.attempt, index, action, .mutate read m⟩, ?_, read, rfl⟩
          show _ ∈ (w.work env conn executionId attempt providers).calls
          simp only [World.work, ht, World.carryOut, hdecode]
          exact List.mem_append_right _ (List.mem_map.2 ⟨_, hcall, rfl⟩)
    · cases h
  | tick | command | receiveEvent | receiveTimer | pendingDispatches | flush | claimExecutions => cases h

/-- An action carried out with success sends its mutation. -/
theorem sends_of_success {p : Providers} {executionId : Uuid} {index : ℕ} {key : String} {payload : Value}
    {action : Action} {response : Value}
    (h : (executeAction p executionId index key payload action).2 = .ok response) :
    ∃ m, (executeAction p executionId index key payload action).1.findSome? Call.mutation = some m := by
  have hissue : ∀ {organizationId issueId : String} {request : Issue → Mutation},
      (onIssue p organizationId issueId request).2 = .ok response →
      ∃ m, (onIssue p organizationId issueId request).1.findSome? Call.mutation = some m := by
    intro organizationId issueId request h
    unfold onIssue at h ⊢
    cases hread : p.getIssue organizationId issueId with
    | error e =>
      rw [hread] at h
      cases h
    | ok issue => exact ⟨request issue, rfl⟩
  have hproject : ∀ {organizationId projectId : String} {request : Project → Mutation},
      (onProject p organizationId projectId request).2 = .ok response →
      ∃ m, (onProject p organizationId projectId request).1.findSome? Call.mutation = some m := by
    intro organizationId projectId request h
    unfold onProject at h ⊢
    cases hread : p.getProject organizationId projectId with
    | error e =>
      rw [hread] at h
      cases h
    | ok project => exact ⟨request project, rfl⟩
  unfold executeAction at h ⊢
  cases horg : payload.getStr "organization_id" with
  | none =>
    rw [horg] at h
    cases h
  | some organizationId =>
    simp only [horg] at h ⊢
    cases hk : action.kind with
    | assignIssueToTeam | moveIssue | updateIssue =>
      simp only [hk] at h ⊢
      cases ht : issueTarget payload action with
      | none =>
        rw [ht] at h
        cases h
      | some issueId =>
        simp only [ht] at h
        exact hissue h
    | addComment =>
      simp only [hk] at h ⊢
      cases ht : issueTarget payload action with
      | none =>
        rw [ht] at h
        cases h
      | some issueId =>
        simp only [ht] at h ⊢
        cases hbody : action.commentBody with
        | none =>
          rw [hbody] at h
          cases h
        | some body => exact ⟨_, rfl⟩
    | updateProject =>
      simp only [hk] at h ⊢
      cases ht : projectTarget payload action with
      | none =>
        rw [ht] at h
        cases h
      | some projectId =>
        simp only [ht] at h
        exact hproject h

/-- A success reaches what was taken. -/
theorem taken_of_success (hr : RefsOK env w) (hc : CallsOK env w) {executionId : Uuid} {index : ℕ}
    {response : Value} (h : CarriesOut executionId index (.ok response) w event) (lost : Bool)
    (log : List Mutation) :
    actionKey env executionId index ∈ (w.taken event lost log).map Mutation.idempotencyKey := by
  obtain ⟨conn, attempt, providers, claim, key, action, rfl, ht, hdecode, hresult⟩ := h
  obtain ⟨m, hm⟩ := sends_of_success hresult
  have hsends : w.sends (.work conn executionId attempt providers) = some (m, .ok response) := by
    simp only [World.sends, ht, hdecode, Option.bind_some, hm, hresult, Option.map_some]
  have hid : claim.executionId = executionId := congrArg Prod.fst (hr.tasks _ _ ht).1
  obtain ⟨call, hcall, hmutation⟩ := List.exists_of_findSome?_eq_some hm
  have hkey : m.idempotencyKey = actionKey env executionId index := by
    cases call with
    | getIssue _ _ => cases hmutation
    | getProject _ _ => cases hmutation
    | mutate read _ =>
      cases hmutation
      rw [builtRequest_key (executeAction_mutate hcall), hc.keys _ _ _ _ ht, hid]
  unfold World.taken
  rw [hsends, ← hkey]
  exact mem_keys_take m log

theorem taken_kept {k : String} {lost : Bool} (h : k ∈ log.map Mutation.idempotencyKey) :
    k ∈ (w.taken event lost log).map Mutation.idempotencyKey := by
  unfold World.taken
  split
  · split
    · exact keys_subset_take h
    · exact h
  · exact h

/-- Nothing is taken, or the mutation a worker sends is, under a new key. -/
theorem taken_cases (w : World) (event : Event) (lost : Bool) (log : List Mutation) :
    w.taken event lost log = log ∨ ∃ m answer, w.sends event = some (m, answer) ∧
      m.idempotencyKey ∉ log.map Mutation.idempotencyKey ∧ w.taken event lost log = log ++ [m] := by
  unfold World.taken
  cases hsends : w.sends event with
  | none => exact Or.inl rfl
  | some sent =>
    obtain ⟨m, answer⟩ := sent
    simp only
    split
    · by_cases hk : m.idempotencyKey ∈ log.map Mutation.idempotencyKey
      · exact Or.inl (take_of_mem hk)
      · exact Or.inr ⟨m, answer, rfl, hk, take_of_not_mem hk⟩
    · exact Or.inl rfl

/-! ## The invariant -/

/-- What was taken agrees with the plugin's state. -/
structure OnceInOrder (env : Env) (w : World) (log : List Mutation) : Prop where
  once : (log.map Mutation.idempotencyKey).Nodup
  sent : ∀ m ∈ log, ∃ c ∈ w.calls, ∃ read, c.call = .mutate read m
  inOrder : ∀ e ∈ w.db.executions, InOrder (e.keys env) (log.map Mutation.idempotencyKey)
  earned : Earned (fun id i => actionKey env id i ∈ log.map Mutation.idempotencyKey) (fun _ _ => True) w

theorem OnceInOrder.init : OnceInOrder env World.init [] :=
  ⟨List.nodup_nil, fun _ h => absurd h List.not_mem_nil, fun e he => absurd he (Table.not_mem_empty e),
    Earned.init⟩

/-- A mutation that was sent is the one built for an action of an execution, under its key. -/
theorem CallsOK.built (hc : CallsOK env w) {c : CallRecord} (hm : c ∈ w.calls) {read : Snapshot} {m : Mutation}
    (hcall : c.call = .mutate read m) :
    ∃ e ∈ w.db.executions, ∃ t ∈ w.db.triggers, ∃ i < e.steps.length, ∃ action, t.triggerId = e.triggerId ∧
      e.steps[i]?.bind Action.fromValue = some action ∧
      builtRequest e.executionId i (actionKey env e.executionId i) t.payload action read = some m := by
  obtain ⟨e, he, t, ht, hid, htrigger, hdecode, hbuilt⟩ := (hc.calls c hm).made
  have hlt : c.index < e.steps.length := by
    obtain ⟨value, hvalue, -⟩ := Option.bind_eq_some_iff.1 hdecode
    exact (List.getElem?_eq_some_iff.1 hvalue).1
  rw [← hid] at hbuilt
  exact ⟨e, he, t, ht, c.index, hlt, c.action, htrigger, hdecode, hbuilt read m hcall⟩

/-- Every key that was taken is of an execution. -/
theorem OnceInOrder.owner (h : OnceInOrder env w log) (hc : CallsOK env w) {k : String}
    (hk : k ∈ log.map Mutation.idempotencyKey) : ∃ e ∈ w.db.executions, k ∈ e.keys env := by
  obtain ⟨m, hm, rfl⟩ := List.mem_map.1 hk
  obtain ⟨c, hcm, read, hcall⟩ := h.sent m hm
  obtain ⟨e, he, _, -, i, hlt, _, -, -, hbuilt⟩ := hc.built hcm hcall
  exact ⟨e, he, ExecutionRow.mem_keys.2 ⟨i, hlt, (builtRequest_key hbuilt).symm⟩⟩

theorem step_calls_kept (h : Step env w event w') {c : CallRecord} (hc : c ∈ w.calls) : c ∈ w'.calls := by
  cases h with
  | called _ _ => exact List.mem_append_left _ hc
  | idle | tick | command | receiveEvent | receiveTimer | pendingDispatches | enqueued | lost | flushEnds
  | marked | noted | failed | claimed | givesUp | statusRead | recorded | released | completed | closes =>
    exact hc

/-- An execution is one of before, as far as its keys go, or its keys are new. -/
theorem keys_origin (hr' : RefsOK env w') (hu' : Enforced w'.db) (h : Step env w event w')
    {e' : ExecutionRow} (he' : e' ∈ w'.db.executions) :
    (∃ e ∈ w.db.executions, e.executionId = e'.executionId ∧ e.keys env = e'.keys env) ∨
      ∀ e ∈ w.db.executions, ∀ k ∈ e.keys env, k ∉ e'.keys env := by
  by_cases hold : ∃ e ∈ w.db.executions, e.executionId = e'.executionId
  · obtain ⟨e, he, hid⟩ := hold
    obtain ⟨x, hx, hcont⟩ := step_continues h he
    obtain rfl : x = e' := Table.eq_of_key hx he' (hcont.executionId.trans hid)
    exact Or.inl ⟨e, he, hid, hcont.keys.symm⟩
  · refine Or.inr fun e he k hk hk' => hold ?_
    obtain ⟨x, hx, hcont⟩ := step_continues h he
    rw [← hcont.keys] at hk
    have hsame : x = e' := keys_disjoint hr' hu' hx he' hk hk'
    exact ⟨e, he, hsame ▸ hcont.executionId.symm⟩

/-- An action that is carried out stands in an execution, and the ones before it have been. -/
theorem CarriesOut.place {achieved refused : Uuid → ℕ → Prop} (hr : RefsOK env w) (hi : Earned achieved refused w)
    {executionId : Uuid} {index : ℕ} {result : Except ActionFailure Value}
    (h : CarriesOut executionId index result w event) :
    ∃ e ∈ w.db.executions, e.executionId = executionId ∧ index < e.steps.length ∧
      ∀ i < index, achieved executionId i := by
  obtain ⟨_, attempt, _, claim, key, _, -, ht, -, -⟩ := h
  have hid : claim.executionId = executionId := congrArg Prod.fst (hr.tasks _ _ ht).1
  obtain ⟨e, he, heid, -, -, hsteps, -⟩ := (hr.tasks _ _ ht).2.execution
  obtain ⟨hlt, hbelow⟩ := hi.tasks _ _ ht
  refine ⟨e, he, heid.trans hid, ?_, ?_⟩
  · rw [hsteps]
    exact hlt
  · rw [← hid]
    exact hbelow

/-- **Every event keeps the order of the effects.** -/
theorem step_onceInOrder (hr : RefsOK env w) (hc : CallsOK env w) (hu : Enforced w.db)
    (hi : OnceInOrder env w log) (event : Event) (lost : Bool) :
    OnceInOrder env ((automation env).next w event) (w.taken event lost log) := by
  have hstep : Step env w event ((automation env).next w event) := step_cases hr.linked event
  have hr' : RefsOK env ((automation env).next w event) := step_refs hr hstep
  have hu' : Enforced ((automation env).next w event).db := next_enforced hu event
  have hearned : Earned (fun id i => actionKey env id i ∈ (w.taken event lost log).map Mutation.idempotencyKey)
      (fun _ _ => True) ((automation env).next w event) :=
    step_earned hr hstep (fun h => taken_of_success hr hc h lost log) (fun _ => trivial)
      (hi.earned.mono (fun _ _ h => taken_kept h) fun _ _ h => h)
  have hkept : ∀ m ∈ log, ∃ c ∈ ((automation env).next w event).calls, ∃ read, c.call = .mutate read m := by
    intro m hm
    obtain ⟨c, hcm, hread⟩ := hi.sent m hm
    exact ⟨c, step_calls_kept hstep hcm, hread⟩
  -- with nothing more taken, an execution's effects are as they were, or it has none
  have hsame : ∀ e' ∈ ((automation env).next w event).db.executions,
      InOrder (e'.keys env) (log.map Mutation.idempotencyKey) := by
    intro e' he'
    rcases keys_origin hr' hu' hstep he' with ⟨e, he, -, hkeys⟩ | hnew
    · rw [← hkeys]
      exact hi.inOrder e he
    · refine inOrder_of_disjoint fun k hk => ?_
      obtain ⟨e, he, hke⟩ := hi.owner hc hk
      exact hnew e he k hke
  rcases taken_cases w event lost log with heq | ⟨m, answer, hsends, hnew, heq⟩
  · rw [heq] at hearned ⊢
    exact ⟨hi.once, hkept, hsame, hearned⟩
  · obtain ⟨executionId, index, hcarries, hkey, hcall⟩ := sends_cases hr hc hsends
    rw [heq] at hearned ⊢
    refine ⟨?_, ?_, ?_, hearned⟩
    · rw [← take_of_not_mem hnew]
      exact nodup_take hi.once
    · intro x hx
      rcases List.mem_append.1 hx with hx | hx
      · exact hkept x hx
      · rw [List.mem_singleton.1 hx]
        exact hcall
    · intro e' he'
      rw [List.map_append]
      show InOrder (e'.keys env) (_ ++ [m.idempotencyKey])
      by_cases hmine : m.idempotencyKey ∈ e'.keys env
      · obtain ⟨e, he, hid, hlt, hbelow⟩ := hcarries.place hr hi.earned
        obtain ⟨x, hx, hcont⟩ := step_continues hstep he
        -- the key is of this execution, so it is the one the worker is on
        obtain rfl : x = e' := by
          refine keys_disjoint hr' hu' hx he' ?_ hmine
          rw [hcont.keys, hkey, ← hid]
          exact ExecutionRow.mem_keys.2 ⟨index, hlt, rfl⟩
        have hxid : x.executionId = executionId := hcont.executionId.trans hid
        have hxlt : index < x.steps.length := by
          rw [hcont.steps]
          exact hlt
        refine (hsame x he').next (keys_nodup hr' hu' he') (i := index) ?_ ?_ hnew
        · rw [ExecutionRow.keys_getElem? hxlt, hkey, hxid]
        · intro j hj k hk
          rw [ExecutionRow.keys_getElem? (Nat.lt_trans hj hxlt), hxid] at hk
          rw [← Option.some.inj hk]
          exact hbelow j hj
      · exact (hsame e' he').skip hmine

theorem run_onceInOrder (inputs : List (Event × Bool)) :
    OnceInOrder env ((automation env).run (inputs.map Prod.fst)) ((withEffects env).run inputs).2 :=
  Transition.Machine.inv_observe (m := automation env)
    (J := fun w => RefsOK env w ∧ CallsOK env w ∧ Enforced w.db) (I := OnceInOrder env)
    (fun events => ⟨run_refs events, run_calls events, run_enforced events⟩) OnceInOrder.init
    (fun _ input _ hj hi => step_onceInOrder hj.1 hj.2.1 hj.2.2 hi input.1 input.2) inputs

/-- **Every action takes effect once, in order.** No key is taken twice, and what is taken is the
mutation of an action of an execution; of each execution the first actions have taken effect, once
each and in order, and all of them if it succeeded. -/
theorem effects_once_in_order (inputs : List (Event × Bool)) :
    let w := (automation env).run (inputs.map Prod.fst)
    let log := ((withEffects env).run inputs).2
    let keys := log.map Mutation.idempotencyKey
    keys.Nodup ∧
      (∀ m ∈ log, ∃ e ∈ w.db.executions, ∃ t ∈ w.db.triggers, ∃ i < e.steps.length, ∃ action read,
        t.triggerId = e.triggerId ∧ e.steps[i]?.bind Action.fromValue = some action ∧
        builtRequest e.executionId i (actionKey env e.executionId i) t.payload action read = some m) ∧
      ∀ e ∈ w.db.executions, (keys.filter fun k => k ∈ e.keys env) <+: e.keys env ∧
        (e.status = .succeeded → (keys.filter fun k => k ∈ e.keys env) = e.keys env) := by
  intro w log keys
  have hi : OnceInOrder env w log := run_onceInOrder inputs
  have hr : RefsOK env w := run_refs _
  have hc : CallsOK env w := run_calls _
  have hu : Enforced w.db := run_enforced _
  refine ⟨hi.once, fun m hm => ?_, fun e he => ⟨hi.inOrder e he, fun hs => ?_⟩⟩
  · obtain ⟨c, hcm, read, hcall⟩ := hi.sent m hm
    obtain ⟨e, he, t, ht, i, hlt, action, htrigger, hdecode, hbuilt⟩ := hc.built hcm hcall
    exact ⟨e, he, t, ht, i, hlt, action, read, htrigger, hdecode, hbuilt⟩
  · refine (hi.inOrder e he).all (keys_nodup hr hu he) fun k hk => ?_
    obtain ⟨i, hlt, rfl⟩ := ExecutionRow.mem_keys.1 hk
    exact hi.earned.succeeded e he hs i hlt

/-- A comment whose first answer was lost is asked for again, and made once. -/
example :
    let lossy := Sample.providers "1" (.error (.runtime (.pluginFailure "closed")))
    let events := Sample.opening (Sample.comment none) ++ Sample.works 0 1 lossy 3 ++
      Sample.claims 61 :: Sample.works 61 2 Sample.served 5
    ((withEffects Sample.env).run (events.map (·, true))).2.length = 1 := by decide

end ProjectAutomation

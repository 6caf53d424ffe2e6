import ProjectAutomation.Proof.Receipts
import ProjectAutomation.Proof.Requests
import ProjectAutomation.Spec.Calls

/-!
# One run of the loop over the actions

* `performAction_turned`: what one turn of `execute_actions` does to the receipt of its
  action (`Turned`), whatever the database and the dependencies answer.
* `executeActions_stopped`: the action the loop stops at, what it did before, and that it
  touched nothing after (`Stopped`).
-/

namespace ProjectAutomation

open Relational

variable {env : Env} {w : World} {s : Session} {db : Database}

/-! ## Receipts -/

/-- The idempotency key on the receipt of an action. -/
def keyAt (t : Table ActionReceiptRow.key) (executionId : Uuid) (index : ℕ) : String :=
  ((t.find? (executionId, index)).map ActionReceiptRow.idempotencyKey).getD ""

/-- Each action of a claim has its receipt; `action_index` is an `INTEGER`. -/
def Received (db : Database) (claim : ClaimedExecution) : Prop :=
  ∀ i < claim.actions.length,
    ∃ row ∈ db.receipts.rows, row.key = (claim.executionId, i) ∧ row.actionIndex ≤ i32Max

instance (db : Database) (claim : ClaimedExecution) : Decidable (Received db claim) :=
  inferInstanceAs (Decidable (∀ i < _, ∃ row ∈ db.receipts.rows, _ ∧ _))

/-- The receipt of an action does not have the status `succeeded`. -/
def todo (db : Database) (claim : ClaimedExecution) (index : ℕ) : Bool :=
  decide (statusAt db.receipts claim.executionId index ≠ .succeeded)

/-! ## One turn -/

/-- What carrying out the action at `index` under a key comes to: the calls, and the result. -/
def attempted (providers : Providers) (claim : ClaimedExecution) (index : ℕ) (key : String) :
    List CallRecord × Except ActionFailure Value :=
  match claim.actions[index]?.bind Action.fromValue with
  | none => ([], .error (.runtime (.protocolViolation "lenso.project-automation@1")))
  | some action =>
    let (calls, result) := executeAction providers claim.executionId index key claim.payload action
    (calls.map (⟨claim.executionId, claim.attempt, index, action, ·⟩), result)

/-- What a turn leaves of the receipt of an action it got done. -/
structure Passed (turn : Turn) (claim : ClaimedExecution) (index : ℕ) (row row' : ActionReceiptRow) : Prop where
  status : row'.status = .succeeded
  skipped : row.status = .succeeded → row'.response = row.response
  response : row.status ≠ .succeeded → ∃ response,
    (attempted turn.providers claim index row.idempotencyKey).2 = .ok response ∧ row'.response = some response

/-- What a turn leaves of the receipt of the action it failed at. -/
inductive Halted (turn : Turn) (claim : ClaimedExecution) (index : ℕ) (row row' : ActionReceiptRow) :
    ActionFailure → Prop
  | refused {detail : String} : row.status ≠ .succeeded →
      (attempted turn.providers claim index row.idempotencyKey).2 = .error (.domain detail) →
      row'.status = .failed → row'.lastFailure = some detail →
      Halted turn claim index row row' (.domain detail)
  | interrupted {failure : RuntimeFailure} : row'.status = row.status → row'.response = row.response →
      (row.status ≠ .succeeded ∧
        ((attempted turn.providers claim index row.idempotencyKey).2 = .error (.runtime failure) ∨
          ¬ turn.complete.Serves) ∨ ¬ turn.status.Serves) →
      Halted turn claim index row row' (.runtime failure)

/-- **The ways a turn can go**: the receipt it leaves, its result, what it recorded, and its calls. -/
inductive Turned (turn : Turn) (claim : ClaimedExecution) (index : ℕ) (row : ActionReceiptRow) :
    ActionReceiptRow → Except ActionFailure Unit → List (ℕ × Except String Value) → List CallRecord → Prop
  | unread {failure : RuntimeFailure} : ¬ turn.status.Serves →
      Turned turn claim index row row (.error (.runtime failure)) [] []
  | skipped {now : ℤ} : row.status = .succeeded → Turned turn claim index row (row.attempt now) (.ok ()) [] []
  | failed {now : ℤ} {failure : RuntimeFailure} : row.status ≠ .succeeded →
      (attempted turn.providers claim index row.idempotencyKey).2 = .error (.runtime failure) ∨
        ¬ turn.complete.Serves →
      Turned turn claim index row (row.attempt now) (.error (.runtime failure)) []
        (attempted turn.providers claim index row.idempotencyKey).1
  | refused {now now' : ℤ} {detail : String} : row.status ≠ .succeeded →
      (attempted turn.providers claim index row.idempotencyKey).2 = .error (.domain detail) →
      Turned turn claim index row (recordedRow now' (row.attempt now) (.error detail))
        (.error (.domain detail)) [(index, .error detail)]
        (attempted turn.providers claim index row.idempotencyKey).1
  | done {now now' : ℤ} {response : Value} : row.status ≠ .succeeded →
      (attempted turn.providers claim index row.idempotencyKey).2 = .ok response →
      Turned turn claim index row (recordedRow now' (row.attempt now) (.ok response)) (.ok ())
        [(index, .ok response)] (attempted turn.providers claim index row.idempotencyKey).1

namespace Turned

variable {turn : Turn} {claim : ClaimedExecution} {index : ℕ} {row row' : ActionReceiptRow}
  {recorded : List (ℕ × Except String Value)} {calls : List CallRecord}

theorem passed (h : Turned turn claim index row row' (.ok ()) recorded calls) :
    Passed turn claim index row row' := by
  cases h with
  | skipped hs => exact ⟨hs, fun _ => rfl, fun hne => absurd hs hne⟩
  | done hne hr => exact ⟨rfl, fun hs => absurd hs hne, fun _ => ⟨_, hr, rfl⟩⟩

theorem halted {e : ActionFailure} (h : Turned turn claim index row row' (.error e) recorded calls) :
    Halted turn claim index row row' e := by
  cases h with
  | unread hserves => exact .interrupted rfl rfl (Or.inr hserves)
  | failed hne hr => exact .interrupted rfl rfl (Or.inl ⟨hne, hr⟩)
  | refused hne hr => exact .refused hne hr rfl rfl

/-- A turn writes the receipt of its own action, under the key it has. -/
theorem same {result : Except ActionFailure Unit} (h : Turned turn claim index row row' result recorded calls) :
    row'.key = row.key ∧ row'.idempotencyKey = row.idempotencyKey := by
  cases h <;> exact ⟨rfl, rfl⟩

end Turned

theorem storageActionFailure_runtime (e : StorageError) : ∃ failure, storageActionFailure e = .runtime failure := by
  cases e <;> exact ⟨_, rfl⟩

/-- `action_status` on a receipt that is there fails with the database, or counts the attempt. -/
theorem transact_actionStatus (s : Session) {executionId : Uuid} {index : ℕ} {row : ActionReceiptRow}
    (hm : row ∈ db.receipts) (hk : row.key = (executionId, index)) :
    (¬ s.Serves ∧ ∃ e, transact (actionStatus s executionId index) db = (.error e, db)) ∨
      ∃ receipts, db.receipts.Put (row.attempt s.transactionTimestamp) receipts ∧
        transact (actionStatus s executionId index) db =
          (.ok (row.status, row.idempotencyKey), { db with receipts }) := by
  cases hf : s.faults "begin action attempt" with
  | some source =>
    left
    refine ⟨fun hserves => ?_, runtime "begin action attempt" source, ?_⟩
    · rw [hserves] at hf; cases hf
    · apply transact_of_error
      unfold actionStatus Session.statement
      rw [hf]; rfl
  | none =>
    right
    have hfind : db.receipts.find? (executionId, index) = some row := Table.find?_eq_some.2 ⟨hm, hk⟩
    refine ⟨_, Table.put_of_update (f := ActionReceiptRow.attempt _) ⟨fun _ => rfl⟩ hm
      (ActionReceiptRow.at_iff.2 hk) (fun x _ hx => (ActionReceiptRow.at_iff.1 hx).trans hk.symm), ?_⟩
    apply transact_of_commit
    unfold actionStatus
    rw [statement_bind_serves hf, Txn.get_bind, hfind]
    rfl

/-- `complete_action` on a receipt that is there fails with the database, or writes the outcome. -/
theorem transact_completeAction (s : Session) {executionId : Uuid} {index : ℕ} {row : ActionReceiptRow}
    (succeeded : Bool) (response : Option Value) (failure : Option String) (hm : row ∈ db.receipts)
    (hk : row.key = (executionId, index)) :
    (¬ s.Serves ∧
      ∃ e, transact (completeAction s executionId index succeeded response failure) db = (.error e, db)) ∨
      ∃ receipts, db.receipts.Put
          (row.complete (outcomeStatus succeeded) response failure s.transactionTimestamp) receipts ∧
        transact (completeAction s executionId index succeeded response failure) db =
          (.ok (), { db with receipts }) := by
  cases hf : s.faults "complete action" with
  | some source =>
    left
    refine ⟨fun hserves => ?_, runtime "complete action" source, ?_⟩
    · rw [hserves] at hf; cases hf
    · apply transact_of_error
      unfold completeAction Session.statement
      rw [hf]; rfl
  | none =>
    right
    refine ⟨_, Table.put_of_update (f := ActionReceiptRow.complete _ _ _ _) ⟨fun _ => rfl⟩ hm
      (ActionReceiptRow.at_iff.2 hk) (fun x _ hx => (ActionReceiptRow.at_iff.1 hx).trans hk.symm), ?_⟩
    apply transact_of_commit
    unfold completeAction
    rw [statement_bind_serves hf, Txn.get_bind]
    rfl

section Turn

variable {turn : Turn} {claim : ClaimedExecution} {index : ℕ} {row : ActionReceiptRow}

/-- What a turn did with the receipt `row` of its action, and that it wrote nothing else. -/
def TurnOf (turn : Turn) (claim : ClaimedExecution) (index : ℕ) (row : ActionReceiptRow) (db : Database)
    (done : Performed) : Prop :=
  ∃ row' receipts, done.db = { db with receipts } ∧ db.receipts.Put row' receipts ∧
    Turned turn claim index row row' done.result done.recorded done.calls

/-- The end of a turn, on the row that `action_status` has counted the attempt in. -/
theorem recordAction_turned (env : Env) (w : World) (turn : Turn) {receipts : Table ActionReceiptRow.key} {now : ℤ}
    (hk : row.key = (claim.executionId, index)) (hput : db.receipts.Put (row.attempt now) receipts)
    (hne : row.status ≠ .succeeded) :
    TurnOf turn claim index row db
      (recordAction (w.session env turn.complete) claim index
        (attempted turn.providers claim index row.idempotencyKey).1
        (attempted turn.providers claim index row.idempotencyKey).2 { db with receipts }) := by
  have hm : row.attempt now ∈ ({ db with receipts } : Database).receipts := hput.mem
  have hk' : (row.attempt now).key = (claim.executionId, index) := hk
  unfold recordAction
  cases hr : (attempted turn.providers claim index row.idempotencyKey).2 with
  | ok response =>
    simp only
    rcases transact_completeAction (w.session env turn.complete) true
      (some response) none hm hk' with ⟨hserves, e, h⟩ | ⟨receipts', hput', h⟩
    · obtain ⟨failure, he⟩ := storageActionFailure_runtime e
      rw [h]
      simp only [he]
      exact ⟨_, receipts, rfl, hput, .failed hne (Or.inr hserves)⟩
    · rw [h]
      exact ⟨_, receipts', rfl, hput.put hput' rfl, .done hne hr⟩
  | error e =>
    cases e with
    | domain detail =>
      simp only
      rcases transact_completeAction (w.session env turn.complete) false
        none (some detail) hm hk' with ⟨hserves, e, h⟩ | ⟨receipts', hput', h⟩
      · obtain ⟨failure, he⟩ := storageActionFailure_runtime e
        rw [h]
        simp only [he]
        exact ⟨_, receipts, rfl, hput, .failed hne (Or.inr hserves)⟩
      · rw [h]
        exact ⟨_, receipts', rfl, hput.put hput' rfl, .refused hne hr⟩
    | runtime failure => exact ⟨_, receipts, rfl, hput, .failed hne (Or.inl hr)⟩

/-- **One turn of the loop**, on a receipt that is there. -/
theorem performAction_turned (env : Env) (w : World) (turn : Turn) {value : Value} (hm : row ∈ db.receipts)
    (hk : row.key = (claim.executionId, index)) (hindex : index ≤ i32Max)
    (hvalue : claim.actions[index]? = some value) :
    TurnOf turn claim index row db (performAction (w.session env) turn claim index value db) := by
  unfold performAction
  rw [if_neg (by omega)]
  rcases transact_actionStatus (w.session env turn.status) hm hk with ⟨hserves, e, h⟩ | ⟨receipts, hput, h⟩
  · obtain ⟨failure, he⟩ := storageActionFailure_runtime e
    rw [h]
    simp only [he]
    exact ⟨row, db.receipts, rfl, Table.put_self hm, .unread hserves⟩
  · rw [h]
    by_cases hs : row.status = .succeeded
    · simp only [hs]
      exact ⟨_, receipts, rfl, hput, .skipped hs⟩
    · have hturn := recordAction_turned env w turn hk hput hs
      unfold attempted at hturn
      rw [hvalue] at hturn
      -- both sides match on the decoded action
      cases ha : Action.fromValue value with
      | none =>
        rw [Option.bind_some, ha] at hturn
        cases hst : row.status with
        | succeeded => exact absurd hst hs
        | pending => exact hturn
        | failed => exact hturn
      | some action =>
        rw [Option.bind_some, ha] at hturn
        cases hst : row.status with
        | succeeded => exact absurd hst hs
        | pending => exact hturn
        | failed => exact hturn

end Turn

/-! ## The loop -/

/-- The actions a run recorded as done, in order. -/
def Performed.successes (p : Performed) : List ℕ :=
  p.recorded.filterMap fun r => match r.2 with
    | .ok _ => some r.1
    | .error _ => none

/-- The calls for the action at `index`, under the key on its receipt. -/
def callsAt (turns : ℕ → Turn) (claim : ClaimedExecution) (db : Database) (index : ℕ) : List CallRecord :=
  (attempted (turns index).providers claim index (keyAt db.receipts claim.executionId index)).1

/-- **What the loop did from the action at `index` on**, when it came to the action at `stop`. -/
structure Stopped (turns : ℕ → Turn) (claim : ClaimedExecution) (index : ℕ) (db : Database) (out : Performed)
    (stop : ℕ) : Prop where
  index_le : index ≤ stop
  within : stop ≤ claim.actions.length
  ok_iff : out.result = .ok () ↔ stop = claim.actions.length
  passed : ∀ i, index ≤ i → i < stop → ∃ row row', db.receipts.find? (claim.executionId, i) = some row ∧
    out.db.receipts.find? (claim.executionId, i) = some row' ∧ Passed (turns i) claim i row row'
  halted : stop < claim.actions.length → ∃ row row' e,
    db.receipts.find? (claim.executionId, stop) = some row ∧
    out.db.receipts.find? (claim.executionId, stop) = some row' ∧ out.result = .error e ∧
    Halted (turns stop) claim stop row row' e
  elsewhere : ∀ k, (∀ i, index ≤ i → i ≤ stop → i < claim.actions.length → k ≠ (claim.executionId, i)) →
    out.db.receipts.find? k = db.receipts.find? k
  frame : out.db = { db with receipts := out.db.receipts }
  keys : keyAt out.db.receipts = keyAt db.receipts
  successes : out.successes = (List.range' index (stop - index)).filter (todo db claim)
  calls : ∃ reached, stop ≤ reached ∧ reached ≤ stop + 1 ∧ ((turns stop).status.Serves → reached = stop + 1) ∧
    out.calls =
      ((List.range' index (reached - index)).filter (todo db claim)).flatMap (callsAt turns claim db)

section Loop

variable {turns : ℕ → Turn} {claim : ClaimedExecution} {index : ℕ} {row row' : ActionReceiptRow}
  {receipts : Table ActionReceiptRow.key} {recorded : List (ℕ × Except String Value)} {calls : List CallRecord}

theorem todo_of_find? (h : db.receipts.find? (claim.executionId, index) = some row) :
    todo db claim index = decide (row.status ≠ .succeeded) := by
  unfold todo statusAt
  rw [h]; rfl

theorem keyAt_of_find? (h : db.receipts.find? (claim.executionId, index) = some row) :
    keyAt db.receipts claim.executionId index = row.idempotencyKey := by
  unfold keyAt
  rw [h]; rfl

theorem callsAt_of_find? (turns : ℕ → Turn) (h : db.receipts.find? (claim.executionId, index) = some row) :
    callsAt turns claim db index = (attempted (turns index).providers claim index row.idempotencyKey).1 := by
  unfold callsAt
  rw [keyAt_of_find? h]

/-- No action, no calls. -/
theorem callsAt_past (turns : ℕ → Turn) (db : Database) (h : claim.actions.length ≤ index) :
    callsAt turns claim db index = [] := by
  unfold callsAt attempted
  rw [List.getElem?_eq_none h]
  rfl

/-- A row that is put with the key it had leaves every key as it was. -/
theorem keyAt_put {t t' : Table ActionReceiptRow.key} (hm : row ∈ t) (hk : row'.key = row.key)
    (hkey : row'.idempotencyKey = row.idempotencyKey) (h : t.Put row' t') : keyAt t' = keyAt t := by
  funext executionId index
  unfold keyAt
  rw [h.find?_eq]
  split
  · rename_i he
    rw [Table.find?_eq_some.2 ⟨hm, hk.symm.trans he⟩, Option.map_some, Option.map_some, hkey]
  · rfl

/-- The receipts of the other actions are there after a turn. -/
theorem Received.put (hrec : Received db claim) (h : db.receipts.Put row' receipts) :
    Received { db with receipts } claim := by
  intro i hi
  obtain ⟨x, hx, hxk, hint⟩ := hrec i hi
  by_cases he : x.key = row'.key
  · have hidx : x.actionIndex = row'.actionIndex := congrArg Prod.snd he
    exact ⟨row', h.mem, he.symm.trans hxk, hidx ▸ hint⟩
  · exact ⟨x, h.of_ne hx he, hxk, hint⟩

/-- A turn that went through recorded its action and made its calls, unless the action was done. -/
theorem Turned.ok_lists {result : Except ActionFailure Unit} (db' : Database)
    (h : Turned (turns index) claim index row row' result recorded calls)
    (hfind : db.receipts.find? (claim.executionId, index) = some row) (hok : result = .ok ()) :
    (Performed.mk result recorded calls db').successes = [index].filter (todo db claim) ∧
      calls = ([index].filter (todo db claim)).flatMap (callsAt turns claim db) := by
  have htodo := todo_of_find? hfind
  have hcalls := callsAt_of_find? turns hfind
  cases h with
  | unread | failed | refused => cases hok
  | skipped hs =>
    have hnot : todo db claim index = false := by rw [htodo, hs]; rfl
    simp [Performed.successes, hnot]
  | done hne hr =>
    have hdo : todo db claim index = true := by rw [htodo]; exact decide_eq_true hne
    simp [Performed.successes, hdo, hcalls]

/-- A turn that failed recorded no success. Its calls were made, unless its receipt could not be read. -/
theorem Turned.error_lists {e : ActionFailure} (db' : Database) {result : Except ActionFailure Unit}
    (h : Turned (turns index) claim index row row' result recorded calls)
    (hfind : db.receipts.find? (claim.executionId, index) = some row) (herr : result = .error e) :
    (Performed.mk result recorded calls db').successes = [] ∧
      ∃ count ≤ 1, ((turns index).status.Serves → count = 1) ∧
        calls = ((List.range' index count).filter (todo db claim)).flatMap (callsAt turns claim db) := by
  have htodo := todo_of_find? hfind
  have hcalls := callsAt_of_find? turns hfind
  have hmade : row.status ≠ .succeeded → (attempted (turns index).providers claim index row.idempotencyKey).1 =
      ((List.range' index 1).filter (todo db claim)).flatMap (callsAt turns claim db) := by
    intro hne
    have hdo : todo db claim index = true := by rw [htodo]; exact decide_eq_true hne
    simp [hdo, hcalls]
  cases h with
  | skipped | done => cases herr
  | unread hserves => exact ⟨rfl, 0, by omega, fun h => absurd h hserves, rfl⟩
  | failed hne => exact ⟨rfl, 1, le_refl _, fun _ => rfl, hmade hne⟩
  | refused hne => exact ⟨rfl, 1, le_refl _, fun _ => rfl, hmade hne⟩

/-- The loop ends with a turn that failed. -/
theorem TurnOf.stops {out : Performed} {e : ActionFailure} (h : TurnOf (turns index) claim index row db out)
    (hfind : db.receipts.find? (claim.executionId, index) = some row) (hlt : index < claim.actions.length)
    (herr : out.result = .error e) : Stopped turns claim index db out index := by
  obtain ⟨row', receipts, hdb, hput, hturn⟩ := h
  obtain ⟨hm, hk⟩ := Table.find?_eq_some.1 hfind
  obtain ⟨hkey, hidem⟩ := hturn.same
  obtain ⟨hsucc, count, hcount, hserves, hcalls⟩ := hturn.error_lists out.db hfind herr
  have hreceipts : out.db.receipts = receipts := by rw [hdb]
  rw [herr] at hturn
  refine ⟨le_refl _, by omega, ?_, fun i hle hi => by omega, fun _ => ?_, fun k hne => ?_, ?_, ?_, ?_, ?_⟩
  · rw [herr]
    exact ⟨fun h => (by cases h), fun h => by omega⟩
  · refine ⟨row, row', e, hfind, ?_, herr, hturn.halted⟩
    rw [hreceipts, hput.find?_eq, if_pos (hkey.trans hk)]
  · rw [hreceipts, hput.find?_eq, if_neg fun he => hne index (le_refl _) (le_refl _) hlt ?_]
    rw [← he, hkey, hk]
  · rw [hdb]
  · rw [hreceipts]
    exact keyAt_put hm hkey hidem hput
  · rw [Nat.sub_self]
    exact hsucc
  · refine ⟨index + count, by omega, by omega, fun h => by rw [hserves h], ?_⟩
    rw [Nat.add_sub_cancel_left]
    exact hcalls

/-- The loop goes on after a turn that went through. -/
theorem TurnOf.goes_on {out next : Performed} {stop : ℕ} (h : TurnOf (turns index) claim index row db out)
    (hfind : db.receipts.find? (claim.executionId, index) = some row) (hok : out.result = .ok ())
    (hnext : Stopped turns claim (index + 1) out.db next stop) :
    Stopped turns claim index db
      ⟨next.result, out.recorded ++ next.recorded, out.calls ++ next.calls, next.db⟩ stop := by
  obtain ⟨row', receipts, hdb, hput, hturn⟩ := h
  obtain ⟨hm, hk⟩ := Table.find?_eq_some.1 hfind
  obtain ⟨hkey, hidem⟩ := hturn.same
  obtain ⟨hsucc, hcalls⟩ := hturn.ok_lists out.db hfind hok
  have hreceipts : out.db.receipts = receipts := by rw [hdb]
  have hpassed : Passed (turns index) claim index row row' := by
    rw [hok] at hturn
    exact hturn.passed
  have hother : ∀ k, k ≠ (claim.executionId, index) → out.db.receipts.find? k = db.receipts.find? k := by
    intro k hne
    rw [hreceipts, hput.find?_eq, if_neg]
    rw [hkey, hk]
    exact fun he => hne he.symm
  have hkeys : keyAt out.db.receipts = keyAt db.receipts := by
    rw [hreceipts]
    exact keyAt_put hm hkey hidem hput
  -- what is still to do past this action, and its calls, are as before the turn
  have hlater : ∀ i, index < i → (claim.executionId, i) ≠ (claim.executionId, index) := by
    intro i hi he
    have : i = index := congrArg Prod.snd he
    omega
  have htodo : ∀ count, (List.range' (index + 1) count).filter (todo out.db claim) =
      (List.range' (index + 1) count).filter (todo db claim) := by
    intro count
    apply List.filter_congr
    intro i hi
    unfold todo statusAt
    rw [hother _ (hlater i (List.mem_range'_1.1 hi).1)]
  have hat : callsAt turns claim out.db = callsAt turns claim db := by
    funext i
    unfold callsAt
    rw [hkeys]
  have hle := hnext.index_le
  obtain ⟨reached, hr₁, hr₂, hr₃, hr₄⟩ := hnext.calls
  have hsplit : ∀ m, index + 1 ≤ m →
      List.range' index (m - index) = [index] ++ List.range' (index + 1) (m - (index + 1)) := by
    intro m hm
    have : m - index = (m - (index + 1)) + 1 := by omega
    rw [this, List.range'_succ]; rfl
  refine ⟨by omega, hnext.within, hnext.ok_iff, ?_, ?_, ?_, ?_, hnext.keys.trans hkeys, ?_, ?_⟩
  · intro i hle hi
    rcases Nat.eq_or_lt_of_le hle with rfl | hlt
    · refine ⟨row, row', hfind, ?_, hpassed⟩
      rw [hnext.elsewhere _ fun i hi _ _ => (hlater i hi).symm, hreceipts, hput.find?_eq, if_pos (hkey.trans hk)]
    · obtain ⟨x, x', hx, hx', hp⟩ := hnext.passed i hlt hi
      rw [hother _ (hlater i hlt)] at hx
      exact ⟨x, x', hx, hx', hp⟩
  · intro hlt
    obtain ⟨x, x', e, hx, hx', he, hh⟩ := hnext.halted hlt
    rw [hother _ (hlater stop hle)] at hx
    exact ⟨x, x', e, hx, hx', he, hh⟩
  · intro k hne
    have hlt : index < claim.actions.length := by
      have := hnext.within
      omega
    rw [hnext.elsewhere k fun i hi => hne i (by omega)]
    exact hother k (hne index (le_refl _) (by omega) hlt)
  · rw [hnext.frame, hdb]
  · rw [hsplit stop hle, List.filter_append, ← hsucc, ← htodo, ← hnext.successes]
    exact List.filterMap_append
  · refine ⟨reached, hr₁, hr₂, hr₃, ?_⟩
    rw [hsplit reached (by omega), List.filter_append, List.flatMap_append, ← htodo, ← hat, ← hr₄, hat, ← hcalls]

/-- **Where the loop stops.** -/
theorem executeActions_stopped {rest : List Value} (hdrop : claim.actions.drop index = rest)
    (hle : index ≤ claim.actions.length) (hrec : Received db claim) :
    ∃ stop, Stopped turns claim index db (executeActions (w.session env) turns claim index rest db) stop := by
  induction rest generalizing index db with
  | nil =>
    -- past the last action
    have hend : index = claim.actions.length := by
      have := List.drop_eq_nil_iff.1 hdrop
      omega
    refine ⟨index, le_refl _, hle, iff_of_true rfl hend, fun i _ _ => by omega, fun _ => by omega,
      fun _ _ => rfl, rfl, rfl, by rw [Nat.sub_self]; rfl, index + 1, by omega, le_refl _, fun _ => rfl, ?_⟩
    have hnone := callsAt_past turns db (Nat.le_of_eq hend.symm)
    rw [Nat.add_sub_cancel_left]
    unfold executeActions
    cases hdo : todo db claim index <;> simp [hdo, hnone]
  | cons value rest ih =>
    obtain ⟨hlt, hget, hrest⟩ := Progress.drop_eq_cons hdrop
    obtain ⟨row, hm, hk, hint⟩ := hrec index hlt
    have hindex : index ≤ i32Max := by
      have hidx : row.actionIndex = index := congrArg Prod.snd hk
      omega
    have hfind : db.receipts.find? (claim.executionId, index) = some row := Table.find?_eq_some.2 ⟨hm, hk⟩
    have hturn := performAction_turned env w (turns index) hm hk hindex hget
    unfold executeActions
    simp only
    cases hres : (performAction (w.session env) (turns index) claim index value db).result with
    | error e => exact ⟨index, hturn.stops hfind hlt hres⟩
    | ok u =>
      have hrec' : Received (performAction (w.session env) (turns index) claim index value db).db claim := by
        obtain ⟨row', receipts, hdb, hput, hturned⟩ := hturn
        rw [hdb]
        exact hrec.put hput
      obtain ⟨stop, hnext⟩ := ih hrest hlt hrec'
      exact ⟨stop, hturn.goes_on hfind hres hnext⟩

end Loop

end ProjectAutomation

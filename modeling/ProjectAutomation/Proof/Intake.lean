import ProjectAutomation.Spec.Intake
import ProjectAutomation.Proof.Schedule

/-!
# What a trigger does

* `Intake`: one trigger row, and beside it the executions it opened, each with its
  receipts; every other table is left alone.
* `receiveEvent_ok`, `receiveTimer_ok`: a delivery that answers either finds its key
  recorded and changes nothing, or is such an intake.
-/

namespace ProjectAutomation

open Relational

variable {env : Env} {s : Session}

/-! ## Receipts -/

/-- The receipts of the actions from `index` on. -/
def receiptRows (s : Session) (executionId : Uuid) : ℕ → List Value → List ActionReceiptRow
  | _, [] => []
  | index, action :: rest =>
    newReceipt s executionId index ((action.getStr "kind").getD "") ::
      receiptRows s executionId (index + 1) rest

theorem mem_receiptRows {executionId : Uuid} {actions : List Value} {index : ℕ} {r : ActionReceiptRow} :
    r ∈ receiptRows s executionId index actions ↔
      ∃ j action, actions[j]? = some action ∧
        r = newReceipt s executionId (index + j) ((action.getStr "kind").getD "") := by
  induction actions generalizing index with
  | nil => simp [receiptRows]
  | cons a rest ih =>
    rw [receiptRows, List.mem_cons, ih]
    constructor
    · rintro (rfl | ⟨j, action, hj, rfl⟩)
      · exact ⟨0, a, rfl, rfl⟩
      · exact ⟨j + 1, action, hj, by rw [Nat.add_right_comm, Nat.add_assoc]⟩
    · rintro ⟨j, action, hj, rfl⟩
      cases j with
      | zero => cases hj; exact Or.inl rfl
      | succ j => exact Or.inr ⟨j, action, hj, by rw [Nat.add_right_comm, Nat.add_assoc]⟩

/-- The receipts an execution opens with. -/
def openReceipts (s : Session) (e : ExecutionRow) : List ActionReceiptRow :=
  receiptRows s e.executionId 0 (e.actions.asArray.getD [])

theorem mem_openReceipts {e : ExecutionRow} {r : ActionReceiptRow} :
    r ∈ openReceipts s e ↔
      ∃ j action, (e.actions.asArray.getD [])[j]? = some action ∧
        r = newReceipt s e.executionId j ((action.getStr "kind").getD "") := by
  unfold openReceipts
  rw [mem_receiptRows]
  simp only [Nat.zero_add]

theorem insertReceipt_ok {row : ActionReceiptRow} {db : Database} {r : Unit × Database}
    (h : insertReceipt s row db = .ok r) :
    ∃ receipts, db.receipts.insert? row = some receipts ∧ r = ((), { db with receipts }) := by
  unfold insertReceipt at h
  rw [statement_bind_eq_ok, Txn.get_bind] at h
  obtain ⟨-, h⟩ := h
  split at h
  · exact absurd h Txn.throw_ne_ok
  cases hi : db.receipts.insert? row with
  | none => rw [hi] at h; exact absurd h Txn.throw_ne_ok
  | some receipts =>
    rw [hi] at h
    simp only [Txn.set_eq_ok] at h
    exact ⟨receipts, rfl, h⟩

/-- What `insert_execution` demands of the actions it opens receipts for. -/
structure ActionsOK (actions : List Value) : Prop where
  kinds : ∀ a ∈ actions, (a.getStr "kind").isSome = true
  count : ∀ j < actions.length, j ≤ i32Max

theorem insertReceipts_ok {executionId : Uuid} {actions : List Value} {index : ℕ} {db : Database}
    {r : Unit × Database} (h : insertReceipts s executionId index actions db = .ok r) :
    ∃ receipts, r = ((), { db with receipts }) ∧
      receipts.rows = db.receipts.rows ++ receiptRows s executionId index actions ∧
      (∀ a ∈ actions, (a.getStr "kind").isSome = true) ∧ ∀ j < actions.length, index + j ≤ i32Max := by
  -- the rows of the rest begin at the next index
  induction actions generalizing index db with
  | nil =>
    unfold insertReceipts at h
    rw [Txn.pure_eq_ok] at h
    exact ⟨db.receipts, h, by simp [receiptRows], by simp, by simp⟩
  | cons action rest ih =>
    unfold insertReceipts at h
    split at h
    · exact absurd h Txn.throw_ne_ok
    rename_i hle
    cases hk : action.getStr "kind" with
    | none => rw [hk] at h; exact absurd h Txn.throw_ne_ok
    | some kind =>
      rw [hk] at h
      simp only at h
      rw [Txn.bind_eq_ok] at h
      obtain ⟨_, db₁, hi, h⟩ := h
      obtain ⟨t, ht, he⟩ := insertReceipt_ok hi
      cases he
      obtain ⟨receipts, rfl, hrows, hkinds, hcount⟩ := ih h
      refine ⟨receipts, rfl, ?_, ?_, ?_⟩
      · rw [hrows, (Table.insert?_eq_some.1 ht).2, receiptRows, hk, List.append_assoc]
        rfl
      · intro a ha
        rcases List.mem_cons.1 ha with rfl | ha
        · rw [hk]; rfl
        · exact hkinds a ha
      · intro j hj
        cases j with
        | zero => omega
        | succ j =>
          have := hcount j (by simpa using hj)
          omega

/-! ## Executions -/

/-- No conflict on the rule and the trigger. -/
theorem find?_linked_eq_none {row : ExecutionRow} {db : Database}
    (hnew : ∀ e ∈ db.executions, e.triggerId = row.triggerId → e.ruleId ≠ row.ruleId) :
    db.executions.rows.find? (fun e => e.ruleId = row.ruleId && e.triggerId = row.triggerId) = none := by
  rw [List.find?_eq_none]
  intro e he hc
  simp only [Bool.and_eq_true, decide_eq_true_eq] at hc
  exact hnew e he hc.2 hc.1

theorem insertExecution_ok {row : ExecutionRow} {db : Database} {r : Uuid × Database}
    (h : insertExecution s row db = .ok r)
    (hnew : ∀ e ∈ db.executions, e.triggerId = row.triggerId → e.ruleId ≠ row.ruleId) :
    ∃ executions receipts, r = (row.executionId, { db with executions, receipts }) ∧
      executions.rows = db.executions.rows ++ [row] ∧
      receipts.rows = db.receipts.rows ++ openReceipts s row ∧
      ActionsOK (row.actions.asArray.getD []) ∧ row.actions.asArray.isSome = true := by
  unfold insertExecution at h
  rw [statement_bind_eq_ok, Txn.get_bind] at h
  obtain ⟨-, h⟩ := h
  rw [find?_linked_eq_none hnew] at h
  simp only at h
  cases hi : db.executions.insert? row with
  | none => rw [hi] at h; exact absurd h Txn.throw_ne_ok
  | some executions =>
    rw [hi] at h
    simp only [Txn.set_bind] at h
    cases ha : row.actions.asArray with
    | none => rw [ha] at h; exact absurd h Txn.throw_ne_ok
    | some actions =>
      rw [ha] at h
      simp only at h
      rw [Txn.bind_eq_ok] at h
      obtain ⟨_, db₁, hr, h⟩ := h
      obtain ⟨receipts, he, hrows, hkinds, hcount⟩ := insertReceipts_ok hr
      cases he
      rw [Txn.pure_eq_ok] at h
      refine ⟨executions, receipts, h, (Table.insert?_eq_some.1 hi).2, ?_, ⟨hkinds, ?_⟩, rfl⟩
      · rw [hrows]; unfold openReceipts; rw [ha]; rfl
      · intro j hj
        have := hcount j hj
        omega

theorem forall₂_mem_right {α β : Type} {R : α → β → Prop} {as : List α} {bs : List β} {b : β}
    (h : List.Forall₂ R as bs) (hb : b ∈ bs) : ∃ a ∈ as, R a b := by
  induction h with
  | nil => cases hb
  | cons hab _ ih =>
    rcases List.mem_cons.1 hb with rfl | hb
    · exact ⟨_, List.mem_cons_self, hab⟩
    · obtain ⟨a, ha, hr⟩ := ih hb
      exact ⟨a, List.mem_cons_of_mem _ ha, hr⟩

/-- A rule fires on an event. -/
def RuleRow.fires (eventType : String) (payload : Value) (rule : RuleRow) : Bool :=
  eventAllowed rule.trigger eventType && conditionsMatch rule.conditions payload

/-- An execution opened for a rule. -/
structure OpenedFor (s : Session) (organizationId : String) (triggerId : Uuid) (rule : RuleRow)
    (e : ExecutionRow) : Prop where
  row : e = newExecution s e.executionId organizationId rule.ruleId triggerId rule.actions
  actions : ActionsOK (rule.actions.asArray.getD [])
  isArray : rule.actions.asArray.isSome = true

/-- An execution opened for each rule of a list, in order, has its rule. -/
theorem openedFor_ruleIds {organizationId : String} {triggerId : Uuid} {rules : List RuleRow}
    {es : List ExecutionRow} (h : List.Forall₂ (OpenedFor s organizationId triggerId) rules es) :
    es.map ExecutionRow.ruleId = rules.map RuleRow.ruleId := by
  induction h with
  | nil => rfl
  | cons ho _ ih =>
    rw [List.map_cons, List.map_cons, ih, ho.row]
    rfl

/-- The loop of `receive_event` opens one execution for each rule that fires, in order. -/
theorem fireRules_ok {organizationId eventType : String} {triggerId : Uuid} {payload : Value}
    {rules : List RuleRow} {n : ℕ} {db : Database} {r : List String × Database}
    (h : fireRules s organizationId triggerId eventType payload n rules db = .ok r)
    (hnodup : (rules.map RuleRow.ruleId).Nodup)
    (hnew : ∀ e ∈ db.executions, e.triggerId = triggerId → e.ruleId ∉ rules.map RuleRow.ruleId) :
    ∃ es executions receipts, r = (es.map (fun e => e.executionId.text), { db with executions, receipts }) ∧
      List.Forall₂ (OpenedFor s organizationId triggerId) (rules.filter (RuleRow.fires eventType payload)) es ∧
      executions.rows = db.executions.rows ++ es ∧
      receipts.rows = db.receipts.rows ++ es.flatMap (openReceipts s) := by
  induction rules generalizing n db r with
  | nil =>
    unfold fireRules at h
    rw [Txn.pure_eq_ok] at h
    exact ⟨[], db.executions, db.receipts, h, by simp, by simp, by simp⟩
  | cons rule rest ih =>
    obtain ⟨hnotin, hrest⟩ := List.nodup_cons.1 hnodup
    unfold fireRules at h
    split at h
    · -- the rule fires, and its execution is the first
      rename_i hf
      have hfires : rule.fires eventType payload = true := hf
      rw [Txn.bind_eq_ok] at h
      obtain ⟨id, db₁, hi, h⟩ := h
      obtain ⟨ex₁, re₁, he, hex, hre, hact, harr⟩ := insertExecution_ok hi (fun e he ht hr =>
        hnew e he ht (by rw [hr]; simp [newExecution]))
      cases he
      rw [Txn.bind_eq_ok] at h
      obtain ⟨ids, db₂, hrec, h⟩ := h
      rw [Txn.pure_eq_ok] at h
      -- the new execution belongs to `rule`, which the rest of the list does not name
      obtain ⟨es, executions, receipts, he, hall, hexs, hres⟩ := ih hrec hrest (by
        intro e he ht
        rw [Table.mem_of_rows_append hex, List.mem_singleton] at he
        rcases he with he | rfl
        · exact fun hm => hnew e he ht (List.mem_cons_of_mem _ hm)
        · exact hnotin)
      cases he
      subst h
      refine ⟨_ :: es, executions, receipts, rfl, ?_, ?_, ?_⟩
      · rw [List.filter_cons_of_pos hfires]
        exact List.Forall₂.cons ⟨rfl, hact, harr⟩ hall
      · rw [hexs, hex]; simp
      · rw [hres, hre]; simp
    · rename_i hf
      have hfires : ¬ rule.fires eventType payload = true := hf
      obtain ⟨es, executions, receipts, he, hall, hexs, hres⟩ := ih h hrest
        (fun e he ht hm => hnew e he ht (List.mem_cons_of_mem _ hm))
      exact ⟨es, executions, receipts, he, by rwa [List.filter_cons_of_neg hfires], hexs, hres⟩

/-! ## Deliveries -/

/-- Every execution has the trigger it was opened by. -/
def Linked (db : Database) : Prop :=
  ∀ e ∈ db.executions, ∃ t ∈ db.triggers, t.triggerId = e.triggerId

/-- A trigger is recorded, and the executions `es` are opened for it. -/
structure Intake (s : Session) (trigger : TriggerRow) (es : List ExecutionRow) (db db' : Database) :
    Prop where
  newId : ∀ t ∈ db.triggers, t.triggerId ≠ trigger.triggerId
  newKey : ∀ t ∈ db.triggers,
    t.sameKey trigger.organizationId trigger.source trigger.dedupeKey = false
  opened : ∀ e ∈ es, ∃ rule ∈ db.rules, rule.organizationId = trigger.organizationId ∧
    rule.live = true ∧ rule.enabled = true ∧
    OpenedFor s trigger.organizationId trigger.triggerId rule e
  triggers : db'.triggers.rows = db.triggers.rows ++ [trigger]
  executions : db'.executions.rows = db.executions.rows ++ es
  receipts : db'.receipts.rows = db.receipts.rows ++ es.flatMap (openReceipts s)
  commands : db'.commands = db.commands
  rules : db'.rules = db.rules
  attempts : db'.attempts = db.attempts
  dispatches : db'.dispatches = db.dispatches

namespace Intake

variable {trigger : TriggerRow} {es : List ExecutionRow} {db db' : Database}

theorem mem_triggers (h : Intake s trigger es db db') {t : TriggerRow} :
    t ∈ db'.triggers ↔ t ∈ db.triggers ∨ t = trigger := by
  rw [Table.mem_of_rows_append h.triggers, List.mem_singleton]

theorem mem_executions (h : Intake s trigger es db db') {e : ExecutionRow} :
    e ∈ db'.executions ↔ e ∈ db.executions ∨ e ∈ es := Table.mem_of_rows_append h.executions

theorem mem_receipts (h : Intake s trigger es db db') {r : ActionReceiptRow} :
    r ∈ db'.receipts ↔ r ∈ db.receipts ∨ ∃ e ∈ es, r ∈ openReceipts s e := by
  rw [Table.mem_of_rows_append h.receipts, List.mem_flatMap]

/-- An execution that was opened belongs to the new trigger. -/
theorem triggerId_eq (h : Intake s trigger es db db') {e : ExecutionRow} (he : e ∈ es) :
    e.triggerId = trigger.triggerId := by
  obtain ⟨rule, -, -, -, -, ho⟩ := h.opened e he
  rw [ho.row]; rfl

/-- The executions that were opened have ids of their own. -/
theorem ids_nodup (h : Intake s trigger es db db') :
    (es.map ExecutionRow.executionId).Nodup ∧
      ∀ x ∈ db.executions, ∀ e ∈ es, x.executionId ≠ e.executionId := by
  have hn := db'.executions.nodup
  rw [h.executions, List.map_append, List.nodup_append] at hn
  exact ⟨hn.2.1, fun x hx e he => hn.2.2 _ (List.mem_map_of_mem hx) _ (List.mem_map_of_mem he)⟩

end Intake

/-- The key of a delivery is recorded. -/
def Recorded (db : Database) (organizationId : String) (source : Source) (dedupeKey : String) : Prop :=
  ∃ t ∈ db.triggers, t.sameKey organizationId source dedupeKey = true

instance (db : Database) (organizationId : String) (source : Source) (dedupeKey : String) :
    Decidable (Recorded db organizationId source dedupeKey) :=
  inferInstanceAs (Decidable (∃ t ∈ db.triggers.rows, t.sameKey organizationId source dedupeKey = true))

theorem insertTrigger_ok {operation : String} {row : TriggerRow} {db : Database} {r : Bool × Database}
    (h : insertTrigger s operation row db = .ok r) :
    (r = (false, db) ∧ Recorded db row.organizationId row.source row.dedupeKey) ∨
      ∃ triggers, r = (true, { db with triggers }) ∧
        (∀ t ∈ db.triggers, t.triggerId ≠ row.triggerId) ∧
        (∀ t ∈ db.triggers, t.sameKey row.organizationId row.source row.dedupeKey = false) ∧
        triggers.rows = db.triggers.rows ++ [row] := by
  unfold insertTrigger at h
  rw [statement_bind_eq_ok, Txn.get_bind] at h
  obtain ⟨-, h⟩ := h
  split at h
  · rename_i hany
    rw [Txn.pure_eq_ok] at h
    obtain ⟨t, ht, hk⟩ := List.any_eq_true.1 hany
    exact Or.inl ⟨h, t, ht, hk⟩
  · rename_i hany
    right
    cases hi : db.triggers.insert? row with
    | none => rw [hi] at h; exact absurd h Txn.throw_ne_ok
    | some triggers =>
      rw [hi] at h
      simp only at h
      split at h
      · rw [Txn.set_bind, Txn.pure_eq_ok] at h
        obtain ⟨hid, hrows⟩ := Table.insert?_eq_some.1 hi
        refine ⟨triggers, h, hid, ?_, hrows⟩
        intro t ht
        exact Bool.eq_false_iff.2 (fun hk => hany (List.any_eq_true.2 ⟨t, ht, hk⟩))
      · exact absurd h Txn.throw_ne_ok

theorem existingTriggerReceipt_ok {organizationId dedupeKey : String} {source : Source} {db : Database}
    {r : TriggerReceipt × Database} (h : existingTriggerReceipt s organizationId source dedupeKey db = .ok r) :
    r = (duplicateReceipt db organizationId source dedupeKey, db) := by
  unfold existingTriggerReceipt at h
  rw [statement_bind_eq_ok, Txn.get_bind, Txn.pure_eq_ok] at h
  exact h.2

/-- **The head of both intakes**: a recorded key is answered as a duplicate, and a new one is recorded. -/
theorem intake_ok {operation : String} {row : TriggerRow} {rest : Tx (Ending TriggerReceipt)} {db : Database}
    {r : Ending TriggerReceipt × Database}
    (h : (insertTrigger s operation row >>= fun inserted =>
      if !inserted then do
        return .drop (← existingTriggerReceipt s row.organizationId row.source row.dedupeKey)
      else rest) db = .ok r) :
    (r = (.drop (duplicateReceipt db row.organizationId row.source row.dedupeKey), db) ∧
        Recorded db row.organizationId row.source row.dedupeKey) ∨
      ∃ triggers, (∀ t ∈ db.triggers, t.triggerId ≠ row.triggerId) ∧
        (∀ t ∈ db.triggers, t.sameKey row.organizationId row.source row.dedupeKey = false) ∧
        triggers.rows = db.triggers.rows ++ [row] ∧ rest { db with triggers } = .ok r := by
  rw [Txn.bind_eq_ok] at h
  obtain ⟨inserted, db₁, hi, h⟩ := h
  rcases insertTrigger_ok hi with ⟨he, hrec⟩ | ⟨triggers, he, hid, hkey, hrows⟩
  · cases he
    simp only [Bool.not_false, if_true] at h
    rw [Txn.bind_eq_ok] at h
    obtain ⟨receipt, db₂, hx, h⟩ := h
    cases existingTriggerReceipt_ok hx
    rw [Txn.pure_eq_ok] at h
    exact Or.inl ⟨h, hrec⟩
  · cases he
    simp only [Bool.not_true, Bool.false_eq_true, if_false] at h
    exact Or.inr ⟨triggers, hid, hkey, hrows, h⟩

theorem takesEvents_iff {organizationId : String} {r : RuleRow} :
    r.takesEvents organizationId = true ↔ r.organizationId = organizationId ∧ r.enabled = true ∧
      r.live = true ∧ triggerKind r.trigger = some "event" := by
  simp [RuleRow.takesEvents, and_assoc]

/-- **An event that is answered** is a duplicate, or opens an execution for every rule of its
organization that takes it. -/
theorem receiveEvent_ok {organizationId dedupeKey : String} {occurredAt : OffsetDateTime} {payload : Value}
    {db : Database} {r : Ending TriggerReceipt × Database} (hlink : Linked db)
    (h : receiveEvent s organizationId dedupeKey occurredAt payload db = .ok r) :
    (r = (.drop (duplicateReceipt db organizationId .event dedupeKey), db) ∧
        Recorded db organizationId .event dedupeKey) ∨
      ∃ eventType es, payload.getStr "event_type" = some eventType ∧
        s.Committed r.1 ⟨true, false, es.map (fun e => e.executionId.text)⟩ ∧
        Intake s (newTrigger s organizationId .event dedupeKey none payload (encodeTimestamptz occurredAt)) es
          db r.2 ∧
        List.Forall₂ (OpenedFor s organizationId (s.newV4 0))
          ((db.rules.rows.filter (RuleRow.takesEvents organizationId)).filter
            (RuleRow.fires eventType payload)) es := by
  unfold receiveEvent at h
  cases hev : payload.getStr "event_type" with
  | none => rw [hev] at h; exact absurd h Txn.throw_ne_ok
  | some eventType =>
    rw [hev] at h
    simp only at h
    simp only [statement_bind_eq_ok, ofExcept_bind_eq_ok, bindTimestamptz_eq_ok] at h
    obtain ⟨-, _, ⟨-, rfl⟩, h⟩ := h
    rcases intake_ok h with hdup | ⟨triggers, hid, hkey, hrows, h⟩
    · exact Or.inl hdup
    · rw [statement_bind_eq_ok, Txn.get_bind] at h
      obtain ⟨-, h⟩ := h
      rw [Txn.bind_eq_ok] at h
      obtain ⟨ids, db₂, hf, h⟩ := h
      obtain ⟨ending, hcommitted, rfl⟩ := commit_eq_ok h
      -- the trigger is new, so no execution belongs to it yet
      obtain ⟨es, executions, receipts, he, hall, hex, hre⟩ := fireRules_ok hf
        (db.rules.nodup.sublist (List.filter_sublist.map _)) (by
          intro e he ht
          obtain ⟨t, htm, hte⟩ := hlink e he
          exact absurd (hte.trans ht) (hid t htm))
      cases he
      refine Or.inr ⟨eventType, es, rfl, hcommitted, ?_, hall⟩
      refine ⟨hid, hkey, ?_, hrows, hex, hre, rfl, rfl, rfl, rfl⟩
      intro e he
      obtain ⟨rule, hr, ho⟩ := forall₂_mem_right hall he
      rw [List.mem_filter, List.mem_filter, takesEvents_iff] at hr
      exact ⟨rule, hr.1.1, hr.1.2.1, hr.1.2.2.2.1, hr.1.2.2.1, ho⟩

/-- An event that is answered has a time the driver can bind. -/
theorem receiveEvent_binds {organizationId dedupeKey : String} {occurredAt : OffsetDateTime} {payload : Value}
    {db : Database} {r : Ending TriggerReceipt × Database}
    (h : receiveEvent s organizationId dedupeKey occurredAt payload db = .ok r) : occurredAt.Bindable := by
  unfold receiveEvent at h
  cases hev : payload.getStr "event_type" with
  | none => rw [hev] at h; exact absurd h Txn.throw_ne_ok
  | some eventType =>
    rw [hev] at h
    simp only [statement_bind_eq_ok, ofExcept_bind_eq_ok, bindTimestamptz_eq_ok] at h
    obtain ⟨-, _, ⟨hbind, -⟩, -⟩ := h
    exact hbind

theorem firesAt_iff {scheduledFor : OffsetDateTime} {r : RuleRow} :
    r.firesAt scheduledFor = true ↔ r.enabled = true ∧ triggerKind r.trigger = some "schedule" ∧
      ∃ t, r.nextFireAt = some t ∧ (decodeTimestamptz t).unixNanos = scheduledFor.unixNanos := by
  unfold RuleRow.firesAt
  cases r.nextFireAt with
  | none => simp
  | some t => simp [and_assoc]

/-- How a timer that was not a duplicate went. -/
inductive TimerOutcome (s : Session) (organizationId ruleId : String) (scheduledFor : OffsetDateTime)
    (db : Database) : TriggerReceipt → List ExecutionRow → Prop
  | ignored : (∀ rule ∈ db.rules, rule.liveAt organizationId ruleId = true →
        rule.firesAt scheduledFor = false) →
      TimerOutcome s organizationId ruleId scheduledFor db ⟨false, false, []⟩ []
  | fired {rule : RuleRow} {e : ExecutionRow} : rule ∈ db.rules →
      rule.liveAt organizationId ruleId = true → rule.firesAt scheduledFor = true →
      OpenedFor s organizationId (s.newV4 0) rule e →
      TimerOutcome s organizationId ruleId scheduledFor db ⟨true, false, [e.executionId.text]⟩ [e]

/-- **A timer that is answered** is a duplicate, or fires its rule, or is ignored; recorded in
every case. -/
theorem receiveTimer_ok {organizationId ruleId dedupeKey : String} {scheduledFor : OffsetDateTime}
    {payload : Value} {db : Database} {r : Ending TriggerReceipt × Database} (hlink : Linked db)
    (h : receiveTimer s organizationId ruleId dedupeKey scheduledFor payload db = .ok r) :
    dedupeKey = scheduleKey s.env ruleId scheduledFor ∧
      ((r = (.drop (duplicateReceipt db organizationId .timer dedupeKey), db) ∧
          Recorded db organizationId .timer dedupeKey) ∨
        ∃ receipt es, s.Committed r.1 receipt ∧
          TimerOutcome s organizationId ruleId scheduledFor db receipt es ∧
          Intake s (newTrigger s organizationId .timer dedupeKey (some ruleId) payload
            (encodeTimestamptz scheduledFor)) es db r.2) := by
  unfold receiveTimer at h
  split at h
  · exact absurd h Txn.throw_ne_ok
  rename_i hkeyok
  refine ⟨not_ne_iff.1 hkeyok, ?_⟩
  simp only [statement_bind_eq_ok, ofExcept_bind_eq_ok, bindTimestamptz_eq_ok] at h
  obtain ⟨-, _, ⟨-, rfl⟩, h⟩ := h
  rcases intake_ok h with hdup | ⟨triggers, hid, hkey, hrows, h⟩
  · exact Or.inl hdup
  · right
    rw [statement_bind_eq_ok, Txn.get_bind] at h
    obtain ⟨-, h⟩ := h
    -- a timer that fires nothing is recorded all the same
    have hignored : Intake s (newTrigger s organizationId .timer dedupeKey (some ruleId) payload
        (encodeTimestamptz scheduledFor)) [] db { db with triggers } :=
      ⟨hid, hkey, by simp, hrows, by simp, by simp, rfl, rfl, rfl, rfl⟩
    cases hf : db.rules.rows.find? (RuleRow.liveAt organizationId ruleId) with
    | none =>
      rw [hf] at h
      obtain ⟨ending, hcommitted, rfl⟩ := commit_eq_ok h
      refine ⟨_, _, hcommitted, .ignored ?_, hignored⟩
      intro rule hr hl
      exact absurd hl (List.find?_eq_none.1 hf rule hr)
    | some rule =>
      have hm : rule ∈ db.rules := List.mem_of_find?_eq_some hf
      have hl : rule.liveAt organizationId ruleId = true := List.find?_some hf
      rw [hf] at h
      simp only at h
      split at h
      · rename_i hno
        obtain ⟨ending, hcommitted, rfl⟩ := commit_eq_ok h
        refine ⟨_, _, hcommitted, .ignored ?_, hignored⟩
        -- the live row at an id is the one that was found
        intro rule' hr' hl'
        rw [Table.eq_of_key hr' hm ((liveAt_iff.1 hl').2.1.trans (liveAt_iff.1 hl).2.1.symm)]
        simpa using hno
      · rename_i hyes
        rw [Txn.bind_eq_ok] at h
        obtain ⟨id, db₂, hx, h⟩ := h
        obtain ⟨executions, receipts, he, hex, hre, hact, harr⟩ := insertExecution_ok hx (by
          intro e he ht
          obtain ⟨t, htm, hte⟩ := hlink e he
          exact absurd (hte.trans ht) (hid t htm))
        cases he
        obtain ⟨ending, hcommitted, rfl⟩ := commit_eq_ok h
        have hopen : OpenedFor s organizationId (s.newV4 0) rule
            (newExecution s (s.newV4 1) organizationId ruleId (s.newV4 0) rule.actions) := by
          refine ⟨?_, hact, harr⟩
          rw [(liveAt_iff.1 hl).2.1]; rfl
        have hfire : rule.firesAt scheduledFor = true := by simpa using hyes
        refine ⟨_, _, hcommitted, .fired hm hl hfire hopen, ⟨hid, hkey, ?_, hrows, hex, ?_, rfl, rfl, rfl, rfl⟩⟩
        · rintro e he
          cases List.mem_singleton.1 he
          obtain ⟨horg, -, hlive⟩ := liveAt_iff.1 hl
          exact ⟨rule, hm, horg, hlive, (firesAt_iff.1 hfire).1, hopen⟩
        · rw [hre]; simp

/-- So has a timer. -/
theorem receiveTimer_binds {organizationId ruleId dedupeKey : String} {scheduledFor : OffsetDateTime}
    {payload : Value} {db : Database} {r : Ending TriggerReceipt × Database}
    (h : receiveTimer s organizationId ruleId dedupeKey scheduledFor payload db = .ok r) :
    scheduledFor.Bindable := by
  unfold receiveTimer at h
  split at h
  · exact absurd h Txn.throw_ne_ok
  · simp only [statement_bind_eq_ok, ofExcept_bind_eq_ok, bindTimestamptz_eq_ok] at h
    obtain ⟨-, _, ⟨hbind, -⟩, -⟩ := h
    exact hbind

/-! ## Endpoints -/

theorem parseTime_eq_ok {text : String} {t : OffsetDateTime} :
    parseTime env text = .ok t ↔ env.parseRfc3339 text = some t := by
  unfold parseTime
  cases env.parseRfc3339 text <;> simp

theorem takeEvent_ok {request : ReceiveEventRequest} {db : Database} {r : Ending TriggerReceipt × Database}
    (h : takeEvent s request db = .ok r) :
    validEvent (fun text => (s.env.parseRfc3339 text).isSome) request = true ∧
      ∃ occurredAt, s.env.parseRfc3339 request.occurredAt = some occurredAt ∧
        receiveEvent s request.organizationId request.dedupeKey occurredAt request.toValue db = .ok r := by
  unfold takeEvent at h
  split at h
  · exact absurd h Txn.throw_ne_ok
  rename_i hv
  rw [ofExcept_bind_eq_ok] at h
  obtain ⟨occurredAt, ht, h⟩ := h
  exact ⟨by simpa using hv, occurredAt, parseTime_eq_ok.1 ht, h⟩

theorem takeTimer_ok {request : ReceiveTimerRequest} {db : Database} {r : Ending TriggerReceipt × Database}
    (h : takeTimer s request db = .ok r) :
    [request.organizationId, request.ruleId, request.dedupeKey].all validId = true ∧
      ∃ scheduledFor, s.env.parseRfc3339 request.scheduledFor = some scheduledFor ∧
        receiveTimer s request.organizationId request.ruleId request.dedupeKey scheduledFor
          request.toValue db = .ok r := by
  unfold takeTimer at h
  split at h
  · exact absurd h Txn.throw_ne_ok
  rename_i hv
  rw [ofExcept_bind_eq_ok] at h
  obtain ⟨scheduledFor, ht, h⟩ := h
  exact ⟨by simpa using hv, scheduledFor, parseTime_eq_ok.1 ht, h⟩

end ProjectAutomation

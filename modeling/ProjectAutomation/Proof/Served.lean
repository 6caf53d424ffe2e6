import ProjectAutomation.Spec.Assumptions
import ProjectAutomation.Proof.Sufficiency
import ProjectAutomation.Proof.Redelivery

/-!
# What a working database carries through

A delivery whose key is free is answered when the database serves every statement and
the random ids are new: every insert finds its keys free.

* `Unused`: nothing refers to an execution id yet.
* `insertReceipts_serves`, `insertExecution_serves`, `fireRules_serves`: the inserts of an
  intake go through.
* `take_serves`: so does the delivery; a timer needs the row its trigger refers to.
-/

namespace ProjectAutomation

open Relational

variable {env : Env} {w : World} {s : Session} {db : Database}

/-- Nothing refers to the id yet, nor carries a key derived from it. -/
structure Unused (env : Env) (db : Database) (id : Uuid) : Prop where
  executions : ∀ e ∈ db.executions, e.executionId ≠ id
  receipts : ∀ r ∈ db.receipts, r.executionId ≠ id
  keys : ∀ r ∈ db.receipts, ∀ j, r.idempotencyKey ≠ actionKey env id j

/-- A new random id is unused. -/
theorem unused_of_fresh (huuid : env.UuidOK) (hrefs : RefsOK env w) {conn : Connection}
    (hfresh : conn.FreshIds w.db) (n : ℕ) : Unused env w.db (conn.newV4 n) := by
  have hreceipt : ∀ r ∈ w.db.receipts, r.executionId ≠ conn.newV4 n := by
    intro r hr hid
    obtain ⟨e, he, heid, -⟩ := (hrefs.receipts r hr).execution
    exact hfresh.executions n e he (heid.trans hid)
  refine ⟨hfresh.executions n, hreceipt, fun r hr j hk => hreceipt r hr ?_⟩
  rw [(hrefs.receipts r hr).idempotencyKey] at hk
  exact (actionKey_inj huuid hk).1

/-! ## Inserts -/

theorem insertReceipt_serves (hserves : s.Serves) (row : ActionReceiptRow)
    (hkey : ∀ r ∈ db.receipts, r.key ≠ row.key)
    (hidem : ∀ r ∈ db.receipts, r.idempotencyKey ≠ row.idempotencyKey) :
    ∃ receipts, receipts.rows = db.receipts.rows ++ [row] ∧
      insertReceipt s row db = .ok ((), { db with receipts }) := by
  have hnot : ¬ db.receipts.rows.any (fun r => r.idempotencyKey = row.idempotencyKey) = true := by
    intro h
    obtain ⟨r, hr, hk⟩ := List.any_eq_true.1 h
    exact hidem r hr (of_decide_eq_true hk)
  obtain ⟨receipts, hins⟩ : ∃ receipts, db.receipts.insert? row = some receipts := by
    rw [← Option.ne_none_iff_exists', ne_eq, Table.insert?_eq_none]
    rintro ⟨r, hr, hk⟩
    exact hkey r hr hk
  refine ⟨receipts, (Table.insert?_eq_some.1 hins).2, ?_⟩
  unfold insertReceipt
  rw [statement_bind_serves (hserves _), Txn.get_bind, if_neg hnot, hins]
  rfl

/-- The receipts of an execution go in one after the other: each has a place and a key of its own. -/
theorem insertReceipts_serves (hserves : s.Serves) (huuid : s.env.UuidOK) {executionId : Uuid}
    {actions : List Value} {index : ℕ} (hkinds : ∀ a ∈ actions, (a.getStr "kind").isSome = true)
    (hcount : ∀ j < actions.length, index + j ≤ i32Max)
    (hfree : ∀ r ∈ db.receipts, ∀ j, index ≤ j →
      r.key ≠ (executionId, j) ∧ r.idempotencyKey ≠ actionKey s.env executionId j) :
    ∃ r, insertReceipts s executionId index actions db = .ok r := by
  induction actions generalizing index db with
  | nil => exact ⟨_, rfl⟩
  | cons action rest ih =>
    obtain ⟨kind, hkind⟩ := Option.isSome_iff_exists.1 (hkinds action List.mem_cons_self)
    have hindex : index ≤ i32Max := by
      have := hcount 0 (by simp)
      omega
    obtain ⟨receipts, hrows, hins⟩ := insertReceipt_serves hserves (newReceipt s executionId index kind)
      (fun r hr => (hfree r hr index (le_refl _)).1) (fun r hr => (hfree r hr index (le_refl _)).2)
    unfold insertReceipts
    rw [if_neg (by omega), hkind]
    simp only
    rw [Txn.bind_of_ok hins]
    refine ih (fun a ha => hkinds a (List.mem_cons_of_mem _ ha)) (fun j hj => ?_) (fun r hr j hle => ?_)
    · have := hcount (j + 1) (by simpa using hj)
      omega
    · -- the row just written stands at `index`, the rest go further on
      rw [Table.mem_of_rows_append hrows, List.mem_singleton] at hr
      rcases hr with hr | rfl
      · exact hfree r hr j (by omega)
      · refine ⟨fun hk => ?_, fun hk => ?_⟩
        · have hidx : index = j := congrArg Prod.snd hk
          omega
        · have hidx : index = j := (actionKey_inj huuid hk).2
          omega

theorem insertExecution_serves (hserves : s.Serves) (huuid : s.env.UuidOK) (row : ExecutionRow)
    {actions : List Value} (harr : row.actions.asArray = some actions) (hok : ActionsOK actions)
    (hunused : Unused s.env db row.executionId)
    (hnew : ∀ e ∈ db.executions, e.triggerId = row.triggerId → e.ruleId ≠ row.ruleId) :
    ∃ r, insertExecution s row db = .ok r := by
  obtain ⟨executions, hins⟩ : ∃ executions, db.executions.insert? row = some executions := by
    rw [← Option.ne_none_iff_exists', ne_eq, Table.insert?_eq_none]
    rintro ⟨e, he, hk⟩
    exact hunused.executions e he hk
  obtain ⟨⟨_, db'⟩, hr⟩ : ∃ r, insertReceipts s row.executionId 0 actions { db with executions } = .ok r :=
    insertReceipts_serves hserves huuid hok.kinds (fun j hj => by have := hok.count j hj; omega)
    (fun r hr j _ => ⟨fun hk => hunused.receipts r hr (congrArg Prod.fst hk), hunused.keys r hr j⟩)
  refine ⟨(row.executionId, db'), ?_⟩
  unfold insertExecution
  rw [statement_bind_serves (hserves _), Txn.get_bind, find?_linked_eq_none hnew]
  simp only
  rw [hins]
  simp only [Txn.set_bind]
  rw [harr]
  simp only
  rw [Txn.bind_of_ok hr]
  rfl

/-- Another execution that went in leaves an id unused. -/
theorem Unused.insertExecution {row : ExecutionRow} {id : Uuid} {executions : Table ExecutionRow.executionId}
    {receipts : Table ActionReceiptRow.key} (huuid : s.env.UuidOK) (h : Unused s.env db id)
    (hne : row.executionId ≠ id) (hex : executions.rows = db.executions.rows ++ [row])
    (hre : receipts.rows = db.receipts.rows ++ openReceipts s row) :
    Unused s.env { db with executions, receipts } id := by
  refine ⟨fun e he => ?_, fun r hr => ?_, fun r hr j => ?_⟩
  · rw [Table.mem_of_rows_append hex, List.mem_singleton] at he
    rcases he with he | rfl
    · exact h.executions e he
    · exact hne
  · rw [Table.mem_of_rows_append hre] at hr
    rcases hr with hr | hr
    · exact h.receipts r hr
    · obtain ⟨_, _, -, rfl⟩ := mem_openReceipts.1 hr
      exact hne
  · rw [Table.mem_of_rows_append hre] at hr
    rcases hr with hr | hr
    · exact h.keys r hr j
    · obtain ⟨_, _, -, rfl⟩ := mem_openReceipts.1 hr
      exact fun hk => hne (actionKey_inj huuid hk).1

/-- The actions of a rule that was validated can be opened. -/
theorem Admitted.actionsOK {r : RuleRow} (h : Admitted r) :
    ∃ actions, r.actions.asArray = some actions ∧ ActionsOK actions := by
  obtain ⟨_, actions, -, hactions, hv⟩ := h
  refine ⟨actions.map Action.toValue, by rw [hactions]; rfl, fun a ha => ?_, fun j hj => ?_⟩
  · obtain ⟨action, -, rfl⟩ := List.mem_map.1 ha
    rfl
  · have hlen := (validActions_iff.1 (validActionsForTrigger_iff.1 hv).1).2.1
    rw [List.length_map] at hj
    unfold maxRuleActions at hlen
    unfold i32Max
    omega

/-- **The loop of `receive_event` goes through**, whatever number of rules fire. -/
theorem fireRules_serves (hserves : s.Serves) (huuid : s.env.UuidOK) {organizationId eventType : String}
    {triggerId : Uuid} {payload : Value} {rules : List RuleRow} {n : ℕ}
    (hinj : Function.Injective s.newV4) (hunused : ∀ m, n ≤ m → Unused s.env db (s.newV4 m))
    (hadmitted : ∀ r ∈ rules, Admitted r) (hnodup : (rules.map RuleRow.ruleId).Nodup)
    (hnew : ∀ e ∈ db.executions, e.triggerId = triggerId → e.ruleId ∉ rules.map RuleRow.ruleId) :
    ∃ r, fireRules s organizationId triggerId eventType payload n rules db = .ok r := by
  induction rules generalizing n db with
  | nil => exact ⟨_, rfl⟩
  | cons rule rest ih =>
    obtain ⟨hnotin, hrest⟩ := List.nodup_cons.1 hnodup
    have hadmitted' : ∀ r ∈ rest, Admitted r := fun r hr => hadmitted r (List.mem_cons_of_mem _ hr)
    unfold fireRules
    split
    · -- the rule fires: its execution goes in under the next id
      obtain ⟨actions, harr, hok⟩ := (hadmitted rule List.mem_cons_self).actionsOK
      have hown : ∀ e ∈ db.executions, e.triggerId = triggerId → e.ruleId ≠ rule.ruleId :=
        fun e he ht hr => hnew e he ht (by rw [hr]; simp)
      obtain ⟨⟨id, db₁⟩, hins⟩ := insertExecution_serves hserves huuid
        (newExecution s (s.newV4 n) organizationId rule.ruleId triggerId rule.actions) harr hok
        (hunused n (le_refl _)) hown
      obtain ⟨executions, receipts, he, hex, hre, -, -⟩ := insertExecution_ok hins hown
      cases he
      obtain ⟨⟨ids, db₂⟩, hrec⟩ : ∃ r, fireRules s organizationId triggerId eventType payload (n + 1) rest
          { db with executions, receipts } = .ok r := ih
        (fun m hm => (hunused m (by omega)).insertExecution huuid (fun hk => by
          have := hinj hk
          omega) hex hre)
        hadmitted' hrest (by
          intro e he ht
          rw [Table.mem_of_rows_append hex, List.mem_singleton] at he
          rcases he with he | rfl
          · exact fun hm => hnew e he ht (List.mem_cons_of_mem _ hm)
          · exact hnotin)
      refine ⟨((s.newV4 n).text :: ids, db₂), ?_⟩
      rw [Txn.bind_of_ok hins, Txn.bind_of_ok hrec]
      rfl
    · exact ih hunused hadmitted' hrest (fun e he ht hm => hnew e he ht (List.mem_cons_of_mem _ hm))

theorem insertTrigger_serves (operation : String) {row : TriggerRow} (hserves : s.Serves)
    (hid : ∀ t ∈ db.triggers, t.triggerId ≠ row.triggerId)
    (hnew : ¬ Recorded db row.organizationId row.source row.dedupeKey)
    (hrule : ∀ id, row.ruleId = some id → ∃ r ∈ db.rules, r.ruleId = id) :
    ∃ triggers, triggers.rows = db.triggers.rows ++ [row] ∧
      insertTrigger s operation row db = .ok (true, { db with triggers }) := by
  have hnot : ¬ db.triggers.rows.any (TriggerRow.sameKey row.organizationId row.source row.dedupeKey) = true := by
    intro h
    exact hnew (List.any_eq_true.1 h)
  obtain ⟨triggers, hins⟩ : ∃ triggers, db.triggers.insert? row = some triggers := by
    rw [← Option.ne_none_iff_exists', ne_eq, Table.insert?_eq_none]
    rintro ⟨t, ht, hk⟩
    exact hid t ht hk
  have hkey : row.ruleId.all (fun id => (db.rules.find? id).isSome) = true := by
    cases hr : row.ruleId with
    | none => rfl
    | some id =>
      obtain ⟨r, hm, rfl⟩ := hrule id hr
      rw [Option.all_some, Table.find?_of_mem hm]
      rfl
  refine ⟨triggers, (Table.insert?_eq_some.1 hins).2, ?_⟩
  unfold insertTrigger
  rw [statement_bind_serves (hserves _), Txn.get_bind, if_neg hnot, hins]
  simp only
  rw [if_pos hkey]
  rfl

/-! ## Deliveries -/

/-- What is known of a delivery that finds its key free, before its inserts. -/
structure FreeDelivery (s : Session) (db : Database) (d : Delivery) : Prop where
  serves : s.Serves
  uuids : s.env.UuidOK
  injective : Function.Injective s.newV4
  triggers : ∀ t ∈ db.triggers, t.triggerId ≠ s.newV4 0
  executions : ∀ e ∈ db.executions, e.triggerId ≠ s.newV4 0
  unused : ∀ n, Unused s.env db (s.newV4 n)
  admitted : ∀ r ∈ db.rules, Admitted r
  free : ¬ Recorded db d.organizationId d.source d.dedupeKey

theorem receiveEvent_serves {r : ReceiveEventRequest} (h : FreeDelivery s db (.event r))
    {occurredAt : OffsetDateTime} (hbind : occurredAt.Bindable) :
    ∃ out, receiveEvent s r.organizationId r.dedupeKey occurredAt r.toValue db = .ok out := by
  let trigger := newTrigger s r.organizationId .event r.dedupeKey none r.toValue (encodeTimestamptz occurredAt)
  obtain ⟨triggers, -, hins⟩ : ∃ triggers, triggers.rows = db.triggers.rows ++ [trigger] ∧
      insertTrigger s "insert event" trigger db = .ok (true, { db with triggers }) :=
    insertTrigger_serves "insert event" h.serves h.triggers h.free (by rintro id ⟨⟩)
  obtain ⟨⟨ids, db'⟩, hfire⟩ : ∃ out, fireRules s r.organizationId (s.newV4 0) r.eventType.name r.toValue 1
      (db.rules.rows.filter (RuleRow.takesEvents r.organizationId)) { db with triggers } = .ok out :=
    fireRules_serves h.serves h.uuids h.injective
      (fun m _ => ⟨(h.unused m).executions, (h.unused m).receipts, (h.unused m).keys⟩)
    (fun rule hm => h.admitted rule (List.mem_of_mem_filter hm))
    (db.rules.nodup.sublist (List.filter_sublist.map _)) (fun e he hk => absurd hk (h.executions e he))
  obtain ⟨ending, hcommit⟩ : ∃ ending, s.commit "commit receive event" (⟨true, false, ids⟩ : TriggerReceipt) db' =
      .ok (ending, db') := commit_written h.serves
  refine ⟨(ending, db'), ?_⟩
  unfold receiveEvent
  have htype : r.toValue.getStr "event_type" = some r.eventType.name := rfl
  simp only [htype]
  rw [statement_bind_serves (h.serves _), bindTimestamptz_of_bindable hbind, ofExcept_bind, Txn.bind_of_ok hins]
  simp only [Bool.not_true, Bool.false_eq_true, if_false]
  rw [statement_bind_serves (h.serves _), Txn.get_bind]
  simp only [newTrigger]
  rw [Txn.bind_of_ok hfire]
  exact hcommit

theorem receiveTimer_serves {r : ReceiveTimerRequest} (h : FreeDelivery s db (.timer r))
    {scheduledFor : OffsetDateTime} (hkey : r.dedupeKey = scheduleKey s.env r.ruleId scheduledFor)
    (hbind : scheduledFor.Bindable) (hrule : ∃ rule ∈ db.rules, rule.ruleId = r.ruleId) :
    ∃ out, receiveTimer s r.organizationId r.ruleId r.dedupeKey scheduledFor r.toValue db = .ok out := by
  let trigger := newTrigger s r.organizationId .timer r.dedupeKey (some r.ruleId) r.toValue
    (encodeTimestamptz scheduledFor)
  obtain ⟨triggers, -, hins⟩ : ∃ triggers, triggers.rows = db.triggers.rows ++ [trigger] ∧
      insertTrigger s "insert timer" trigger db = .ok (true, { db with triggers }) :=
    insertTrigger_serves "insert timer" h.serves h.triggers h.free (by rintro id ⟨⟩; exact hrule)
  unfold receiveTimer
  rw [if_neg (not_ne_iff.2 hkey), statement_bind_serves (h.serves _), bindTimestamptz_of_bindable hbind,
    ofExcept_bind, Txn.bind_of_ok hins]
  simp only [Bool.not_true, Bool.false_eq_true, if_false]
  rw [statement_bind_serves (h.serves _), Txn.get_bind]
  simp only
  cases hf : db.rules.rows.find? (RuleRow.liveAt r.organizationId r.ruleId) with
  | none =>
    exact (commit_written h.serves).imp' _ fun _ hr => hr
  | some rule =>
    have hm : rule ∈ db.rules := List.mem_of_find?_eq_some hf
    simp only
    split
    · exact (commit_written h.serves).imp' _ fun _ hr => hr
    · obtain ⟨actions, harr, hok⟩ := (h.admitted rule hm).actionsOK
      let row := newExecution s (s.newV4 1) r.organizationId r.ruleId (s.newV4 0) rule.actions
      obtain ⟨⟨id, db'⟩, hexec⟩ : ∃ out, insertExecution s row { db with triggers } = .ok out :=
        insertExecution_serves h.serves h.uuids row harr hok
        ⟨(h.unused 1).executions, (h.unused 1).receipts, (h.unused 1).keys⟩
        (fun e he hk => absurd hk (h.executions e he))
      simp only [newTrigger]
      rw [Txn.bind_of_ok hexec]
      exact (commit_written h.serves).imp' _ fun _ hr => hr

/-- **An admitted delivery under a free key is answered**, when its trigger finds the rule it names. -/
theorem take_serves {d : Delivery} (h : FreeDelivery s db d) (hadm : d.Admitted s.env)
    (hrule : ∀ r, d = .timer r → ∃ rule ∈ db.rules, rule.ruleId = r.ruleId) :
    ∃ r, d.take s db = .ok r := by
  cases d with
  | event r =>
    obtain ⟨hv, occurredAt, hp, hbind⟩ := hadm
    show ∃ out, takeEvent s r db = .ok out
    rw [takeEvent_admitted db hv hp]
    exact receiveEvent_serves h hbind
  | timer r =>
    obtain ⟨hids, scheduledFor, hp, hkey, hbind⟩ := hadm
    show ∃ out, takeTimer s r db = .ok out
    rw [takeTimer_admitted db hids hp]
    exact receiveTimer_serves h hkey hbind (hrule r rfl)

/-- In a reachable state, with new ids, nothing stands in the way of a delivery under a free key. -/
theorem freeDelivery_of_fresh (huuid : env.UuidOK) (hrefs : RefsOK env w)
    (hadmitted : ∀ r ∈ w.db.rules, Admitted r) {conn : Connection} (hserves : conn.Serves)
    (hfresh : conn.FreshIds w.db) {d : Delivery}
    (hfree : ¬ Recorded w.db d.organizationId d.source d.dedupeKey) :
    FreeDelivery (w.session env conn) w.db d := by
  refine ⟨hserves, huuid, hfresh.injective, hfresh.triggers 0, fun e he hk => ?_,
    fun n => unused_of_fresh huuid hrefs hfresh n, hadmitted, hfree⟩
  obtain ⟨t, ht, htk⟩ := hrefs.linked e he
  exact hfresh.triggers 0 t ht (htk.trans hk)

end ProjectAutomation

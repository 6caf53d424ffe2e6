import ProjectAutomation.Spec.Rules
import ProjectAutomation.Proof.Schedule

/-!
# What a rule command does

* `command_ok`: a command that answers either only reads its reservation, or does its
  work and stores the response beside a new reservation.
* `createWork_ok`, `updateWork_ok`, `setEnabledWork_ok`, `deleteWork_ok`: the work of a
  command writes one rule row (`Written`) and brings the dispatch table in line with it
  (`RuleWrite`).
* `storeCommand_ok`: the two together.
-/

namespace ProjectAutomation

open Relational

variable {env : Env} {s : Session} {scope : CommandScope} {request : CommandRequest}

/-! ## The frame of the four commands -/

/-- The commands table after a command that did its work. -/
structure Answered (s : Session) (scope : CommandScope) (request : CommandRequest) (response : Value)
    (t t' : Table CommandRow.scope) : Prop where
  free : ∀ row ∈ t, row.scope ≠ scope
  rows : t'.rows = t.rows ++ [⟨scope, s.env.requestHash request, some response, some s.transactionTimestamp⟩]

/-- The reservation a replay is answered from. -/
structure Replayed (s : Session) (scope : CommandScope) (request : CommandRequest) (response : Value)
    (t : Table CommandRow.scope) : Prop where
  stored : ∃ row ∈ t, row.scope = scope ∧ row.requestHash = s.env.requestHash request ∧
    row.response = some response

theorem reserveCommand_ok {db : Database} {r : CommandStart × Database}
    (h : reserveCommand s scope request db = .ok r) :
    (∃ c, db.commands.insert? ⟨scope, s.env.requestHash request, none, none⟩ = some c ∧
        r = (.new, { db with commands := c })) ∨
      ∃ row ∈ db.commands, row.scope = scope ∧ r.2 = db ∧
        ((r.1 = .conflict ∧ (row.requestHash ≠ s.env.requestHash request ∨ row.response = none)) ∨
          ∃ v, r.1 = .replay v ∧ row.requestHash = s.env.requestHash request ∧ row.response = some v) := by
  unfold reserveCommand at h
  simp only [statement_bind_eq_ok, Txn.get_bind] at h
  obtain ⟨-, h⟩ := h
  cases hi : db.commands.insert? ⟨scope, s.env.requestHash request, none, none⟩ with
  | some c =>
    rw [hi] at h
    simp only [Txn.set_bind, Txn.pure_eq_ok] at h
    exact Or.inl ⟨c, rfl, h⟩
  | none =>
    right
    rw [hi] at h
    simp only [statement_bind_eq_ok] at h
    obtain ⟨-, h⟩ := h
    cases hf : db.commands.find? scope with
    | none => rw [hf] at h; exact absurd h Txn.throw_ne_ok
    | some row =>
      rw [hf] at h
      obtain ⟨hm, hk⟩ := Table.find?_eq_some.1 hf
      refine ⟨row, hm, hk, ?_⟩
      simp only at h
      split at h
      · rename_i hne
        rw [Txn.pure_eq_ok] at h; subst h
        exact ⟨rfl, Or.inl ⟨rfl, Or.inl hne⟩⟩
      · rename_i heq
        cases hv : row.response with
        | none =>
          rw [hv] at h
          simp only [Txn.pure_eq_ok] at h; subst h
          exact ⟨rfl, Or.inl ⟨rfl, Or.inr rfl⟩⟩
        | some v =>
          rw [hv] at h
          simp only [Txn.pure_eq_ok] at h; subst h
          exact ⟨rfl, Or.inr ⟨v, rfl, not_ne_iff.1 heq, rfl⟩⟩

theorem completeCommand_ok {response : Value} {db : Database} {r : Unit × Database}
    (h : completeCommand s scope response db = .ok r) :
    r = ((), { db with
      commands := db.commands.update (CommandRow.openAt scope)
        (CommandRow.answer response s.transactionTimestamp) ⟨fun _ => rfl⟩ }) := by
  unfold completeCommand at h
  simp only [statement_bind_eq_ok, Txn.get_bind] at h
  obtain ⟨-, h⟩ := h
  split at h
  · rw [Txn.set_eq_ok] at h; exact h
  · exact absurd h Txn.throw_ne_ok

/-- Completing the reservation just made fills its row and no other. -/
theorem answered_of_complete {response : Value} {t c : Table CommandRow.scope}
    (h : t.insert? ⟨scope, s.env.requestHash request, none, none⟩ = some c) :
    Answered s scope request response t
      (c.update (CommandRow.openAt scope) (CommandRow.answer response s.transactionTimestamp)
        ⟨fun _ => rfl⟩) := by
  obtain ⟨hfree, hrows⟩ := Table.insert?_eq_some.1 h
  refine ⟨hfree, ?_⟩
  rw [Table.rows_update, hrows, List.map_append]
  congr 1
  · rw [List.map_congr_left, List.map_id]
    intro row hrow
    simp [CommandRow.openAt, hfree row hrow]
  · simp [CommandRow.openAt, CommandRow.answer]

/-- **A command either replays or does its work once.** -/
theorem command_ok {name : String} {work : Tx Value} {db : Database} {e : Ending Value × Database}
    (hwork : ∀ db r, work db = .ok r → r.2.commands = db.commands)
    (h : command s name scope request work db = .ok e) :
    (∃ response, e = (.drop response, db) ∧ Replayed s scope request response db.commands) ∨
      ∃ response c db₂ t, work { db with commands := c } = .ok (response, db₂) ∧
        s.Committed e.1 response ∧ e.2 = { db₂ with commands := t } ∧
        Answered s scope request response db.commands t := by
  unfold command at h
  rw [statement_bind_eq_ok, Txn.bind_eq_ok] at h
  obtain ⟨-, start, db₁, hr, h⟩ := h
  rcases reserveCommand_ok hr with ⟨c, hc, he⟩ | ⟨row, hm, hk, rfl, hrow⟩
  · -- a new reservation: the work runs, and its response fills the row
    cases he
    simp only at h
    rw [Txn.bind_eq_ok] at h
    obtain ⟨response, db₂, hw, h⟩ := h
    rw [Txn.bind_eq_ok] at h
    obtain ⟨_, db₃, hcomplete, h⟩ := h
    obtain ⟨ending, hcommitted, rfl⟩ := commit_eq_ok h
    have hc₂ : db₂.commands = c := hwork _ _ hw
    cases completeCommand_ok hcomplete
    refine Or.inr ⟨response, c, db₂, _, hw, hcommitted, rfl, ?_⟩
    rw [hc₂]
    exact answered_of_complete hc
  · -- the key is taken: another request, or the stored response
    rcases hrow with ⟨hs, -⟩ | ⟨v, hs, hh, hv⟩
    · simp only at hs
      subst hs
      exact absurd h Txn.throw_ne_ok
    · simp only at hs
      subst hs
      simp only [Txn.pure_eq_ok] at h
      subst h
      exact Or.inl ⟨v, rfl, ⟨row, hm, hk, hh, hv⟩⟩

/-! ## The rule row -/

/-- One rule row is written, with its fire time, and the dispatch table follows. -/
structure RuleWrite (env : Env) (old : Option RuleRow) (new : RuleRow) (next : Option OffsetDateTime)
    (db db' : Database) : Prop where
  found : db.rules.find? new.ruleId = old
  live : ∀ o, old = some o → o.live = true ∧ o.organizationId = new.organizationId
  nextFireAt : new.nextFireAt = next.map encodeTimestamptz
  rules : db.rules.Put new db'.rules
  dispatches : Rescheduled env new.organizationId new.ruleId next db.dispatches db'.dispatches
  commands : db'.commands = db.commands
  triggers : db'.triggers = db.triggers
  executions : db'.executions = db.executions
  attempts : db'.attempts = db.attempts
  receipts : db'.receipts = db.receipts

/-- The row a command writes in place of `old`, and the fire time it sets. -/
inductive Written (s : Session) :
    CommandRequest → Option RuleRow → RuleRow → Option OffsetDateTime → Prop
  | create {r : CreateRuleRequest} {next : Option OffsetDateTime} :
    initialNextFire s.env s.nowUtc r.trigger.toValue r.enabled = .ok next →
    Written s (.create r) none
      (newRule s r.organizationId r.ruleId r.name r.enabled r.trigger.toValue
        (storedConditions r.conditions) (storedActions r.actions) (next.map encodeTimestamptz)) next
  | update {r : UpdateRuleRequest} {old : RuleRow} {next : Option OffsetDateTime} :
    old.liveAtRevision r.organizationId r.ruleId (expected r.expectedRevision) = true →
    initialNextFire s.env s.nowUtc r.trigger.toValue old.enabled = .ok next →
    Written s (.update r) (some old)
      (old.redefine r.name r.trigger.toValue (storedConditions r.conditions) (storedActions r.actions)
        (next.map encodeTimestamptz) s.transactionTimestamp) next
  | setEnabled {r : SetRuleEnabledRequest} {old : RuleRow} {next : Option OffsetDateTime} :
    old.liveAtRevision r.organizationId r.ruleId (expected r.expectedRevision) = true →
    initialNextFire s.env s.nowUtc old.trigger r.enabled = .ok next →
    Written s (.setEnabled r) (some old)
      (old.enable r.enabled (next.map encodeTimestamptz) s.transactionTimestamp) next
  | delete {r : DeleteRuleRequest} {old : RuleRow} :
    old.liveAtRevision r.organizationId r.ruleId (expected r.expectedRevision) = true →
    Written s (.delete r) (some old) (old.delete s.transactionTimestamp) none

namespace Written

variable {old : Option RuleRow} {new : RuleRow} {next : Option OffsetDateTime}

/-- The fire time is the one `initial_next_fire` gives for the row written. -/
theorem initialNextFire_eq (h : Written s request old new next) :
    initialNextFire s.env s.nowUtc new.trigger new.enabled = .ok next := by
  cases h with
  | create h => exact h
  | update _ h => exact h
  | setEnabled _ h => exact h
  | delete _ => rfl

theorem ruleId_eq (h : Written s request old new next) : new.ruleId = request.ruleId := by
  cases h with
  | create _ => rfl
  | update h _ => exact (liveAtRevision_iff.1 h).2.1
  | setEnabled h _ => exact (liveAtRevision_iff.1 h).2.1
  | delete h => exact (liveAtRevision_iff.1 h).2.1

theorem organizationId_eq (h : Written s request old new next) :
    new.organizationId = request.organizationId := by
  cases h with
  | create _ => rfl
  | update h _ => exact (liveAtRevision_iff.1 h).1
  | setEnabled h _ => exact (liveAtRevision_iff.1 h).1
  | delete h => exact (liveAtRevision_iff.1 h).1

end Written

/-- What a command answers when it wrote `new`. -/
def Answers (env : Env) (request : CommandRequest) (new : RuleRow) (response : Value) : Prop :=
  match request with
  | .delete _ => response = deletedJson
  | _ => ruleJson env new = .ok response

/-! ## The work of a command -/

theorem insertRule_ok {row : RuleRow} {db : Database} {r : RuleRow × Database}
    (h : insertRule s row db = .ok r) :
    ∃ rules, db.rules.insert? row = some rules ∧ (∀ x ∈ db.rules, x.rowSeq ≠ row.rowSeq) ∧
      r = (row, { db with rules }) := by
  unfold insertRule at h
  rw [statement_bind_eq_ok, Txn.get_bind] at h
  obtain ⟨-, h⟩ := h
  split at h
  · exact absurd h Txn.throw_ne_ok
  cases hi : db.rules.insert? row with
  | none => rw [hi] at h; exact absurd h Txn.throw_ne_ok
  | some rules =>
    rw [hi] at h
    simp only at h
    split at h
    · exact absurd h Txn.throw_ne_ok
    split at h
    · exact absurd h Txn.throw_ne_ok
    rename_i hfree
    rw [Txn.set_bind, Txn.pure_eq_ok] at h
    refine ⟨rules, rfl, ?_, h⟩
    intro x hx he
    exact hfree (List.any_eq_true.2 ⟨x, hx, decide_eq_true he⟩)

theorem lockRule_ok {organizationId ruleId : String} {db : Database} {r : RuleRow × Database}
    (h : lockRule s organizationId ruleId db = .ok r) :
    r.2 = db ∧ r.1 ∈ db.rules ∧ r.1.liveAt organizationId ruleId = true := by
  unfold lockRule at h
  rw [statement_bind_eq_ok, Txn.get_bind] at h
  obtain ⟨-, h⟩ := h
  cases hf : db.rules.rows.find? (RuleRow.liveAt organizationId ruleId) with
  | none => rw [hf] at h; exact absurd h Txn.throw_ne_ok
  | some row =>
    rw [hf] at h
    simp only [Txn.pure_eq_ok] at h
    subst h
    exact ⟨rfl, List.mem_of_find?_eq_some hf, List.find?_some hf⟩

/-- A guarded update writes the one live row it found at the revision. -/
theorem updateRuleRow_ok {operation organizationId ruleId : String} {revision : ℤ}
    {assign : RuleRow → RuleRow} {hassign : Table.KeepsKey RuleRow.ruleId assign} {violated : StorageError}
    {db : Database} {r : Option RuleRow × Database}
    (h : updateRuleRow s operation organizationId ruleId revision assign hassign violated db = .ok r) :
    r = (none, db) ∨
      ∃ old rules, old ∈ db.rules ∧ old.liveAtRevision organizationId ruleId revision = true ∧
        db.rules.Put (assign old) rules ∧ r = (some (assign old), { db with rules }) := by
  unfold updateRuleRow at h
  rw [statement_bind_eq_ok, Txn.get_bind] at h
  obtain ⟨-, h⟩ := h
  cases hf : db.rules.rows.find? (RuleRow.liveAtRevision organizationId ruleId revision) with
  | none =>
    rw [hf] at h
    simp only [Txn.pure_eq_ok] at h
    exact Or.inl h
  | some old =>
    right
    rw [hf] at h
    simp only at h
    split at h
    · exact absurd h Txn.throw_ne_ok
    split at h
    · exact absurd h Txn.throw_ne_ok
    rw [Txn.set_bind, Txn.pure_eq_ok] at h
    have hm : old ∈ db.rules := List.mem_of_find?_eq_some hf
    have hp := List.find?_some hf
    refine ⟨old, _, hm, hp, ?_, h⟩
    -- the `where` clause names the rule id, so it selects no other row
    refine Table.put_of_update hassign hm hp fun x _ hx => ?_
    exact (liveAtRevision_iff.1 hx).2.1.trans (liveAtRevision_iff.1 hp).2.1.symm

/-- The work of a command that answered `response`. -/
def Worked (s : Session) (request : CommandRequest) (response : Value) (db db' : Database) : Prop :=
  ∃ old new next, Written s request old new next ∧ RuleWrite s.env old new next db db' ∧
    Answers s.env request new response

/-- What the work of a command leaves alone, whatever became of the commands table. -/
theorem Worked.frame {response : Value} {db db' : Database} {t : Table CommandRow.scope}
    (h : Worked s request response db { db' with commands := t }) :
    db'.triggers = db.triggers ∧ db'.executions = db.executions ∧ db'.attempts = db.attempts ∧
      db'.receipts = db.receipts := by
  obtain ⟨_, _, _, -, hw, -⟩ := h
  exact ⟨hw.triggers, hw.executions, hw.attempts, hw.receipts⟩

/-- A rule row put in place and its dispatches settled make a rule write. -/
theorem ruleWrite_of {old : Option RuleRow} {new : RuleRow} {next : Option OffsetDateTime} {db : Database}
    {rules : Table RuleRow.ruleId} {organizationId ruleId : String} {r : Unit × Database}
    (hfound : db.rules.find? new.ruleId = old)
    (hlive : ∀ o, old = some o → o.live = true ∧ o.organizationId = new.organizationId)
    (hnext : new.nextFireAt = next.map encodeTimestamptz) (hput : db.rules.Put new rules)
    (horg : new.organizationId = organizationId) (hid : new.ruleId = ruleId)
    (h : replacePendingSchedule s organizationId ruleId next { db with rules } = .ok r) :
    RuleWrite s.env old new next db r.2 := by
  obtain ⟨t, rfl, hd⟩ := replacePendingSchedule_ok h
  subst horg hid
  exact ⟨hfound, hlive, hnext, hput, hd, rfl, rfl, rfl, rfl, rfl⟩

theorem createWork_ok {r : CreateRuleRequest} {db : Database} {e : Value × Database}
    (h : (do
      let nextFireAt ← ofExcept (initialNextFire s.env s.nowUtc r.trigger.toValue r.enabled)
      let column ← ofExcept (bindNullable nextFireAt)
      let row ← insertRule s (newRule s r.organizationId r.ruleId r.name r.enabled r.trigger.toValue
        (storedConditions r.conditions) (storedActions r.actions) column)
      replacePendingSchedule s r.organizationId r.ruleId nextFireAt
      ofExcept (ruleJson s.env row) : Tx Value) db = .ok e) :
    Worked s (.create r) e.1 db e.2 := by
  simp only [ofExcept_bind_eq_ok, bindNullable_eq_ok] at h
  obtain ⟨next, hn, _, ⟨-, rfl⟩, h⟩ := h
  rw [Txn.bind_eq_ok] at h
  obtain ⟨row, db₁, hi, h⟩ := h
  obtain ⟨rules, hins, -, he⟩ := insertRule_ok hi
  cases he
  rw [Txn.bind_eq_ok] at h
  obtain ⟨_, db₂, hs, h⟩ := h
  rw [ofExcept_eq_ok] at h
  obtain ⟨v, hv, rfl⟩ := h
  refine ⟨none, _, next, .create hn, ?_, hv⟩
  refine ruleWrite_of ?_ (by simp) rfl (Table.put_of_insert? hins) rfl rfl hs
  exact Table.find?_eq_none.2 (Table.insert?_eq_some.1 hins).1

/-- `update_rule` and `set_enabled` after their row is written. -/
theorem finishRuleWrite_ok {organizationId ruleId : String} {revision : ℤ} {next : Option OffsetDateTime}
    {assign : RuleRow → RuleRow} {hassign : Table.KeepsKey RuleRow.ruleId assign} {operation : String}
    {violated : StorageError} {db : Database} {e : Value × Database}
    (h : (do
      let written ← updateRuleRow s operation organizationId ruleId revision assign hassign violated
      finishRuleWrite s organizationId ruleId next written : Tx Value) db = .ok e)
    (horg : ∀ r, (assign r).organizationId = r.organizationId)
    (hnext : ∀ r, (assign r).nextFireAt = next.map encodeTimestamptz) :
    ∃ old ∈ db.rules, old.liveAtRevision organizationId ruleId revision = true ∧
      RuleWrite s.env (some old) (assign old) next db e.2 ∧ ruleJson s.env (assign old) = .ok e.1 := by
  rw [Txn.bind_eq_ok] at h
  obtain ⟨written, db₁, hu, h⟩ := h
  rcases updateRuleRow_ok hu with he | ⟨old, rules, hm, hp, hput, he⟩
  · cases he; exact absurd h Txn.throw_ne_ok
  cases he
  unfold finishRuleWrite at h
  rw [Txn.bind_eq_ok] at h
  obtain ⟨_, db₂, hs, h⟩ := h
  rw [ofExcept_eq_ok] at h
  obtain ⟨v, hv, rfl⟩ := h
  obtain ⟨ho, hr, hl, -⟩ := liveAtRevision_iff.1 hp
  refine ⟨old, hm, hp, ?_, hv⟩
  refine ruleWrite_of ?_ ?_ (hnext old) hput ((horg old).trans ho) ((hassign.key_eq old).trans hr) hs
  · rw [hassign.key_eq]; exact Table.find?_of_mem hm
  · rintro o ⟨⟩; exact ⟨hl, (horg old).symm⟩

/-- The enabled flag `update_rule` locked is the one of the row it writes. -/
theorem lockRule_eq {organizationId ruleId : String} {revision : ℤ} {db : Database} {r : RuleRow × Database}
    {old : RuleRow} (h : lockRule s organizationId ruleId db = .ok r) (hm : old ∈ db.rules)
    (hp : old.liveAtRevision organizationId ruleId revision = true) : r = (old, db) := by
  obtain ⟨hdb, hr, hl⟩ := lockRule_ok h
  refine Prod.ext ?_ hdb
  exact Table.eq_of_key hr hm ((liveAt_iff.1 hl).2.1.trans (liveAtRevision_iff.1 hp).2.1.symm)

/-- `update_rule` and `set_enabled`: the fire time `f` gives for the locked row is the one
written with it. -/
theorem lockedWork_ok {organizationId ruleId : String} {revision : ℤ}
    {f : RuleRow → Except StorageError (Option OffsetDateTime)}
    {assign : Option ℤ → RuleRow → RuleRow}
    {hassign : ∀ column, Table.KeepsKey RuleRow.ruleId (assign column)} {operation : String}
    {violated : StorageError} {db : Database} {e : Value × Database}
    (h : (do
      let current ← lockRule s organizationId ruleId
      let nextFireAt ← ofExcept (f current)
      let column ← ofExcept (bindNullable nextFireAt)
      let written ← updateRuleRow s operation organizationId ruleId revision (assign column)
        (hassign column) violated
      finishRuleWrite s organizationId ruleId nextFireAt written : Tx Value) db = .ok e)
    (horg : ∀ column r, (assign column r).organizationId = r.organizationId)
    (hnext : ∀ column r, (assign column r).nextFireAt = column) :
    ∃ old next, f old = .ok next ∧ old.liveAtRevision organizationId ruleId revision = true ∧
      RuleWrite s.env (some old) (assign (next.map encodeTimestamptz) old) next db e.2 ∧
      ruleJson s.env (assign (next.map encodeTimestamptz) old) = .ok e.1 := by
  rw [Txn.bind_eq_ok] at h
  obtain ⟨current, db₁, hl, h⟩ := h
  simp only [ofExcept_bind_eq_ok, bindNullable_eq_ok] at h
  obtain ⟨next, hn, _, ⟨-, rfl⟩, h⟩ := h
  have hdb : db₁ = db := (lockRule_ok hl).1
  subst hdb
  obtain ⟨old, hm, hp, hw, hv⟩ := finishRuleWrite_ok h (horg _) (hnext _)
  -- the row the lock returned is the row the update found
  cases lockRule_eq hl hm hp
  exact ⟨current, next, hn, hp, hw, hv⟩

theorem updateWork_ok {r : UpdateRuleRequest} {db : Database} {e : Value × Database}
    (h : (do
      let current ← lockRule s r.organizationId r.ruleId
      let nextFireAt ← ofExcept (initialNextFire s.env s.nowUtc r.trigger.toValue current.enabled)
      let column ← ofExcept (bindNullable nextFireAt)
      let written ← updateRuleRow s "update rule" r.organizationId r.ruleId (expected r.expectedRevision)
        (RuleRow.redefine r.name r.trigger.toValue (storedConditions r.conditions)
          (storedActions r.actions) column s.transactionTimestamp)
        ⟨fun _ => rfl⟩ (.domain .ruleNameConflict)
      finishRuleWrite s r.organizationId r.ruleId nextFireAt written : Tx Value) db = .ok e) :
    Worked s (.update r) e.1 db e.2 := by
  obtain ⟨old, next, hn, hp, hw, hv⟩ := lockedWork_ok h (fun _ _ => rfl) (fun _ _ => rfl)
  exact ⟨some old, _, next, .update hp hn, hw, hv⟩

theorem setEnabledWork_ok {r : SetRuleEnabledRequest} {db : Database} {e : Value × Database}
    (h : (do
      let current ← lockRule s r.organizationId r.ruleId
      let nextFireAt ← ofExcept (initialNextFire s.env s.nowUtc current.trigger r.enabled)
      let column ← ofExcept (bindNullable nextFireAt)
      let written ← updateRuleRow s "set rule enabled" r.organizationId r.ruleId
        (expected r.expectedRevision) (RuleRow.enable r.enabled column s.transactionTimestamp)
        ⟨fun _ => rfl⟩ (runtime "set rule enabled" "duplicate name")
      finishRuleWrite s r.organizationId r.ruleId nextFireAt written : Tx Value) db = .ok e) :
    Worked s (.setEnabled r) e.1 db e.2 := by
  obtain ⟨old, next, hn, hp, hw, hv⟩ := lockedWork_ok h (fun _ _ => rfl) (fun _ _ => rfl)
  exact ⟨some old, _, next, .setEnabled hp hn, hw, hv⟩

theorem deleteWork_ok {r : DeleteRuleRequest} {db : Database} {e : Value × Database}
    (h : (do
      match ← updateRuleRow s "delete rule" r.organizationId r.ruleId (expected r.expectedRevision)
          (RuleRow.delete s.transactionTimestamp) ⟨fun _ => rfl⟩
          (runtime "delete rule" "duplicate name") with
      | none =>
        s.statement "inspect delete conflict"
        let db ← get
        if db.rules.rows.any (RuleRow.liveAt r.organizationId r.ruleId) then
          throw (.domain .revisionConflict)
        else throw (.domain .notFound)
      | some _ =>
        replacePendingSchedule s r.organizationId r.ruleId none
        return deletedJson : Tx Value) db = .ok e) :
    Worked s (.delete r) e.1 db e.2 := by
  rw [Txn.bind_eq_ok] at h
  obtain ⟨written, db₁, hu, h⟩ := h
  rcases updateRuleRow_ok hu with he | ⟨old, rules, hm, hp, hput, he⟩
  · -- no row deleted: both answers to the conflict are errors
    cases he
    simp only at h
    rw [statement_bind_eq_ok, Txn.get_bind] at h
    have := h.2
    split at this <;> exact absurd this Txn.throw_ne_ok
  · cases he
    simp only at h
    rw [Txn.bind_eq_ok] at h
    obtain ⟨_, db₂, hs, h⟩ := h
    rw [Txn.pure_eq_ok] at h
    subst h
    obtain ⟨ho, hr, hl, -⟩ := liveAtRevision_iff.1 hp
    have hfound : db.rules.find? (old.delete s.transactionTimestamp).ruleId = some old :=
      Table.find?_of_mem hm
    refine ⟨some old, _, none, .delete hp, ?_, rfl⟩
    refine ruleWrite_of hfound ?_ rfl hput ho hr hs
    rintro o ⟨⟩; exact ⟨hl, rfl⟩

/-- **A command that answers**: it replays, or it writes one rule row and stores its
response. -/
theorem storeCommand_ok {auth : Authorized} {db : Database} {e : Ending Value × Database}
    (h : storeCommand s auth request db = .ok e) :
    (∃ response, e = (.drop response, db) ∧
        Replayed s (request.scope auth) request response db.commands) ∨
      ∃ response, s.Committed e.1 response ∧
        Worked s request response db { e.2 with commands := db.commands } ∧
        Answered s (request.scope auth) request response db.commands e.2.commands := by
  have key : ∀ {name : String} {work : Tx Value},
      (∀ {db e}, work db = .ok e → Worked s request e.1 db e.2) →
      command s name (request.scope auth) request work db = .ok e →
      (∃ response, e = (.drop response, db) ∧
          Replayed s (request.scope auth) request response db.commands) ∨
        ∃ response, s.Committed e.1 response ∧
          Worked s request response db { e.2 with commands := db.commands } ∧
          Answered s (request.scope auth) request response db.commands e.2.commands := by
    -- the four commands differ in their work only
    intro name work hwork hc
    have hkeep : ∀ db r, work db = .ok r → r.2.commands = db.commands := by
      intro db r hr
      obtain ⟨_, _, _, -, hw, -⟩ := hwork hr
      exact hw.commands
    rcases command_ok hkeep hc with hd | ⟨response, c, db₂, t, hr, hcommitted, he, ha⟩
    · exact Or.inl hd
    · obtain ⟨ending, db'⟩ := e
      cases he
      refine Or.inr ⟨response, hcommitted, ?_, ha⟩
      obtain ⟨old, new, next, hwr, hw, hans⟩ := hwork hr
      exact ⟨old, new, next, hwr,
        ⟨hw.found, hw.live, hw.nextFireAt, hw.rules, hw.dispatches, rfl, hw.triggers, hw.executions,
          hw.attempts, hw.receipts⟩, hans⟩
  unfold storeCommand at h
  cases request with
  | create r => exact key createWork_ok h
  | update r => exact key updateWork_ok h
  | setEnabled r => exact key setEnabledWork_ok h
  | delete r => exact key deleteWork_ok h

end ProjectAutomation

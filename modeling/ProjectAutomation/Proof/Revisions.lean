import ProjectAutomation.Versioned.Register
import ProjectAutomation.Proof.CommandLedger
import ProjectAutomation.Proof.Timers

/-!
# Revisions

A rule is a compare-and-swap register (`RuleRow.register`): its definition and its
enabled flag under its revision. A committed update, set_enabled or delete is one swap of
it; the schedule advance of `complete_execution` is none.

* `RuleStep`: what an event does to the rules, told by whether a command commits.
* `run_register`: a rule is what the committed edits made of the rule that was created.
* `stale_edit`: an edit that names another revision is refused.
* `rules_compare_and_swap`: these, over every run.
-/

namespace ProjectAutomation

open Relational Versioned

variable {env : Env} {w w' : World} {event : Event} {s : Session} {request : CommandRequest}

/-! ## Rules as registers -/

/-- What a command may change of a rule; the fire time follows from it and the clock. -/
structure RuleState where
  name : String
  enabled : Bool
  trigger : Value
  conditions : Value
  actions : Value
  deleted : Bool

def RuleRow.state (r : RuleRow) : RuleState :=
  ⟨r.name, r.enabled, r.trigger, r.conditions, r.actions, !r.live⟩

def RuleRow.register (r : RuleRow) : Register RuleState := ⟨r.revision, r.state⟩

/-- An update, set_enabled or delete: the rule it names, and its swap. -/
structure Edit where
  organizationId : String
  ruleId : String
  swap : Swap RuleState

/-- The edit a command asks for; creating a rule is none. -/
def CommandRequest.edit? : CommandRequest → Option Edit
  | .create _ => none
  | .update r => some ⟨r.organizationId, r.ruleId, expected r.expectedRevision, fun state =>
      { state with
        name := r.name, trigger := r.trigger.toValue, conditions := storedConditions r.conditions
        actions := storedActions r.actions }⟩
  | .setEnabled r => some ⟨r.organizationId, r.ruleId, expected r.expectedRevision, fun state =>
      { state with enabled := r.enabled }⟩
  | .delete r => some ⟨r.organizationId, r.ruleId, expected r.expectedRevision, fun state =>
      { state with enabled := false, deleted := true }⟩

/-- The swap an event commits on a rule, if any. -/
def committedEdit (env : Env) (ruleId : String) (w : World) : Event → List (Swap RuleState)
  | .command conn auth request =>
    match request.edit? with
    | some edit =>
      if edit.ruleId = ruleId ∧ ∃ response, Commits env w conn auth request response then [edit.swap] else []
    | none => []
  | _ => []

/-- The swaps a run commits on a rule. -/
def committedEdits (env : Env) (ruleId : String) : World → List Event → List (Swap RuleState)
  | _, [] => []
  | w, event :: events =>
    committedEdit env ruleId w event ++ committedEdits env ruleId ((automation env).next w event) events

theorem committedEdits_append (ruleId : String) (events later : List Event) :
    committedEdits env ruleId w (events ++ later) =
      committedEdits env ruleId w events ++
        committedEdits env ruleId ((automation env).runFrom w events) later := by
  induction events generalizing w with
  | nil => rfl
  | cons event events ih => simp only [List.cons_append, committedEdits, ih, List.append_assoc,
      Transition.Machine.runFrom_cons]

theorem committedEdit_of_none {conn : Connection} {auth : Authorized} (h : request.edit? = none) (ruleId : String) :
    committedEdit env ruleId w (.command conn auth request) = [] := by
  simp only [committedEdit, h]

theorem committedEdit_of_not {conn : Connection} {auth : Authorized}
    (h : ¬ ∃ response, Commits env w conn auth request response) (ruleId : String) :
    committedEdit env ruleId w (.command conn auth request) = [] := by
  cases he : request.edit? with
  | none => exact committedEdit_of_none he ruleId
  | some edit => simp only [committedEdit, he, h, and_false, if_false]

theorem committedEdit_of_commits {conn : Connection} {auth : Authorized} {response : Value} {edit : Edit}
    (h : Commits env w conn auth request response) (he : request.edit? = some edit) (ruleId : String) :
    committedEdit env ruleId w (.command conn auth request) =
      if edit.ruleId = ruleId then [edit.swap] else [] := by
  have hc : ∃ response, Commits env w conn auth request response := ⟨response, h⟩
  simp only [committedEdit, he, hc, and_true]

/-- A committed edit swaps the register of the rule it found. -/
theorem Written.swaps {old : RuleRow} {new : RuleRow} {next : Option OffsetDateTime}
    (h : Written s request (some old) new next) : ∃ edit, request.edit? = some edit ∧
      old.liveAtRevision edit.organizationId edit.ruleId edit.swap.expected = true ∧
      new.ruleId = edit.ruleId ∧ new.organizationId = edit.organizationId ∧
      old.register.swap edit.swap = some new.register := by
  cases h with
  | update h _ =>
    obtain ⟨ho, hr, hl, hrev⟩ := liveAtRevision_iff.1 h
    exact ⟨_, rfl, h, hr, ho, Register.swap_eq_some.2 ⟨hrev.symm, rfl⟩⟩
  | setEnabled h _ =>
    obtain ⟨ho, hr, hl, hrev⟩ := liveAtRevision_iff.1 h
    exact ⟨_, rfl, h, hr, ho, Register.swap_eq_some.2 ⟨hrev.symm, rfl⟩⟩
  | delete h =>
    obtain ⟨ho, hr, hl, hrev⟩ := liveAtRevision_iff.1 h
    exact ⟨_, rfl, h, hr, ho, Register.swap_eq_some.2 ⟨hrev.symm, rfl⟩⟩

/-- A rule is created at revision 1, by no edit. -/
theorem Written.creates {new : RuleRow} {next : Option OffsetDateTime}
    (h : Written s request none new next) : request.edit? = none ∧ new.revision = 1 := by
  cases h with
  | create _ => exact ⟨rfl, rfl⟩

/-! ## One event -/

/-- **What an event does to the rules.** -/
inductive RuleStep (env : Env) (w : World) (event : Event) (w' : World) : Prop
  | same : (∀ ruleId, committedEdit env ruleId w event = []) → w'.db.rules = w.db.rules →
      RuleStep env w event w'
  | command {conn : Connection} {auth : Authorized} {request : CommandRequest} {response : Value}
      {old : Option RuleRow} {new : RuleRow} {next : Option OffsetDateTime} :
      event = .command conn auth request → Commits env w conn auth request response →
      Written (w.session env conn) request old new next → Answers env request new response →
      w.db.rules.find? new.ruleId = old → (∀ o, old = some o → o.live = true) →
      w.db.rules.Put new w'.db.rules → RuleStep env w event w'
  | advanced {rule : RuleRow} {next now : ℤ} : (∀ ruleId, committedEdit env ruleId w event = []) →
      rule ∈ w.db.rules → rule.live = true → rule.enabled = true →
      w.db.rules.Put (rule.advance next now) w'.db.rules → RuleStep env w event w'

/-- A command that does not commit leaves the world as it was. -/
theorem next_of_not_commits {conn : Connection} {auth : Authorized}
    (h : ∀ response, ¬ Commits env w conn auth request response) :
    (w.command env conn auth request).2 = w := by
  unfold World.command
  split
  · rename_i hv
    exact call_unchanged (fun ending response db' hb hc => h response ⟨hv, ending, db', hb, hc⟩)
  · rfl

theorem ruleStep_command (w : World) (conn : Connection) (auth : Authorized) (request : CommandRequest) :
    RuleStep env w (.command conn auth request) ((automation env).next w (.command conn auth request)) := by
  by_cases hc : ∃ response, Commits env w conn auth request response
  · obtain ⟨response, hc⟩ := hc
    obtain ⟨db', ⟨old, new, next, hwr, hw, ha⟩, hnext⟩ := commits_worked hc
    rw [hnext]
    exact .command rfl hc hwr ha hw.found (fun o ho => (hw.live o ho).1) hw.rules
  · have hsame : (automation env).next w (.command conn auth request) = w :=
      next_of_not_commits (fun response h => hc ⟨response, h⟩)
    exact .same (committedEdit_of_not hc) (by rw [hsame])

theorem ruleStep_of_fire (hno : ∀ ruleId, committedEdit env ruleId w event = [])
    (hne : ∀ conn auth request, event ≠ .command conn auth request) (h : FireStep env w event w') :
    RuleStep env w event w' := by
  cases h with
  | still hr _ _ => exact .same hno hr
  | written he _ _ _ _ _ => exact absurd he (hne _ _ _)
  | event _ hin => exact .same hno hin.rules
  | timer _ _ _ _ _ hin => exact .same hno hin.rules
  | ended _ hr _ _ => exact .same hno hr
  | advanced _ _ _ _ _ _ _ hlive hawait _ _ hw _ =>
    exact .advanced hno (Table.find?_eq_some.1 hw.found).1 hlive (awaits_iff.1 hawait).1 hw.rules

theorem step_rule_cases (hr : RefsOK env w) (event : Event) :
    RuleStep env w event ((automation env).next w event) := by
  have hfire := step_fire (step_cases hr.linked event) hr
  cases event with
  | command conn auth request => exact ruleStep_command w conn auth request
  | tick | receiveEvent | receiveTimer | pendingDispatches | flush | claimExecutions | work =>
    exact ruleStep_of_fire (fun _ => rfl) (fun _ _ _ h => by cases h) hfire

/-- The rules after an event, each as a register. -/
inductive RegisterStep (env : Env) (w : World) (event : Event) (r' : RuleRow) : Prop
  | edited {r : RuleRow} : r ∈ w.db.rules → r.ruleId = r'.ruleId →
      r.register.replay (committedEdit env r'.ruleId w event) = some r'.register → RegisterStep env w event r'
  | created : (∀ r ∈ w.db.rules, r.ruleId ≠ r'.ruleId) → committedEdit env r'.ruleId w event = [] →
      r'.revision = 1 → RegisterStep env w event r'

theorem RuleStep.register (h : RuleStep env w event w') {r' : RuleRow} (hr : r' ∈ w'.db.rules) :
    RegisterStep env w event r' := by
  cases h with
  | same hno he =>
    rw [he] at hr
    exact .edited hr rfl (by rw [hno]; rfl)
  | @command conn auth request response old new next he hc hwr _ hfound _ hput =>
    subst he
    rcases hput.cases hr with rfl | ⟨hr, hk⟩
    · cases old with
      | none =>
        obtain ⟨hedit, hrev⟩ := hwr.creates
        exact .created (Table.find?_eq_none.1 hfound) (committedEdit_of_none hedit _) hrev
      | some old =>
        obtain ⟨hm, hid⟩ := Table.find?_eq_some.1 hfound
        obtain ⟨edit, hedit, -, hrule, -, hswap⟩ := hwr.swaps
        refine .edited hm hid ?_
        rw [committedEdit_of_commits hc hedit, if_pos hrule.symm]
        simp only [Register.replay, hswap, Option.bind_some]
    · -- another rule: the command's edit is not one of it
      refine .edited hr rfl ?_
      have hno : committedEdit env r'.ruleId w (.command conn auth request) = [] := by
        cases hedit : request.edit? with
        | none => exact committedEdit_of_none hedit _
        | some edit =>
          rw [committedEdit_of_commits hc hedit, if_neg]
          cases old with
          | none =>
            rw [hwr.creates.1] at hedit
            cases hedit
          | some old =>
            obtain ⟨edit', hedit', -, hrule, -⟩ := hwr.swaps
            rw [hedit] at hedit'
            cases hedit'
            exact fun h => hk (h.symm.trans hrule.symm)
      rw [hno]; rfl
  | @advanced rule next now hno hm _ _ hput =>
    rcases hput.cases hr with rfl | ⟨hr, -⟩
    · -- the schedule moves on: neither the revision nor the definition changes
      exact .edited hm rfl (by rw [hno]; rfl)
    · exact .edited hr rfl (by rw [hno]; rfl)

/-- A rule stays, as what the event's edit makes of it. -/
theorem RuleStep.stays (h : RuleStep env w event w') {r : RuleRow} (hr : r ∈ w.db.rules) :
    ∃ r' ∈ w'.db.rules, r'.ruleId = r.ruleId ∧
      r.register.replay (committedEdit env r.ruleId w event) = some r'.register := by
  obtain ⟨r', hr', hid⟩ : ∃ r' ∈ w'.db.rules, r'.ruleId = r.ruleId := by
    cases h with
    | same _ he => exact ⟨r, he ▸ hr, rfl⟩
    | @command _ _ _ _ _ new _ _ _ _ _ _ _ hput =>
      by_cases hk : r.ruleId = new.ruleId
      · exact ⟨new, hput.mem, hk.symm⟩
      · exact ⟨r, hput.of_ne hr hk, rfl⟩
    | @advanced rule next now _ hm _ _ hput =>
      by_cases hk : r.ruleId = rule.ruleId
      · exact ⟨_, hput.mem, hk.symm⟩
      · exact ⟨r, hput.of_ne hr hk, rfl⟩
  refine ⟨r', hr', hid, ?_⟩
  cases h.register hr' with
  | edited hm hk hreplay =>
    have hone := Table.eq_of_key hr hm (hid.symm.trans hk.symm)
    subst hone
    exact hid ▸ hreplay
  | created hno _ _ => exact absurd hid.symm (hno r hr)

/-- An edit is committed only on a rule that is there. -/
theorem RuleStep.no_edit (h : RuleStep env w event w') {ruleId : String}
    (hno : ∀ r ∈ w'.db.rules, r.ruleId ≠ ruleId) : committedEdit env ruleId w event = [] := by
  cases h with
  | same hedit _ => exact hedit ruleId
  | advanced hedit _ _ _ _ => exact hedit ruleId
  | @command conn auth request response old new next he hc hwr _ _ _ hput =>
    subst he
    cases old with
    | none => exact committedEdit_of_none hwr.creates.1 ruleId
    | some old =>
      obtain ⟨edit, hedit, -, hrule, -⟩ := hwr.swaps
      rw [committedEdit_of_commits hc hedit, if_neg]
      exact fun h => hno new hput.mem (hrule.trans h)

/-! ## Runs -/

/-- **A rule goes on as the committed edits make it.** -/
theorem run_stays {w : World} (hrefs : RefsOK env w) {r : RuleRow} (hr : r ∈ w.db.rules) (events : List Event) :
    ∃ r' ∈ ((automation env).runFrom w events).db.rules, r'.ruleId = r.ruleId ∧
      r.register.replay (committedEdits env r.ruleId w events) = some r'.register := by
  induction events generalizing w r with
  | nil => exact ⟨r, hr, rfl, rfl⟩
  | cons event events ih =>
    obtain ⟨r₁, hr₁, hid₁, hreplay₁⟩ := (step_rule_cases hrefs event).stays hr
    obtain ⟨r₂, hr₂, hid₂, hreplay₂⟩ := ih (step_refs hrefs (step_cases hrefs.linked event)) hr₁
    refine ⟨r₂, hr₂, hid₂.trans hid₁, ?_⟩
    rw [committedEdits, Register.replay_append, hreplay₁, Option.bind_some, ← hid₁]
    exact hreplay₂

/-- Every rule is what the committed edits made of the rule that was created. -/
structure EditsReplayed (env : Env) (events : List Event) (w : World) : Prop where
  rules : ∀ r ∈ w.db.rules, ∃ first,
    (Register.mk 1 first).replay (committedEdits env r.ruleId World.init events) = some r.register
  absent : ∀ ruleId, (∀ r ∈ w.db.rules, r.ruleId ≠ ruleId) →
    committedEdits env ruleId World.init events = []

theorem run_register (events : List Event) : EditsReplayed env events ((automation env).run events) := by
  refine Transition.Machine.history (I := EditsReplayed env) ⟨?_, fun _ _ => rfl⟩ ?_ events
  · intro r hr
    exact absurd hr (Table.not_mem_empty r)
  intro events event hi
  have hstep : RuleStep env ((automation env).run events) event _ := step_rule_cases (run_refs events) event
  have hlast : ∀ ruleId, committedEdits env ruleId World.init (events ++ [event]) =
      committedEdits env ruleId World.init events ++
        committedEdit env ruleId ((automation env).run events) event := by
    intro ruleId
    rw [committedEdits_append, committedEdits, committedEdits, List.append_nil]
    rfl
  refine ⟨fun r' hr' => ?_, fun ruleId hno => ?_⟩
  · simp only [hlast, Register.replay_append]
    cases hstep.register hr' with
    | edited hr hid hreplay =>
      obtain ⟨first, hfirst⟩ := hi.rules _ hr
      refine ⟨first, ?_⟩
      rw [← hid, hfirst, Option.bind_some, hid]
      exact hreplay
    | created hno hedit hrev =>
      refine ⟨r'.state, ?_⟩
      rw [hi.absent _ hno, hedit, ← hrev]
      rfl
  · rw [hlast, hstep.no_edit hno, List.append_nil]
    refine hi.absent ruleId (fun r hr hid => ?_)
    obtain ⟨r', hr', hid', -⟩ := hstep.stays hr
    exact hno r' hr' (hid'.trans hid)

/-- A revision of a rule has one state, whatever lies between. -/
theorem state_of_revision {w : World} (hrefs : RefsOK env w) {r r' : RuleRow} {events : List Event}
    (hr : r ∈ w.db.rules) (hr' : r' ∈ ((automation env).runFrom w events).db.rules)
    (hid : r'.ruleId = r.ruleId) (hrev : r'.revision = r.revision) : r'.state = r.state := by
  obtain ⟨r₁, hr₁, hid₁, hreplay⟩ := run_stays hrefs hr events
  have hone := Table.eq_of_key hr₁ hr' (hid₁.trans hid.symm)
  subst hone
  exact congrArg Register.state (Register.replay_eq_of_revision hreplay hrev)

/-! ## Edits of another revision -/

/-- No live rule is at the revision an edit names. -/
def Edit.Stale (edit : Edit) (db : Database) : Prop :=
  ∀ r ∈ db.rules, r.liveAt edit.organizationId edit.ruleId = true → r.revision ≠ edit.swap.expected

/-- A stale edit does not commit. -/
theorem stale_not_commits {conn : Connection} {auth : Authorized} {edit : Edit}
    (he : request.edit? = some edit) (hstale : edit.Stale w.db) (response : Value) :
    ¬ Commits env w conn auth request response := by
  intro hc
  obtain ⟨db', ⟨old, new, next, hwr, hw, -⟩, -⟩ := commits_worked hc
  cases old with
  | none =>
    rw [hwr.creates.1] at he
    cases he
  | some old =>
    obtain ⟨edit', he', hlive, -⟩ := hwr.swaps
    rw [he] at he'
    cases he'
    obtain ⟨ho, hr, hl, hrev⟩ := liveAtRevision_iff.1 hlive
    exact hstale old (Table.find?_eq_some.1 hw.found).1 (liveAt_iff.2 ⟨ho, hr, hl⟩) hrev

/-- Under a fresh key a command is as good as its work. -/
theorem command_fresh {name : String} {scope : CommandScope} {work : Tx Value} {db : Database} {e : StorageError}
    (hserves : s.Serves) (hfree : ∀ row ∈ db.commands, row.scope ≠ scope)
    (hwork : ∀ commands, work { db with commands } = .error e) :
    command s name scope request work db = .error e := by
  have hres : ∃ commands, reserveCommand s scope request db = .ok (.new, { db with commands }) := by
    unfold reserveCommand
    rw [statement_bind_serves (hserves _), Txn.get_bind]
    cases hi : db.commands.insert? ⟨scope, s.env.requestHash request, none, none⟩ with
    | none =>
      obtain ⟨row, hm, hk⟩ := Table.insert?_eq_none.1 hi
      exact absurd hk (hfree row hm)
    | some commands => exact ⟨commands, rfl⟩
  obtain ⟨commands, hres⟩ := hres
  unfold command
  rw [statement_bind_serves (hserves _), Txn.bind_of_ok hres]
  simp only
  rw [Txn.bind_eq_error]
  exact Or.inl (hwork commands)

/-- The error of an edit that names another revision of `r`: the fire time it would set is computed, and
bound, before the revision is looked at. -/
def staleError (env : Env) (now : OffsetDateTime) (state : RuleState) : StorageError :=
  match initialNextFire env now state.trigger state.enabled with
  | .error e => e
  | .ok next => if ∀ t ∈ next, t.Bindable then .domain .revisionConflict
    else .panic "local datetime out of valid range"

theorem bindNullable_panics {next : Option OffsetDateTime} (h : ¬ ∀ t ∈ next, t.Bindable) :
    bindNullable next = .error (.panic "local datetime out of valid range") := by
  cases next with
  | none => exact absurd (by simp) h
  | some t =>
    have ht : ¬ t.Bindable := by simpa using h
    rw [bindNullable, bindTimestamptz, if_neg ht]
    rfl

theorem updateRuleRow_stale {operation organizationId ruleId : String} {revision : ℤ} {assign : RuleRow → RuleRow}
    {hassign : Table.KeepsKey RuleRow.ruleId assign} {violated : StorageError} {db : Database} (hserves : s.Serves)
    (hstale : ∀ r ∈ db.rules, r.liveAt organizationId ruleId = true → r.revision ≠ revision) :
    updateRuleRow s operation organizationId ruleId revision assign hassign violated db = .ok (none, db) := by
  have hnone : db.rules.rows.find? (RuleRow.liveAtRevision organizationId ruleId revision) = none := by
    rw [List.find?_eq_none]
    intro r hr hp
    obtain ⟨ho, hid, hl, hrev⟩ := liveAtRevision_iff.1 hp
    exact hstale r hr (liveAt_iff.2 ⟨ho, hid, hl⟩) hrev
  unfold updateRuleRow
  rw [statement_bind_serves (hserves _), Txn.get_bind, hnone]
  rfl

theorem lockRule_none {organizationId ruleId : String} {db : Database} (hserves : s.Serves)
    (hno : ∀ r ∈ db.rules, r.liveAt organizationId ruleId = false) :
    lockRule s organizationId ruleId db = .error (.domain .notFound) := by
  have hnone : db.rules.rows.find? (RuleRow.liveAt organizationId ruleId) = none :=
    List.find?_eq_none.2 (fun r hr => by rw [hno r hr]; exact Bool.false_ne_true)
  unfold lockRule
  rw [statement_bind_serves (hserves _), Txn.get_bind, hnone]
  rfl

theorem lockRule_some {organizationId ruleId : String} {db : Database} {r : RuleRow} (hserves : s.Serves)
    (hr : r ∈ db.rules) (hlive : r.liveAt organizationId ruleId = true) :
    lockRule s organizationId ruleId db = .ok (r, db) := by
  have hfind : db.rules.rows.find? (RuleRow.liveAt organizationId ruleId) = some r := by
    cases hf : db.rules.rows.find? (RuleRow.liveAt organizationId ruleId) with
    | none => exact absurd hlive (List.find?_eq_none.1 hf r hr)
    | some r' =>
      have hid := (liveAt_iff.1 (List.find?_some hf)).2.1.trans (liveAt_iff.1 hlive).2.1.symm
      rw [Table.eq_of_key (List.mem_of_find?_eq_some hf) hr hid]
  unfold lockRule
  rw [statement_bind_serves (hserves _), Txn.get_bind, hfind]
  rfl

/-- `update_rule` and `set_enabled`, when the rule they lock is at another revision. -/
theorem lockedWork_stale {organizationId ruleId : String} {revision : ℤ}
    {f : RuleRow → Except StorageError (Option OffsetDateTime)}
    {assign : Option ℤ → RuleRow → RuleRow}
    {hassign : ∀ column, Table.KeepsKey RuleRow.ruleId (assign column)} {operation : String}
    {violated : StorageError} {db : Database} {r : RuleRow} (hserves : s.Serves)
    (hstale : ∀ r ∈ db.rules, r.liveAt organizationId ruleId = true → r.revision ≠ revision)
    (hr : r ∈ db.rules) (hlive : r.liveAt organizationId ruleId = true) :
    (do
      let current ← lockRule s organizationId ruleId
      let nextFireAt ← ofExcept (f current)
      let column ← ofExcept (bindNullable nextFireAt)
      let written ← updateRuleRow s operation organizationId ruleId revision (assign column)
        (hassign column) violated
      finishRuleWrite s organizationId ruleId nextFireAt written : Tx Value) db =
    .error (match f r with
      | .error e => e
      | .ok next => if ∀ t ∈ next, t.Bindable then .domain .revisionConflict
        else .panic "local datetime out of valid range") := by
  rw [Txn.bind_of_ok (lockRule_some hserves hr hlive)]
  cases f r with
  | error e => rfl
  | ok next =>
    simp only
    rw [ofExcept_bind]
    by_cases hbind : ∀ t ∈ next, t.Bindable
    · rw [if_pos hbind, bindNullable_of_bindable hbind, ofExcept_bind,
        Txn.bind_of_ok (updateRuleRow_stale hserves hstale)]
      rfl
    · rw [if_neg hbind, bindNullable_panics hbind]
      rfl

/-- `delete_rule`, when no live rule is at its revision. -/
theorem deleteWork_stale {r : DeleteRuleRequest} (db : Database) (hserves : s.Serves)
    (hstale : ∀ x ∈ db.rules, x.liveAt r.organizationId r.ruleId = true →
      x.revision ≠ expected r.expectedRevision) :
    (do
      match ← updateRuleRow s "delete rule" r.organizationId r.ruleId (expected r.expectedRevision)
          (RuleRow.delete s.transactionTimestamp) ⟨fun _ => rfl⟩
          (runtime "delete rule" "duplicate name") with
      | none =>
        s.statement "inspect delete conflict"
        let db ← get
        if db.rules.rows.any (RuleRow.liveAt r.organizationId r.ruleId) then
          throw (.domain .revisionConflict)
        else throw (.domain .notFound)
      | some _ =>
        replacePendingSchedule s r.organizationId r.ruleId none
        return deletedJson : Tx Value) db =
    .error (if db.rules.rows.any (RuleRow.liveAt r.organizationId r.ruleId) then .domain .revisionConflict
      else .domain .notFound) := by
  rw [Txn.bind_of_ok (updateRuleRow_stale hserves hstale)]
  simp only
  rw [statement_bind_serves (hserves _), Txn.get_bind]
  split <;> rfl

/-- **An edit that names another revision is refused**, and so is one of a rule that is gone. -/
theorem storeCommand_stale {auth : Authorized} {edit : Edit} {db : Database} (hserves : s.Serves)
    (hfree : ∀ row ∈ db.commands, row.scope ≠ request.scope auth) (he : request.edit? = some edit)
    (hstale : edit.Stale db) :
    ((∀ r ∈ db.rules, r.liveAt edit.organizationId edit.ruleId = false) →
      storeCommand s auth request db = .error (.domain .notFound)) ∧
    ∀ r ∈ db.rules, r.liveAt edit.organizationId edit.ruleId = true →
      storeCommand s auth request db = .error (staleError s.env s.nowUtc (edit.swap.change r.state)) := by
  cases request with
  | create r => cases he
  | update r | setEnabled r =>
    cases he
    refine ⟨fun hno => command_fresh hserves hfree fun commands => ?_,
      fun row hrow hlive => command_fresh hserves hfree fun commands => ?_⟩
    · rw [Txn.bind_eq_error]
      exact Or.inl (lockRule_none hserves hno)
    · exact lockedWork_stale hserves hstale hrow hlive
  | delete r =>
    cases he
    refine ⟨fun hno => command_fresh hserves hfree fun commands => ?_,
      fun row hrow hlive => command_fresh hserves hfree fun commands => ?_⟩
    · refine (deleteWork_stale { db with commands } hserves hstale).trans (congrArg _ (if_neg ?_))
      rw [List.any_eq_true]
      rintro ⟨row, hrow, hlive⟩
      exact absurd hlive (Bool.eq_false_iff.1 (hno row hrow))
    · exact (deleteWork_stale { db with commands } hserves hstale).trans
        (congrArg _ (if_pos (List.any_eq_true.2 ⟨row, hrow, hlive⟩)))

/-- The trigger an edit leaves is one the endpoints admit. -/
theorem edit_triggerOK {edit : Edit} {r : RuleRow} (he : request.edit? = some edit)
    (hv : request.valid env = true) (hr : RuleOK env r) : TriggerOK env (edit.swap.change r.state).trigger := by
  cases request with
  | create _ => cases he
  | update u =>
    cases he
    simp only [CommandRequest.valid, validUpdateRule, Bool.and_eq_true] at hv
    exact ⟨u.trigger, rfl, hv.1.1.2⟩
  | setEnabled _ => cases he; exact hr.trigger
  | delete _ => cases he; exact hr.trigger

/-- What an edit that names another revision of a rule is told: a conflict, once the fire time it would set
could be computed and bound. -/
inductive StaleAnswer (env : Env) (now : OffsetDateTime) (state : RuleState) : StorageError → Prop
  | conflict {next : Option OffsetDateTime} : initialNextFire env now state.trigger state.enabled = .ok next →
      (∀ t ∈ next, t.Bindable) → StaleAnswer env now state (.domain .revisionConflict)
  | uncomputable : (∀ next, initialNextFire env now state.trigger state.enabled ≠ .ok next) →
      StaleAnswer env now state (.domain .invalidRequest)
  | unbindable {next : OffsetDateTime} :
      initialNextFire env now state.trigger state.enabled = .ok (some next) → ¬ next.Bindable →
      StaleAnswer env now state (.panic "local datetime out of valid range")

theorem staleAnswer {now : OffsetDateTime} {state : RuleState} (htrigger : TriggerOK env state.trigger) :
    StaleAnswer env now state (staleError env now state) := by
  unfold staleError
  cases hn : initialNextFire env now state.trigger state.enabled with
  | error e =>
    rw [initialNextFire_error htrigger hn]
    exact .uncomputable fun next h => by rw [hn] at h; cases h
  | ok next =>
    simp only
    split
    · rename_i hbind
      exact .conflict hn hbind
    · rename_i hbind
      cases next with
      | none => exact absurd (by simp) hbind
      | some t => exact .unbindable hn (by simpa using hbind)

/-- **A stale edit** changes nothing, and is told so. -/
theorem stale_edit {conn : Connection} {auth : Authorized} {edit : Edit} (hrules : ∀ r ∈ w.db.rules, RuleOK env r)
    (he : request.edit? = some edit) (hv : request.valid env = true)
    (hfree : ∀ row ∈ w.db.commands, row.scope ≠ request.scope auth) (hstale : edit.Stale w.db) :
    (w.command env conn auth request).2 = w ∧
      (conn.Serves →
        ((∀ r ∈ w.db.rules, r.liveAt edit.organizationId edit.ruleId = false) →
          (w.command env conn auth request).1 = .error (.domain .notFound)) ∧
        ∀ r ∈ w.db.rules, r.liveAt edit.organizationId edit.ruleId = true →
          ∃ e, (w.command env conn auth request).1 = .error e ∧
            StaleAnswer env ⟨w.clock, 0⟩ (edit.swap.change r.state) e) := by
  refine ⟨next_of_not_commits (stale_not_commits he hstale), fun hserves => ?_⟩
  have herror : ∀ {e : StorageError}, storeCommand (w.session env conn) auth request w.db = .error e →
      (w.command env conn auth request).1 = .error e := by
    intro e h
    unfold World.command World.transact
    rw [if_pos hv, transact_of_error h]
  obtain ⟨hgone, hthere⟩ := storeCommand_stale (s := w.session env conn) hserves hfree he hstale
  refine ⟨fun hno => herror (hgone hno), fun r hr hlive => ⟨_, herror (hthere r hr hlive), ?_⟩⟩
  exact staleAnswer (edit_triggerOK he hv (hrules r hr))

/-! ## Deleted rules -/

/-- A deleted rule is left alone. -/
theorem RuleStep.deleted_stays (h : RuleStep env w event w') {r : RuleRow} (hr : r ∈ w.db.rules)
    (hdel : r.live = false) : r ∈ w'.db.rules := by
  cases h with
  | same _ he => exact he ▸ hr
  | command _ _ _ _ hfound hlive hput =>
    refine hput.of_ne hr (fun hk => ?_)
    have hone := hlive r (hfound.symm.trans (hk ▸ Table.find?_of_mem hr))
    rw [hdel] at hone
    cases hone
  | @advanced rule _ _ _ hm hlive _ hput =>
    refine hput.of_ne hr (fun hk => ?_)
    rw [Table.eq_of_key hr hm hk, hlive] at hdel
    cases hdel

theorem run_deleted_stays {w : World} (hrefs : RefsOK env w) {r : RuleRow} (hr : r ∈ w.db.rules)
    (hdel : r.live = false) (events : List Event) : r ∈ ((automation env).runFrom w events).db.rules := by
  induction events generalizing w with
  | nil => exact hr
  | cons event events ih =>
    exact ih (step_refs hrefs (step_cases hrefs.linked event))
      ((step_rule_cases hrefs event).deleted_stays hr hdel)

/-- An enabled rule is not deleted. -/
theorem run_enabled_live (events : List Event) :
    ∀ r ∈ ((automation env).run events).db.rules, r.enabled = true → r.live = true :=
  inv_always (I := fun w => ∀ r ∈ w.db.rules, r.enabled = true → r.live = true)
    (fun r hr => absurd hr (Table.not_mem_empty r))
    (fun _ hstep hi => step_each_rule (fun _ _ hwr _ => hwr.live_of_enabled) (fun _ _ hlive _ _ _ => hlive)
      hstep hi) events

/-! ## Compare-and-swap -/

/-- The rule a committed edit found, and what it left. -/
theorem committed_swap {conn : Connection} {auth : Authorized} {edit : Edit} {response : Value}
    (he : request.edit? = some edit) (hc : Commits env w conn auth request response) :
    ∃ old ∈ w.db.rules, ∃ new ∈ ((automation env).next w (.command conn auth request)).db.rules,
      old.liveAtRevision edit.organizationId edit.ruleId edit.swap.expected = true ∧
      new.ruleId = edit.ruleId ∧ new.organizationId = edit.organizationId ∧
      new.revision = edit.swap.expected + 1 ∧ new.state = edit.swap.change old.state ∧
      Answers env request new response := by
  obtain ⟨db', ⟨old, new, next, hwr, hw, ha⟩, hnext⟩ := commits_worked hc
  cases old with
  | none =>
    rw [hwr.creates.1] at he
    cases he
  | some old =>
    obtain ⟨edit', he', hlive, hid, horg, hswap⟩ := hwr.swaps
    rw [he] at he'
    cases he'
    obtain ⟨hexp, hnew⟩ := Register.swap_eq_some.1 hswap
    refine ⟨old, (Table.find?_eq_some.1 hw.found).1, new, ?_, hlive, hid, horg, ?_, ?_, ha⟩
    · rw [hnext]; exact hw.rules.mem
    · rw [hexp]; exact congrArg Register.revision hnew
    · exact congrArg Register.state hnew

/-- **No update of a rule is lost.** Its revision counts the edits committed on it, at most one for
each revision, and each made its change to exactly the state its revision had. Any other edit under
a fresh key is refused and changes nothing: with a revision conflict, or as not found, or as invalid
when the fire time it would set cannot be computed, or by the driver's panic when it cannot be bound. A
deleted rule stays as it is. -/
theorem rules_compare_and_swap (events : List Event) :
    let w := (automation env).run events
    (∀ r ∈ w.db.rules,
      r.revision = 1 + (committedEdits env r.ruleId World.init events).length ∧
      ((committedEdits env r.ruleId World.init events).map Swap.expected).Nodup ∧
      ∃ first, (Register.mk 1 first).replay (committedEdits env r.ruleId World.init events) =
        some r.register) ∧
    (∀ conn auth request edit response, request.edit? = some edit →
      Commits env w conn auth request response →
      ∃ old ∈ w.db.rules, ∃ new ∈ ((automation env).next w (.command conn auth request)).db.rules,
        old.liveAtRevision edit.organizationId edit.ruleId edit.swap.expected = true ∧
        new.ruleId = edit.ruleId ∧ new.organizationId = edit.organizationId ∧
        new.revision = edit.swap.expected + 1 ∧ new.state = edit.swap.change old.state ∧
        Answers env request new response ∧
        ∀ earlier later, events = earlier ++ later → ∀ r ∈ ((automation env).run earlier).db.rules,
          r.ruleId = edit.ruleId → r.revision = edit.swap.expected → old.state = r.state) ∧
    (∀ conn auth request edit, request.edit? = some edit → request.valid env = true →
      (∀ row ∈ w.db.commands, row.scope ≠ request.scope auth) → edit.Stale w.db →
      (w.command env conn auth request).2 = w ∧
      (conn.Serves →
        ((∀ r ∈ w.db.rules, r.liveAt edit.organizationId edit.ruleId = false) →
          (w.command env conn auth request).1 = .error (.domain .notFound)) ∧
        ∀ r ∈ w.db.rules, r.liveAt edit.organizationId edit.ruleId = true →
          ∃ e, (w.command env conn auth request).1 = .error e ∧
            StaleAnswer env ⟨w.clock, 0⟩ (edit.swap.change r.state) e)) ∧
    ∀ r ∈ w.db.rules, r.live = false → r.enabled = false ∧ r.nextFireAt = none ∧
      ∀ later, r ∈ ((automation env).runFrom w later).db.rules := by
  intro w
  have hrefs : RefsOK env w := run_refs events
  refine ⟨?_, ?_, ?_, ?_⟩
  · intro r hr
    obtain ⟨first, hreplay⟩ := (run_register events).rules r hr
    exact ⟨Register.replay_revision hreplay, Register.replay_nodup hreplay, first, hreplay⟩
  · intro conn auth request edit response he hc
    obtain ⟨old, hold, new, hnew, hlive, hid, horg, hrev, hstate, ha⟩ := committed_swap he hc
    refine ⟨old, hold, new, hnew, hlive, hid, horg, hrev, hstate, ha, ?_⟩
    rintro earlier later rfl r hr hrid hrrev
    obtain ⟨-, hoid, -, horev⟩ := liveAtRevision_iff.1 hlive
    have hold' : old ∈ ((automation env).runFrom ((automation env).run earlier) later).db.rules := by
      rw [← Transition.Machine.run_append]
      exact hold
    exact state_of_revision (run_refs earlier) hr hold' (hoid.trans hrid.symm) (horev.trans hrrev.symm)
  · intro conn auth request edit he hv hfree hstale
    exact stale_edit (run_rules events) he hv hfree hstale
  · intro r hr hdel
    refine ⟨?_, ?_, run_deleted_stays hrefs hr hdel⟩
    · refine Bool.eq_false_iff.2 (fun hen => ?_)
      rw [run_enabled_live events r hr hen] at hdel
      cases hdel
    · have hfire : r.nextFireAt.isSome = true ↔ r.scheduled := (run_ledger events).1.fireTime r hr
      cases hn : r.nextFireAt with
      | none => rfl
      | some n =>
        rw [hn] at hfire
        have hlive := (hfire.1 rfl).2.1
        rw [hdel] at hlive
        cases hlive

section Sample

open Sample

/-- An update of the schedule that names a revision it never had. -/
def misdirected : CommandRequest :=
  .update ⟨[comment (some "issue-1")], [], "2", "update-1", "Nightly", "org-1", "nightly", every 60 none⟩

/-- The schedule is written, and the clock comes to half a minute before the year 10000. -/
def untilTheEnd : List Event :=
  [atStart, .command (conn 0 0) auth (nightly 120 none), wait (253402300770 - 1893456000)]

/-- A fresh update that names another revision than the current one is answered `InvalidRequest`: the
fire time it would set lies past the last date. -/
theorem stale_update_is_invalid :
    let w := (automation Sample.env).run untilTheEnd
    (∃ r ∈ w.db.rules.rows, r.liveAt "org-1" "nightly" = true ∧ r.revision = 1) ∧
    (conn 1 0).Serves ∧ misdirected.valid Sample.env = true ∧
    (∀ row ∈ w.db.commands.rows, row.scope ≠ misdirected.scope auth) ∧
    (w.command Sample.env (conn 1 0) auth misdirected).1 = .error (.domain .invalidRequest) := by
  intro w
  have hfree : ∀ row ∈ w.db.commands.rows, row.scope ≠ misdirected.scope auth := by decide
  have hstale : ∀ r ∈ w.db.rules.rows, r.liveAt "org-1" "nightly" = true → r.revision ≠ expected "2" := by
    decide
  have hvalid : misdirected.valid Sample.env = true := by decide
  refine ⟨by decide, conn_serves 1 0, hvalid, hfree, ?_⟩
  obtain ⟨r, hr, hlive, hen⟩ :
      ∃ r ∈ w.db.rules.rows, r.liveAt "org-1" "nightly" = true ∧ r.enabled = true := by decide
  have hlate : (initialNextFire Sample.env ⟨w.clock, 0⟩ (every 60 none).toValue true).isOk = false := by decide
  obtain ⟨e, he, hanswer⟩ := ((stale_edit (run_rules untilTheEnd) (rfl : misdirected.edit? = some _) hvalid hfree
    hstale).2 (conn_serves 1 0)).2 r hr hlive
  rw [he]
  have hfails : (initialNextFire Sample.env ⟨w.clock, 0⟩ (every 60 none).toValue r.enabled).isOk = false := hen ▸ hlate
  cases hanswer with
  | uncomputable => rfl
  | conflict hn _ | unbindable hn _ =>
    have hn : initialNextFire Sample.env ⟨w.clock, 0⟩ (every 60 none).toValue r.enabled = .ok _ := hn
    rw [hn] at hfails
    cases hfails

end Sample

end ProjectAutomation

import ProjectAutomation.Proof.Answers
import ProjectAutomation.Proof.Revisions
import Mathlib.Logic.Function.Basic

/-!
# Reads see the last write

Beside the plugin stands a rule book, in which every command that commits writes the document it
answers: the rules as one sequential store would keep them.

* `bookkeeping`: the plugin and its rule book.
* `BookOK`: the live rules are those of the book, and say what it says; only the fire time and
  the time of the last change may have moved with the schedule.
* `reads_see_last_write`: so `get_rule` and `list_rules` answer from the book, in every reachable
  state.
-/

namespace ProjectAutomation

open Relational

variable {env : Env} {w w' : World} {event : Event} {s : Session} {request : CommandRequest}

/-! ## The book -/

/-- The document a command answered of its rule, and whose rule it is. -/
structure Document where
  organizationId : String
  value : Value

abbrev RuleBook := String → Option Document

/-- What a command writes when it commits. -/
def RuleBook.write (book : RuleBook) (request : CommandRequest) (response : Value) : RuleBook :=
  match request with
  | .delete r => Function.update book r.ruleId none
  | .create r => Function.update book r.ruleId (some ⟨r.organizationId, response⟩)
  | .update r => Function.update book r.ruleId (some ⟨r.organizationId, response⟩)
  | .setEnabled r => Function.update book r.ruleId (some ⟨r.organizationId, response⟩)

/-- What a command answers when it commits. -/
def World.committed (env : Env) (conn : Connection) (auth : Authorized) (request : CommandRequest) (w : World) :
    Option Value :=
  if request.valid env then
    match storeCommand (w.session env conn) auth request w.db with
    | .ok (ending, _) => ending.committed
    | .error _ => none
  else none

/-- The book after an event. -/
def World.noted (env : Env) (w : World) (event : Event) (book : RuleBook) : RuleBook :=
  match event with
  | .command conn auth request =>
    match w.committed env conn auth request with
    | some response => book.write request response
    | none => book
  | .tick _ | .receiveEvent _ _ | .receiveTimer _ _ | .pendingDispatches _ _ _ | .flush _ _ _
  | .claimExecutions _ _ _ _ _ _ | .work _ _ _ _ => book

/-- The plugin and its rule book. -/
def bookkeeping (env : Env) : Transition.Machine (World × RuleBook) Event Reply :=
  (automation env).observe id (fun _ => none) (World.noted env)

theorem committed_eq_some {conn : Connection} {auth : Authorized} {response : Value} :
    w.committed env conn auth request = some response ↔ Commits env w conn auth request response := by
  unfold World.committed Commits
  by_cases hv : request.valid env = true
  · rw [if_pos hv]
    cases hb : storeCommand (w.session env conn) auth request w.db with
    | error e => simp
    | ok r =>
      obtain ⟨ending, db'⟩ := r
      cases ending with
      | drop v => simp
      | commit v => simp [hv]
      | lost v e => simp [hv]
  · rw [if_neg hv]
    simp [hv]

/-! ## Documents -/

/-- What a document says besides its schedule. -/
def Value.unscheduled : Value → Value
  | .object fields => .object (fields.filter fun f => f.1 ≠ "next_fire_at" && f.1 ≠ "updated_at")
  | v => v

/-- The row says the same, but for the fire time and the time of the last change. -/
def RuleRow.SameDocument (r r' : RuleRow) : Prop :=
  ∃ nextFireAt updatedAt, r' = { r with nextFireAt, updatedAt }

theorem RuleRow.SameDocument.refl (r : RuleRow) : r.SameDocument r := ⟨r.nextFireAt, r.updatedAt, rfl⟩

theorem RuleRow.SameDocument.advance {r r' : RuleRow} (h : r.SameDocument r') (next now : ℤ) :
    r.SameDocument (r'.advance next now) := by
  obtain ⟨_, _, rfl⟩ := h
  exact ⟨some next, now, rfl⟩

/-- Rows that say the same are written the same. -/
theorem RuleRow.SameDocument.unscheduled {r r' : RuleRow} {v v' : Value} (h : r.SameDocument r')
    (hv : ruleJson env r = .ok v) (hv' : ruleJson env r' = .ok v') : v'.unscheduled = v.unscheduled := by
  obtain ⟨nextFireAt, updatedAt, rfl⟩ := h
  obtain ⟨_, createdAt, _, -, hcreated, -, rfl⟩ := ruleJson_ok hv
  obtain ⟨_, createdAt', _, -, hcreated', -, rfl⟩ := ruleJson_ok hv'
  have hsame : createdAt = createdAt' := by
    have hcreated' : formatTime env (decodeTimestamptz r.createdAt) = .ok createdAt' := hcreated'
    rw [hcreated] at hcreated'
    exact Except.ok.inj hcreated'
  subst hsame
  rfl

/-! ## The invariant -/

/-- The live rules are those of the book, and say what it says. -/
structure BookOK (env : Env) (w : World) (book : RuleBook) : Prop where
  written : ∀ r ∈ w.db.rules, r.live = true → ∃ v x, book r.ruleId = some ⟨r.organizationId, v⟩ ∧
    ruleJson env x = .ok v ∧ x.SameDocument r
  live : ∀ ruleId doc, book ruleId = some doc → ∃ r ∈ w.db.rules, r.ruleId = ruleId ∧ r.live = true

theorem BookOK.init : BookOK env World.init (fun _ => none) :=
  ⟨fun r hr => absurd hr (Table.not_mem_empty r), fun _ _ h => by cases h⟩

section Put

variable {book : RuleBook} {new : RuleRow}

/-- What is not of the rule that was written stays as it was. -/
theorem BookOK.of_put (hi : BookOK env w book) (hput : w.db.rules.Put new w'.db.rules) {book' : RuleBook}
    (hother : ∀ ruleId, ruleId ≠ new.ruleId → book' ruleId = book ruleId)
    (hwritten : new.live = true → ∃ v x, book' new.ruleId = some ⟨new.organizationId, v⟩ ∧
      ruleJson env x = .ok v ∧ x.SameDocument new)
    (hlive : ∀ doc, book' new.ruleId = some doc → new.live = true) : BookOK env w' book' := by
  refine ⟨fun r hr hl => ?_, fun ruleId doc hdoc => ?_⟩
  · rcases hput.cases hr with rfl | ⟨hr, hne⟩
    · exact hwritten hl
    · rw [hother r.ruleId hne]
      exact hi.written r hr hl
  · by_cases hid : ruleId = new.ruleId
    · subst hid
      exact ⟨new, hput.mem, rfl, hlive doc hdoc⟩
    · rw [hother ruleId hid] at hdoc
      obtain ⟨r, hr, rfl, hl⟩ := hi.live ruleId doc hdoc
      exact ⟨r, hput.of_ne hr hid, rfl, hl⟩

/-- A command writes its rule's document. -/
theorem BookOK.answered (hi : BookOK env w book) (hput : w.db.rules.Put new w'.db.rules) {v : Value}
    (hlive : new.live = true) (hv : ruleJson env new = .ok v) :
    BookOK env w' (Function.update book new.ruleId (some ⟨new.organizationId, v⟩)) :=
  hi.of_put hput (fun _ hne => Function.update_of_ne hne _ _)
    (fun _ => ⟨v, new, Function.update_self _ _ _, hv, .refl new⟩) (fun _ _ => hlive)

/-- A deletion strikes it out. -/
theorem BookOK.struck (hi : BookOK env w book) (hput : w.db.rules.Put new w'.db.rules)
    (hlive : new.live = false) : BookOK env w' (Function.update book new.ruleId none) := by
  refine hi.of_put hput (fun _ hne => Function.update_of_ne hne _ _) (fun h => ?_) (fun doc hdoc => ?_)
  · rw [hlive] at h
    cases h
  · rw [Function.update_self] at hdoc
    cases hdoc

/-- The schedule moves on; the book stays as it is. -/
theorem BookOK.advanced {rule : RuleRow} {next now : ℤ} (hi : BookOK env w book) (hr : rule ∈ w.db.rules)
    (hlive : rule.live = true) (hput : w.db.rules.Put (rule.advance next now) w'.db.rules) : BookOK env w' book := by
  obtain ⟨v, x, hbook, hv, hsame⟩ := hi.written rule hr hlive
  exact hi.of_put hput (fun _ _ => rfl) (fun _ => ⟨v, x, hbook, hv, hsame.advance next now⟩) (fun _ _ => hlive)

end Put

/-- A command that commits writes what the rule has become. -/
theorem BookOK.command {book : RuleBook} {old : Option RuleRow} {new : RuleRow} {next : Option OffsetDateTime}
    {response : Value} (hi : BookOK env w book) (hwr : Written s request old new next)
    (hlive : ∀ o, old = some o → o.live = true) (ha : Answers env request new response)
    (hput : w.db.rules.Put new w'.db.rules) : BookOK env w' (book.write request response) := by
  have hid := hwr.ruleId_eq
  have horg := hwr.organizationId_eq
  cases hwr with
  | create _ => exact hi.answered hput rfl ha
  | @update r o _ h _ =>
    have hdone := hi.answered hput (hlive o rfl) ha
    rw [hid, horg] at hdone
    exact hdone
  | @setEnabled r o _ h _ =>
    have hdone := hi.answered hput (hlive o rfl) ha
    rw [hid, horg] at hdone
    exact hdone
  | @delete r o h =>
    have hdone := hi.struck hput rfl
    rw [hid] at hdone
    exact hdone

/-- An event that is no command leaves the book true as it is. -/
theorem BookOK.other {book : RuleBook} (hi : BookOK env w book) (h : RuleStep env w event w')
    (hne : ∀ conn auth request, event ≠ .command conn auth request) : BookOK env w' book := by
  cases h with
  | same _ he =>
    refine ⟨fun r hr => ?_, fun ruleId doc hdoc => ?_⟩
    · rw [he] at hr
      exact hi.written r hr
    · rw [he]
      exact hi.live ruleId doc hdoc
  | command he => exact absurd he (hne _ _ _)
  | advanced _ hr hlive _ hput => exact hi.advanced hr hlive hput

/-- **Every event keeps the book true.** -/
theorem step_book {book : RuleBook} (hr : RefsOK env w) (hi : BookOK env w book) (event : Event) :
    BookOK env ((automation env).next w event) (w.noted env event book) := by
  have hstep : RuleStep env w event ((automation env).next w event) := step_rule_cases hr event
  cases event with
  | command conn auth request =>
    cases hc : w.committed env conn auth request with
    | some response =>
      have hcommits : Commits env w conn auth request response := committed_eq_some.1 hc
      obtain ⟨db', ⟨old, new, next, hwr, hw, ha⟩, hnext⟩ := commits_worked hcommits
      have hbook : w.noted env (.command conn auth request) book = book.write request response := by
        simp only [World.noted, hc]
      rw [hnext, hbook]
      exact hi.command hwr (fun o ho => (hw.live o ho).1) ha hw.rules
    | none =>
      have hnot : ∀ response, ¬ Commits env w conn auth request response := by
        intro response h
        rw [committed_eq_some.2 h] at hc
        cases hc
      have hsame : (automation env).next w (.command conn auth request) = w := next_of_not_commits hnot
      have hbook : w.noted env (.command conn auth request) book = book := by
        simp only [World.noted, hc]
      rw [hsame, hbook]
      exact hi
  | tick | receiveEvent | receiveTimer | pendingDispatches | flush | claimExecutions | work =>
    exact hi.other hstep (fun _ _ _ h => by cases h)

theorem run_book (events : List Event) :
    BookOK env ((automation env).run events) ((bookkeeping env).run events).2 := by
  have h : BookOK env ((automation env).run (events.map id)) ((bookkeeping env).run events).2 :=
    Transition.Machine.inv_observe (m := automation env) (J := RefsOK env) (I := BookOK env)
      (fun events => run_refs events) BookOK.init (fun _ event _ hj hi => step_book hj hi event) events
  rwa [List.map_id] at h

/-! ## Reads -/

theorem ofExcept_eq_error {α : Type} {x : Except StorageError α} {db : Database} {e : StorageError}
    (h : ofExcept x db = .error e) : x = .error e := by
  cases x with
  | ok a => cases h
  | error e' =>
    cases h
    rfl

theorem formatTime_error {t : OffsetDateTime} {e : StorageError} (h : formatTime env t = .error e) :
    ∃ failure, e = .runtime failure := by
  unfold formatTime at h
  split at h
  · cases h
  · cases h
    exact ⟨_, rfl⟩

/-- A row that cannot be shown has a time that cannot be written. -/
theorem ruleJson_error {r : RuleRow} {e : StorageError} (h : ruleJson env r = .error e) :
    ∃ failure, e = .runtime failure := by
  unfold ruleJson at h
  cases hn : r.nextFireAt with
  | none =>
    simp only [hn, except_bind_eq_error] at h
    rcases h with hnull | ⟨_, -, hcreated | ⟨_, -, hupdated | ⟨_, -, hpure⟩⟩⟩
    · cases hnull
    · exact formatTime_error hcreated
    · exact formatTime_error hupdated
    · cases hpure
  | some t =>
    simp only [hn, except_bind_eq_error] at h
    rcases h with hnext | ⟨_, -, hcreated | ⟨_, -, hupdated | ⟨_, -, hpure⟩⟩⟩
    · cases hf : formatTime env (decodeTimestamptz t) with
      | ok text =>
        rw [hf] at hnext
        cases hnext
      | error e' =>
        rw [hf] at hnext
        cases hnext
        exact formatTime_error hf
    · exact formatTime_error hcreated
    · exact formatTime_error hupdated
    · cases hpure

/-- A rule on a page is a live one of the organization. -/
theorem live_of_listed {db : Database} {organizationId : String} {enabled : Option Bool} {after : ℤ} {limit : ℕ}
    {r : RuleRow} (h : r ∈ listedRules db organizationId enabled after limit) : r.live = true := by
  have hm := (List.mem_insertionSort _).1 (List.mem_of_mem_take h)
  rw [List.mem_filter] at hm
  simp only [RuleRow.listed, Bool.and_eq_true, decide_eq_true_eq] at hm
  exact hm.2.1.1.2

/-- A live rule is in the book, as it is shown. -/
theorem BookOK.shown {book : RuleBook} (hi : BookOK env w book) {r : RuleRow} (hr : r ∈ w.db.rules)
    (hlive : r.live = true) {v : Value} (hv : ruleJson env r = .ok v) :
    ∃ doc, book r.ruleId = some doc ∧ doc.organizationId = r.organizationId ∧
      v.unscheduled = doc.value.unscheduled := by
  obtain ⟨v₀, x, hbook, hx, hsame⟩ := hi.written r hr hlive
  exact ⟨_, hbook, rfl, hsame.unscheduled hx hv⟩

/-- `get_rule` misses exactly the rules that are not in the book. -/
theorem BookOK.missing {book : RuleBook} (hi : BookOK env w book) (hserves : s.Serves)
    {organizationId ruleId : String} :
    getRule s organizationId ruleId w.db = .error (.domain .notFound) ↔
      ∀ doc, book ruleId = some doc → doc.organizationId ≠ organizationId := by
  unfold getRule
  rw [statement_bind_serves (hserves _), Txn.get_bind]
  cases hf : w.db.rules.rows.find? (RuleRow.liveAt organizationId ruleId) with
  | none =>
    refine iff_of_true rfl fun doc hdoc horg => ?_
    obtain ⟨r, hr, rfl, hl⟩ := hi.live ruleId doc hdoc
    obtain ⟨v, x, hbook, -, -⟩ := hi.written r hr hl
    rw [hbook] at hdoc
    cases hdoc
    exact List.find?_eq_none.1 hf r hr (liveAt_iff.2 ⟨horg, rfl, hl⟩)
  | some r =>
    have hr : r ∈ w.db.rules := List.mem_of_find?_eq_some hf
    obtain ⟨horg, hid, hl⟩ := liveAt_iff.1 (List.find?_some hf)
    obtain ⟨v, x, hbook, -, -⟩ := hi.written r hr hl
    rw [hid] at hbook
    refine iff_of_false (fun h => ?_) (fun h => h _ hbook horg)
    -- a rule that is there is shown, or its times cannot be written
    rcases Txn.bind_eq_error.1 h with herror | ⟨_, _, -, hpure⟩
    · obtain ⟨failure, hruntime⟩ := ruleJson_error (ofExcept_eq_error herror)
      cases hruntime
    · cases hpure

/-- **Reads see the last write.** After any run, `get_rule` answers the document that the last
command committed on the rule answered, but for what the schedule has moved; it misses a rule exactly
if none is in the book, for another organization too; and `list_rules` lists documents of the book. -/
theorem reads_see_last_write (events : List Event) (conn : Connection) (organizationId : String) :
    let w := (automation env).run events
    let s := w.session env conn
    let book := ((bookkeeping env).run events).2
    (∀ ruleId r, getRule s organizationId ruleId w.db = .ok r →
      ∃ doc v, book ruleId = some doc ∧ doc.organizationId = organizationId ∧ r = (.drop v, w.db) ∧
        v.unscheduled = doc.value.unscheduled) ∧
    (conn.Serves → ∀ ruleId, getRule s organizationId ruleId w.db = .error (.domain .notFound) ↔
      ∀ doc, book ruleId = some doc → doc.organizationId ≠ organizationId) ∧
    ∀ enabled limit after r, listRules s organizationId enabled limit after w.db = .ok r →
      ∃ items cursor, r = (.drop (.object [("items", .array items), ("next_cursor", cursor)]), w.db) ∧
        ∀ item ∈ items, ∃ ruleId doc, book ruleId = some doc ∧ doc.organizationId = organizationId ∧
          item.unscheduled = doc.value.unscheduled := by
  intro w s book
  have hi : BookOK env w book := run_book events
  refine ⟨fun ruleId r h => ?_, fun hserves ruleId => hi.missing hserves, fun enabled limit after r h => ?_⟩
  · obtain ⟨rule, hrule, hlive, v, hv, rfl⟩ := getRule_ok h
    obtain ⟨horg, rfl, hl⟩ := liveAt_iff.1 hlive
    obtain ⟨doc, hdoc, howner, hsame⟩ := hi.shown hrule hl hv
    exact ⟨doc, v, hdoc, howner.trans horg, rfl, hsame⟩
  · obtain ⟨n, items, -, hitems, rfl⟩ := listRules_cases h
    refine ⟨items, _, rfl, except_mapM_forall hitems fun rule hrule v hv => ?_⟩
    have hlisted := List.mem_of_mem_take hrule
    obtain ⟨hm, horg⟩ := mem_listedRules hlisted
    obtain ⟨doc, hdoc, howner, hsame⟩ := hi.shown hm (live_of_listed hlisted) hv
    exact ⟨rule.ruleId, doc, hdoc, howner.trans horg, hsame⟩

end ProjectAutomation

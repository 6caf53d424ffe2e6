import ProjectAutomation.Idempotency.Ledger
import ProjectAutomation.Proof.Structure
import ProjectAutomation.Spec.Sample

/-!
# The command ledger

`automation_commands` is an idempotency ledger (`ledger`): every step of the machine
lets it grow (`step_grows`), a command answers as its verdict says (`storeCommand_replay`,
`storeCommand_conflict`, `fresh_of_commit`), and so a scope commits at most once
(`commands_idempotent`). An error says that nothing was written, but for the one of a
commit whose answer is lost (`call_error`).
-/

namespace ProjectAutomation

open Relational Idempotency

variable {env : Env} {w w' : World} {s : Session} {scope : CommandScope} {request : CommandRequest}

/-- The calls `automation_commands` has answered. -/
def ledger (t : Table CommandRow.scope) : Ledger CommandScope (List UInt8) Value :=
  fun k => (t.find? k).bind (fun row => row.response.map (row.requestHash, ·))

theorem ledger_eq_some {t : Table CommandRow.scope} {k : CommandScope} {hash : List UInt8} {v : Value} :
    ledger t k = some (hash, v) ↔
      ∃ row ∈ t, row.scope = k ∧ row.requestHash = hash ∧ row.response = some v := by
  unfold ledger
  constructor
  · intro h
    obtain ⟨row, hf, hr⟩ := Option.bind_eq_some_iff.1 h
    obtain ⟨hm, hk⟩ := Table.find?_eq_some.1 hf
    obtain ⟨v', hv, he⟩ := Option.map_eq_some_iff.1 hr
    obtain ⟨rfl, rfl⟩ := Prod.mk.inj he
    exact ⟨row, hm, hk, rfl, hv⟩
  · rintro ⟨row, hm, rfl, rfl, hv⟩
    rw [Table.find?_of_mem hm, Option.bind_some, hv]
    rfl

/-- Every reservation that was committed has its response, and the time it was stored at. -/
def CommandsAnswered (t : Table CommandRow.scope) : Prop :=
  ∀ row ∈ t, row.response.isSome = true ∧ row.completedAt.isSome = true

theorem mem_answered {response : Value} {t t' : Table CommandRow.scope}
    (h : Answered s scope request response t t') {row : CommandRow} :
    row ∈ t' ↔ row ∈ t ∨
      row = ⟨scope, s.env.requestHash request, some response, some s.transactionTimestamp⟩ := by
  rw [← Table.mem_rows, h.rows, List.mem_append, List.mem_singleton]; rfl

/-! ## One step -/

/-- The commands table changes only when a command answers afresh. -/
theorem step_commands {e : Event} (h : Step env w e w') :
    w'.db.commands = w.db.commands ∨ ∃ conn auth request response,
      e = .command conn auth request ∧ Answered (w.session env conn) (request.scope auth) request response
        w.db.commands w'.db.commands := by
  cases h with
  | idle | tick | pendingDispatches | enqueued | lost | flushEnds | marked | noted | failed | givesUp
  | statusRead | called | recorded | closes => exact Or.inl rfl
  | command _ _ ha => exact Or.inr ⟨_, _, _, _, rfl, ha⟩
  | receiveEvent _ hin _ => exact Or.inl hin.commands
  | receiveTimer _ _ _ hin => exact Or.inl hin.commands
  | claimed _ hl => exact Or.inl hl.frame.1
  | released _ hleft => exact Or.inl hleft.commands
  | completed _ _ hleft _ _ hsettled => exact Or.inl (hsettled.frame.1.trans hleft.commands)

/-- **The ledger grows.** -/
theorem step_grows {e : Event} (h : Step env w e w') :
    (ledger w.db.commands).Grows (ledger w'.db.commands) := by
  rcases step_commands h with he | ⟨_, _, _, _, -, ha⟩
  · rw [he]; exact Ledger.Grows.refl _
  · rintro k ⟨hash, v⟩ hk
    rw [ledger_eq_some] at hk ⊢
    obtain ⟨row, hm, hrow⟩ := hk
    exact ⟨row, (mem_answered ha).2 (Or.inl hm), hrow⟩

theorem step_answered {e : Event} (h : Step env w e w') (hi : CommandsAnswered w.db.commands) :
    CommandsAnswered w'.db.commands := by
  rcases step_commands h with he | ⟨_, _, _, _, -, ha⟩
  · rw [he]; exact hi
  · intro row hrow
    rcases (mem_answered ha).1 hrow with hrow | rfl
    · exact hi row hrow
    · exact ⟨rfl, rfl⟩

/-! ## One call -/

/-- The storage call of a command endpoint. -/
def World.call (env : Env) (conn : Connection) (auth : Authorized) (request : CommandRequest) (w : World) :
    Except StorageError Value × World :=
  w.transact (storeCommand (w.session env conn) auth request)

/-- The transaction of a command commits its effects, whether or not the answer arrives. -/
def Commits (env : Env) (w : World) (conn : Connection) (auth : Authorized) (request : CommandRequest)
    (response : Value) : Prop :=
  request.valid env = true ∧ ∃ ending db', storeCommand (w.session env conn) auth request w.db =
    .ok (ending, db') ∧ ending.committed = some response

/-- It commits them, and the answer to its COMMIT is lost: the caller is told of `e`. -/
def AnswerLost (env : Env) (w : World) (conn : Connection) (auth : Authorized) (request : CommandRequest)
    (response : Value) (e : StorageError) : Prop :=
  (∃ operation source, conn.lost operation = some source ∧ e = runtime operation source) ∧
    ∃ db', storeCommand (w.session env conn) auth request w.db = .ok (.lost response e, db')

instance (env : Env) (w : World) (conn : Connection) (auth : Authorized) (request : CommandRequest) :
    Decidable (∃ response, Commits env w conn auth request response) :=
  if hv : request.valid env = true then
    match hb : storeCommand (w.session env conn) auth request w.db with
    | .ok (.commit response, db') => isTrue ⟨response, hv, _, db', hb, rfl⟩
    | .ok (.lost response _, db') => isTrue ⟨response, hv, _, db', hb, rfl⟩
    | .ok (.drop _, _) => isFalse (by
      rintro ⟨_, -, _, _, hrun, hc⟩
      rw [hb] at hrun
      cases hrun
      cases hc)
    | .error _ => isFalse (by
      rintro ⟨_, -, _, _, hrun, -⟩
      rw [hb] at hrun
      cases hrun)
  else isFalse (by rintro ⟨_, hc, -⟩; exact hv hc)

/-- What `reserve_command` makes of a stored scope. -/
theorem reserveCommand_stored {db : Database} {hash : List UInt8} {v : Value} (hserves : s.Serves)
    (hl : ledger db.commands scope = some (hash, v)) :
    reserveCommand s scope request db =
      .ok (if hash = s.env.requestHash request then .replay v else .conflict, db) := by
  obtain ⟨row, hrow, rfl, rfl, hv⟩ := ledger_eq_some.1 hl
  have hins : db.commands.insert? ⟨row.scope, s.env.requestHash request, none, none⟩ = none :=
    Table.insert?_eq_none.2 ⟨row, hrow, rfl⟩
  have hfind : db.commands.find? row.scope = some row := Table.find?_of_mem hrow
  unfold reserveCommand
  rw [statement_bind_serves (hserves _), Txn.get_bind, hins]
  simp only
  rw [statement_bind_serves (hserves _), hfind]
  simp only [ne_eq, ite_not, hv]
  split <;> rfl

/-- A command that the ledger replays answers so, -/
theorem command_replay {name : String} {work : Tx Value} {db : Database} {v : Value} (hserves : s.Serves)
    (hv : (ledger db.commands).verdict scope (s.env.requestHash request) = .replay v) :
    command s name scope request work db = .ok (.drop v, db) := by
  have hres : reserveCommand s scope request db = .ok (.replay v, db) := by
    rw [reserveCommand_stored hserves (Ledger.verdict_eq_replay.1 hv), if_pos rfl]
  unfold command
  rw [statement_bind_serves (hserves _), Txn.bind_of_ok hres]
  rfl

/-- and one that conflicts with the ledger is refused. -/
theorem command_conflict {name : String} {work : Tx Value} {db : Database} (hserves : s.Serves)
    (hv : (ledger db.commands).verdict scope (s.env.requestHash request) = .conflict) :
    command s name scope request work db = .error (.domain .idempotencyConflict) := by
  obtain ⟨hash, v, hl, hne⟩ := Ledger.verdict_eq_conflict.1 hv
  have hres : reserveCommand s scope request db = .ok (.conflict, db) := by
    rw [reserveCommand_stored hserves hl, if_neg hne]
  unfold command
  rw [statement_bind_serves (hserves _), Txn.bind_of_ok hres]
  rfl

theorem storeCommand_replay {auth : Authorized} {db : Database} {v : Value} (hserves : s.Serves)
    (hv : (ledger db.commands).verdict (request.scope auth) (s.env.requestHash request) = .replay v) :
    storeCommand s auth request db = .ok (.drop v, db) := by
  unfold storeCommand
  cases request <;> exact command_replay hserves hv

theorem storeCommand_conflict {auth : Authorized} {db : Database} (hserves : s.Serves)
    (hv : (ledger db.commands).verdict (request.scope auth) (s.env.requestHash request) = .conflict) :
    storeCommand s auth request db = .error (.domain .idempotencyConflict) := by
  unfold storeCommand
  cases request <;> exact command_conflict hserves hv

/-- Only a fresh call commits. -/
theorem fresh_of_commit {auth : Authorized} {db db' : Database} {ending : Ending Value} {response : Value}
    (h : storeCommand s auth request db = .ok (ending, db')) (hc : ending.committed = some response) :
    (ledger db.commands).verdict (request.scope auth) (s.env.requestHash request) = .fresh := by
  rw [Ledger.verdict_eq_fresh]
  rcases storeCommand_ok h with ⟨_, he, -⟩ | ⟨_, -, -, ha⟩
  · cases he
    cases hc
  · unfold ledger
    rw [Table.find?_eq_none.2 ha.free]
    rfl

/-- A call that does not commit changes nothing. -/
theorem call_unchanged {conn : Connection} {auth : Authorized}
    (h : ∀ ending response db', storeCommand (w.session env conn) auth request w.db = .ok (ending, db') →
      ending.committed ≠ some response) :
    (w.call env conn auth request).2 = w := by
  unfold World.call
  rcases w.transact_snd_cases (storeCommand (w.session env conn) auth request) with he | ⟨_, _, _, hb, hc, -⟩
  · exact he
  · exact absurd hc (h _ _ _ hb)

/-- **A call that fails changes nothing**, or it was committed and its answer is lost. -/
theorem call_error {conn : Connection} {auth : Authorized} {e : StorageError}
    (h : (w.call env conn auth request).1 = .error e) :
    (w.call env conn auth request).2 = w ∨ ∃ response, AnswerLost env w conn auth request response e := by
  unfold World.call at h ⊢
  rcases w.transact_cases (storeCommand (w.session env conn) auth request) with
    ⟨_, -, he⟩ | ⟨_, _, -, he⟩ | ⟨ending, _, db', hb, -, he⟩
  · exact Or.inl (by rw [he])
  · exact Or.inl (by rw [he])
  · rw [he] at h
    rcases storeCommand_ok hb with ⟨_, hd, -⟩ | ⟨response, hc, -⟩
    · cases hd
      cases h
    · rcases hc with rfl | ⟨operation, source, hlost, rfl⟩
      · cases h
      · cases h
        exact Or.inr ⟨response, ⟨operation, source, hlost, rfl⟩, db', hb⟩

/-- A committed command takes the machine to what its transaction wrote. -/
theorem commits_next {conn : Connection} {auth : Authorized} {response : Value}
    (h : Commits env w conn auth request response) :
    ∃ ending db', storeCommand (w.session env conn) auth request w.db = .ok (ending, db') ∧
      (w.session env conn).Committed ending response ∧
      w.call env conn auth request = (ending.answer, { w with db := db' }) ∧
      (automation env).next w (.command conn auth request) = { w with db := db' } := by
  obtain ⟨hv, ending, db', hb, hc⟩ := h
  have hcall : w.call env conn auth request = (ending.answer, { w with db := db' }) := by
    unfold World.call World.transact
    rw [transact_of_committed hb hc]
  have hcommitted : (w.session env conn).Committed ending response := by
    rcases storeCommand_ok hb with ⟨_, hd, -⟩ | ⟨_, hcommitted, -⟩
    · cases hd
      cases hc
    · cases hcommitted.value.symm.trans hc
      exact hcommitted
  refine ⟨ending, db', hb, hcommitted, hcall, ?_⟩
  show (w.command env conn auth request).2 = _
  unfold World.command
  rw [if_pos hv]
  exact congrArg Prod.snd hcall

/-- A committed command did its work. -/
theorem commits_worked {conn : Connection} {auth : Authorized} {response : Value}
    (h : Commits env w conn auth request response) :
    ∃ db', Worked (w.session env conn) request response w.db { db' with commands := w.db.commands } ∧
      (automation env).next w (.command conn auth request) = { w with db := db' } := by
  obtain ⟨ending, db', hb, hc, -, hnext⟩ := commits_next h
  rcases storeCommand_ok hb with ⟨_, he, -⟩ | ⟨_, he, hw, -⟩
  · cases he
    cases hc.value
  · cases he.value.symm.trans hc.value
    exact ⟨db', hw, hnext⟩

/-- **A committed command is replayed** from then on. -/
theorem commits_verdict {conn : Connection} {auth : Authorized} {response : Value}
    (h : Commits env w conn auth request response) :
    ((w.call env conn auth request).1 = .ok response ∨ ∃ e, (w.call env conn auth request).1 = .error e ∧
        AnswerLost env w conn auth request response e) ∧
      (ledger ((automation env).next w (.command conn auth request)).db.commands).verdict (request.scope auth)
        (env.requestHash request) = .replay response := by
  obtain ⟨ending, db', hb, hc, hcall, hnext⟩ := commits_next h
  refine ⟨?_, ?_⟩
  · rw [hcall]
    rcases hc with rfl | ⟨operation, source, hlost, rfl⟩
    · exact Or.inl rfl
    · exact Or.inr ⟨_, rfl, ⟨operation, source, hlost, rfl⟩, db', hb⟩
  · rw [hnext, Ledger.verdict_eq_replay, ledger_eq_some]
    rcases storeCommand_ok hb with ⟨_, he, -⟩ | ⟨_, he, -, ha⟩
    · cases he
      cases hc.value
    · cases he.value.symm.trans hc.value
      exact ⟨_, (mem_answered ha).2 (Or.inr rfl), rfl, rfl, rfl⟩

/-! ## Runs -/

theorem run_answered (is : List Event) : CommandsAnswered ((automation env).run is).db.commands :=
  inv_always (I := fun w => CommandsAnswered w.db.commands)
    (fun row hrow => absurd hrow (Table.not_mem_empty row)) (fun _ hstep => step_answered hstep) is

theorem run_grows {w : World} (hr : RefsOK env w) (is : List Event) :
    (ledger w.db.commands).Grows (ledger ((automation env).runFrom w is).db.commands) :=
  rel_along (I := fun _ => True) (G := fun _ _ => True)
    (R := fun w w' => (ledger w.db.commands).Grows (ledger w'.db.commands))
    (fun _ => Ledger.Grows.refl _) (fun _ _ _ h h' => h.trans h') (fun _ _ _ _ => trivial)
    (fun _ _ hstep _ => step_grows hstep) hr trivial (Transition.Machine.along_true _ _)

/-- **Commands are idempotent over every run.** Reservations and responses are committed together; a
call that fails leaves no trace, unless it is its answer that is lost; and a scope that has committed is
answered from the stored response ever after, whatever its caller was told and whatever happened in
between. -/
theorem commands_idempotent (hhash : env.HashOK) (is : List Event) :
    CommandsAnswered ((automation env).run is).db.commands ∧
    (∀ s scope request db', reserveCommand s scope request ((automation env).run is).db =
        .ok (.conflict, db') →
      ∃ row ∈ ((automation env).run is).db.commands, row.scope = scope ∧
        row.requestHash ≠ s.env.requestHash request) ∧
    (∀ conn auth request e, (((automation env).run is).call env conn auth request).1 = .error e →
      (((automation env).run is).call env conn auth request).2 = (automation env).run is ∨
        ∃ response, AnswerLost env ((automation env).run is) conn auth request response e) ∧
    ∀ conn auth request response, Commits env ((automation env).run is) conn auth request response →
      ((((automation env).run is).call env conn auth request).1 = .ok response ∨
        ∃ e, (((automation env).run is).call env conn auth request).1 = .error e ∧
          AnswerLost env ((automation env).run is) conn auth request response e) ∧
      ∀ later conn' auth' request', request'.scope auth' = request.scope auth →
        let w' := (automation env).run (is ++ .command conn auth request :: later)
        (w'.call env conn' auth' request').2 = w' ∧
        (∀ response', ¬ Commits env w' conn' auth' request' response') ∧
        (conn'.Serves → (w'.call env conn' auth' request').1 =
          if request' = request then .ok response else .error (.domain .idempotencyConflict)) := by
  refine ⟨run_answered is, ?_, fun _ _ _ _ h => call_error h, ?_⟩
  · intro s scope request db' h
    rcases reserveCommand_ok h with ⟨_, _, he⟩ | ⟨row, hm, hk, -, hrow⟩
    · cases he
    · rcases hrow with ⟨-, hne | hnone⟩ | ⟨_, he, -⟩
      · exact ⟨row, hm, hk, hne⟩
      · have := (run_answered is row hm).1
        rw [hnone] at this; cases this
      · cases he
  · intro conn auth request response hc
    obtain ⟨hreply, hreplay⟩ := commits_verdict hc
    refine ⟨hreply, ?_⟩
    intro later conn' auth' request' hscope w'
    have hrefs : RefsOK env ((automation env).next ((automation env).run is) (.command conn auth request)) :=
      step_refs (run_refs is) (step_cases (run_refs is).linked _)
    have hgrows := run_grows hrefs later
    rw [← Transition.Machine.runFrom_cons, ← Transition.Machine.run_append] at hgrows
    -- the verdict on the first request stays
    have hstored : ledger w'.db.commands (request.scope auth) = some (env.requestHash request, response) := by
      rw [← Ledger.verdict_eq_replay, ← hreplay]
      exact hgrows.verdict_eq (by rw [hreplay]; exact fun h => by cases h)
    have hcommit : ∀ ending response' db', storeCommand (w'.session env conn') auth' request' w'.db =
        .ok (ending, db') → ending.committed ≠ some response' := by
      intro ending response' db' hb hcommitted
      have hfresh := Ledger.verdict_eq_fresh.1 (fresh_of_commit hb hcommitted)
      rw [hscope, hstored] at hfresh
      cases hfresh
    refine ⟨call_unchanged hcommit,
      fun response' ⟨_, ending, db', hb, hcommitted⟩ => hcommit ending response' db' hb hcommitted, ?_⟩
    intro hserves
    have hop : request.operation = request'.operation := (congrArg CommandScope.operation hscope).symm
    unfold World.call World.transact
    by_cases heq : request' = request
    · subst heq
      have hverdict := Ledger.verdict_eq_replay.2 (hscope.symm ▸ hstored)
      rw [if_pos rfl, transact_of_drop (storeCommand_replay (s := w'.session env conn') hserves hverdict)]
    · have hne : env.requestHash request ≠ env.requestHash request' := fun h => heq (hhash _ _ hop h).symm
      have hverdict := Ledger.verdict_eq_conflict.2 ⟨_, _, hscope.symm ▸ hstored, hne⟩
      rw [if_neg heq, transact_of_error (storeCommand_conflict (s := w'.session env conn') hserves hverdict)]

section Sample

open Sample

/-- The connection closes once the COMMIT is sent. -/
def closing : Connection := { conn 0 0 with lost := fun _ => some "connection closed" }

/-- A rule is created over it, and the same request comes again. -/
theorem commands_idempotent_nightly : ∃ response,
    (∃ e, (((automation Sample.env).run [atStart]).call Sample.env closing auth (nightly 60 none)).1 = .error e) ∧
    (((automation Sample.env).run [atStart, .command closing auth (nightly 60 none)]).call Sample.env (conn 1 0)
      auth (nightly 60 none)).1 = .ok response := by
  obtain ⟨response, hc⟩ : ∃ response,
      Commits Sample.env ((automation Sample.env).run [atStart]) closing auth (nightly 60 none) response := by
    decide
  obtain ⟨hfirst, hlater⟩ := (commands_idempotent hashOK [atStart]).2.2.2 _ _ _ response hc
  refine ⟨response, ?_, (hlater [] (conn 1 0) auth (nightly 60 none) rfl).2.2 (conn_serves 1 0)⟩
  rcases hfirst with hok | ⟨e, he, -⟩
  · have hlost : (((automation Sample.env).run [atStart]).call Sample.env closing auth
        (nightly 60 none)).1.isOk = false := by decide
    rw [hok] at hlost
    cases hlost
  · exact ⟨e, he⟩

/-- The first call ends in a runtime error, and has left its reservation and the rule. -/
theorem lost_answer_leaves_rule :
    let w := (automation Sample.env).run [atStart]
    let done := w.call Sample.env closing auth (nightly 60 none)
    done.1 = .error (runtime "commit create rule" "connection closed") ∧
      w.db.commands.rows = [] ∧ w.db.rules.rows = [] ∧
      done.2.db.commands.rows.map CommandRow.scope = [(nightly 60 none).scope auth] ∧
      done.2.db.rules.rows.map RuleRow.ruleId = ["nightly"] := by
  exact ⟨rfl, by decide⟩

end Sample

end ProjectAutomation

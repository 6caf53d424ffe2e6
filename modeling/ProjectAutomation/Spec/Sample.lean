import ProjectAutomation.Spec.Assumptions
import ProjectAutomation.Spec.World
import ProjectAutomation.Text.Separator
import Mathlib.Data.Countable.Basic
import Mathlib.Logic.Encodable.Basic
import Mathlib.Logic.Equiv.List
import Mathlib.Tactic.DeriveCountable

/-!
# A sample surrounding

`Sample.env` answers as the libraries do on a few instants, names and requests, and
without collisions elsewhere, so it satisfies every assumption (`Sample.uuidOK`,
`Sample.timeOK`, `Sample.dateTimeOK`, `Sample.rfc3339OK`, `Sample.hashOK`). Two rules of one
organization, a schedule and an event rule, are there to run it on.
-/

namespace ProjectAutomation

deriving instance Countable for EventType, TriggerKind, ConditionField, ConditionOperator, ActionKind,
  Priority

instance charCountable : Countable Char := by
  have : Function.Injective Char.toNat := fun _ _ h => Char.toNat_inj.1 h
  exact this.countable

instance stringCountable : Countable String := by
  have : Function.Injective String.toList := fun _ _ h => String.toList_inj.1 h
  exact this.countable

deriving instance Countable for Trigger, Condition, Action
deriving instance Countable for CreateRuleRequest, UpdateRuleRequest, SetRuleEnabledRequest,
  DeleteRuleRequest
deriving instance Countable for CommandRequest

namespace Sample

/-! ## Instants -/

/-- 2030-01-01T00:00:00Z. -/
def start : ℤ := 1893456000 * nanosPerSecond

/-- `start` and `seconds`, as a column holds it. -/
def micros (seconds : ℤ) : ℤ := encodeTimestamptz ⟨start + seconds * nanosPerSecond, 0⟩

def instants : List (ℤ × String) :=
  [(start, "2030-01-01T00:00:00Z"), (start + 500, "2030-01-01T00:00:00.0000005Z"),
    (start + 60 * nanosPerSecond, "2030-01-01T00:01:00Z"),
    (start + 120 * nanosPerSecond, "2030-01-01T00:02:00Z"),
    (start + 180 * nanosPerSecond, "2030-01-01T00:03:00Z")]

/-- Texts that are taken and never written: a date that is in another year at UTC, a time after something else than
a `T`. -/
def taken : List (String × OffsetDateTime) :=
  [("9999-12-31T23:59:59-01:00", ⟨253402304399 * nanosPerSecond, -3600⟩),
    ("2030-01-01X00:00:00Z", ⟨start, 0⟩), ("2030-01-01\x0000:00:00Z", ⟨start, 0⟩)]

def formatRfc3339 (t : OffsetDateTime) : Option String :=
  if t.offset = 0 then (instants.find? (fun p => p.1 = t.unixNanos)).map (·.2) else none

def parseRfc3339 (text : String) : Option OffsetDateTime :=
  match instants.find? (fun p => p.2 = text) with
  | some p => some ⟨p.1, 0⟩
  | none => (taken.find? (fun p => p.1 = text)).map (·.2)

/-! ## Digests -/

/-- The UUIDv5 of a few names. -/
def digests : List ((Namespace × String) × String) :=
  [((.oid, "nightly:1893456000000000000"), "6f8212e0-35b5-525f-ab1f-4911d16de636"),
    ((.oid, "nightly:1893456000000000500"), "390812bb-1b5d-56d4-947d-ecb77301aa61"),
    ((.oid, "nightly:1893456060000000000"), "6c5d9d29-582c-5ba1-af77-866cb2aafd5a"),
    ((.oid, "nightly:1893456120000000000"), "819def76-faff-57b9-8ef3-e3aac7840cfd"),
    ((.oid, "nightly:1893456180000000000"), "e6fc3d66-22e3-5797-9686-152e1c3f0afe"),
    ((.url, "00000001-0000-4000-8000-000000000001:0"), "11b5d3ce-481b-5d29-b099-717f20d9301c")]

def tag : Namespace → String
  | .oid => "x-oid:"
  | .url => "x-url:"

/-- Another name keeps its text. -/
def newV5 (ns : Namespace) (name : String) : Uuid :=
  match digests.find? (fun p => p.1 = (ns, name)) with
  | some p => ⟨p.2⟩
  | none => ⟨tag ns ++ name⟩

/-- The bytes of a text of hexadecimal digits. -/
def bytes : List Char → List UInt8
  | high :: low :: rest => UInt8.ofNat (16 * digit high + digit low) :: bytes rest
  | _ => []
where
  digit (c : Char) : ℕ := if c.isDigit then c.toNat - '0'.toNat else c.toNat - 'a'.toNat + 10

/-! ## Rules -/

/-- `add_comment`. -/
def comment (issueId : Option String) : Action :=
  ⟨some "Please review", none, issueId, .addComment, [], none, none, none, none, false, none, none, none, none⟩

/-- `move_issue`. -/
def move : Action :=
  ⟨none, none, none, .moveIssue, [], none, none, none, none, false, none, none, none, some "done"⟩

def every (seconds : ℤ) (startAt : Option String) : Trigger := ⟨[], some seconds, .schedule, startAt⟩

/-- `create_rule` of a schedule. -/
def nightly (seconds : ℤ) (startAt : Option String) : CommandRequest :=
  .create ⟨[comment (some "issue-1")], [], true, "create-1", "Nightly", "org-1", "nightly",
    every seconds startAt⟩

/-- `update_rule` of the schedule. -/
def speedUp : CommandRequest :=
  .update ⟨[comment (some "issue-1")], [], "1", "update-1", "Nightly", "org-1", "nightly", every 60 none⟩

/-- `set_rule_enabled` of the schedule. -/
def disable : CommandRequest := .setEnabled ⟨false, "1", "disable-1", "org-1", "nightly"⟩

/-- `create_rule` of an event rule. -/
def triage (action : Action) : CommandRequest :=
  .create ⟨[action], [], true, "create-1", "Triage", "org-1", "triage", ⟨[.issueCreated], none, .event, none⟩⟩

/-- The SHA-256 of a few requests. -/
def hashes : List (CommandRequest × String) :=
  [(nightly 120 none, "58bc635a306f069d3c44c7799d00e3b22ad347c67228d0d87e0ede339d1ff1da"),
    (nightly 60 none, "38dc2c4a4a79f7f696d4398c4c88b89cbb0a9cec8e6fc4aca0ca6b35567318e5"),
    (nightly 60 (some "2030-01-01T00:00:00.0000005Z"),
      "cbf65b1760c908d350bccd0d1e1482bcb2d643761c080f0fd639c0a9337a8ce7"),
    (speedUp, "9e0dfeaef1754177349ee34e9a2166d69bc8a237dbbd9f4265b9a4dc05cc8a7a"),
    (disable, "24e558fe059370c240058b9d727823d7b51610bb392d43cc1debcd39d988e500"),
    (triage (comment none), "75fdb5db0a53fd3198986db01d0261b522c7c6225bd0a375b78d71a50f173fe2"),
    (triage move, "863199aed5166f509925cc808965ffeb885962d5809eacf604984db34a030005")]

/-- A number for every request. -/
noncomputable def number : CommandRequest → ℕ := (exists_injective_nat CommandRequest).choose

theorem number_injective : Function.Injective number := (exists_injective_nat CommandRequest).choose_spec

/-- Another request gets a longer text, of its own length. -/
noncomputable def requestHash (request : CommandRequest) : List UInt8 :=
  match hashes.find? (fun p => p.1 = request) with
  | some p => bytes p.2.toList
  | none => List.replicate (33 + number request) 0

/-! ## The surrounding -/

noncomputable def env : Env where
  formatRfc3339
  parseRfc3339
  newV5
  requestHash
  jobsQueue := "automation"
  jobMaxAttempts := 5

/-- The `n`th random id of connection `k`. -/
def uuid (k n : ℕ) : Uuid :=
  ⟨"0000000" ++ toString k ++ "-0000-4000-8000-00000000000" ++ toString n⟩

theorem uuid_inj {k k' n n' : ℕ} (h : uuid k n = uuid k' n') : k = k' ∧ n = n' := by
  have hdash : ∀ n : ℕ, '-' ∉ ("00000000000" ++ toString n).toList := by
    intro n hm
    rw [String.toList_append, List.mem_append] at hm
    exact hm.elim (by decide) (Text.not_mem_nat (by decide) n)
  have hsplit : ∀ k n : ℕ, (uuid k n).text =
      ("0000000" ++ toString k ++ "-0000-4000-8000") ++ "-" ++ ("00000000000" ++ toString n) := by
    intro k n
    simp only [uuid, String.append_assoc]
    rfl
  have ht := congrArg Uuid.text h
  rw [hsplit, hsplit] at ht
  obtain ⟨hk, hn⟩ := Text.join_inj (c := '-') (by decide) (hdash n) (hdash n') ht
  refine ⟨Text.toString_nat_inj ?_, Text.toString_nat_inj ((String.append_right_inj _).1 hn)⟩
  exact (String.append_right_inj _).1 ((String.append_left_inj _).1 hk)

/-- A connection that serves and answers everything, `seconds` after `start`. -/
def conn (k : ℕ) (seconds : ℤ) : Connection := ⟨micros seconds, uuid k, k, fun _ => none, fun _ => none⟩

theorem conn_serves (k : ℕ) (seconds : ℤ) : (conn k seconds).Serves := fun _ => rfl

theorem conn_answers (k : ℕ) (seconds : ℤ) : (conn k seconds).Answers := fun _ => rfl

/-- A connection hands out ids of its own. -/
theorem conn_freshIds {k : ℕ} {seconds : ℤ} {db : Database} (used : List (ℕ × ℕ)) (hused : ∀ p ∈ used, p.1 ≠ k)
    (ht : ∀ t ∈ db.triggers.rows, t.triggerId ∈ used.map (fun p => uuid p.1 p.2))
    (he : ∀ e ∈ db.executions.rows, e.executionId ∈ used.map (fun p => uuid p.1 p.2)) :
    (conn k seconds).FreshIds db := by
  have hnew : ∀ id ∈ used.map (fun p => uuid p.1 p.2), ∀ n, id ≠ (conn k seconds).newV4 n := by
    rintro id hid n rfl
    obtain ⟨p, hp, hk⟩ := List.mem_map.1 hid
    exact hused p hp (uuid_inj hk).1
  exact ⟨fun n m h => (uuid_inj h).2, fun n t hm => hnew _ (ht t hm) n, fun n e hm => hnew _ (he e hm) n⟩

def auth : Authorized := ⟨"host", "user-1"⟩

/-! ## Runs -/

/-- The clock comes to `start`. -/
def atStart : Event := .tick start.toNat

def wait (seconds : ℕ) : Event := .tick (seconds * 1000000000)

/-- The timer of the schedule for an instant. -/
noncomputable def timer (after : ℤ) (text : String) : ReceiveTimerRequest :=
  ⟨scheduleKey env "nightly" ⟨start + after * nanosPerSecond, 0⟩, "org-1", "nightly", text⟩

/-- The event the event rule waits for. -/
def created : ReceiveEventRequest where
  dedupeKey := "event-1"
  entityId := "issue-1"
  entityKind := .issue
  eventType := .issueCreated
  labelIds := []
  occurredAt := "2030-01-01T00:00:00Z"
  organizationId := "org-1"
  priority := none
  projectId := none
  statusId := none
  teamId := none
  workflowStateId := none

/-- One issue, at a revision, and one answer to every mutation. -/
def providers (revision : String) (answer : Except ActionFailure Value) : Providers where
  getIssue := fun _ _ => .ok ⟨none, none, "issue-1", [], none, none, .none, revision, "team-1", "Crash", "todo"⟩
  getProject := fun _ _ => .error (.domain "not_found")
  mutate := fun _ => answer

def served : Providers := providers "1" (.ok .null)

def claims (after : ℤ) : Event := .claimExecutions (conn 0 after) "org-1" "worker-1" 10 60 (fun _ => false)

/-- Steps of the worker on the execution that connection 1 opened. -/
def works (after : ℤ) (attempt : ℕ) (p : Providers) (steps : ℕ) : List Event :=
  List.replicate steps (.work (conn 0 after) (uuid 1 1) attempt p)

/-- A schedule is written, and its timer sent out. -/
def sendsOut (request : CommandRequest) (index : ℕ) (jobId : String) : List Event :=
  [.command (conn 0 0) auth request, .pendingDispatches (conn 0 0) "org-1" 10,
    .flush (conn 0 0) index (.ok jobId), .flush (conn 0 0) index .runtime]

/-- The event rule is written, its event comes, and a worker claims the execution. -/
def opening (action : Action) : List Event :=
  [atStart, .command (conn 0 0) auth (triage action), .receiveEvent (conn 1 0) created, claims 0]

/-! ## Assumptions -/

theorem timeOK : env.TimeOK := by
  intro t text h
  have hback : ∀ p ∈ instants, instants.find? (fun q => q.2 = p.2) = some p := by decide
  have h : formatRfc3339 t = some text := h
  unfold formatRfc3339 at h
  split at h
  · obtain ⟨p, hf, rfl⟩ := Option.map_eq_some_iff.1 h
    refine ⟨⟨p.1, 0⟩, ?_, by simpa using List.find?_some hf⟩
    show parseRfc3339 p.2 = _
    unfold parseRfc3339
    rw [hback p (List.mem_of_find?_eq_some hf)]
  · cases h

theorem dateTime_instants : ∀ p ∈ instants, Text.Rfc3339.dateTime p.2.toList = true := by decide

theorem dateTimeOK : env.DateTimeOK := by
  intro t text h
  have h : formatRfc3339 t = some text := h
  unfold formatRfc3339 at h
  split at h
  · obtain ⟨p, hf, rfl⟩ := Option.map_eq_some_iff.1 h
    exact dateTime_instants p (List.mem_of_find?_eq_some hf)
  · cases h

theorem rfc3339OK : env.Rfc3339OK := by
  have htaken : ∀ p ∈ taken, Text.Rfc3339.separated p.1.toList = true := by decide
  intro text h
  have h : (parseRfc3339 text).isSome = true := h
  unfold parseRfc3339 at h
  cases hf : instants.find? (fun p => p.2 = text) with
  | some p =>
    have htext : p.2 = text := by simpa using List.find?_some hf
    exact htext ▸ Text.Rfc3339.separated_of_dateTime (dateTime_instants p (List.mem_of_find?_eq_some hf))
  | none =>
    rw [hf, Option.isSome_map] at h
    obtain ⟨p, hf⟩ := Option.isSome_iff_exists.1 h
    have htext : p.1 = text := by simpa using List.find?_some hf
    exact htext ▸ htaken p (List.mem_of_find?_eq_some hf)

/-- A name outside the table gets a text that no digest and no other name has. -/
theorem uuidOK : env.UuidOK := by
  have hname : ∀ p ∈ digests, ∀ q ∈ digests, p.2 = q.2 → p.1 = q.1 := by decide
  have hdigest : ∀ p ∈ digests, p.2.toList.head? ≠ some 'x' := by decide
  have htag : ∀ ns name, (tag ns ++ name).toList.head? = some 'x' := by
    intro ns name
    cases ns <;> simp [tag]
  intro ns ns' name name' h
  have h : newV5 ns name = newV5 ns' name' := h
  unfold newV5 at h
  cases hf : digests.find? (fun p => p.1 = (ns, name)) with
  | some p =>
    have hm := List.mem_of_find?_eq_some hf
    have hp : p.1 = (ns, name) := by simpa using List.find?_some hf
    cases hf' : digests.find? (fun p => p.1 = (ns', name')) with
    | some q =>
      have hq : q.1 = (ns', name') := by simpa using List.find?_some hf'
      rw [hf, hf'] at h
      have heq := hname p hm q (List.mem_of_find?_eq_some hf') (Uuid.mk.inj h)
      exact Prod.mk.inj (hp.symm.trans (heq.trans hq))
    | none =>
      rw [hf, hf'] at h
      have hx : p.2 = tag ns' ++ name' := Uuid.mk.inj h
      exact absurd (hx ▸ htag ns' name') (hdigest p hm)
  | none =>
    cases hf' : digests.find? (fun p => p.1 = (ns', name')) with
    | some q =>
      rw [hf, hf'] at h
      have hx : tag ns ++ name = q.2 := Uuid.mk.inj h
      exact absurd (hx ▸ htag ns name) (hdigest q (List.mem_of_find?_eq_some hf'))
    | none =>
      rw [hf, hf'] at h
      have hx : tag ns ++ name = tag ns' ++ name' := Uuid.mk.inj h
      have hl := congrArg String.toList hx
      cases ns <;> cases ns' <;> simp [tag, String.toList_inj] at hl
      · exact ⟨rfl, hl⟩
      · exact ⟨rfl, hl⟩

/-- A request outside the table gets bytes that no digest and no other request has. -/
theorem hashOK : env.HashOK := by
  have hrequest : ∀ p ∈ hashes, ∀ q ∈ hashes, bytes p.2.toList = bytes q.2.toList → p.1 = q.1 := by decide
  have hlength : ∀ p ∈ hashes, (bytes p.2.toList).length = 32 := by decide
  intro r r' _ h
  have h : requestHash r = requestHash r' := h
  unfold requestHash at h
  cases hf : hashes.find? (fun p => p.1 = r) with
  | some p =>
    have hm := List.mem_of_find?_eq_some hf
    have hp : p.1 = r := by simpa using List.find?_some hf
    cases hf' : hashes.find? (fun p => p.1 = r') with
    | some q =>
      have hq : q.1 = r' := by simpa using List.find?_some hf'
      rw [hf, hf'] at h
      exact hp.symm.trans ((hrequest p hm q (List.mem_of_find?_eq_some hf') h).trans hq)
    | none =>
      rw [hf, hf'] at h
      have := congrArg List.length h
      simp only [hlength p hm, List.length_replicate] at this
      omega
  | none =>
    cases hf' : hashes.find? (fun p => p.1 = r') with
    | some q =>
      rw [hf, hf'] at h
      have := congrArg List.length h
      simp only [hlength q (List.mem_of_find?_eq_some hf'), List.length_replicate] at this
      omega
    | none =>
      rw [hf, hf'] at h
      have := congrArg List.length h
      simp only [List.length_replicate] at this
      exact number_injective (by omega)

end Sample

end ProjectAutomation
